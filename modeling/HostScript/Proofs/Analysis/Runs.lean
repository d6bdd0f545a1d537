import HostScript.Analysis

/-!
# The actions of an analysis as functions of the state
-/

namespace HostScript.Analysis

variable {ctx : Context} {s : State}

theorem bind_run {α β : Type} (m : Analyze α) (f : α → Analyze β) (s : State) :
    (m >>= f) s = f (m s).1 (m s).2 :=
  rfl

theorem get_bind_run {α : Type} (f : State → Analyze α) (s : State) : (get >>= f) s = f s s :=
  rfl

theorem record_run (node : NodeId) (x : ShapeId) (span : Span) (s : State) :
    record node x span s =
      (match s.layers.set? s.stack node x with
        | some (_, layers) => set { s with layers }
        | none => report (.compiler (.shapeAlreadySet node)) span : Analyze Unit) s :=
  rfl

theorem note_run (n : Node) (x : ShapeId) (s : State) :
    note n x s = (x, (record n.id x n.span s).2) :=
  rfl

theorem binary_run (op : BinOp) (l r : ShapeId) (span : Span) (s : State) :
    binary op l r span s =
      match binaryShape? s.arena op l r with
      | some shape => (shape, s)
      | none => (if op.isOrdering then Arena.bool else Arena.unknown,
          (report (.type (.operands op.symbol (s.arena.describe l) (s.arena.describe r)))
            span s).2) := by
  rw [binary, get_bind_run]
  cases binaryShape? s.arena op l r <;> rfl

/-! ### Names -/

/-- What a name refers to where it stands. -/
def State.meaning? (s : State) (ctx : Context) (n : Node) (name : String) : Option Resolution :=
  match s.scopes.find? name n.span.start with
  | some (symbol, _) => some (.local symbol)
  | none => (inputMember? ctx name).map .input

theorem meaning?_local {n : Node} {name : String} {symbol : Symbol}
    (h : s.meaning? ctx n name = some (.local symbol)) :
    ∃ scope, s.scopes.find? name n.span.start = some (symbol, scope) := by
  unfold State.meaning? at h
  split at h
  · next hfind =>
      cases h
      exact ⟨_, hfind⟩
  · cases hm : inputMember? ctx name <;> simp [hm] at h

theorem resolve?_run (ctx : Context) (n : Node) (name : String) (s : State) :
    resolve? ctx n name s =
      match s.meaning? ctx n name with
      | some r => (some r, (resolveNode n.id r s).2)
      | none => (none, (report (.scope (.undeclared name)) n.span s).2) := by
  rw [resolve?, get_bind_run, State.meaning?]
  cases s.scopes.find? name n.span.start with
  | none => cases inputMember? ctx name <;> rfl
  | some _ => rfl

theorem resolve?_fst (ctx : Context) (n : Node) (name : String) (s : State) :
    (resolve? ctx n name s).1 = s.meaning? ctx n name := by
  rw [resolve?_run]
  cases s.meaning? ctx n name <;> rfl

theorem ident_run (ctx : Context) (n : Node) (name : String) (s : State) :
    ident ctx n name s =
      match s.meaning? ctx n name with
      | some (.local symbol) => readSymbol symbol (resolve? ctx n name s).2
      | some (.input m) => hostMemberShape m n.span (resolve? ctx n name s).2
      | none => (Arena.unknown, (resolve? ctx n name s).2) := by
  rw [ident, bind_run, resolve?_fst]
  cases s.meaning? ctx n name with
  | none => rfl
  | some r => cases r <;> rfl

/-- The place that a name stands for. -/
def placeOf : Option Resolution → Place
  | some (.local symbol) => .local symbol
  | some (.input m) => .input m
  | none => .invalid

theorem placeOf_ne_member (r : Option Resolution) (object : ShapeId) (name : String) :
    placeOf r ≠ .member object name := by
  match r with
  | some (.local _) | some (.input _) | none => exact Place.noConfusion

/-- Note that a symbol is used, also in the lambdas that capture it. -/
def State.noteUse (s : State) (symbol : Symbol) : State :=
  if (s.owners.get? symbol).join ≠ s.enclosing.getLast? then
    { s with
      captured := addNew s.captured symbol
      captures := ((lambdasInside (s.owners.get? symbol).join s.enclosing).getD []).foldl
        (fun cs lambda => cs.insert lambda (addNew ((cs.get? lambda).getD []) symbol)) s.captures }
  else s

theorem noteUse_run (symbol : Symbol) (s : State) : noteUse symbol s = ((), s.noteUse symbol) := by
  rw [noteUse, get_bind_run, State.noteUse]
  dsimp only
  split <;> rfl

theorem State.noteUse_eq (s : State) (symbol : Symbol) :
    s.noteUse symbol = { s with
      captured := (s.noteUse symbol).captured
      captures := (s.noteUse symbol).captures } := by
  unfold State.noteUse
  split <;> rfl

theorem namedPlace_run (ctx : Context) (n : Node) (name : String) (s : State) :
    namedPlace ctx n name s =
      (placeOf (s.meaning? ctx n name),
        match s.meaning? ctx n name with
        | some (.local symbol) => (resolve? ctx n name s).2.noteUse symbol
        | _ => (resolve? ctx n name s).2) := by
  rw [namedPlace, bind_run, resolve?_fst]
  cases s.meaning? ctx n name with
  | none => rfl
  | some r => cases r with
    | «local» symbol =>
      simp only [bind_run, noteUse_run]
      rfl
    | input m => rfl

/-- Note that a variable is read, and where its shape was found. -/
def State.noteRead (s : State) (symbol : Symbol) : State :=
  { s with
    readSymbols := s.readSymbols.insert symbol
    declarationReads := match s.layers.find? s.stack symbol.node with
      | some layer => s.declarationReads.insert (layer, symbol.node)
      | none => s.declarationReads }

theorem readSymbol_run (symbol : Symbol) (s : State) :
    readSymbol symbol s = ((s.layers.shape? s.stack symbol.node).getD Arena.unknown,
      (s.noteUse symbol).noteRead symbol) := by
  have hrun : readSymbol symbol s =
      ((((noteUse symbol s).2.layers.shape? (noteUse symbol s).2.stack symbol.node).getD
        Arena.unknown), (noteUse symbol s).2.noteRead symbol) := rfl
  rw [hrun, noteUse_run, State.noteUse_eq]

/-! ### Declarations -/

/-- The shape with which a variable is declared. -/
def State.declaredShape (s : State) (id : NodeId) (x : ShapeId) : ShapeId :=
  if s.arena.isDeclarationForced id then Arena.unknown else x

/-- The names of the current scope after a declaration. A problem is reported if there is one. -/
def State.declareName (s : State) (name : String) (symbol : Symbol) (span : Span) : State :=
  match s.scopes.declare name symbol span.start with
  | .ok scopes => { s with scopes }
  | .error problem => (report (.scope problem) span s).2

theorem declare_run (name : String) (symbol : Symbol) (x : ShapeId) (span : Span) (s : State) :
    (declare name symbol x span s).2 =
      let s' := (record symbol.node (s.declaredShape symbol.node x) span s).2.declareName name symbol
        span
      { s' with
        owners := s'.owners.insert symbol s'.enclosing.getLast?
        declared := match symbol with
          | .var _ => (symbol, name, span) :: s'.declared
          | .parameter .. => s'.declared } := by
  rw [declare.eq_def, get_bind_run, bind_run, get_bind_run, State.declareName, State.declaredShape]
  generalize (record symbol.node _ span s).2 = s'
  cases symbol <;> cases s'.scopes.declare name _ span.start <;> rfl

/-! ### Stores -/

/-- The state after a variable got a wider shape. If the variable was read, the arena is
unstable. -/
def State.widen (s : State) (symbol : Symbol) (x : ShapeId) : State :=
  let replaced := s.layers.replace s.stack symbol.node x
  { s with
    layers := replaced.2
    arena := match replaced.1 with
      | some layer =>
        if s.declarationReads.contains (layer, symbol.node) then s.arena.forceDeclaration symbol.node
        else s.arena
      | none => s.arena }

theorem replaceLocal_eq (symbol : Symbol) (x : ShapeId) (s : State) :
    replaceLocal symbol x s = ((), s.widen symbol x) := by
  rw [replaceLocal, bind_run, State.widen]
  dsimp only [modifyGet, MonadStateOf.modifyGet, StateT.modifyGet, pure]
  cases (s.layers.replace s.stack symbol.node x).1 with
  | none => rfl
  | some layer =>
    dsimp only
    rw [get_bind_run]
    split <;> rfl

theorem storeLocal_eq (symbol : Symbol) (value : ShapeId) (s : State) :
    (storeLocal symbol value s).2 =
      match s.layers.shape? s.stack symbol.node with
      | none => s
      | some old =>
        let derived := s.arena.derive old value
        if derived.2.same derived.1 old then { s with arena := derived.2 }
        else ({ s with arena := derived.2 } : State).widen symbol derived.1 := by
  rw [storeLocal, get_bind_run]
  cases s.layers.shape? s.stack symbol.node with
  | none => rfl
  | some old =>
    dsimp only
    show ((if !(s.arena.derive old value).2.same (s.arena.derive old value).1 old then
      replaceLocal symbol (s.arena.derive old value).1 else return : Analyze Unit)
        { s with arena := (s.arena.derive old value).2 }).2 = _
    cases (s.arena.derive old value).2.same (s.arena.derive old value).1 old with
    | true => rfl
    | false => exact congrArg Prod.snd (replaceLocal_eq ..)

theorem addReturn_run (x : ShapeId) (s : State) :
    addReturn x s = ((), match s.returns with
      | [] => s
      | innermost :: outer => { s with returns := (innermost ++ [x]) :: outer }) :=
  rfl

/-! ### Lambdas -/

theorem lambda?_eq_some {a : Arena} {method : ShapeId} {l : LambdaShape} :
    a.lambda? method = some l ↔ a.resolved method = .lambda l := by
  rw [Arena.lambda?]
  split
  next l' h => rw [h, Option.some.injEq, Shape.lambda.injEq]
  next h => simpa using h l

theorem lambdaLiteral_run (node : Node) (params : List Param) (s : State) :
    lambdaLiteral node params s = (s.arena.shapes.size, { s with
      arena := (s.arena.push (.lambda (s.lambdaShape node params))).2
      pending := s.pending ++ [s.arena.shapes.size] }) :=
  rfl

theorem callShape_of_lambda {enter : Enter} {callee : ShapeId} {l : LambdaShape} {s : State}
    (hl : s.arena.resolved callee = .lambda l) (args : List ShapeId) (span : Span) :
    callShape enter callee args span s = callLambda enter callee l args span s := by
  rw [callShape, get_bind_run, hl]

theorem enterLambda_run (ctx : Context) (depth : Nat) (method : ShapeId)
    (args : Option (List ShapeId)) (s : State) :
    enterLambda ctx (depth + 1) method args s =
      match s.arena.lambda? method with
      | none => (none, s)
      | some l =>
        match ctx.script.lambda? l.node with
        | none => (none, s)
        | some lambda =>
          if s.active.contains l.node then (none, s)
          else
            ((some (analyzeBody ctx (enterLambda ctx depth) method l lambda (args.getD []) s).1),
              (analyzeBody ctx (enterLambda ctx depth) method l lambda (args.getD []) s).2) := by
  rw [enterLambda, get_bind_run]
  cases s.arena.lambda? method with
  | none => rfl
  | some l =>
    cases hlambda : ctx.script.lambda? l.node with
    | none => simp only [hlambda]; rfl
    | some lambda =>
      cases hactive : s.active.contains l.node <;> simp only [hlambda, hactive] <;> rfl

theorem enterLambda_of_lambda {ctx : Context} (depth : Nat) {method : ShapeId}
    (args : Option (List ShapeId)) {l : LambdaShape} {lambda : Lambda} {s : State}
    (hl : s.arena.lambda? method = some l) (hlambda : ctx.script.lambda? l.node = some lambda)
    (hactive : ¬ s.active.contains l.node) :
    enterLambda ctx (depth + 1) method args s =
      (some (analyzeBody ctx (enterLambda ctx depth) method l lambda (args.getD []) s).1,
        (analyzeBody ctx (enterLambda ctx depth) method l lambda (args.getD []) s).2) := by
  rw [enterLambda_run, hl]
  dsimp only
  rw [hlambda]
  exact if_neg hactive

end HostScript.Analysis
