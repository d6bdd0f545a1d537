import HostScript.Proofs.Analysis.Invariant
import HostScript.Proofs.Analysis.Passes

/-!
# Walks and their events

The analysis of a body is walked through once. Events are what is to be seen on the way: they are
listed for each part of a tree, given the state in which the part is analyzed. If every single
action keeps an invariant, leaves its mark and shows its events, then so does the analysis of a
whole body. A walk that looks for no events gives what is kept, and the marks.
-/

namespace HostScript.Analysis

/-- A condition is analyzed and checked. -/
def condition (ctx : Context) (enter : Enter) (e : Expr) : Analyze Unit := do
  checkCondition (← expr ctx enter e) e.span

/-- The events in a body that is entered. -/
abbrev Inner (ν : Type) := ShapeId → Option (List ShapeId) → State → List ν

/-- The body of a lambda is entered if the argument shapes are new. -/
def callEvents {ν : Type} (inner : Inner ν) (callee : ShapeId) (args : List ShapeId) (s : State) :
    List ν :=
  match s.arena.resolved callee with
  | .lambda l =>
    if l.paramCount ≠ args.length then []
    else
      match existingSignature? s.arena l args with
      | some _ => []
      | none => inner callee (some args) s
  | _ => []

/-- A call with events enters a body, and then uses the signature that was found. -/
theorem callShape_of_event {ν : Type} (enter : Enter) {callee : ShapeId} {args : List ShapeId}
    {inner : Inner ν} {s : State} {v : ν} (hv : v ∈ callEvents inner callee args s) (span : Span) :
    v ∈ inner callee (some args) s ∧ (∃ l, s.arena.lambda? callee = some l ∧
      l.paramCount = args.length ∧ existingSignature? s.arena l args = none) ∧
      callShape enter callee args span s =
        useSignature callee span (enter callee (some args) s).1 (enter callee (some args) s).2 := by
  rw [callEvents] at hv
  split at hv
  next l hl =>
    split at hv
    · cases hv
    next hcount =>
      split at hv
      · cases hv
      next hnew =>
        refine ⟨hv, ⟨l, lambda?_eq_some.mpr hl, not_not.mp hcount, hnew⟩, ?_⟩
        rw [callShape_of_lambda hl, callLambda, if_neg hcount, get_bind_run, hnew]
        rfl
  next => cases hv

/-- Only what is called as a value is entered. -/
def MemberCall.events {ν : Type} (inner : Inner ν) (how : MemberCall) (args : List ShapeId) (s : State) :
    List ν :=
  match how with
  | .value callee => callEvents inner callee args s
  | _ => []

/-- What is to be seen when an analysis comes to a name, a member or an element. -/
structure Lookout (ν : Type) where
  /-- A name is read. -/
  ident : Node → String → State → List ν := fun _ _ _ => []
  /-- A name is a target. -/
  named : Node → String → State → List ν := fun _ _ _ => []
  member : Node → Expr → String → ShapeId → State → List ν := fun _ _ _ _ _ => []
  index : Node → ShapeId → ShapeId → State → List ν := fun _ _ _ _ => []
  /-- The member of an object that is called. -/
  callee : Node → Expr → String → ShapeId → State → List ν := fun _ _ _ _ _ => []
  /-- A place is stepped: it is read before it is stored to. -/
  stepped : Expr → Place → State → List ν := fun _ _ _ => []
  /-- A body starts, below which so many more may be nested. -/
  starts : Nat → State → List ν := fun _ _ => []

/-- The events of an analysis, in order. -/
structure Events (ν : Type) (ctx : Context) (enter : Enter) extends Lookout ν where
  inner : Inner ν

abbrev Lookout.events {ν : Type} (L : Lookout ν) (ctx : Context) (enter : Enter) (inner : Inner ν) :
    Events ν ctx enter :=
  ⟨L, inner⟩

namespace Events

variable {ν : Type} {ctx : Context} {enter : Enter} (E : Events ν ctx enter)

mutual

def expr : Expr → State → List ν
  | .literal .., _ => []
  | .lambda .., _ => []
  | .ident n name, s => E.ident n name s
  | .binary _ _ left right, s => expr left s ++ expr right (Analysis.expr ctx enter left s).2
  | .logical _ _ left right, s => expr left s ++ expr right (condition ctx enter left s).2
  | .unary _ _ operand, s => expr operand s
  | .grouping _ value, s => expr value s
  | .member n object name _, s =>
    let o := Analysis.expr ctx enter object s
    expr object s ++ E.member n object name o.1 o.2
  | .index n object key, s =>
    let o := Analysis.expr ctx enter object s
    let k := Analysis.expr ctx enter key o.2
    expr object s ++ (expr key o.2 ++ E.index n o.1 k.1 k.2)
  | .call _ (.member c object name _) args, s =>
    let o := Analysis.expr ctx enter object s
    let how := memberCall ctx c o.1 name o.2
    let xs := Analysis.exprs ctx enter args how.2
    expr object s ++ (E.callee c object name o.1 o.2 ++
      (exprs args how.2 ++ how.1.events E.inner xs.1 xs.2))
  | .call _ f args, s =>
    let c := Analysis.expr ctx enter f s
    let xs := Analysis.exprs ctx enter args c.2
    expr f s ++ (exprs args c.2 ++ callEvents E.inner c.1 xs.1 xs.2)
  | .object n props, s => properties {} props (checkLiterals ctx .recordsDisallowed n.span s).2
  | .array n items, s =>
    elements Arena.undetermined items (checkLiterals ctx .arraysDisallowed n.span s).2
  | .interpolated _ ps, s => parts ps s

def exprs : List Expr → State → List ν
  | [], _ => []
  | e :: rest, s => expr e s ++ exprs rest (Analysis.expr ctx enter e s).2

def properties (fields : OrderedMap String ShapeId) : List Property → State → List ν
  | [], _ => []
  | .mk name span value :: rest, s =>
    let x := Analysis.expr ctx enter value s
    expr value s ++ properties (fields.insert name x.1) rest
      (if fields.contains name then (report (.type (.duplicateProperty name)) span x.2).2 else x.2)

def elements (element : ShapeId) : List Expr → State → List ν
  | [], _ => []
  | e :: rest, s =>
    let x := Analysis.expr ctx enter e s
    let derived := inArena (·.derive element x.1) x.2
    expr e s ++ elements derived.1 rest derived.2

def parts : List Part → State → List ν
  | [], _ => []
  | .text _ :: rest, s => parts rest s
  | .expr value :: rest, s => expr value s ++ parts rest (Analysis.expr ctx enter value s).2

end

def place : Expr → State → List ν
  | .ident n name, s => E.named n name s
  | .member _ object _ _, s => E.expr object s
  | .index _ object key, s => E.expr object s ++ E.expr key (Analysis.expr ctx enter object s).2
  | _, _ => []

def optionalExpr : Option Expr → State → List ν
  | none, _ => []
  | some e, s => E.expr e s

mutual

def stmt : Stmt → State → List ν
  | .block _ body, s => stmts false false body (openScope .block s).2
  | .declare _ _ _ init, s => E.optionalExpr init s
  | .branch _ c t e, s =>
    let s₁ := (condition ctx enter c s).2
    E.expr c s ++ (stmt t s₁ ++ optionalStmt e (Analysis.stmt ctx enter t s₁).2)
  | .while _ c body, s => E.expr c s ++ stmt body (condition ctx enter c s).2
  | .for _ init c update body, s =>
    let s₁ := (openScope .block s).2
    let s₂ := (Analysis.optionalStmt ctx enter init s₁).2
    let s₃ := (optionalCondition ctx enter c s₂).2
    optionalStmt init s₁ ++ (E.optionalExpr c s₂ ++ (stmt body s₃ ++
      optionalStmt update (Analysis.stmt ctx enter body s₃).2))
  | .return _ value, s => E.optionalExpr value s
  | .print n value, s =>
    E.expr value (if !ctx.options.allowPrint then (report (.type .printDisallowed) n.span s).2 else s)
  | .expr _ value, s => E.expr value s
  | .assign _ target value, s =>
    E.place target s ++ E.expr value (Analysis.place ctx enter target s).2
  | .step _ target _, s =>
    let p := Analysis.place ctx enter target s
    E.place target s ++ E.stepped target p.1 p.2

def stmts (returned warned : Bool) : List Stmt → State → List ν
  | [], _ => []
  | st :: rest, s =>
    let start := if returned && !warned then (warn .unreachable st.span s).2 else s
    stmt st start ++ stmts (returned || st.alwaysReturns) (warned || returned) rest
      (Analysis.stmt ctx enter st start).2

def optionalStmt : Option Stmt → State → List ν
  | none, _ => []
  | some st, s => stmt st s

end

def body (body : LambdaBody) (s : State) : List ν :=
  let s := { s with returns := [] :: s.returns }
  match body with
  | .expr value => E.expr value s
  | .block statements => E.stmts false false statements s

end Events

/-- The events in the body of a lambda that is entered. -/
def Lookout.entered {ν : Type} (L : Lookout ν) (ctx : Context) : Nat → Inner ν
  | 0, _, _, _ => []
  | depth + 1, method, args, s =>
    match s.arena.lambda? method with
    | none => []
    | some l =>
      match ctx.script.lambda? l.node with
      | none => []
      | some lambda =>
        if s.active.contains l.node then []
        else
          let started := (startBody method l lambda (args.getD []) s).2
          L.starts depth started ++
            (L.events ctx (enterLambda ctx depth) (L.entered ctx depth)).body lambda.body started

/-- The events of the walk of the script. -/
def Lookout.walked {ν : Type} (L : Lookout ν) (ctx : Context) (widening : Widening) : List ν :=
  (L.events ctx (enter ctx) (L.entered ctx ctx.script.lambdas.length)).stmts false false
    ctx.script.body { State.start widening with returns := [[]] }

/-- The events in the analyses of the pending lambdas for unknown arguments. -/
def Lookout.drained {ν : Type} (L : Lookout ν) (ctx : Context) : Nat → State → List ν
  | 0, _ => []
  | budget + 1, s =>
    match s.pending with
    | [] => []
    | method :: rest =>
      L.entered ctx ctx.script.lambdas.length method none (State.frozen { s with pending := rest }) ++
        L.drained ctx budget (analyzeGeneric ctx method { s with pending := rest }).2

/-- The events of a pass. -/
def Lookout.passed {ν : Type} (L : Lookout ν) (ctx : Context) (budget : Nat) (widening : Widening) :
    List ν :=
  L.walked ctx widening ++ L.drained ctx budget (.walked ctx widening)

/-- Where there are events, the body of a lambda of the script is analyzed. -/
theorem enterLambda_of_event {ν : Type} {L : Lookout ν} {ctx : Context} {depth : Nat}
    {method : ShapeId} {args : Option (List ShapeId)} {s : State} {v : ν}
    (hv : v ∈ L.entered ctx (depth + 1) method args s) :
    ∃ l lambda, s.arena.lambda? method = some l ∧ ctx.script.lambda? l.node = some lambda ∧
      ¬ s.active.contains l.node ∧
      (v ∈ L.starts depth (startBody method l lambda (args.getD []) s).2 ∨
        v ∈ (L.events ctx (enterLambda ctx depth) (L.entered ctx depth)).body lambda.body
          (startBody method l lambda (args.getD []) s).2) ∧
      (enterLambda ctx (depth + 1) method args s).2 =
        (analyzeBody ctx (enterLambda ctx depth) method l lambda (args.getD []) s).2 := by
  rw [Lookout.entered] at hv
  split at hv
  · cases hv
  next l hl =>
    split at hv
    · cases hv
    next lambda hlambda =>
      split at hv
      · cases hv
      next hactive =>
        refine ⟨l, lambda, hl, hlambda, hactive, List.mem_append.mp hv, ?_⟩
        rw [enterLambda_of_lambda depth args hl hlambda hactive]

namespace Invariant

variable {J : Invariant} {α β ν : Type} {s : State} {mark : State → Expr → ShapeId → Prop}
  {F : ν → State → Prop} {ctx : Context} {enter : Enter} {E : Events ν ctx enter} {sites : List Site}
  {pieces : List Piece}

/-- An action keeps an invariant, and `F` holds of its events at its end. -/
structure Shows (J : Invariant) (F : ν → State → Prop) (s : State) (m : Analyze α)
    (events : List ν) (Q : State → α → Prop) : Prop extends J.Runs s m Q where
  shown : ∀ v ∈ events, F v (m s).2

/-- What is known of events that are no calls once they happened. -/
structure Sees (J : Invariant) (mark : State → Expr → ShapeId → Prop) (F : ν → State → Prop)
    (ctx : Context) (L : Lookout ν) (sites : List Site) (pieces : List Piece) : Prop where
  ident : ∀ {s} n name, .name n ∈ sites → .expr (.ident n name) ∈ pieces → J.holds s →
    ∀ v ∈ L.ident n name s, F v ((do note n (← ident ctx n name)) s).2
  named : ∀ {s} n name, .name n ∈ sites → J.holds s →
    ∀ v ∈ L.named n name s, F v (namedPlace ctx n name s).2
  member : ∀ {s} n object name span o, .expr (.member n object name span) ∈ pieces → J.holds s →
    J.valid s o → mark s object o → ∀ v ∈ L.member n object name o s,
      F v ((do note n (← placeShape ctx (.member o name) n.span)) s).2
  index : ∀ {s} n object key o k, .expr (.index n object key) ∈ pieces → J.holds s →
    J.valid s o → J.valid s k → ∀ v ∈ L.index n o k s,
      F v ((do note n (← placeShape ctx (.index o k) n.span)) s).2
  callee : ∀ {s} c object name span o, .expr (.member c object name span) ∈ pieces → J.holds s →
    J.valid s o → mark s object o → ∀ v ∈ L.callee c object name o s,
      F v (memberCall ctx c o name s).2
  stepped : ∀ {s} target p, .expr target ∈ pieces → J.holds s → J.Targets mark target s p →
    ∀ v ∈ L.stepped target p s,
      F v ((do record target.id (← placeShape ctx p target.span) target.span) s).2

/-- What is known of single events once they happened, and as long as the walk goes on. -/
structure Notices (J : Invariant) (mark : State → Expr → ShapeId → Prop) (F : ν → State → Prop)
    (E : Events ν ctx enter) (sites : List Site) (pieces : List Piece) :
    Prop extends J.Walks mark ctx enter sites pieces, J.Sees mark F ctx E.toLookout sites pieces where
  lasting : ∀ {v s s'}, J.holds s → J.leads s s' → F v s → F v s'
  entered : ∀ {s} n callee args c xs, .call args.length ∈ sites → .expr (.call n callee args) ∈ pieces →
    J.holds s → J.valid s c → xs.length = args.length → (∀ x ∈ xs, J.valid s x) →
    ∀ v ∈ callEvents E.inner c xs s, F v ((do note n (← callShape enter c xs n.span)) s).2
  inScope : ∀ {s} {m : Analyze Unit} {events : State → List ν}, J.holds s →
    (∀ s, J.holds s → J.Shows F s m (events s) fun _ _ => True) →
    ∀ v ∈ events (openScope .block s).2, F v ((do openScope .block; m; closeScope) s).2

variable {m : Analyze α} {f : α → Analyze β} {Q : State → α → Prop} {R : State → β → Prop}
  {events more : List ν}

theorem Runs.shows (h : J.Runs s m Q) : J.Shows F s m [] Q :=
  ⟨h, fun _ hv => absurd hv List.not_mem_nil⟩

/-- The events come after the first action. -/
theorem Runs.before (h : J.Runs s m Q)
    (hf : J.holds (m s).2 → J.leads s (m s).2 → Q (m s).2 (m s).1 →
      J.Shows F (m s).2 (f (m s).1) more R) : J.Shows F s (m >>= f) more R :=
  have hrest := hf h.holds h.leads h.gives
  ⟨⟨hrest.holds, J.trans h.leads hrest.leads, hrest.gives⟩, hrest.shown⟩

theorem Shows.imp {Q' : State → α → Prop} (h : J.Shows F s m events Q) (hQ : ∀ s a, Q s a → Q' s a) :
    J.Shows F s m events Q' :=
  ⟨h.toRuns.imp hQ, h.shown⟩

/-- Nothing is seen. -/
theorem Sees.nothing (starts : Nat → State → List ν) : J.Sees mark F ctx { starts } sites pieces where
  ident _ _ _ _ _ _ hv := absurd hv List.not_mem_nil
  named _ _ _ _ _ hv := absurd hv List.not_mem_nil
  member _ _ _ _ _ _ _ _ _ _ hv := absurd hv List.not_mem_nil
  index _ _ _ _ _ _ _ _ _ _ hv := absurd hv List.not_mem_nil
  callee _ _ _ _ _ _ _ _ _ _ hv := absurd hv List.not_mem_nil
  stepped _ _ _ _ _ _ hv := absurd hv List.not_mem_nil

/-- A walk without events. -/
theorem Walks.notices (W : J.Walks mark ctx enter sites pieces) :
    J.Notices mark (fun (_ : Empty) _ => True) (Lookout.events {} ctx enter fun _ _ _ => []) sites
      pieces where
  toWalks := W
  lasting _ _ _ := trivial
  toSees := .nothing _
  entered _ _ _ _ _ _ _ _ _ _ _ _ _ := trivial
  inScope _ _ _ _ := trivial

namespace Notices

variable (N : J.Notices mark F E sites pieces)

include N

/-- What holds of an event lasts while the invariant does. -/
theorem bind (h : J.Shows F s m events Q)
    (hf : J.holds (m s).2 → J.leads s (m s).2 → Q (m s).2 (m s).1 →
      J.Shows F (m s).2 (f (m s).1) more R) : J.Shows F s (m >>= f) (events ++ more) R := by
  have hrest := hf h.holds h.leads h.gives
  refine ⟨⟨hrest.holds, J.trans h.leads hrest.leads, hrest.gives⟩, fun v hv => ?_⟩
  rcases List.mem_append.mp hv with hv | hv
  · exact N.lasting h.holds hrest.leads (h.shown v hv)
  · exact hrest.shown v hv

/-- Nothing happens after the first action. -/
theorem before (h : J.Shows F s m events Q)
    (hf : J.holds (m s).2 → J.leads s (m s).2 → Q (m s).2 (m s).1 → J.Runs (m s).2 (f (m s).1) R) :
    J.Shows F s (m >>= f) events R := by
  have hboth := N.bind h fun h₁ hl hq => (hf h₁ hl hq).shows
  rwa [List.append_nil] at hboth

/-! ### Calls -/

section

variable {args : List Expr} (hsite : .call args.length ∈ sites)
  (hargs : ∀ {s}, J.holds s → J.Shows F s (exprs ctx enter args) (E.exprs args s) fun s xs =>
    List.Forall₂ (mark s) args xs ∧ (∀ x ∈ xs, J.valid s x) ∧ Left mark (Expr.valuedOfAll args) s)

include hsite hargs

/-- The arguments of a call are analyzed, and then what is called. -/
theorem shows_call {n : Node} {callee : Expr} (hmem : .expr (.call n callee args) ∈ pieces)
    (hnot : ∀ m object name span, callee ≠ .member m object name span)
    (hcallee : J.Shows F s (expr ctx enter callee) (E.expr callee s) fun s x =>
      J.valid s x ∧ mark s callee x ∧ Left mark callee.valued s) :
    J.Shows F s (do
        let c ← expr ctx enter callee
        let shapes ← exprs ctx enter args
        note n (← callShape enter c shapes n.span))
      (let c := expr ctx enter callee s
        let xs := exprs ctx enter args c.2
        E.expr callee s ++ (E.exprs args c.2 ++ callEvents E.inner c.1 xs.1 xs.2))
      fun s x => J.valid s x ∧ mark s (.call n callee args) x ∧
        Left mark (callee.valued ++ Expr.valuedOfAll args ++ [.call n callee args]) s := by
  refine N.bind hcallee fun h₁ _ hc => N.bind (hargs h₁) fun h₂ hl hxs => ?_
  have hvalid := J.valid_of_leads hl hc.1
  have hparts := N.left_both hc.2.2 h₁ hl hxs.2.2
  have hcall := N.calls n callee args _ _ hsite hmem h₂ hvalid hxs.1 hxs.2.1 hnot
  exact ⟨⟨hcall.holds, hcall.leads, hcall.gives.1, hcall.gives.2,
      Walks.left_concat (N.left_later hparts h₂ hcall.leads) hcall.gives.2⟩,
    N.entered n callee args _ _ hsite hmem h₂ hvalid hxs.1.length_eq.symm hxs.2.1⟩

/-- How a member is called is decided before its arguments are analyzed. -/
theorem shows_method {n c : Node} {object : Expr} {name : String} {span : Span}
    (hmem : .expr (.call n (.member c object name span) args) ∈ pieces)
    (hmember : .expr (.member c object name span) ∈ pieces)
    (hobject : J.Shows F s (expr ctx enter object) (E.expr object s) fun s x =>
      J.valid s x ∧ mark s object x ∧ Left mark object.valued s) :
    J.Shows F s (do
        let receiver ← expr ctx enter object
        let how ← memberCall ctx c receiver name
        let shapes ← exprs ctx enter args
        note n (← memberCallShape enter how receiver shapes n.span))
      (let o := expr ctx enter object s
        let how := memberCall ctx c o.1 name o.2
        let xs := exprs ctx enter args how.2
        E.expr object s ++ (E.callee c object name o.1 o.2 ++
          (E.exprs args how.2 ++ how.1.events E.inner xs.1 xs.2)))
      fun s x => J.valid s x ∧ mark s (.call n (.member c object name span) args) x ∧
        Left mark (object.valued ++ Expr.valuedOfAll args ++
          [.call n (.member c object name span) args]) s := by
  refine N.bind hobject fun h₁ _ hr => ?_
  generalize expr ctx enter object s = o at h₁ hr ⊢
  have hnote {s : State} {x : ShapeId} (h : J.holds s) (hx : J.valid s x) : J.Finds s (note c x) :=
    (N.runs_note hmember rfl h hx (Walks.left_nil s)).imp fun _ _ hnoted => hnoted.1
  have hhow : J.Shows F o.2 (memberCall ctx c o.1 name) (E.callee c object name o.1 o.2) J.Calls :=
    ⟨N.runs_memberCall_of h₁ hnote o.1 name, N.callee c object name span o.1 hmember h₁ hr.1 hr.2.1⟩
  refine N.bind hhow fun h₂ hl₂ hcalls => N.bind (hargs h₂) fun h₃ hl₃ hxs => ?_
  have hl := J.trans hl₂ hl₃
  have hparts := N.left_both hr.2.2 h₁ hl hxs.2.2
  have hcalls := calls_of_leads hl₃ hcalls
  have hcall := N.memberCalls n c object name span args o.1 _ hsite hmem h₁ h₃ hl hr.2.1 hcalls
    hxs.1 hxs.2.1
  refine ⟨⟨hcall.holds, hcall.leads, hcall.gives.1, hcall.gives.2,
    Walks.left_concat (N.left_later hparts h₃ hcall.leads) hcall.gives.2⟩, fun v hv => ?_⟩
  -- only a value that is called as such may be a lambda
  cases how : (memberCall ctx c o.1 name o.2).1 with
  | value callee =>
    rw [how] at hv hcalls
    exact N.entered n _ args callee _ hsite hmem h₃ hcalls hxs.1.length_eq.symm hxs.2.1 v hv
  | host _ | add | dynamic =>
    rw [how] at hv
    cases hv

end

/-! ### Expressions -/

mutual

theorem shows_expr (e : Expr) (hs : e.sites ⊆ sites) (hp : e.pieces ⊆ pieces) {s : State}
    (h : J.holds s) :
    J.Shows F s (expr ctx enter e) (E.expr e s) fun s x =>
      J.valid s x ∧ mark s e x ∧ Left mark e.valued s := by
  have hmem := hp (Expr.mem_pieces e)
  match e with
  | .literal n value =>
    rw [expr, Events.expr]
    exact (N.runs_note hmem rfl h
      (N.basic h (by cases value <;> simp only [literalShape] <;> decide)) (Walks.left_nil s)).shows
  | .binary n op left right =>
    simp only [Expr.sites, Expr.pieces, List.append_subset] at hs hp
    rw [expr, Events.expr]
    refine N.bind (shows_expr left hs.1 hp.1.1 h) fun h₁ _ hl => ?_
    refine N.before (shows_expr right hs.2 hp.1.2 h₁) fun h₂ hl₂ hr => ?_
    refine (N.runs_binary h₂ op _ _ n.span).bind fun x s₃ h₃ hl₃ hx => ?_
    exact N.runs_note hmem rfl h₃ hx (N.left_later (N.left_both hl.2.2 h₁ hl₂ hr.2.2) h₂ hl₃)
  | .logical n op left right =>
    simp only [Expr.sites, Expr.pieces, List.append_subset] at hs hp
    rw [expr, Events.expr]
    refine N.bind (shows_expr left hs.1 hp.1.1 h) fun h₁ _ hl => ?_
    refine Runs.before (N.runs_checkCondition h₁ _ left.span) fun h₂ hl₂ _ => ?_
    refine N.before (shows_expr right hs.2 hp.1.2 h₂) fun h₃ hl₃ hr => ?_
    refine (N.runs_checkCondition h₃ _ right.span).bind fun _ s₄ h₄ hl₄ _ => ?_
    exact N.runs_note hmem rfl h₄ (N.basic h₄ (by decide))
      (N.left_later (N.left_both hl.2.2 h₁ (J.trans hl₂ hl₃) hr.2.2) h₃ hl₄)
  | .unary n .not operand =>
    simp only [Expr.pieces, List.append_subset] at hp
    rw [expr, Events.expr]
    refine N.before (shows_expr operand hs hp.1 h) fun h₁ _ ho => ?_
    refine (N.runs_checkCondition h₁ _ operand.span).bind fun _ s₂ h₂ hl₂ _ => ?_
    exact N.runs_note hmem rfl h₂ (N.basic h₂ (by decide)) (N.left_later ho.2.2 h₁ hl₂)
  | .unary n .neg operand =>
    simp only [Expr.pieces, List.append_subset] at hp
    rw [expr, Events.expr]
    refine N.before (shows_expr operand hs hp.1 h) fun h₁ _ ho => ?_
    refine (N.runs_numeric h₁ "-" _ n.span).bind fun x s₂ h₂ hl₂ hx => ?_
    exact N.runs_note hmem rfl h₂ hx (N.left_later ho.2.2 h₁ hl₂)
  | .grouping n inner =>
    simp only [Expr.pieces, List.append_subset] at hp
    rw [expr, Events.expr]
    exact N.before (shows_expr inner hs hp.1 h) fun h₁ _ hx => N.runs_note hmem rfl h₁ hx.1 hx.2.2
  | .ident n name =>
    have hsite := hs (List.mem_singleton_self _)
    rw [expr, Events.expr]
    refine ⟨(N.names n name hsite h).bind fun x s₁ h₁ _ hx => ?_, N.ident n name hsite hmem h⟩
    exact N.runs_note hmem rfl h₁ hx (Walks.left_nil s₁)
  | .member n object name span =>
    simp only [Expr.pieces, List.append_subset] at hp
    rw [expr, Events.expr]
    refine N.bind (shows_expr object hs hp.1 h) fun h₁ _ ho => ?_
    refine ⟨Runs.get ((N.runs_memberShape h₁ _ name _ n.span).bind fun x s₂ h₂ hl₂ hx => ?_),
      N.member n object name span _ hmem h₁ ho.1 ho.2.1⟩
    exact N.runs_note hmem rfl h₂ hx (N.left_later ho.2.2 h₁ hl₂)
  | .index n object key =>
    simp only [Expr.sites, Expr.pieces, List.append_subset] at hs hp
    rw [expr, Events.expr]
    refine N.bind (shows_expr object hs.1 hp.1.1 h) fun h₁ _ ho => ?_
    refine N.bind (shows_expr key hs.2 hp.1.2 h₁) fun h₂ hl₂ hk => ?_
    refine ⟨(N.runs_indexShape h₂ _ _ n.span).bind fun x s₃ h₃ hl₃ hx => ?_,
      N.index n object key _ _ hmem h₂ (J.valid_of_leads hl₂ ho.1) hk.1⟩
    exact N.runs_note hmem rfl h₃ hx (N.left_later (N.left_both ho.2.2 h₁ hl₂ hk.2.2) h₂ hl₃)
  | .call n callee args =>
    simp only [Expr.sites, Expr.pieces, List.append_subset, List.cons_subset] at hs hp
    have hcallee := shows_expr callee hs.1.1 hp.1.1 h
    have hargs := fun {s'} (h' : J.holds s') => shows_exprs args hs.1.2 hp.1.2 h'
    cases callee with
    | member c object name span =>
      have hmember := hp.1.1 (Expr.mem_pieces _)
      have hobject : object.pieces ⊆ pieces := by
        simp only [Expr.pieces, List.append_subset] at hp
        exact hp.1.1.1
      rw [expr, Events.expr, Expr.valued]
      exact N.shows_method hs.2.1 hargs hmem hmember (shows_expr object hs.1.1 hobject h)
    | _ =>
      rw [expr, Events.expr, Expr.valued]
      · exact N.shows_call hs.2.1 hargs hmem (fun _ _ _ _ => nofun) hcallee
      all_goals exact fun _ _ _ _ hne => nomatch hne
  | .lambda n params body =>
    rw [expr, Events.expr]
    refine Runs.shows ((N.literals n params body (hs (List.mem_singleton_self _)) hmem h).imp ?_)
    exact fun s x hx => ⟨hx.1, hx.2, Walks.left_concat (Walks.left_nil s) hx.2⟩
  | .object n props =>
    simp only [Expr.pieces, List.append_subset] at hp
    rw [expr, Events.expr]
    refine Runs.before (N.runs_checkLiterals h _ n.span) fun h₁ _ _ => ?_
    have hnone {s' : State} : ∀ x ∈ ({} : OrderedMap String ShapeId).values, J.valid s' x := by
      simp [OrderedMap.values]
    refine N.before (shows_properties props hs hp.1 hnone h₁) fun h₂ _ hfields => ?_
    have hnodup (s : State) : (properties ctx enter {} props s).1.keys.Nodup :=
      @nodup_properties ctx enter props {} List.nodup_nil s
    refine (N.newRecord n props _ hmem h₂ (hnodup _) (keys_properties ctx enter props {} _)
      hfields.1).bind fun x s₃ h₃ hl₃ hx => ?_
    exact N.runs_note hmem rfl h₃ hx (N.left_later hfields.2 h₂ hl₃)
  | .array n items =>
    simp only [Expr.pieces, List.append_subset] at hp
    rw [expr, Events.expr]
    refine Runs.before (N.runs_checkLiterals h _ n.span) fun h₁ _ _ => ?_
    refine N.before (shows_elements items hs hp.1 (N.basic h₁ (by decide)) h₁) fun h₂ _ hx => ?_
    refine (N.newArray n items _ hmem h₂ hx.1).bind fun y s₃ h₃ hl₃ hy => ?_
    exact N.runs_note hmem rfl h₃ hy (N.left_later hx.2 h₂ hl₃)
  | .interpolated n ps =>
    simp only [Expr.pieces, List.append_subset] at hp
    rw [expr, Events.expr]
    exact N.before (shows_parts ps hs hp.1 h) fun h₁ _ hps =>
      N.runs_note hmem rfl h₁ (N.basic h₁ (by decide)) hps

theorem shows_exprs : (es : List Expr) →
    Expr.sitesOfAll es ⊆ sites → Expr.piecesOfAll es ⊆ pieces → ∀ {s : State}, J.holds s →
      J.Shows F s (exprs ctx enter es) (E.exprs es s) fun s xs =>
        List.Forall₂ (mark s) es xs ∧ (∀ x ∈ xs, J.valid s x) ∧ Left mark (Expr.valuedOfAll es) s
  | [], _, _, s, h => by
    rw [exprs, Events.exprs]
    exact (Runs.pure h ⟨.nil, fun _ hx => absurd hx List.not_mem_nil, Walks.left_nil s⟩).shows
  | e :: rest, hs, hp, _, h => by
    simp only [Expr.sitesOfAll, Expr.piecesOfAll, List.append_subset] at hs hp
    rw [exprs, Events.exprs]
    refine N.bind (shows_expr e hs.1 hp.1 h) fun h₁ _ hx => ?_
    refine N.before (shows_exprs rest hs.2 hp.2 h₁) fun h₂ hl hxs => .pure h₂ ?_
    refine ⟨.cons (N.later h₁ hl hx.2.1) hxs.1, fun y hy => ?_, N.left_both hx.2.2 h₁ hl hxs.2.2⟩
    rcases List.mem_cons.mp hy with rfl | hy
    · exact J.valid_of_leads hl hx.1
    · exact hxs.2.1 y hy

theorem shows_properties : (ps : List Property) →
    Property.sitesOfAll ps ⊆ sites → Property.piecesOfAll ps ⊆ pieces →
    ∀ {fields : OrderedMap String ShapeId} {s : State}, (∀ x ∈ fields.values, J.valid s x) →
      J.holds s → J.Shows F s (properties ctx enter fields ps) (E.properties fields ps s)
        fun s fields => (∀ x ∈ fields.values, J.valid s x) ∧ Left mark (Property.valuedOfAll ps) s
  | [], _, _, _, s, hf, h => by
    rw [properties, Events.properties]
    exact (Runs.pure h ⟨hf, Walks.left_nil s⟩).shows
  | .mk name span value :: rest, hs, hp, fields, s, hf, h => by
    simp only [Property.sitesOfAll, Property.piecesOfAll, List.append_subset] at hs hp
    rw [properties, Events.properties]
    refine N.bind (shows_expr value hs.1 hp.1 h) fun h₁ hl hx => ?_
    have hrest {s₂ : State} (h₂ : J.holds s₂) (hl₂ : J.leads (expr ctx enter value s).2 s₂) :
        J.Shows F s₂ (properties ctx enter (fields.insert name (expr ctx enter value s).1) rest)
          (E.properties (fields.insert name (expr ctx enter value s).1) rest s₂) fun s fields =>
            (∀ x ∈ fields.values, J.valid s x) ∧
              Left mark (Property.valuedOfAll (.mk name span value :: rest)) s := by
      have hinsert : ∀ y ∈ (fields.insert name (expr ctx enter value s).1).values, J.valid s₂ y := by
        intro y hy
        rcases OrderedMap.mem_values_insert hy with rfl | hy
        · exact J.valid_of_leads hl₂ hx.1
        · exact J.valid_of_leads hl₂ (J.valid_of_leads hl (hf y hy))
      obtain ⟨⟨h₃, hl₃, hfields, hleft⟩, hshown⟩ := shows_properties rest hs.2 hp.2 hinsert h₂
      exact ⟨⟨h₃, hl₃, hfields, N.left_both hx.2.2 h₁ (J.trans hl₂ hl₃) hleft⟩, hshown⟩
    dsimp only
    split
    · exact Runs.before (N.reports _ span rfl h₁) fun h₂ hl₂ _ => hrest h₂ hl₂
    · exact hrest h₁ (J.refl _)

theorem shows_elements : (es : List Expr) →
    Expr.sitesOfAll es ⊆ sites → Expr.piecesOfAll es ⊆ pieces →
    ∀ {element : ShapeId} {s : State}, J.valid s element → J.holds s →
      J.Shows F s (elements ctx enter element es) (E.elements element es s) fun s x =>
        J.valid s x ∧ Left mark (Expr.valuedOfAll es) s
  | [], _, _, _, s, hx, h => by
    rw [elements, Events.elements]
    exact (Runs.pure h ⟨hx, Walks.left_nil s⟩).shows
  | e :: rest, hs, hp, element, _, hx, h => by
    simp only [Expr.sitesOfAll, Expr.piecesOfAll, List.append_subset] at hs hp
    rw [elements, Events.elements]
    refine N.bind (shows_expr e hs.1 hp.1 h) fun h₁ hl hy => ?_
    refine Runs.before (N.derives element _ h₁ (J.valid_of_leads hl hx) hy.1) fun h₂ hl₂ hz => ?_
    obtain ⟨⟨h₃, hl₃, hfound, hleft⟩, hshown⟩ := shows_elements rest hs.2 hp.2 hz h₂
    exact ⟨⟨h₃, hl₃, hfound, N.left_both hy.2.2 h₁ (J.trans hl₂ hl₃) hleft⟩, hshown⟩

theorem shows_parts : (ps : List Part) →
    Part.sitesOfAll ps ⊆ sites → Part.piecesOfAll ps ⊆ pieces → ∀ {s : State}, J.holds s →
      J.Shows F s (parts ctx enter ps) (E.parts ps s) fun s _ => Left mark (Part.valuedOfAll ps) s
  | [], _, _, s, h => by
    rw [parts, Events.parts]
    exact (Runs.pure h (Walks.left_nil s)).shows
  | .text _ :: rest, hs, hp, _, h => by
    rw [parts, Events.parts]
    exact shows_parts rest hs hp h
  | .expr value :: rest, hs, hp, _, h => by
    simp only [Part.sitesOfAll, Part.piecesOfAll, List.append_subset] at hs hp
    rw [parts, Events.parts]
    refine N.bind (shows_expr value hs.1 hp.1 h) fun h₁ _ hx => ?_
    obtain ⟨⟨h₂, hl₂, hleft⟩, hshown⟩ := shows_parts rest hs.2 hp.2 h₁
    exact ⟨⟨h₂, hl₂, N.left_both hx.2.2 h₁ hl₂ hleft⟩, hshown⟩

end

/-! ### Places -/

theorem shows_place (e : Expr) (hs : e.sites ⊆ sites) (hp : e.pieces ⊆ pieces) (h : J.holds s) :
    J.Shows F s (place ctx enter e) (E.place e s) (J.Targets mark e) := by
  have hinvalid (hplaced : e.placed = []) : J.Runs s (do
      report (.parse .invalidTarget) e.span
      return Place.invalid) (J.Targets mark e) :=
    (N.reports _ e.span rfl h).bind fun _ s' h' _ _ =>
      .pure h' ⟨trivial, hplaced ▸ Walks.left_nil s', fun hne => (nomatch hne), .inr rfl⟩
  cases e with
  | ident n name =>
    have hsite := hs (List.mem_singleton_self _)
    rw [place, Events.place]
    have hplace := N.places n name hsite h
    refine ⟨⟨hplace.holds, hplace.leads, hplace.gives, Walks.left_nil _, fun heq => ?_, .inl rfl⟩,
      N.named n name hsite h⟩
    rw [namedPlace_run] at heq
    exact absurd heq (placeOf_ne_member _ _ _)
  | member n object name span =>
    simp only [Expr.pieces, List.append_subset] at hp
    rw [place, Events.place]
    refine N.before (N.shows_expr object hs hp.1 h) fun h₁ _ ho => .pure h₁ ?_
    refine ⟨ho.1, ho.2.2, fun heq => ?_, .inl rfl⟩
    cases heq
    exact ⟨n, object, span, rfl, ho.2.1⟩
  | index n object key =>
    simp only [Expr.sites, Expr.pieces, List.append_subset] at hs hp
    rw [place, Events.place]
    refine N.bind (N.shows_expr object hs.1 hp.1.1 h) fun h₁ _ ho => ?_
    refine N.before (N.shows_expr key hs.2 hp.1.2 h₁) fun h₂ hl hk => .pure h₂ ?_
    exact ⟨⟨J.valid_of_leads hl ho.1, hk.1⟩, N.left_both ho.2.2 h₁ hl hk.2.2,
      fun heq => (nomatch heq), .inl rfl⟩
  | _ =>
    rw [place, Events.place]
    · exact (hinvalid rfl).shows
    all_goals exact fun _ _ => nofun

/-- The field that a target names is one that the statement writes. -/
theorem runs_storeTarget {st : Stmt} {target : Expr} (hst : .stmt st ∈ pieces)
    (hwrites : ∀ {n o name span}, target = .member n o name span → name ∈ st.writes) {t : State}
    {p : Place} (hplace : J.Targets mark target t p) (hl : J.leads t s) (h : J.holds s) {x : ShapeId}
    (hx : J.valid s x) (span : Span) : J.Does s (store ctx p x span) := by
  refine N.runs_store_of h (reaches_of_leads hl hplace.reaches) hx (fun object name heq record => ?_) span
  obtain ⟨n, o, sp, htarget, _⟩ := hplace.member heq
  exact N.writesField record (.stmt st) name x hst (hwrites htarget) h hx

/-- A place that is stepped is read, and what was found is recorded. -/
theorem shows_stepped {target : Expr} (hmem : .expr target ∈ pieces) {p : Place}
    (hplace : J.Targets mark target s p) (h : J.holds s) :
    J.Shows F s (do
        let x ← placeShape ctx p target.span
        record target.id x target.span
        return x)
      (E.stepped target p s) J.valid := by
  have hshape : J.Runs s (placeShape ctx p target.span) fun s x =>
      J.valid s x ∧ (target.isPlain ∨ x = Arena.unknown) := by
    have hfinds : J.Finds s (placeShape ctx p target.span) :=
      N.runs_placeShape h hplace.reaches target.span
    refine ⟨hfinds.holds, hfinds.leads, hfinds.gives, hplace.plain.imp_right fun heq => ?_⟩
    rw [heq]
    rfl
  refine ⟨hshape.bind fun x s₁ h₁ _ hx => ?_, N.stepped target p hmem h hplace⟩
  exact (N.records target x target.span hmem hx.2 h₁ hx.1).bind fun _ s₂ h₂ hl _ =>
    .pure h₂ (J.valid_of_leads hl hx.1)

theorem shows_optionalExpr {fallback : ShapeId} (hfallback : fallback ≤ Arena.string) (e : Option Expr)
    (hs : Expr.sitesOfOption e ⊆ sites) (hp : Expr.piecesOfOption e ⊆ pieces) (h : J.holds s) :
    J.Shows F s (optionalExpr ctx enter fallback e) (E.optionalExpr e s) fun s x =>
      J.valid s x ∧ Left mark (Expr.valuedOfOption e) s := by
  cases e with
  | none =>
    rw [optionalExpr, Events.optionalExpr]
    exact (Runs.pure h ⟨N.basic h hfallback, Walks.left_nil s⟩).shows
  | some e =>
    rw [optionalExpr, Events.optionalExpr]
    exact (N.shows_expr e hs hp h).imp fun _ _ hx => ⟨hx.1, hx.2.2⟩

/-- A condition that is checked. -/
theorem shows_condition (e : Expr) (hs : e.sites ⊆ sites) (hp : e.pieces ⊆ pieces) (h : J.holds s) :
    J.Shows F s (condition ctx enter e) (E.expr e s) fun s _ => Left mark e.valued s := by
  refine N.before (N.shows_expr e hs hp h) fun h₁ _ hx => ?_
  have hcheck := N.runs_checkCondition h₁ (expr ctx enter e s).1 e.span
  exact ⟨hcheck.holds, hcheck.leads, N.left_later hx.2.2 h₁ hcheck.leads⟩

theorem shows_optionalCondition (e : Option Expr) (hs : Expr.sitesOfOption e ⊆ sites)
    (hp : Expr.piecesOfOption e ⊆ pieces) (h : J.holds s) :
    J.Shows F s (optionalCondition ctx enter e) (E.optionalExpr e s) fun s _ =>
      Left mark (Expr.valuedOfOption e) s := by
  cases e with
  | none =>
    rw [optionalCondition, Events.optionalExpr]
    exact (Runs.pure h (Walks.left_nil s)).shows
  | some e =>
    rw [optionalCondition, Events.optionalExpr]
    exact N.shows_condition e hs hp h

/-! ### Statements -/

/-- What was left before the last action is left after it. -/
theorem leaving {es : List Expr} (h : J.holds s) (hes : Left mark es s) (hm : J.Runs s m Q) :
    J.Runs s m fun s _ => Left mark es s :=
  ⟨hm.holds, hm.leads, N.left_later hes h hm.leads⟩

theorem shows_assign (n : Node) (target value : Expr)
    (hs : (Stmt.assign n target value).sites ⊆ sites)
    (hp : (Stmt.assign n target value).pieces ⊆ pieces) (h : J.holds s) :
    J.Shows F s (stmt ctx enter (.assign n target value)) (E.stmt (.assign n target value) s)
      fun s _ => Left mark (target.placed ++ value.valued) s := by
  have hst := hp (Stmt.mem_pieces _)
  simp only [Stmt.sites, Stmt.pieces, List.append_subset] at hs hp
  rw [stmt, Events.stmt]
  refine N.bind (N.shows_place target hs.1 hp.1.1 h) fun h₁ _ hplace => ?_
  refine N.before (N.shows_expr value hs.2 hp.1.2 h₁) fun h₂ hl hx => ?_
  refine N.leaving h₂ (N.left_both hplace.left h₁ hl hx.2.2)
    (N.runs_storeTarget hst (fun heq => ?_) hplace hl h₂ hx.1 n.span)
  rw [heq]
  exact List.mem_singleton_self _

theorem shows_step (n : Node) (target : Expr) (op : StepOp)
    (hs : (Stmt.step n target op).sites ⊆ sites) (hp : (Stmt.step n target op).pieces ⊆ pieces)
    (h : J.holds s) :
    J.Shows F s (stmt ctx enter (.step n target op)) (E.stmt (.step n target op) s)
      fun s _ => Left mark target.placed s := by
  have hst := hp (Stmt.mem_pieces _)
  simp only [Stmt.pieces, List.append_subset] at hp
  rw [stmt, Events.stmt]
  refine N.bind (N.shows_place target hs hp.1 h) fun h₁ _ hplace => ?_
  generalize place ctx enter target s = found at h₁ hplace ⊢
  have hstep := N.before (f := fun x => do store ctx found.1 (← numeric op.symbol x n.span) n.span)
    (R := fun s _ => Left mark target.placed s)
    (N.shows_stepped (hp.1 (Expr.mem_pieces _)) hplace h₁) fun h₂ hl₂ _ => ?_
  · simpa only [bind_assoc, pure_bind] using hstep
  refine (N.runs_numeric h₂ op.symbol _ n.span).bind fun y s₃ h₃ hl₃ hy => ?_
  have hl := J.trans hl₂ hl₃
  refine N.leaving h₃ (N.left_later hplace.left h₁ hl)
    (N.runs_storeTarget hst (fun heq => ?_) hplace hl h₃ hy n.span)
  rw [heq]
  exact List.mem_singleton_self _

theorem shows_block {m : Analyze Unit} {events : State → List ν} {es : List Expr}
    (hm : ∀ s, J.holds s → J.Shows F s m (events s) fun s _ => Left mark es s) (h : J.holds s) :
    J.Shows F s (do openScope .block; m; closeScope) (events (openScope .block s).2)
      fun s _ => Left mark es s :=
  ⟨N.blocks h fun s' h' => (hm s' h').toRuns, N.inScope h fun s' h' =>
    (hm s' h').imp fun _ _ _ => trivial⟩

mutual

theorem shows_stmt : (st : Stmt) → st.sites ⊆ sites → st.pieces ⊆ pieces → ∀ {s : State}, J.holds s →
    J.Shows F s (stmt ctx enter st) (E.stmt st s) fun s _ => Left mark st.valued s
  | .block _ body, hs, hp, _, h => by
    simp only [Stmt.pieces, List.append_subset] at hp
    rw [stmt, Events.stmt]
    exact N.shows_block (fun s' h' => shows_stmts body false false hs hp.1 h') h
  | .declare n name nameSpan init, hs, hp, _, h => by
    simp only [Stmt.sites, Stmt.pieces, List.append_subset, List.cons_subset] at hs hp
    rw [stmt, Events.stmt]
    exact N.before (N.shows_optionalExpr (by decide) init hs.1 hp.1 h) fun h₁ _ hx =>
      N.leaving h₁ hx.2 (N.declares n.id name nameSpan _ hs.2.1 h₁ hx.1)
  | .branch _ c t e, hs, hp, _, h => by
    simp only [Stmt.sites, Stmt.pieces, List.append_subset] at hs hp
    rw [stmt, Events.stmt, ← bind_assoc]
    refine N.bind (N.shows_condition c hs.1.1 hp.1.1.1 h) fun h₁ _ hc => ?_
    refine N.bind (shows_stmt t hs.1.2 hp.1.1.2 h₁) fun h₂ hl₂ ht => ?_
    obtain ⟨⟨h₃, hl₃, he⟩, hshown⟩ := shows_optionalStmt e hs.2 hp.1.2 h₂
    exact ⟨⟨h₃, hl₃, N.left_both (N.left_both hc h₁ hl₂ ht) h₂ hl₃ he⟩, hshown⟩
  | .while _ c body, hs, hp, _, h => by
    simp only [Stmt.sites, Stmt.pieces, List.append_subset] at hs hp
    rw [stmt, Events.stmt, ← bind_assoc]
    refine N.bind (N.shows_condition c hs.1 hp.1.1 h) fun h₁ _ hc => ?_
    obtain ⟨⟨h₂, hl₂, hbody⟩, hshown⟩ := shows_stmt body hs.2 hp.1.2 h₁
    exact ⟨⟨h₂, hl₂, N.left_both hc h₁ hl₂ hbody⟩, hshown⟩
  | .for _ init c update body, hs, hp, _, h => by
    simp only [Stmt.sites, Stmt.pieces, List.append_subset] at hs hp
    rw [stmt, Events.stmt]
    have hinside (s : State) (h : J.holds s) : J.Shows F s (do
          optionalStmt ctx enter init
          optionalCondition ctx enter c
          stmt ctx enter body
          optionalStmt ctx enter update)
        (let s₂ := (optionalStmt ctx enter init s).2
          let s₃ := (optionalCondition ctx enter c s₂).2
          E.optionalStmt init s ++ (E.optionalExpr c s₂ ++ (E.stmt body s₃ ++
            E.optionalStmt update (stmt ctx enter body s₃).2)))
        fun s _ => Left mark (Stmt.valuedOfOption init ++ Expr.valuedOfOption c ++
          Stmt.valuedOfOption update ++ body.valued) s := by
      refine N.bind (shows_optionalStmt init hs.1.1.1 hp.1.1.1.1 h) fun h₁ _ hinit => ?_
      refine N.bind (N.shows_optionalCondition c hs.1.1.2 hp.1.1.1.2 h₁) fun h₂ hl₂ hc => ?_
      refine N.bind (shows_stmt body hs.1.2 hp.1.2 h₂) fun h₃ hl₃ hbody => ?_
      obtain ⟨⟨h₄, hl₄, hupdate⟩, hshown⟩ := shows_optionalStmt update hs.2 hp.1.1.2 h₃
      have hfirst := N.left_both hinit h₁ hl₂ hc
      exact ⟨⟨h₄, hl₄, Walks.left_append (N.left_both hfirst h₂ (J.trans hl₃ hl₄) hupdate)
        (N.left_later hbody h₃ hl₄)⟩, hshown⟩
    exact N.shows_block hinside h
  | .return _ value, hs, hp, _, h => by
    simp only [Stmt.pieces, List.append_subset] at hp
    rw [stmt, Events.stmt]
    exact N.before (N.shows_optionalExpr (by decide) value hs hp.1 h) fun h₁ _ hx =>
      N.leaving h₁ hx.2 (N.returns _ h₁ hx.1)
  | .print n value, hs, hp, _, h => by
    simp only [Stmt.pieces, List.append_subset] at hp
    have hvalue {s'} (h' : J.holds s') : J.Shows F s' (do let _ ← expr ctx enter value : Analyze Unit)
        (E.expr value s') fun s _ => Left mark value.valued s :=
      N.before (N.shows_expr value hs hp.1 h') fun h'' _ hx => .pure h'' hx.2.2
    rw [stmt, Events.stmt]
    split
    · exact Runs.before (N.reports _ n.span rfl h) fun h' _ _ => hvalue h'
    · exact hvalue h
  | .expr _ value, hs, hp, _, h => by
    simp only [Stmt.pieces, List.append_subset] at hp
    rw [stmt, Events.stmt]
    exact N.before (N.shows_expr value hs hp.1 h) fun h' _ hx => .pure h' hx.2.2
  | .assign n target value, hs, hp, _, h => N.shows_assign n target value hs hp h
  | .step n target op, hs, hp, _, h => N.shows_step n target op hs hp h

theorem shows_stmts : (body : List Stmt) → (returned warned : Bool) →
    Stmt.sitesOfAll body ⊆ sites → Stmt.piecesOfAll body ⊆ pieces → ∀ {s : State}, J.holds s →
      J.Shows F s (stmts ctx enter returned warned body) (E.stmts returned warned body s)
        fun s _ => Left mark (Stmt.valuedOfAll body) s
  | [], _, _, _, _, s, h => by
    rw [stmts, Events.stmts]
    exact (Runs.pure h (Walks.left_nil s)).shows
  | st :: rest, returned, warned, hs, hp, _, h => by
    simp only [Stmt.sitesOfAll, Stmt.piecesOfAll, List.append_subset] at hs hp
    have hrest {s'} (h' : J.holds s') : J.Shows F s' (do
          stmt ctx enter st
          stmts ctx enter (returned || st.alwaysReturns) (warned || returned) rest)
        (E.stmt st s' ++ E.stmts (returned || st.alwaysReturns) (warned || returned) rest
          (stmt ctx enter st s').2) fun s _ => Left mark (st.valued ++ Stmt.valuedOfAll rest) s := by
      refine N.bind (shows_stmt st hs.1 hp.1 h') fun h₁ _ hst => ?_
      obtain ⟨⟨h₂, hl₂, hleft⟩, hshown⟩ := shows_stmts rest _ _ hs.2 hp.2 h₁
      exact ⟨⟨h₂, hl₂, N.left_both hst h₁ hl₂ hleft⟩, hshown⟩
    rw [stmts, Events.stmts]
    dsimp only
    split
    · exact Runs.before (N.warns _ st.span h) fun h' _ _ => hrest h'
    · exact hrest h

theorem shows_optionalStmt : (st : Option Stmt) →
    Stmt.sitesOfOption st ⊆ sites → Stmt.piecesOfOption st ⊆ pieces → ∀ {s : State}, J.holds s →
      J.Shows F s (optionalStmt ctx enter st) (E.optionalStmt st s)
        fun s _ => Left mark (Stmt.valuedOfOption st) s
  | none, _, _, s, h => by
    rw [optionalStmt, Events.optionalStmt]
    exact (N.leaving (Q := fun _ _ => True) h (Walks.left_nil s) (.pure h trivial)).shows
  | some st, hs, hp, _, h => by
    rw [optionalStmt, Events.optionalStmt]
    exact shows_stmt st hs hp h

end

omit N in
theorem shows_bodyShape {body : LambdaBody} (N : J.Notices mark F E body.sites body.pieces)
    (G : J.Gathers) (h : J.holds s) :
    J.Shows F s (bodyShape ctx enter body) (E.body body s) fun s x =>
      J.valid s x ∧ Left mark body.valued s := by
  refine Runs.before (G.starts h) fun h₁ _ _ => ?_
  cases body with
  | expr value =>
    rw [Events.body]
    refine N.before (N.shows_expr value (List.Subset.refl _) (List.Subset.refl _) h₁) fun h₂ _ hx => ?_
    exact (G.ends h₂).bind fun _ s₃ h₃ hl _ =>
      .pure h₃ ⟨J.valid_of_leads hl hx.1, N.left_later hx.2.2 h₂ hl⟩
  | block body =>
    rw [Events.body]
    refine N.before (N.shows_stmts body false false (List.Subset.refl _) (List.Subset.refl _) h₁)
      fun h₂ _ hleft => ?_
    have hshape := N.runs_blockShape G h₂ body
    exact ⟨hshape.holds, hshape.leads, hshape.gives, N.left_later hleft h₂ hshape.leads⟩

end Notices

/-! ### Walks without events -/

theorem Walks.runs_stmts (W : J.Walks mark ctx enter sites pieces) (body : List Stmt)
    (returned warned : Bool) (hs : Stmt.sitesOfAll body ⊆ sites) (hp : Stmt.piecesOfAll body ⊆ pieces)
    (h : J.holds s) :
    J.Runs s (stmts ctx enter returned warned body) fun s _ => Left mark (Stmt.valuedOfAll body) s :=
  (W.notices.shows_stmts body returned warned hs hp h).toRuns

theorem Walks.runs_bodyShape {body : LambdaBody} (W : J.Walks mark ctx enter body.sites body.pieces)
    (G : J.Gathers) (h : J.holds s) :
    J.Runs s (bodyShape ctx enter body) fun s x => J.valid s x ∧ Left mark body.valued s :=
  (W.notices.shows_bodyShape G h).toRuns

end Invariant

end HostScript.Analysis
