import HostScript.Proofs.Analysis.Runs
import HostScript.Proofs.OrderedMap
import HostScript.Proofs.Script.Pieces

/-!
# Invariants of an analysis

An invariant holds of every state of an analysis and says how a later state compares with an earlier
one. The analysis of a body keeps an invariant if each action at a site of the body does. What an
action is given comes from the shapes and symbols that the invariant lets it use. The analysis also
leaves a mark for each expression that has a value in the body, if the actions leave such marks.
-/

namespace HostScript.Analysis

structure Invariant where
  holds : State → Prop
  /-- How a later state compares with an earlier one. -/
  leads : State → State → Prop
  /-- The shapes that may be used. -/
  valid : State → ShapeId → Prop
  /-- The symbols that may be used. -/
  known : State → Symbol → Prop
  refl : ∀ s, leads s s
  trans : ∀ {s s' s''}, leads s s' → leads s' s'' → leads s s''
  valid_of_leads : ∀ {s s' x}, leads s s' → valid s x → valid s' x
  known_of_leads : ∀ {s s' symbol}, leads s s' → known s symbol → known s' symbol

namespace Invariant

variable {J : Invariant} {α β : Type} {s s' : State}

/-! ### Actions that keep an invariant -/

/-- An action keeps the invariant, and what it gives is as `Q` says. -/
structure Runs (J : Invariant) (s : State) (m : Analyze α) (Q : State → α → Prop) : Prop where
  holds : J.holds (m s).2
  leads : J.leads s (m s).2
  gives : Q (m s).2 (m s).1

/-- An action keeps the invariant. -/
abbrev Does (J : Invariant) (s : State) (m : Analyze α) : Prop :=
  J.Runs s m fun _ _ => True

/-- An action keeps the invariant and gives a shape that may be used. -/
abbrev Finds (J : Invariant) (s : State) (m : Analyze ShapeId) : Prop :=
  J.Runs s m J.valid

variable {Q Q' : State → α → Prop} {R : State → β → Prop} {m : Analyze α} {f : α → Analyze β}

theorem Runs.pure {a : α} (h : J.holds s) (ha : Q s a) : J.Runs s (Pure.pure a) Q :=
  ⟨h, J.refl s, ha⟩

theorem Runs.bind (h : J.Runs s m Q)
    (hf : ∀ a s', J.holds s' → J.leads s s' → Q s' a → J.Runs s' (f a) R) :
    J.Runs s (m >>= f) R :=
  have hrest := hf (m s).1 (m s).2 h.holds h.leads h.gives
  ⟨hrest.holds, J.trans h.leads hrest.leads, hrest.gives⟩

theorem Runs.get {f : State → Analyze β} (h : J.Runs s (f s) R) : J.Runs s (MonadState.get >>= f) R :=
  ⟨h.holds, h.leads, h.gives⟩

theorem Runs.describe {x : ShapeId} {f : String → Analyze β} (h : J.Runs s (f (s.arena.describe x)) R) :
    J.Runs s (Analysis.describe x >>= f) R :=
  ⟨h.holds, h.leads, h.gives⟩

theorem Runs.imp (h : J.Runs s m Q) (hQ : ∀ s a, Q s a → Q' s a) : J.Runs s m Q' :=
  ⟨h.holds, h.leads, hQ _ _ h.gives⟩

theorem Runs.does (h : J.Runs s m Q) : J.Does s m :=
  h.imp fun _ _ _ => trivial

/-- A place that may be read and stored to. -/
def Reaches (J : Invariant) (s : State) : Place → Prop
  | .local symbol => J.known s symbol
  | .input _ | .invalid => True
  | .member object _ => J.valid s object
  | .index object key => J.valid s object ∧ J.valid s key

theorem reaches_of_leads (h : J.leads s s') {p : Place} (hp : J.Reaches s p) : J.Reaches s' p := by
  cases p with
  | «local» symbol => exact J.known_of_leads h hp
  | input m => trivial
  | member object name => exact J.valid_of_leads h hp
  | index object key => exact ⟨J.valid_of_leads h hp.1, J.valid_of_leads h hp.2⟩
  | invalid => trivial

/-- The problem that a name is not declared. -/
def isUndeclared : Cause → Bool
  | .scope (.undeclared _) => true
  | _ => false

/-- What the actions keep that every analysis is made of, and for which it does not matter where
they stand. -/
structure Helps (J : Invariant) : Prop where
  basic : ∀ {s x}, J.holds s → x ≤ Arena.string → J.valid s x
  reports : ∀ {s} cause span, isUndeclared cause = false → J.holds s → J.Does s (report cause span)
  warns : ∀ {s} warning span, J.holds s → J.Does s (warn warning span)
  returns : ∀ {s} x, J.holds s → J.valid s x → J.Does s (addReturn x)
  bindsMethod : ∀ {s} m, J.holds s → J.Finds s (inArena (·.push (.hostMethod m)))
  ofType : ∀ {s} ty, J.holds s → J.Finds s (inArena (·.ofType ty))
  readsField : ∀ {s} record name, J.holds s →
    J.Runs s (inArena (·.readField record name)) fun s found => ∀ x ∈ found, J.valid s x
  readsElement : ∀ {s} array, J.holds s →
    J.Runs s (inArena (·.readElement array)) fun s found => ∀ x ∈ found, J.valid s x
  writesElement : ∀ {s} array x, J.holds s → J.valid s x → J.Does s (inArena (·.writeElement array x))
  derives : ∀ {s} x y, J.holds s → J.valid s x → J.valid s y → J.Finds s (inArena (·.derive x y))
  reads : ∀ {s} symbol, J.holds s → J.known s symbol → J.Finds s (readSymbol symbol)
  stores : ∀ {s} symbol x, J.holds s → J.known s symbol → J.valid s x → J.Does s (storeLocal symbol x)

/-- What is kept of the shapes that a body returns, from its start to its end. -/
structure Gathers (J : Invariant) : Prop where
  starts : ∀ {s}, J.holds s → J.Does s (modify fun s : State => { s with returns := [] :: s.returns })
  ends : ∀ {s}, J.holds s → J.Runs s popReturns fun s shapes => ∀ x ∈ shapes, J.valid s x

/-- The callee of a member call is a shape that may be used. -/
def Calls (J : Invariant) (s : State) : MemberCall → Prop
  | .value callee => J.valid s callee
  | _ => True

theorem calls_of_leads (h : J.leads s s') {how : MemberCall} (hhow : J.Calls s how) :
    J.Calls s' how := by
  cases how with
  | value callee => exact J.valid_of_leads h hhow
  | _ => trivial

namespace Helps

variable {ctx : Context} {enter : Enter} (A : J.Helps)

include A

/-! ### Operators, conditions and checks -/

section

variable (h : J.holds s)

include h

theorem unknown : J.valid s Arena.unknown :=
  A.basic h (by decide)

theorem runs_checkCondition (x : ShapeId) (span : Span) :
    J.Does s (checkCondition x span) := by
  refine Runs.get ?_
  dsimp only
  split
  · exact .describe (A.reports _ span rfl h)
  · exact .pure h trivial

theorem valid_binaryShape? {a : Arena} {op : BinOp} {l r x : ShapeId}
    (hx : binaryShape? a op l r = some x) : J.valid s x := by
  have hle : x ≤ Arena.string := by
    cases op <;> simp only [binaryShape?] at hx <;> grind
  exact A.basic h hle

theorem runs_binary (op : BinOp) (l r : ShapeId) (span : Span) :
    J.Finds s (binary op l r span) := by
  refine Runs.get ?_
  split
  next x hx => exact .pure h (A.valid_binaryShape? h hx)
  next =>
    refine .describe (.describe ((A.reports _ span rfl h).bind fun _ s' h' _ _ => ?_))
    exact .pure h' (A.basic h' (by split <;> decide))

theorem runs_numeric (op : String) (x : ShapeId) (span : Span) :
    J.Finds s (numeric op x span) := by
  refine Runs.get ?_
  dsimp only
  split
  · exact .pure h (A.basic h (by decide))
  · split
    · exact .describe ((A.reports _ span rfl h).bind fun _ s' h' _ _ => .pure h' (A.unknown h'))
    · exact .pure h (A.unknown h)

theorem runs_checkAccepts (ty : TypeRef) (x : ShapeId) (use owner : String) (span : Span) :
    J.Does s (checkAccepts ty x use owner span) := by
  refine Runs.get ?_
  split
  · exact .describe (A.reports _ span rfl h)
  · exact .pure h trivial

theorem runs_checkArrayIndex (key : ShapeId) (span : Span) :
    J.Does s (checkArrayIndex key span) := by
  refine Runs.get ?_
  dsimp only
  split
  · exact .describe (A.reports _ span rfl h)
  · exact .pure h trivial

theorem runs_reported {cause : Cause} (hcause : isUndeclared cause = false) (span : Span) :
    J.Finds s (do report cause span; return Arena.unknown) :=
  (A.reports cause span hcause h).bind fun _ _ h' _ _ => .pure h' (A.unknown h')

/-! ### Members and elements -/

theorem runs_hostMemberShape (m : Member) (span : Span) :
    J.Finds s (hostMemberShape m span) := by
  rw [hostMemberShape]
  split
  · exact A.bindsMethod m h
  · split
    · exact A.runs_reported h rfl span
    · split
      next ty _ => exact A.ofType ty h
      next => exact .pure h (A.unknown h)

theorem valid_getD {found : Option ShapeId} (hfound : ∀ x ∈ found, J.valid s x) :
    J.valid s (found.getD Arena.unknown) := by
  cases found with
  | none => exact A.unknown h
  | some x => exact hfound x rfl

theorem runs_memberShape (object : ShapeId) (name : String) (target : MemberTarget) (span : Span) :
    J.Finds s (memberShape object name target span) := by
  rw [memberShape.eq_def]
  split
  next record => exact (A.readsField record name h).bind fun _ _ h' _ hx => .pure h' (A.valid_getD h' hx)
  next record =>
    refine Runs.get ?_
    split
    · exact A.runs_reported h rfl span
    · exact .pure h (A.unknown h)
  next => exact .pure h (A.basic h (by decide))
  next => exact .pure h (A.basic h (by decide))
  next => exact .pure h (A.unknown h)
  next => exact .pure h (A.unknown h)
  next m => exact A.runs_hostMemberShape h m span
  next m => exact A.runs_hostMemberShape h m span
  next => exact .describe (A.runs_reported h rfl span)

theorem runs_notIndexable (object : ShapeId) (span : Span) :
    J.Does s (notIndexable object span) :=
  .describe (A.reports _ span rfl h)

theorem runs_indexShape (object key : ShapeId) (span : Span) :
    J.Finds s (indexShape ctx object key span) := by
  have hnot : J.Finds s (do notIndexable object span; return Arena.unknown) :=
    (A.runs_notIndexable h object span).bind fun _ _ h' _ _ => .pure h' (A.unknown h')
  refine Runs.get ?_
  split
  next =>
    refine (A.runs_checkArrayIndex h key span).bind fun _ s' h' _ _ => ?_
    exact (A.readsElement object h').bind fun _ _ h'' _ hx => .pure h'' (A.valid_getD h'' hx)
  next id _ =>
    split
    next m keyType ty _ =>
      exact (A.runs_checkAccepts h keyType key _ _ span).bind fun _ _ h' _ _ => A.ofType ty h'
    next => exact hnot
  next =>
    exact (A.runs_checkArrayIndex h key span).bind fun _ _ h' _ _ =>
      .pure h' (A.basic h' (by decide))
  next => exact .pure h (A.unknown h)
  next => exact .pure h (A.unknown h)
  next => exact .pure h (A.unknown h)
  next => exact hnot

/-! ### Stores -/

theorem runs_checkHostStore (m : Member) (value : ShapeId) (span : Span) :
    J.Does s (checkHostStore m value span) := by
  rw [checkHostStore]
  split
  · exact A.reports _ span rfl h
  · split
    next ty _ => exact A.runs_checkAccepts h ty value _ _ span
    next => exact .pure h trivial

theorem runs_storeMember_of (object : ShapeId) (name : String) (value : ShapeId)
    (hfield : ∀ record, J.Does s (inArena (·.writeField record name value))) (span : Span) :
    J.Does s (storeMember ctx object name value span) := by
  have hwrite (record : ShapeId) :
      J.Does s (do let _ ← inArena (·.writeField record name value) : Analyze Unit) :=
    (hfield record).bind fun _ _ h' _ _ => .pure h' trivial
  refine Runs.get ?_
  split
  next record _ => exact hwrite record
  next record _ => exact hwrite record
  next m _ => exact A.runs_checkHostStore h m value span
  next => exact .pure h trivial
  next => exact A.reports _ span rfl h
  next => exact A.reports _ span rfl h
  next => exact A.reports _ span rfl h
  next => exact A.reports _ span rfl h
  next => exact .describe (A.reports _ span rfl h)

theorem runs_storeIndex (object key : ShapeId) {value : ShapeId} (hvalue : J.valid s value)
    (span : Span) : J.Does s (storeIndex ctx object key value span) := by
  refine Runs.get ?_
  split
  next =>
    refine (A.runs_checkArrayIndex h key span).bind fun _ s' h' hl _ => ?_
    exact (A.writesElement object value h' (J.valid_of_leads hl hvalue)).bind fun _ _ h'' _ _ =>
      .pure h'' trivial
  next id _ =>
    split
    next m keyType ty _ =>
      have hrest {s' : State} (h' : J.holds s') : J.Does s' (do
          checkAccepts keyType key "index" m.owner span
          checkAccepts ty value "value" m.owner span) :=
        (A.runs_checkAccepts h' keyType key _ _ span).bind fun _ _ h'' _ _ =>
          A.runs_checkAccepts h'' ty value _ _ span
      dsimp only
      split
      · exact (A.reports _ span rfl h).bind fun _ _ h' _ _ => hrest h'
      · exact hrest h
    next => exact A.runs_notIndexable h object span
  next => exact .pure h trivial
  next => exact .pure h trivial
  next => exact .pure h trivial
  next => exact A.runs_notIndexable h object span

/-- A store keeps the invariant if the write of a field does. -/
theorem runs_store_of {p : Place} (hp : J.Reaches s p) {value : ShapeId} (hvalue : J.valid s value)
    (hfield : ∀ object name, p = .member object name →
      ∀ record, J.Does s (inArena (·.writeField record name value))) (span : Span) :
    J.Does s (store ctx p value span) := by
  cases p with
  | «local» symbol => exact A.stores symbol value h hp hvalue
  | input m => exact A.runs_checkHostStore h m value span
  | member object name => exact A.runs_storeMember_of h object name value (hfield object name rfl) span
  | index object key => exact A.runs_storeIndex h object key hvalue span
  | invalid => exact .pure h trivial

theorem runs_placeShape {p : Place} (hp : J.Reaches s p) (span : Span) :
    J.Finds s (placeShape ctx p span) := by
  cases p with
  | «local» symbol => exact A.reads symbol h hp
  | input m => exact A.runs_hostMemberShape h m span
  | member object name => exact Runs.get (A.runs_memberShape h object name _ span)
  | index object key => exact A.runs_indexShape h object key span
  | invalid => exact .pure h (A.unknown h)

/-! ### Calls -/

omit h in
theorem runs_checkArgs (owner : String) (span : Span) :
    ∀ (i : Nat) (types : List TypeRef) (values : List ShapeId) {s : State}, J.holds s →
      J.Does s (checkArgs owner span i types values)
  | i, ty :: types, value :: values, _, h =>
    (A.runs_checkAccepts h ty value _ owner span).bind fun _ _ h' _ _ =>
      runs_checkArgs owner span (i + 1) types values h'
  | _, [], _, _, h | _, _ :: _, [], _, h => .pure h trivial

theorem runs_hostCall (m : Member) (args : List ShapeId) (span : Span) :
    J.Finds s (hostCall m args span) := by
  rw [hostCall]
  cases m.ret? with
  | some ty =>
    split
    · exact (A.reports _ span rfl h).bind fun _ _ h' _ _ => A.ofType ty h'
    · exact (A.runs_checkArgs _ span 1 _ args h).bind fun _ _ h' _ _ => A.ofType ty h'
  | none =>
    split
    · exact (A.reports _ span rfl h).bind fun _ _ h' _ _ => .pure h' (A.unknown h')
    · exact (A.runs_checkArgs _ span 1 _ args h).bind fun _ _ h' _ _ => .pure h' (A.unknown h')

/-- A call keeps the invariant if the call of a lambda does. -/
theorem runs_callShape_of {callee : ShapeId} {args : List ShapeId} (span : Span)
    (hlambda : ∀ l, s.arena.resolved callee = .lambda l →
      J.Finds s (callLambda enter callee l args span)) :
    J.Finds s (callShape enter callee args span) := by
  refine Runs.get ?_
  split
  next l hl => exact hlambda l hl
  next m _ => exact A.runs_hostCall h m args span
  next => exact .pure h (A.unknown h)
  next => exact .pure h (A.unknown h)
  next => exact .describe (A.runs_reported h rfl span)

/-- Deciding how a member is called keeps the invariant if recording the shape of the callee
does. -/
theorem runs_memberCall_of {callee : Node}
    (hnote : ∀ {s x}, J.holds s → J.valid s x → J.Finds s (note callee x)) (receiver : ShapeId)
    (name : String) : J.Runs s (memberCall ctx callee receiver name) J.Calls := by
  have hvalue (target : MemberTarget) : J.Runs s (do
      return MemberCall.value (← note callee (← memberShape receiver name target callee.span)))
      J.Calls :=
    (A.runs_memberShape h receiver name target callee.span).bind fun _ _ h' _ hx =>
      (hnote h' hx).bind fun _ _ h'' _ hx' => .pure h'' hx'
  have hcall (m : Member) : J.Runs s (do
      let _ ← note callee (← inArena (·.push (.hostMethod m)))
      return MemberCall.host m) J.Calls :=
    (A.bindsMethod m h).bind fun _ _ h' _ hx =>
      (hnote h' hx).bind fun _ _ h'' _ _ => .pure h'' trivial
  have hunknown (how : MemberCall) (hhow : ∀ s, J.Calls s how) : J.Runs s (do
      let _ ← note callee Arena.unknown
      return how) J.Calls :=
    (hnote h (A.unknown h)).bind fun _ s' h' _ _ => .pure h' (hhow s')
  refine Runs.get ?_
  cases MemberTarget.resolve s.arena ctx.types receiver name with
  | host m | extension m =>
    dsimp only [memberCallTo]
    split
    · exact hcall m
    · exact hvalue _
  | arrayAdd => exact hunknown .add fun _ => trivial
  | dynamic => exact hunknown .dynamic fun _ => trivial
  | _ => exact hvalue _

theorem runs_memberCallShape_of (how : MemberCall) (receiver : ShapeId) {args : List ShapeId}
    (hargs : ∀ x ∈ args, J.valid s x) (span : Span)
    (hvalue : ∀ callee, how = .value callee → J.Finds s (callShape enter callee args span)) :
    J.Finds s (memberCallShape enter how receiver args span) := by
  cases how with
  | host m => exact A.runs_hostCall h m args span
  | add =>
    rw [memberCallShape.eq_def]
    dsimp only
    split
    next item =>
      exact (A.writesElement receiver item h (hargs item (List.mem_singleton_self item))).bind
        fun _ _ h' _ _ => .pure h' (A.unknown h')
    next => exact A.runs_reported h rfl span
  | dynamic => exact .pure h (A.unknown h)
  | value callee => exact hvalue callee rfl

theorem runs_checkLiterals (problem : TypeProblem) (span : Span) :
    J.Does s (checkLiterals ctx problem span) := by
  rw [checkLiterals]
  split
  · exact A.reports _ span rfl h
  · exact .pure h trivial

/-! ### Parameters and results -/

omit h in
theorem runs_declareParams (lambda : NodeId) {args : List ShapeId} {params : List Param}
    (hdeclare : ∀ {s} index x, ∀ p ∈ params, J.holds s → J.valid s x →
      J.Does s (declare p.name (.parameter lambda index p.node.id) x p.node.span))
    (index : Nat) (h : J.holds s) (hargs : ∀ x ∈ args, J.valid s x) :
    J.Runs s (declareParams lambda args index params) fun s found => ∀ x ∈ found, J.valid s x := by
  induction params generalizing index s with
  | nil => exact .pure h fun _ hx => absurd hx List.not_mem_nil
  | cons p rest ih =>
    have harg : J.valid s (args[index]?.getD Arena.unknown) :=
      A.valid_getD h fun x hx => hargs x (List.mem_of_getElem? hx)
    refine (hdeclare index _ p List.mem_cons_self h harg).bind fun _ s₁ h₁ hl₁ _ => ?_
    refine (ih (fun i x q hq => hdeclare i x q (List.mem_cons_of_mem _ hq)) (index + 1) h₁
      fun x hx => J.valid_of_leads hl₁ (hargs x hx)).bind fun found s₂ h₂ hl₂ hfound => ?_
    refine .pure h₂ fun x hx => ?_
    rcases List.mem_cons.mp hx with rfl | hx
    · exact J.valid_of_leads (J.trans hl₁ hl₂) harg
    · exact hfound x hx

theorem runs_foldShapes {x : ShapeId} {shapes : List ShapeId} (hx : J.valid s x)
    (hin : ∀ y ∈ shapes, J.valid s y) : J.Finds s (foldShapes x shapes) := by
  induction shapes generalizing s x with
  | nil => exact .pure h hx
  | cons y rest ih =>
    refine (A.derives x y h hx (hin y List.mem_cons_self)).bind fun z s₁ h₁ hl hz => ?_
    exact ih h₁ hz fun y hy => J.valid_of_leads hl (hin y (List.mem_cons_of_mem _ hy))

end

theorem runs_blockShape (G : J.Gathers) (h : J.holds s) (body : List Stmt) :
    J.Finds s (do
      let returns ← popReturns
      let ending := if Stmt.anyReturns body then [] else [Arena.unknown]
      foldShapes Arena.undetermined (returns ++ ending)) := by
  refine (G.ends h).bind fun shapes s₁ h₁ _ hshapes => ?_
  refine A.runs_foldShapes h₁ (A.basic h₁ (by decide)) fun x hx => ?_
  rcases List.mem_append.mp hx with hx | hx
  · exact hshapes x hx
  · split at hx
    · cases hx
    · rw [List.mem_singleton.mp hx]
      exact A.unknown h₁

end Helps

/-! ### Walks -/

/-- The mark that the analysis of a body leaves for each of the expressions. -/
def Left (mark : State → Expr → ShapeId → Prop) (es : List Expr) (s : State) : Prop :=
  ∀ e ∈ es, ∃ x, mark s e x

/-- The place that an expression stands for, as a target. -/
structure Targets (J : Invariant) (mark : State → Expr → ShapeId → Prop) (e : Expr) (s : State)
    (p : Place) : Prop where
  reaches : J.Reaches s p
  left : Left mark e.placed s
  member : ∀ {o name}, p = .member o name →
    ∃ n object span, e = .member n object name span ∧ mark s object o
  plain : e.isPlain ∨ p = .invalid

/-- What the actions of the analysis of a body with the given sites and pieces have to keep, and the
marks that they leave. -/
structure Walks (J : Invariant) (mark : State → Expr → ShapeId → Prop) (ctx : Context) (enter : Enter)
    (sites : List Site) (pieces : List Piece) : Prop extends J.Helps where
  later : ∀ {s s' e x}, J.holds s → J.leads s s' → mark s e x → mark s' e x
  records : ∀ {s} e x span, .expr e ∈ pieces → e.isPlain ∨ x = Arena.unknown → J.holds s →
    J.valid s x → J.Runs s (record e.id x span) fun s _ => e.isPlain → mark s e x
  writesField : ∀ {s} record piece name x, piece ∈ pieces → name ∈ piece.writes → J.holds s →
    J.valid s x → J.Does s (inArena (·.writeField record name x))
  newRecord : ∀ {s} n props fields, .expr (.object n props) ∈ pieces → J.holds s →
    fields.keys.Nodup → fields.keys ⊆ props.map Property.name → (∀ x ∈ fields.values, J.valid s x) →
    J.Finds s (inArena (·.newRecord n.id fields))
  newArray : ∀ {s} n items x, .expr (.array n items) ∈ pieces → J.holds s → J.valid s x →
    J.Finds s (inArena (·.newArray n.id x))
  names : ∀ {s} node name, .name node ∈ sites → J.holds s → J.Finds s (ident ctx node name)
  places : ∀ {s} node name, .name node ∈ sites → J.holds s →
    J.Runs s (namedPlace ctx node name) J.Reaches
  declares : ∀ {s} id name span x, .declaration id span.start ∈ sites → J.holds s → J.valid s x →
    J.Does s (declare name (.var id) x span)
  blocks : ∀ {s} {m : Analyze Unit} {es}, J.holds s →
    (∀ s, J.holds s → J.Runs s m fun s _ => Left mark es s) →
    J.Runs s (do openScope .block; m; closeScope) fun s _ => Left mark es s
  literals : ∀ {s} node params body, .literal ⟨node, params, body⟩ ∈ sites →
    .expr (.lambda node params body) ∈ pieces → J.holds s →
    J.Runs s (do note node (← lambdaLiteral node params)) fun s x =>
      J.valid s x ∧ mark s (.lambda node params body) x
  calls : ∀ {s} n callee args c xs, .call args.length ∈ sites → .expr (.call n callee args) ∈ pieces →
    J.holds s → J.valid s c → List.Forall₂ (mark s) args xs → (∀ x ∈ xs, J.valid s x) →
    (∀ m object name span, callee ≠ .member m object name span) →
    J.Runs s (do note n (← callShape enter c xs n.span)) fun s x =>
      J.valid s x ∧ mark s (.call n callee args) x
  /-- How the member is called was decided before the arguments. -/
  memberCalls : ∀ {s₁ s} n c object name span args receiver xs, .call args.length ∈ sites →
    .expr (.call n (.member c object name span) args) ∈ pieces → J.holds s₁ → J.holds s →
    J.leads s₁ s → mark s₁ object receiver → J.Calls s (memberCall ctx c receiver name s₁).1 →
    List.Forall₂ (mark s) args xs → (∀ x ∈ xs, J.valid s x) →
    J.Runs s (do
      note n (← memberCallShape enter (memberCall ctx c receiver name s₁).1 receiver xs n.span))
      fun s x => J.valid s x ∧ mark s (.call n (.member c object name span) args) x

namespace Walks

variable {mark : State → Expr → ShapeId → Prop} {ctx : Context} {enter : Enter} {sites : List Site}
  {pieces : List Piece} {es es' : List Expr}

theorem left_nil (s : State) : Left mark [] s :=
  fun _ he => absurd he List.not_mem_nil

theorem left_append (h : Left mark es s) (h' : Left mark es' s) :
    Left mark (es ++ es') s :=
  fun e he => (List.mem_append.mp he).elim (h e) (h' e)

theorem left_concat {e : Expr} {x : ShapeId} (h : Left mark es s) (hx : mark s e x) :
    Left mark (es ++ [e]) s :=
  left_append h fun _ he => ⟨x, by rw [List.mem_singleton.mp he]; exact hx⟩

variable (W : J.Walks mark ctx enter sites pieces)

include W

theorem left_later (hleft : Left mark es s) (h : J.holds s) (hl : J.leads s s') :
    Left mark es s' :=
  fun e he => (hleft e he).imp fun _ hx => W.later h hl hx

/-- The shape of an expression is recorded, after its parts were walked. -/
theorem runs_note {e : Expr} (hmem : .expr e ∈ pieces) (hplain : e.isPlain) (h : J.holds s)
    {x : ShapeId} (hx : J.valid s x) (hes : Left mark es s) :
    J.Runs s (note e.node x) fun s x => J.valid s x ∧ mark s e x ∧ Left mark (es ++ [e]) s := by
  refine (W.records e x e.span hmem (.inl hplain) h hx).bind fun _ s₁ h₁ hl hmark => .pure h₁ ?_
  exact ⟨J.valid_of_leads hl hx, hmark hplain, left_concat (W.left_later hes h hl) (hmark hplain)⟩

/-- The expressions of two parts that are walked one after the other. -/
theorem left_both (hes : Left mark es s) (h : J.holds s) (hl : J.leads s s')
    (hes' : Left mark es' s') : Left mark (es ++ es') s' :=
  left_append (W.left_later hes h hl) hes'

end Walks

/-- The fields of a record literal have different names: a name that comes again replaces its
field. -/
theorem nodup_properties (ctx : Context) (enter : Enter) (ps : List Property)
    {fields : OrderedMap String ShapeId} (h : fields.keys.Nodup) (s : State) :
    (properties ctx enter fields ps s).1.keys.Nodup := by
  induction ps generalizing fields s with
  | nil =>
    rw [properties]
    exact h
  | cons p rest ih =>
    obtain ⟨name, span, value⟩ := p
    rw [properties]
    show OrderedMap.keys ((if fields.contains name = true then _ else _ :
      Analyze (OrderedMap String ShapeId)) (expr ctx enter value s).2).1 |>.Nodup
    split
    · exact ih (OrderedMap.nodup_keys_insert h name _) _
    · exact ih (OrderedMap.nodup_keys_insert h name _) _

/-- A record literal has no fields but those of its properties. -/
theorem keys_properties (ctx : Context) (enter : Enter) (ps : List Property)
    (fields : OrderedMap String ShapeId) (s : State) :
    (properties ctx enter fields ps s).1.keys ⊆ fields.keys ++ ps.map Property.name := by
  induction ps generalizing fields s with
  | nil =>
    rw [properties]
    exact List.subset_append_left _ _
  | cons p rest ih =>
    obtain ⟨name, span, value⟩ := p
    have hinsert (x : ShapeId) (s : State) :
        (properties ctx enter (fields.insert name x) rest s).1.keys ⊆
          fields.keys ++ (Property.mk name span value :: rest).map Property.name := by
      intro key hkey
      have hrest := ih (fields.insert name x) s hkey
      rw [OrderedMap.keys_insert] at hrest
      simp only [List.map_cons, Property.name, List.mem_append, List.mem_cons] at hrest ⊢
      grind
    rw [properties]
    show OrderedMap.keys ((if fields.contains name = true then _ else _ :
      Analyze (OrderedMap String ShapeId)) (expr ctx enter value s).2).1 ⊆ _
    split
    · exact hinsert _ _
    · exact hinsert _ _

end Invariant

end HostScript.Analysis
