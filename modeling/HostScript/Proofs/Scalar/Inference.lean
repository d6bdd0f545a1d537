import HostScript.Engine
import HostScript.Proofs.Scalar.States
import HostScript.Proofs.Script.Nodes

/-!
# Analysis settles scalar scripts

If the pass over a scalar script ends without problems and is stable, then every name means the
nearest variable of that name, and what is stored in a variable has the representation of the
variable or the variable takes any value. What analysis finds in the middle of the pass is compared
with the state at its end, because shapes widen until then.
-/

namespace HostScript.Analysis

variable {α : Type} {ctx : Context} {enter : Enter} {s s' : State} {ids : List NodeId} {vs : Visible}
  {b : Body} {x : ShapeId} {e left right : Expr} {n : Node} {P : α → Prop}

/-! ### Expressions -/

/-- What code generation knows of an expression that has been found to have a shape. -/
structure Fits (b : Body) (vs : Visible) (e : Expr) (x : ShapeId) : Prop where
  scalar : x.IsScalar
  ready : e.Ready b vs
  rep : b.scalarRep e = x.scalarRep
  known : b.Typed → e.hasNull = false → x.scalarRep ≠ .any

/-- What the analysis of an expression does and finds, wherever it stands. -/
def ExprFinds (ctx : Context) (enter : Enter) (e : Expr) : Prop :=
  Finds e.ids id (expr ctx enter e) (· ≠ Arena.undetermined) fun b vs x => Fits b vs e x

theorem Fits.condition (h : Fits b vs e x)
    (hbool : x.IsScalar → x.scalarRep ≠ .any → x.scalarRep = .bool) : e.ReadyCondition b vs :=
  ⟨h.ready, fun hty hnull => h.rep.trans (hbool h.scalar (h.known hty hnull))⟩

/-- A condition, and what comes after it. -/
theorem ExprFinds.test {visible : Visible → Visible} {y : Analyze α}
    {χ : Body → Visible → α → Prop} (he : ExprFinds ctx enter e) (hy : Finds ids visible y P χ) :
    Finds (e.ids ++ ids) visible (do checkCondition (← expr ctx enter e) e.span; y) P
      fun b vs r => e.ReadyCondition b vs ∧ χ b vs r :=
  Finds.bind he fun x _ => (does_checkCondition x e.span).bind fun _ _ =>
    hy.mono fun _ _ _ hr hbool hfits => ⟨hfits.condition hbool, hr⟩

theorem literalShape_isScalar (value : Literal) : (literalShape value).IsScalar := by
  cases value <;> simp [literalShape, ShapeId.IsScalar]

theorem fits_literal (value : Literal) : Fits b vs (.literal n value) (literalShape value) where
  scalar := literalShape_isScalar value
  ready := ⟨trivial, fun _ _ => trivial⟩
  rep := by cases value <;> rfl
  known _ hnull := by
    cases value with
    | null => cases hnull
    | number | str | bool => exact Rep.noConfusion

theorem fits_binary {op : BinOp} {l r : ShapeId} (hl : Fits b vs left l) (hr : Fits b vs right r)
    (hx : l.IsScalar → r.IsScalar → x.IsScalar ∧
      x.scalarRep = (Generate.binaryOp op l.scalarRep r.scalarRep).2 ∧
      (l.scalarRep ≠ .any → r.scalarRep ≠ .any → x.scalarRep ≠ .any ∧
        (Generate.binaryOp op l.scalarRep r.scalarRep).1.isDynamic = false)) :
    Fits b vs (.binary n op left right) x := by
  obtain ⟨hscalar, hrep, hdirect⟩ := hx hl.scalar hr.scalar
  have hknown (hty : b.Typed) (hnull : left.hasNull = false ∧ right.hasNull = false) :=
    hdirect (hl.known hty hnull.1) (hr.known hty hnull.2)
  refine ⟨hscalar, ⟨⟨hl.ready.1, hr.ready.1⟩, fun hty hnull => ?_⟩, ?_, fun hty hnull => ?_⟩
  · have hnull := Bool.or_eq_false_iff.mp hnull
    refine ⟨hl.ready.2 hty hnull.1, hr.ready.2 hty hnull.2, ?_⟩
    rw [hl.rep, hr.rep]
    exact (hknown hty hnull).2
  · rw [Body.scalarRep, hl.rep, hr.rep, hrep]
  · exact (hknown hty (Bool.or_eq_false_iff.mp hnull)).1

theorem fits_logical {op : LogicOp} (hl : left.ReadyCondition b vs) (hr : right.ReadyCondition b vs) :
    Fits b vs (.logical n op left right) Arena.bool := by
  refine ⟨.inr (.inr (.inl rfl)), ⟨⟨hl.1.1, hr.1.1⟩, fun hty hnull => ?_⟩, rfl,
    fun _ _ => Rep.noConfusion⟩
  have hnull := Bool.or_eq_false_iff.mp hnull
  exact ⟨⟨hl.1.2 hty hnull.1, hl.2 hty hnull.1⟩, hr.1.2 hty hnull.2, hr.2 hty hnull.2⟩

theorem fits_not (h : e.ReadyCondition b vs) : Fits b vs (.unary n .not e) Arena.bool :=
  ⟨.inr (.inr (.inl rfl)), ⟨h.1.1, fun hty hnull => ⟨h.1.2 hty hnull, h.2 hty hnull⟩⟩, rfl,
    fun _ _ => Rep.noConfusion⟩

theorem fits_neg {o : ShapeId} (ho : Fits b vs e o) (hx : x.IsScalar)
    (hnumeric : o.IsScalar → x.scalarRep = Body.stepRep o.scalarRep ∧
      (o.scalarRep ≠ .any → o.scalarRep = .num)) : Fits b vs (.unary n .neg e) x := by
  obtain ⟨hrep, hnum⟩ := hnumeric ho.scalar
  rw [Body.stepRep] at hrep
  refine ⟨hx, ⟨ho.ready.1, fun hty hnull => ⟨ho.ready.2 hty hnull, ?_⟩⟩, ?_, fun hty hnull => ?_⟩
  · rw [ho.rep, hnum (ho.known hty hnull)]
  · rw [Body.scalarRep, ho.rep, hrep]
  · rw [hrep, if_pos (hnum (ho.known hty hnull))]
    exact Rep.noConfusion

theorem fits_ident {name : String} {symbol : Symbol} (hlookup : OrderedMap.lookup name vs = some symbol)
    (hget : b.analysis.resolutions.get? n.id = some (.local symbol)) (hx : x.IsScalar)
    (hrep : b.rep symbol.node = x.scalarRep) : Fits b vs (.ident n name) x where
  scalar := hx
  ready := ⟨⟨symbol, hlookup, hget⟩, fun _ _ => trivial⟩
  rep := by simp only [Body.scalarRep, hget, hrep]
  known hty _ := hrep ▸ hty _ _ hget

mutual

theorem expr_finds : (e : Expr) → e.isScalar = true → ExprFinds ctx enter e
  | .literal n value, _ => by
    rw [ExprFinds, expr]
    exact .of_ids (finds_note (literalShape_isScalar value).ne_undetermined fun _ _ => fits_literal value)
      (by simp)
  | .ident n name, _ => by
    rw [ExprFinds, expr]
    refine (finds_ident ctx n name).bind fun x hx => finds_note hx ?_
    exact fun _ _ ⟨_, hlookup, hget, hscalar, hrep⟩ => fits_ident hlookup hget hscalar hrep
  | .binary n op left right, hs => by
    simp only [Expr.isScalar, Bool.and_eq_true] at hs
    rw [ExprFinds, expr]
    refine .of_ids (Finds.bind (expr_finds left hs.1) fun l _ => Finds.bind (expr_finds right hs.2)
      fun r _ => (finds_binary op l r n.span).bind fun x hx => finds_note hx ?_) (by simp [Expr.ids])
    exact fun _ _ hx hr hl => fits_binary hl hr hx
  | .logical n op left right, hs => by
    simp only [Expr.isScalar, Bool.and_eq_true] at hs
    rw [ExprFinds, expr]
    refine .of_ids (((expr_finds left hs.1).test ((expr_finds right hs.2).test
      (finds_note (by decide) fun _ _ => rfl))).mono ?_) (by simp [Expr.ids])
    rintro b vs _ ⟨hl, hr, rfl⟩
    exact fits_logical hl hr
  | .unary n .not operand, hs => by
    rw [ExprFinds, expr]
    refine .of_ids (((expr_finds operand hs).test (finds_note (by decide) fun _ _ => rfl)).mono ?_)
      (by simp [Expr.ids])
    rintro b vs _ ⟨ho, rfl⟩
    exact fits_not ho
  | .unary n .neg operand, hs => by
    rw [ExprFinds, expr]
    refine .of_ids (Finds.bind (expr_finds operand hs) fun o _ => (finds_numeric "-" o n.span).bind
      fun x hx => finds_note hx.ne_undetermined ?_) (by simp [Expr.ids])
    exact fun _ _ hnumeric ho => fits_neg ho hx hnumeric
  | .grouping n inner, hs => by
    rw [ExprFinds, expr]
    refine .of_ids (Finds.bind (expr_finds inner hs) fun x hx => finds_note hx ?_) (by simp [Expr.ids])
    exact fun _ _ hi => ⟨hi.scalar, hi.ready, hi.rep, hi.known⟩
  | .interpolated n ps, hs => by
    rw [ExprFinds, expr]
    refine .of_ids ((parts_finds ps hs).bind fun _ _ => finds_note (by decide) ?_) (by simp [Expr.ids])
    exact fun _ _ h => ⟨.inr (.inr (.inr rfl)), h, rfl, fun _ _ => Rep.noConfusion⟩

theorem parts_finds : (ps : List Part) → Part.areScalar ps = true →
    Does (Part.idsOfAll ps) id (parts ctx enter ps) fun b vs =>
      Part.AllResolved b.analysis vs ps ∧ (b.Typed → Part.haveNull ps = false → Part.AllDirect b ps)
  | [], _ => by
    rw [parts]
    exact .pure trivial fun _ _ => ⟨trivial, fun _ _ => trivial⟩
  | .text _ :: ps, hs => by
    rw [parts]
    exact parts_finds ps (by simpa [Part.areScalar] using hs)
  | .expr value :: ps, hs => by
    simp only [Part.areScalar, Bool.and_eq_true] at hs
    rw [parts]
    refine Finds.bind (expr_finds value hs.1) fun x _ => (parts_finds ps hs.2).mono ?_
    refine fun b vs _ hrest hfirst => ⟨⟨hfirst.ready.1, hrest.1⟩, fun hty hnull => ?_⟩
    have hnull := Bool.or_eq_false_iff.mp hnull
    exact ⟨hfirst.ready.2 hty hnull.1, hrest.2 hty hnull.2⟩

end

/-! ### Statements -/

theorem moves_enter (h : s.Plain) (kind : ScopeKind) :
    State.Plain { s with scopes := s.scopes.enter kind } ∧
      s.Leads [] { s with scopes := s.scopes.enter kind } := by
  refine ⟨{ h with current := ?_ }, { (State.Goes.refl h).leads with }⟩
  exact (Array.getElem?_eq_some_iff.mp (Scopes.getElem?_enter_current s.scopes kind)).1

/-- The names of a scope are forgotten at its end. -/
theorem State.Moves.close {kind : ScopeKind} (hs : s.Plain)
    (h : State.Moves ids { s with scopes := s.scopes.enter kind } s') :
    s.Moves ids { s' with scopes := s'.scopes.close } := by
  have hback := Scopes.enter_close h.stays
  have hstays : s.scopes.Stays s'.scopes.close := .of_sameBelow hs.current hback
  refine ⟨{ h.plain with current := hstays.lt_size hs.current }, ?_, hstays⟩
  have hclose : State.Leads [] s' { s' with scopes := s'.scopes.close } :=
    { (State.Goes.refl h.plain).leads with }
  exact (((moves_enter hs kind).2.trans h.leads).trans hclose).mono (by simp)

theorem Finds.scoped {visible : Visible → Visible} {x : Analyze Unit} {φ : Body → Visible → Prop}
    (kind : ScopeKind) (h : Does ids visible x φ) :
    Does ids id (do openScope kind; x; closeScope) φ where
  moves hs := (h.moves (moves_enter hs kind).1).close hs
  value _ := trivial
  settles {s last rest vs b} hs hv hlast hleads hnodup := by
    have hinside := (moves_enter hs kind).1
    have hmoves := h.moves hinside
    have hback := Scopes.enter_close hmoves.stays
    obtain ⟨seen, hchain, hseen, hvs⟩ := hv.seen
    have hinner : State.InScope { s with scopes := s.scopes.enter kind } vs :=
      ⟨⟨seen, hchain.enter kind, hseen, hvs⟩, hv.scalar⟩
    have hleads' : (x { s with scopes := s.scopes.enter kind }).2.Leads rest last := { hleads with }
    refine ⟨(h.settles hinside hinner hlast hleads' hnodup).1, ⟨seen, ?_, hseen, hvs⟩,
      hv.scalar_of_leads (hmoves.close hs).leads⟩
    show (x _).2.scopes.close.Chain (x _).2.scopes.close.current seen
    rw [hback.1]
    exact hback.2.chain hchain.lt_size hchain

/-- A variable is declared with the shape of its first value, and widens from there. -/
theorem does_declare {name : String} {nameSpan : Span} (he : ExprFinds ctx enter e) :
    Does (Stmt.declare n name nameSpan (some e)).ids (Stmt.declare n name nameSpan (some e)).visible
      (stmt ctx enter (.declare n name nameSpan (some e)))
      fun b vs => (Stmt.declare n name nameSpan (some e)).Settled b vs := by
  have hrun : stmt ctx enter (.declare n name nameSpan (some e)) = fun s =>
      declare name (.var n.id) (expr ctx enter e s).1 nameSpan (expr ctx enter e s).2 := by
    rw [stmt]
    funext s
    rw [bind_run, optionalExpr]
  have hdeclare {s : State} (hs : s.Plain) :=
    moves_declare (he.moves hs).plain name n.id (he.value hs) nameSpan
  rw [hrun]
  refine ⟨fun hs => ((he.moves hs).trans (hdeclare hs).1).mono (by simp [Stmt.ids, Expr.idsOfOption]),
    fun _ => trivial, fun {s last rest vs b} hs hv hlast hleads hnodup => ?_⟩
  obtain ⟨hmoves, hfound⟩ := hdeclare hs
  dsimp only at hleads ⊢
  have hnodup' : (e.ids ++ rest).Nodup := hnodup.sublist (by simp [Stmt.ids, Expr.idsOfOption])
  obtain ⟨⟨hscalar, hready, hrep, -⟩, hv'⟩ :=
    he.settles hs hv hlast (hmoves.leads.trans hleads) hnodup'
  generalize expr ctx enter e s = r at *
  obtain ⟨hfree, hshape, hdeclared⟩ := hfound (hleads.problems hlast.problems)
  have hwidens : ShapeId.Widens r.1 (r.2.declaredShape n.id r.1) := by
    unfold State.declaredShape
    split
    · exact .inr rfl
    · exact .inl rfl
  obtain ⟨y, hy, hwy, _⟩ := hleads.shapes _ _ hshape
  have hyrep := hlast.rep _ y hy (hscalar.of_widens (hwidens.trans hwy))
  refine ⟨⟨?_, ?_, e, rfl, hready, ?_⟩, ?_⟩
  · rintro v hmem heq
    obtain ⟨x, hx, _⟩ := hv'.scalar v hmem
    rw [heq] at hx
    cases hfree.symm.trans hx
  · rw [hyrep]
    exact (hscalar.of_widens (hwidens.trans hwy)).isScalar_rep
  · rw [hrep, hyrep]
    exact ShapeId.enters_of_widens (hwidens.trans hwy)
  · obtain ⟨seen, hchain, hseen, hvs⟩ := hv'.seen
    obtain ⟨hchain', hseen'⟩ := hchain.declare hdeclared hseen
    refine ⟨⟨_, hchain', hseen', congrArg ((name, Symbol.var n.id) :: ·) hvs⟩, ?_⟩
    intro v hmem
    rcases List.mem_cons.mp hmem with rfl | hmem
    · exact ⟨_, hshape, hscalar.of_widens hwidens⟩
    · exact hv'.scalar_of_leads hmoves.leads v hmem

theorem does_assign {tn : Node} {name : String} (he : ExprFinds ctx enter e) :
    Does (Stmt.assign n (.ident tn name) e).ids id (stmt ctx enter (.assign n (.ident tn name) e))
      fun b vs => (Stmt.assign n (.ident tn name) e).Settled b vs := by
  rw [stmt]
  refine .of_ids ((finds_place ctx enter tn name).bind fun p hp => Finds.bind he fun x hx =>
    (does_store ctx hp hx n.span).mono ?_) (by simp [Stmt.ids, Expr.ids])
  rintro b vs - hstore hfits ⟨symbol, rfl, hlookup, hget⟩
  exact ⟨hfits.ready, symbol, hlookup, hget, hfits.rep ▸ hstore rfl hlookup hfits.scalar⟩

theorem does_step {tn : Node} {name : String} {op : StepOp} :
    Does (Stmt.step n (.ident tn name) op).ids id (stmt ctx enter (.step n (.ident tn name) op))
      fun b vs => (Stmt.step n (.ident tn name) op).Settled b vs := by
  rw [stmt]
  refine .of_ids ((finds_place ctx enter tn name).bind fun p hp =>
    (finds_placeShape ctx hp _).bind fun x hx => (does_record tn.id hx _).bind fun _ _ =>
    (finds_numeric op.symbol x n.span).bind fun y hy =>
    (does_store ctx hp hy.ne_undetermined n.span).mono ?_) (by simp [Stmt.ids, Expr.ids])
  rintro b vs - hstore hnumeric - hread ⟨symbol, rfl, hlookup, hget⟩
  obtain ⟨hscalar, hrep⟩ := hread rfl hlookup hget
  refine ⟨symbol, hlookup, hget, ?_⟩
  show (Body.stepRep (b.rep symbol.node)).Enters (b.rep symbol.node)
  rw [hrep, ← (hnumeric hscalar).1, ← hrep]
  exact hstore rfl hlookup hy

/-- An expression whose value is not used in the state. -/
theorem ExprFinds.discard (he : ExprFinds ctx enter e) {f : ShapeId → Analyze Unit}
    (hf : ∀ x, Does [] id (f x) fun _ _ => True) :
    Does e.ids id (do f (← expr ctx enter e)) fun b vs => e.Ready b vs :=
  .of_ids (Finds.bind he fun x _ => (hf x).mono fun _ _ _ _ hfits => hfits.ready) (by simp)

theorem does_quiet {x : Analyze Unit} (h : ∀ s : State, s.Plain → s.Goes [] (x s).2) :
    Does [] id x fun _ _ => True :=
  .of_goes (fun s hs => ⟨h s hs, trivial⟩) fun _ _ _ _ _ => trivial

theorem does_addReturn (x : ShapeId) : Does [] id (addReturn x) fun _ _ => True := by
  refine does_quiet fun s h => ?_
  rw [addReturn_run]
  cases s.returns with
  | nil => exact .refl h
  | cons => exact .quiet { h with } rfl rfl (fun _ hr => hr) rfl rfl id

theorem optionalCondition_finds {o : Option Expr} (ho : o.all Expr.isScalar = true) :
    Does (Expr.idsOfOption o) id (optionalCondition ctx enter o) fun b vs =>
      ∀ e ∈ o, e.ReadyCondition b vs := by
  cases o with
  | none => exact .pure trivial fun _ _ _ h => by cases h
  | some e =>
    rw [optionalCondition]
    refine .of_ids (Finds.bind (expr_finds e ho) fun x _ => (does_checkCondition x e.span).mono ?_)
      (by simp [Expr.idsOfOption])
    rintro b vs _ hbool hfits _ ⟨⟩
    exact hfits.condition hbool

variable {ok : Expr → Bool}

theorem all_isScalar {o : Option Expr} (hok : OnlyScalar ok) (h : o.all ok = true) :
    o.all Expr.isScalar = true := by
  cases o with
  | none => rfl
  | some e => exact hok e h

mutual

theorem stmt_finds (hok : OnlyScalar ok) : (st : Stmt) → st.isPlain ok = true →
      Does st.ids (fun vs => st.visible vs) (stmt ctx enter st) fun b vs => st.Settled b vs
  | .block n body, hs => by
    rw [stmt]
    exact .of_ids ((stmts_finds hok body hs false false).scoped .block) (by simp [Stmt.ids])
  | .declare n name nameSpan (some e), hs => does_declare (expr_finds e (hok e hs))
  | .branch n condition t e, hs => by
    simp only [Stmt.isPlain, Bool.and_eq_true] at hs
    rw [stmt]
    refine .of_ids (((expr_finds condition (hok _ hs.1.1)).test ((stmt_finds hok t hs.1.2).andThen
      fun _ _ => optionalStmt_finds hok e hs.2)).mono ?_) (by simp [Stmt.ids])
    exact fun b vs _ ⟨hc, _, ht, he⟩ => ⟨hc, ht, he⟩
  | .while n condition body, hs => by
    simp only [Stmt.isPlain, Bool.and_eq_true] at hs
    rw [stmt]
    exact .of_ids ((expr_finds condition (hok _ hs.1)).test (stmt_finds hok body hs.2))
      (by simp [Stmt.ids])
  | .for n init condition advance body, hs => by
    simp only [Stmt.isPlain, Bool.and_eq_true] at hs
    rw [stmt]
    -- the body is analyzed before the step, which is written before it
    have hcondition : Does _ id (optionalCondition ctx enter condition) _ :=
      optionalCondition_finds (all_isScalar hok hs.1.1.2)
    have hbody := ((stmt_finds hok body hs.2).andThen fun _ _ =>
      optionalStmt_finds hok advance hs.1.2).of_perm List.perm_append_comm
    have hall := (optionalStmt_finds hok init hs.1.1.1).andThen fun _ _ => hcondition.andThen
      fun _ _ => hbody
    refine .of_ids ((Finds.scoped .block hall).mono ?_) (by simp [Stmt.ids])
    exact fun b vs _ ⟨_, hi, _, hc, _, hb, ha⟩ => ⟨hi, hc, hb, ha⟩
  | .return n value, hs => by
    rw [stmt]
    cases value with
    | none => exact .of_ids ((does_addReturn Arena.unknown).mono fun _ _ _ _ _ h => by cases h) (by simp)
    | some e =>
      refine .of_ids (((expr_finds e (hok e hs)).discard does_addReturn).mono ?_)
        (by simp [Stmt.ids, Expr.idsOfOption])
      rintro b vs _ hready _ ⟨⟩
      exact hready
  | .print n value, hs => by
    have hprint : Does value.ids id (do let _ ← expr ctx enter value) fun b vs => value.Ready b vs :=
      (expr_finds value (hok _ hs)).discard fun _ => .pure trivial fun _ _ => trivial
    rw [stmt]
    cases !ctx.options.allowPrint with
    | true =>
      exact .of_ids ((does_report _ n.span).bind fun _ _ => hprint.mono fun _ _ _ h _ => h)
        (by simp [Stmt.ids])
    | false => exact .of_ids hprint (by simp [Stmt.ids])
  | .expr n value, hs => by
    rw [stmt]
    exact .of_ids ((expr_finds value (hok _ hs)).discard fun _ => .pure trivial fun _ _ => trivial)
      (by simp [Stmt.ids])
  | .assign n (.ident tn name) value, hs => by
    simp only [Stmt.isPlain, Bool.and_eq_true] at hs
    exact does_assign (expr_finds value (hok _ hs.2))
  | .step n (.ident tn name) op, _ => does_step

theorem stmts_finds (hok : OnlyScalar ok) : (body : List Stmt) →
    Stmt.arePlain ok body = true → ∀ returned warned,
      Does (Stmt.idsOfAll body) (fun vs => Stmt.visibleAll vs body)
        (stmts ctx enter returned warned body) fun b vs => Stmt.AllSettled b vs body
  | [], _, _, _ => by
    rw [stmts]
    exact .pure trivial fun _ _ => trivial
  | st :: rest, hs, returned, warned => by
    simp only [Stmt.arePlain, Bool.and_eq_true] at hs
    have hall := ((stmt_finds hok st hs.1).andThen fun _ _ => stmts_finds hok rest hs.2
      (returned || st.alwaysReturns) (warned || returned)).mono fun b vs _ ⟨_, hset, hrest⟩ =>
        (⟨hset, hrest⟩ : Stmt.AllSettled b vs (st :: rest))
    rw [stmts]
    cases returned && !warned with
    | false => exact hall
    | true =>
      refine (does_quiet fun s h => ?_).bind fun _ _ => hall.mono fun _ _ _ h _ => h
      exact .quiet { h with } rfl rfl (fun _ hr => hr) rfl rfl id

theorem optionalStmt_finds (hok : OnlyScalar ok) : (o : Option Stmt) → Stmt.isPlainOption ok o = true →
      Does (Stmt.idsOfOption o) (fun vs => Stmt.visibleOption vs o) (optionalStmt ctx enter o)
        fun b vs => Stmt.SettledOption b vs o
  | none, _ => by
    rw [optionalStmt]
    exact .pure trivial fun _ _ => trivial
  | some st, hs => by
    rw [optionalStmt]
    exact stmt_finds hok st hs

end

end HostScript.Analysis
