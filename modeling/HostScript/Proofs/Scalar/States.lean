import HostScript.Proofs.Analysis.Runs
import HostScript.Proofs.Scalar.Shapes
import HostScript.Proofs.Scope.Chain

/-!
# Analyses of scalar scripts

The states through which the analysis of a script without lambdas, records and arrays goes. Along
the way shapes only widen, and a variable that was read keeps its shape unless the pass becomes
unstable.
-/

namespace HostScript

/-! ### The layer of the script itself -/

namespace Layers

variable {t : Layers} {node : NodeId} {x : ShapeId}

theorem find?_root (t : Layers) (node : NodeId) :
    t.find? [root] node = if (t.get? root node).isSome then some root else none := by
  cases h : (t.get? root node).isSome <;> simp [find?, h]

theorem shape?_root (t : Layers) (node : NodeId) : t.shape? [root] node = t.get? root node := by
  rw [shape?, find?_root]
  cases h : t.get? root node <;> simp [h]

theorem put_root (h : 0 < t.layers.size) :
    t.put root node x =
      (some root, { t with layers := t.layers.modify root (·.insert node x) }) :=
  if_pos h

theorem get?_modify_root (h : 0 < t.layers.size) (other : NodeId) :
    ({ t with layers := t.layers.modify root (·.insert node x) } : Layers).get? root other =
      if other = node then some x else t.get? root other := by
  simp only [get?, Array.getElem?_modify, if_true, Array.getElem?_eq_getElem h, Option.map_some,
    Option.bind_some, NumberedMap.get?_insert]

theorem set?_root (h : 0 < t.layers.size) (hnew : t.get? root node = none) :
    t.set? [root] node x =
      some (some root, { t with layers := t.layers.modify root (·.insert node x) }) := by
  rw [← put_root h]
  simp [set?, hnew]

theorem replace_root (h : 0 < t.layers.size) (hthawed : t.frozenBelow = 0) :
    t.replace [root] node x =
      (some root, { t with layers := t.layers.modify root (·.insert node x) }) := by
  rw [← put_root h]
  cases hget : (t.get? root node).isSome <;> simp [replace, find?_root, hget, hthawed]

end Layers

namespace Analysis

variable {x value : ShapeId}

/-- The shape of a node of the script itself. -/
def State.shape? (s : State) (node : NodeId) : Option ShapeId :=
  s.layers.get? Layers.root node

/-- A state in which no lambda, record or array was found. -/
structure State.Plain (s : State) : Prop where
  arena : s.arena.Flat
  stack : s.stack = [Layers.root]
  enclosing : s.enclosing = []
  size : 0 < s.layers.layers.size
  thawed : s.layers.frozenBelow = 0
  /-- No lambda owns a symbol. -/
  owners : ∀ symbol, (s.owners.get? symbol).join = none
  captured : s.captured = []
  pending : s.pending = []
  shapes : ∀ node x, s.shape? node = some x → x ≠ Arena.undetermined
  current : s.scopes.current < s.scopes.scopes.size
  hosts : ∀ id x, s.arena.hosts.get? id = some x → x ≠ Arena.undetermined

/-- How analysis goes on: shapes widen, those of variables that were read stay unless the pass
becomes unstable, and among the nodes outside `ids` nothing is resolved. -/
structure State.Leads (ids : List NodeId) (s s' : State) : Prop where
  problems : s'.problems = [] → s.problems = []
  stable : s'.arena.unstable = false → s.arena.unstable = false
  reads : ∀ r ∈ s.declarationReads, r ∈ s'.declarationReads
  shapes : ∀ node x, s.shape? node = some x → ∃ y, s'.shape? node = some y ∧ x.Widens y ∧
    (s'.arena.unstable = false → (Layers.root, node) ∈ s.declarationReads → y = x)
  resolutions : ∀ id, id ∉ ids → s'.resolutions.get? id = s.resolutions.get? id

variable {s s' s'' : State} {ids ids' : List NodeId} {vs : Visible}

theorem State.Leads.trans (h : s.Leads ids s') (h' : s'.Leads ids' s'') :
    s.Leads (ids ++ ids') s'' where
  problems hp := h.problems (h'.problems hp)
  stable hs := h.stable (h'.stable hs)
  reads r hr := h'.reads r (h.reads r hr)
  shapes := by
    intro node x hx
    obtain ⟨y, hy, hxy, hread⟩ := h.shapes node x hx
    obtain ⟨z, hz, hyz, hread'⟩ := h'.shapes node y hy
    refine ⟨z, hz, hxy.trans hyz, fun hstable hr => ?_⟩
    rw [hread' hstable (h.reads _ hr), hread (h'.stable hstable) hr]
  resolutions := by
    intro id hid
    rw [List.mem_append, not_or] at hid
    rw [h'.resolutions id hid.2, h.resolutions id hid.1]

theorem State.Leads.mono (h : s.Leads ids s') (hsub : ids ⊆ ids') : s.Leads ids' s' :=
  { h with resolutions := fun id hid => h.resolutions id fun hmem => hid (hsub hmem) }

/-- Analysis goes on without a change of scopes. -/
structure State.Goes (ids : List NodeId) (s s' : State) : Prop where
  plain : s'.Plain
  leads : s.Leads ids s'
  scopes : s'.scopes = s.scopes

theorem State.Goes.mono (h : s.Goes ids s') (hsub : ids ⊆ ids') : s.Goes ids' s' :=
  { h with leads := h.leads.mono hsub }

/-- The arena, the recorded shapes, what names mean and the scopes stay as they are. -/
theorem State.Goes.quiet (h : s'.Plain) (harena : s'.arena = s.arena) (hlayers : s'.layers = s.layers)
    (hreads : ∀ r ∈ s.declarationReads, r ∈ s'.declarationReads)
    (hresolutions : s'.resolutions = s.resolutions) (hscopes : s'.scopes = s.scopes)
    (hproblems : s'.problems = [] → s.problems = []) : s.Goes [] s' where
  plain := h
  leads := {
    problems := hproblems
    stable := harena ▸ id
    reads := hreads
    shapes := fun _ x hx => ⟨x, by rwa [State.shape?, hlayers], .inl rfl, fun _ _ => rfl⟩
    resolutions := fun _ _ => by rw [hresolutions] }
  scopes := hscopes

theorem State.Goes.refl (h : s.Plain) : s.Goes [] s :=
  .quiet h rfl rfl (fun _ hr => hr) rfl rfl id

/-- Analysis goes on, and at most declares names in the current scope. -/
structure State.Moves (ids : List NodeId) (s s' : State) : Prop where
  plain : s'.Plain
  leads : s.Leads ids s'
  stays : s.scopes.Stays s'.scopes

theorem State.Goes.moves (h : s.Goes ids s') : s.Moves ids s' :=
  ⟨h.plain, h.leads, h.scopes ▸ .refl _⟩

theorem State.Moves.trans (h : s.Moves ids s') (h' : s'.Moves ids' s'') :
    s.Moves (ids ++ ids') s'' :=
  ⟨h'.plain, h.leads.trans h'.leads, h.stays.trans h'.stays⟩

theorem State.Moves.mono (h : s.Moves ids s') (hsub : ids ⊆ ids') : s.Moves ids' s' :=
  { h with leads := h.leads.mono hsub }

/-! ### The end of the pass -/

/-- A pass without problems whose names are all local ends here, and code is generated from what it
found. The pass is stable, or all variables have known representations, so none was widened. -/
structure State.Settles (s : State) (b : Body) : Prop where
  problems : s.problems = []
  firm : s.arena.unstable = false ∨ b.Typed
  resolutions : b.analysis.resolutions = s.resolutions
  locals : ∀ id m, s.resolutions.get? id ≠ some (.input m)
  rep : ∀ node x, s.shape? node = some x → x.IsScalar → b.rep node = x.scalarRep

/-- The variables in scope are those that can be seen, and have shapes of scalars. -/
structure State.InScope (s : State) (vs : Visible) : Prop where
  seen : ∃ seen, s.scopes.Chain s.scopes.current seen ∧ Scopes.Unhidden seen ∧
    vs = seen.map fun d => (d.1, d.2.symbol)
  scalar : ∀ v ∈ vs, ∃ x, s.shape? v.2.node = some x ∧ x.IsScalar

theorem State.InScope.scalar_of_leads (h : s.InScope vs) (hl : s.Leads ids s') :
    ∀ v ∈ vs, ∃ x, s'.shape? v.2.node = some x ∧ x.IsScalar := by
  intro v hv
  obtain ⟨x, hx, hscalar⟩ := h.scalar v hv
  obtain ⟨y, hy, hxy, _⟩ := hl.shapes _ x hx
  exact ⟨y, hy, hscalar.of_widens hxy⟩

theorem State.InScope.of_goes (h : s.InScope vs) (hg : s.Goes ids s') : s'.InScope vs where
  seen := hg.scopes ▸ h.seen
  scalar := h.scalar_of_leads hg.leads

theorem lookup_map_symbol (name : String) (seen : List (String × Declaration)) :
    OrderedMap.lookup name (seen.map fun d => (d.1, d.2.symbol)) =
      (OrderedMap.lookup name seen).map Declaration.symbol := by
  induction seen with
  | nil => rfl
  | cons d seen ih => by_cases hd : d.1 = name <;> simp [OrderedMap.lookup, hd, ih]

/-- A look-up that finds a variable finds the nearest one. -/
theorem State.InScope.lookup (h : s.InScope vs) {name : String} {offset : Nat} {symbol : Symbol}
    {scope : ScopeId} (hfind : s.scopes.find? name offset = some (symbol, scope)) :
    OrderedMap.lookup name vs = some symbol := by
  obtain ⟨seen, hchain, hseen, rfl⟩ := h.seen
  obtain ⟨d, hd, _, rfl⟩ := hchain.lookup_of_some hseen hchain.lt_size hfind
  rw [lookup_map_symbol, hd]
  rfl

/-! ### Actions -/

/-- What an action does and finds. From a state in which the variables `vs` are in scope, it goes to
one in which `visible vs` are in scope, and `φ` holds of its result at the end of the pass. -/
structure Finds {α : Type} (ids : List NodeId) (visible : Visible → Visible) (x : Analyze α)
    (P : α → Prop) (φ : Body → Visible → α → Prop) : Prop where
  moves : ∀ {s : State}, s.Plain → s.Moves ids (x s).2
  value : ∀ {s : State}, s.Plain → P (x s).1
  settles : ∀ {s last : State} {rest : List NodeId} {vs : Visible} {b : Body}, s.Plain →
    s.InScope vs → last.Settles b → (x s).2.Leads rest last → (ids ++ rest).Nodup →
      φ b vs (x s).1 ∧ (x s).2.InScope (visible vs)

/-- An action without a result. -/
abbrev Does (ids : List NodeId) (visible : Visible → Visible) (x : Analyze Unit)
    (φ : Body → Visible → Prop) : Prop :=
  Finds ids visible x (fun _ => True) fun b vs _ => φ b vs

namespace Finds

variable {α β : Type} {visible visible' : Visible → Visible} {x : Analyze α} {f : α → Analyze β}
  {P : α → Prop} {P' : β → Prop} {φ φ' : Body → Visible → α → Prop}
  {ψ : α → Body → Visible → β → Prop} {χ : Body → Visible → β → Prop}

theorem of_goes (h : ∀ s : State, s.Plain → s.Goes ids (x s).2 ∧ P (x s).1)
    (hφ : ∀ {s last : State} {rest : List NodeId} {vs : Visible} {b : Body}, s.Plain →
      s.InScope vs → last.Settles b → (x s).2.Leads rest last → (ids ++ rest).Nodup →
        φ b vs (x s).1) : Finds ids id x P φ where
  moves hs := (h _ hs).1.moves
  value hs := (h _ hs).2
  settles hs hv hlast hleads hnodup :=
    ⟨hφ hs hv hlast hleads hnodup, hv.of_goes (h _ hs).1⟩

theorem pure {a : α} (ha : P a) (h : ∀ b vs, φ b vs a) : Finds [] id (Pure.pure a) P φ :=
  of_goes (fun _ hs => ⟨.refl hs, ha⟩) fun _ _ _ _ _ => h _ _

theorem mono (h : Finds ids visible x P φ) (hφ : ∀ b vs a, φ b vs a → φ' b vs a) :
    Finds ids visible x P φ' where
  moves := h.moves
  value := h.value
  settles hs hv hlast hleads hnodup :=
    have hfound := h.settles hs hv hlast hleads hnodup
    ⟨hφ _ _ _ hfound.1, hfound.2⟩

theorem of_ids (h : Finds ids visible x P φ) (hids : ids.Sublist ids') :
    Finds ids' visible x P φ where
  moves hs := (h.moves hs).mono hids.subset
  value := h.value
  settles hs hv hlast hleads hnodup :=
    h.settles hs hv hlast hleads (hnodup.sublist (hids.append (.refl _)))

theorem of_perm (h : Finds ids visible x P φ) (hids : ids.Perm ids') : Finds ids' visible x P φ where
  moves hs := (h.moves hs).mono hids.subset
  value := h.value
  settles hs hv hlast hleads hnodup :=
    h.settles hs hv hlast hleads ((hids.append_right _).nodup_iff.mpr hnodup)

/-- The second action starts where the first one ends. -/
theorem andThen (hx : Finds ids visible x P φ) (hf : ∀ a, P a → Finds ids' visible' (f a) P' (ψ a)) :
    Finds (ids ++ ids') (fun vs => visible' (visible vs)) (x >>= f) P'
      fun b vs r => ∃ a, φ b vs a ∧ ψ a b (visible vs) r where
  moves hs := (hx.moves hs).trans ((hf _ (hx.value hs)).moves (hx.moves hs).plain)
  value hs := (hf _ (hx.value hs)).value (hx.moves hs).plain
  settles {s} _ _ _ _ hs hv hlast hleads hnodup := by
    have hnext := hf _ (hx.value hs)
    have hplain := (hx.moves hs).plain
    rw [List.append_assoc] at hnodup
    obtain ⟨hfirst, hv'⟩ := hx.settles hs hv hlast ((hnext.moves hplain).leads.trans hleads) hnodup
    obtain ⟨hsecond, hv''⟩ := hnext.settles hplain hv' hlast hleads (List.nodup_append.mp hnodup).2.1
    exact ⟨⟨_, hfirst, hsecond⟩, hv''⟩

theorem bind (hx : Finds ids id x P φ)
    (hf : ∀ a, P a → Finds ids' visible' (f a) P' fun b vs r => φ b vs a → χ b vs r) :
    Finds (ids ++ ids') visible' (x >>= f) P' χ :=
  (hx.andThen hf).mono fun _ _ _ ⟨_, ha, hr⟩ => hr ha

end Finds

/-! ### Small steps -/

theorem goes_report (h : s.Plain) (cause : Cause) (span : Span) :
    s.Goes [] (report cause span s).2 ∧ (report cause span s).2.problems ≠ [] := by
  have hne : (report cause span s).2.problems ≠ [] :=
    List.append_ne_nil_of_right_ne_nil s.problems (List.cons_ne_nil (Problem.mk cause span) [])
  exact ⟨.quiet { h with } rfl rfl (fun _ hr => hr) rfl rfl fun hp => absurd hp hne, hne⟩

theorem goes_insert (h : s.Plain) {node : NodeId} (hx : x ≠ Arena.undetermined)
    (hold : ∀ old, s.shape? node = some old → ShapeId.Widens old x ∧
      ((Layers.root, node) ∉ s.declarationReads ∨ s'.arena.unstable = true))
    (harena : s'.arena.Flat ∧ s'.arena.hosts = s.arena.hosts ∧
      (s'.arena.unstable = false → s.arena.unstable = false))
    (heq : s' = { s with
      arena := s'.arena
      layers := { s.layers with layers := s.layers.layers.modify Layers.root (·.insert node x) } }) :
    s.Goes [] s' ∧ s'.shape? node = some x := by
  have hshape : ∀ other, s'.shape? other = if other = node then some x else s.shape? other := by
    intro other
    rw [State.shape?, heq]
    exact Layers.get?_modify_root h.size other
  refine ⟨⟨?_, ?_, by rw [heq]⟩, by rw [hshape, if_pos rfl]⟩
  · rw [heq]
    refine { h with arena := harena.1, size := ?_, shapes := ?_, hosts := ?_ }
    · simpa using h.size
    · rw [← heq]
      intro other y hy
      rw [hshape] at hy
      split at hy
      · cases hy
        exact hx
      · exact h.shapes other y hy
    · simpa only [harena.2.1] using h.hosts
  · refine ⟨fun hp => by rwa [heq] at hp, harena.2.2, fun r hr => by rwa [heq], ?_,
      fun id _ => by rw [heq]⟩
    intro other y hy
    rw [hshape]
    split
    · next hother =>
        subst hother
        obtain ⟨hw, hread⟩ := hold y hy
        refine ⟨x, rfl, hw, fun hstable hr => ?_⟩
        rcases hread with hread | hread
        · exact absurd hr hread
        · rw [hstable] at hread
          cases hread
    · exact ⟨y, hy, .inl rfl, fun _ _ => rfl⟩

theorem goes_record (h : s.Plain) (node : NodeId) (hx : x ≠ Arena.undetermined) (span : Span) :
    s.Goes [] (record node x span s).2 ∧
      ((record node x span s).2.problems = [] →
        (record node x span s).2.shape? node = some x ∧ s.shape? node = none) := by
  cases hnew : s.layers.get? Layers.root node with
  | none =>
    have hrun : record node x span s = ((), { s with
        layers := { s.layers with
          layers := s.layers.layers.modify Layers.root (·.insert node x) } }) := by
      rw [record_run, h.stack, Layers.set?_root h.size hnew]
      rfl
    have hgoes : s.Goes [] (record node x span s).2 ∧
        (record node x span s).2.shape? node = some x :=
      goes_insert h hx (fun old hold => by cases hold.symm.trans hnew)
        (by rw [hrun]; exact ⟨h.arena, rfl, id⟩) (by rw [hrun])
    exact ⟨hgoes.1, fun _ => ⟨hgoes.2, hnew⟩⟩
  | some old =>
    have hrun : record node x span s = report (.compiler (.shapeAlreadySet node)) span s := by
      rw [record_run, h.stack]
      simp [Layers.set?, hnew]
    rw [hrun]
    exact ⟨(goes_report h _ span).1, fun hp => absurd hp (goes_report h _ span).2⟩

theorem does_record (node : NodeId) (hx : x ≠ Arena.undetermined) (span : Span) :
    Does [] id (record node x span) fun _ _ => True :=
  .of_goes (fun _ h => ⟨(goes_record h node hx span).1, trivial⟩) fun _ _ _ _ _ => trivial

theorem finds_note {n : Node} {φ : Body → Visible → ShapeId → Prop} (hx : x ≠ Arena.undetermined)
    (h : ∀ b vs, φ b vs x) : Finds [] id (note n x) (· ≠ Arena.undetermined) φ :=
  .of_goes (fun _ hs => ⟨(goes_record hs n.id hx n.span).1, hx⟩)
    fun _ _ _ _ _ => h _ _

theorem does_report (cause : Cause) (span : Span) : Does [] id (report cause span) fun _ _ => False :=
  .of_goes (fun _ hs => ⟨(goes_report hs cause span).1, trivial⟩) fun hs _ hlast hleads _ =>
    (goes_report hs cause span).2 (hleads.problems hlast.problems)

/-- A check that reports a problem, if there is one. -/
theorem does_check {x : Analyze Unit} {φ : Prop} (bad : State → Bool)
    (cause : State → Cause) (span : Span) (hrun : ∀ s, x s = if bad s then report (cause s) span s else ((), s))
    (hφ : ∀ s : State, s.Plain → bad s = false → φ) : Does [] id x fun _ _ => φ := by
  refine .of_goes (fun s hs => ⟨?_, trivial⟩) fun {s} _ _ _ _ hs _ hlast hleads _ => ?_
  · rw [hrun]
    split
    · exact (goes_report hs _ span).1
    · exact .refl hs
  · rw [hrun] at hleads
    cases hbad : bad s with
    | false => exact hφ s hs hbad
    | true =>
      rw [hbad] at hleads
      exact absurd (hleads.problems hlast.problems) (goes_report hs _ span).2

/-! ### Operators and conditions -/

theorem binaryShape?_ne {a : Arena} {op : BinOp} {l r : ShapeId}
    (h : binaryShape? a op l r = some x) : x ≠ Arena.undetermined := by
  have hx : x = Arena.bool ∨ x = Arena.unknown ∨ x = Arena.string ∨ x = Arena.number := by
    cases op <;> simp only [binaryShape?] at h <;> grind
  rcases hx with rfl | rfl | rfl | rfl <;> decide

theorem finds_binary (op : BinOp) (l r : ShapeId) (span : Span) :
    Finds [] id (binary op l r span) (· ≠ Arena.undetermined) fun _ _ x =>
      l.IsScalar → r.IsScalar → x.IsScalar ∧
        x.scalarRep = (Generate.binaryOp op l.scalarRep r.scalarRep).2 ∧
        (l.scalarRep ≠ .any → r.scalarRep ≠ .any → x.scalarRep ≠ .any ∧
          (Generate.binaryOp op l.scalarRep r.scalarRep).1.isDynamic = false) := by
  refine .of_goes (fun s hs => ?_) fun {s} _ _ _ _ hs _ hlast hleads _ hl hr => ?_
  · rw [binary_run]
    cases hb : binaryShape? s.arena op l r with
    | some shape => exact ⟨.refl hs, binaryShape?_ne hb⟩
    | none =>
      refine ⟨(goes_report hs _ span).1, ?_⟩
      show (if op.isOrdering then Arena.bool else Arena.unknown) ≠ Arena.undetermined
      split <;> decide
  · rw [binary_run] at hleads ⊢
    cases hb : binaryShape? s.arena op l r with
    | some shape =>
      obtain ⟨hscalar, hrep⟩ := ShapeId.binaryShape?_rep hs.arena hl hr hb
      refine ⟨hscalar, hrep, fun hl' hr' => ?_⟩
      have hdirect := ShapeId.binaryShape?_direct hs.arena hl hr hb hl' hr'
      exact ⟨hrep ▸ hdirect.2, hdirect.1⟩
    | none =>
      rw [hb] at hleads
      exact absurd (hleads.problems hlast.problems) (goes_report hs _ span).2

theorem finds_numeric (op : String) (x : ShapeId) (span : Span) :
    Finds [] id (numeric op x span) ShapeId.IsScalar fun _ _ y =>
      x.IsScalar → y.scalarRep = Body.stepRep x.scalarRep ∧
        (x.scalarRep ≠ .any → x.scalarRep = .num) := by
  have hrun : ∀ s, numeric op x span s =
      if s.arena.is x .number then (Arena.number, s)
      else if s.arena.isDynamic x then (Arena.unknown, s)
      else (Arena.unknown, (report (.type (.operand op (s.arena.describe x))) span s).2) := by
    intro s
    show (if s.arena.is x .number then pure Arena.number
      else do
        if !s.arena.isDynamic x then report (.type (.operand op (← describe x))) span
        return Arena.unknown : Analyze ShapeId) s = _
    cases s.arena.is x .number <;> cases s.arena.isDynamic x <;> rfl
  refine .of_goes (fun s hs => ?_) fun {s} _ _ _ _ hs _ hlast hleads _ hx => ?_
  · rw [hrun]
    split
    · exact ⟨.refl hs, .inr (.inl rfl)⟩
    · split
      · exact ⟨.refl hs, .inl rfl⟩
      · exact ⟨(goes_report hs _ span).1, .inl rfl⟩
  · rw [hrun, hx.is_number hs.arena, hx.isDynamic hs.arena] at hleads ⊢
    rw [Body.stepRep]
    by_cases hnum : x.scalarRep = .num
    · simp only [hnum, decide_true, if_true]
      exact ⟨rfl, fun _ => trivial⟩
    · simp only [hnum, decide_false, Bool.false_eq_true, if_false] at hleads ⊢
      by_cases hany : x.scalarRep = .any
      · simp only [hany, decide_true, if_true]
        exact ⟨rfl, fun h => absurd rfl h⟩
      · simp only [hany, decide_false, Bool.false_eq_true, if_false] at hleads
        exact absurd (hleads.problems hlast.problems) (goes_report hs _ span).2

/-- A known condition is a bool, if there is no problem with it. -/
theorem does_checkCondition (x : ShapeId) (span : Span) :
    Does [] id (checkCondition x span) fun _ _ =>
      x.IsScalar → x.scalarRep ≠ .any → x.scalarRep = .bool := by
  refine does_check (fun s => !s.arena.isDynamic x && !s.arena.is x .bool)
    (fun s => .type (.condition (s.arena.describe x))) span (fun s => ?_) fun s hs hgood hx hne => ?_
  · show (do if !s.arena.isDynamic x && !s.arena.is x .bool then
            report (.type (.condition (← describe x))) span : Analyze Unit) s = _
    cases !s.arena.isDynamic x && !s.arena.is x .bool <;> rfl
  · rw [hx.isDynamic hs.arena, hx.is_bool hs.arena] at hgood
    simpa [hne] using hgood

/-! ### Names -/

theorem goes_resolveNode (h : s.Plain) (id : NodeId) (r : Resolution) :
    s.Goes [id] (resolveNode id r s).2 where
  plain := { h with }
  leads := {
    problems := fun hp => hp
    stable := fun hs => hs
    reads := fun _ hr => hr
    shapes := fun _ x hx => ⟨x, hx, .inl rfl, fun _ _ => rfl⟩
    resolutions := fun _ hother =>
      OrderedMap.get?_insert_of_ne s.resolutions r fun he => hother (he ▸ List.mem_singleton_self _) }
  scopes := rfl

/-- At the end a name means what it meant where it stands: the nearest variable. -/
theorem finds_resolve? (ctx : Context) (n : Node) (name : String) :
    Finds [n.id] id (resolve? ctx n name) (fun _ => True) fun b vs r =>
      ∃ symbol, r = some (.local symbol) ∧ OrderedMap.lookup name vs = some symbol ∧
        b.analysis.resolutions.get? n.id = some (.local symbol) := by
  refine .of_goes (fun s hs => ⟨?_, trivial⟩) fun {s} _ _ _ _ hs hv hlast hleads hnodup => ?_
  · rw [resolve?_run]
    cases s.meaning? ctx n name with
    | none => exact (goes_report hs _ n.span).1.mono (List.nil_subset _)
    | some r => exact goes_resolveNode hs n.id r
  · rw [resolve?_run] at hleads ⊢
    cases hm : s.meaning? ctx n name with
    | none =>
      rw [hm] at hleads
      exact absurd (hleads.problems hlast.problems) (goes_report hs _ n.span).2
    | some r =>
      rw [hm] at hleads
      have hget := (hleads.resolutions n.id (List.nodup_cons.mp hnodup).1).trans
        (OrderedMap.get?_insert_self ..)
      cases r with
      | input m => exact absurd hget (hlast.locals _ m)
      | «local» symbol =>
        obtain ⟨scope, hfind⟩ := meaning?_local hm
        exact ⟨symbol, rfl, hv.lookup hfind, by rw [hlast.resolutions, hget]⟩

/-- No lambda stands around, so no use captures. -/
theorem State.Plain.noteUse (h : s.Plain) (symbol : Symbol) : s.noteUse symbol = s := by
  rw [State.noteUse, h.owners, h.enclosing]
  rfl

theorem State.Plain.readSymbol (h : s.Plain) (symbol : Symbol) :
    readSymbol symbol s = ((s.shape? symbol.node).getD Arena.unknown, s.noteRead symbol) := by
  rw [readSymbol_run, h.noteUse, h.stack, Layers.shape?_root]
  rfl

/-- A variable that is read keeps its shape to the end. -/
theorem State.Settles.shape?_of_read {last : State} {rest : List NodeId} {b : Body} {id : NodeId}
    {symbol : Symbol} {x : ShapeId} (h : last.Settles b)
    (hget : b.analysis.resolutions.get? id = some (.local symbol)) (hx : x.IsScalar)
    (hleads : s.Leads rest last) (hshape : s.shape? symbol.node = some x)
    (hread : (Layers.root, symbol.node) ∈ s.declarationReads) :
    last.shape? symbol.node = some x := by
  obtain ⟨y, hy, hxy, hkept⟩ := hleads.shapes _ x hshape
  rcases h.firm with hstable | hty
  · rwa [hkept hstable hread] at hy
  · rcases hxy with rfl | rfl
    · exact hy
    · exact absurd (h.rep _ _ hy (.inl rfl)) (hty _ _ hget)

/-- Reading a variable gives its shape, on which the pass then counts. -/
theorem finds_readSymbol (symbol : Symbol) :
    Finds [] id (readSymbol symbol) (· ≠ Arena.undetermined) fun b vs x =>
      ∀ {name id}, OrderedMap.lookup name vs = some symbol →
        b.analysis.resolutions.get? id = some (.local symbol) →
          x.IsScalar ∧ b.rep symbol.node = x.scalarRep := by
  refine .of_goes (fun s hs => ?_) fun {s} _ _ _ _ hs hv hlast hleads _ name id hlookup hget => ?_
  · rw [hs.readSymbol]
    refine ⟨.quiet { hs with } rfl rfl ?_ rfl rfl id, ?_⟩
    · intro r hr
      simp only [State.noteRead]
      split
      · exact List.mem_insert_of_mem hr
      · exact hr
    · cases hx : s.shape? symbol.node with
      | none => exact Nat.zero_ne_one
      | some x => exact hs.shapes _ x hx
  · rw [hs.readSymbol] at hleads ⊢
    obtain ⟨x, hx, hscalar⟩ := hv.scalar _ (OrderedMap.mem_of_lookup hlookup)
    have hfind : s.layers.find? s.stack symbol.node = some Layers.root := by
      rw [hs.stack, Layers.find?_root, show s.layers.get? Layers.root symbol.node = some x from hx]
      rfl
    have hread : (Layers.root, symbol.node) ∈ (s.noteRead symbol).declarationReads := by
      simp only [State.noteRead, hfind]
      exact List.mem_insert_self
    have hend := hlast.shape?_of_read hget hscalar hleads hx hread
    simp only [show s.shape? symbol.node = some x from hx, Option.getD_some]
    exact ⟨hscalar, hlast.rep _ _ hend hscalar⟩

theorem does_noteUse (symbol : Symbol) : Does [] id (noteUse symbol) fun _ _ => True :=
  .of_goes (fun s hs => ⟨by rw [noteUse_run, hs.noteUse]; exact .refl hs, trivial⟩)
    fun _ _ _ _ _ => trivial

/-! ### Members of the input -/

theorem goes_arena (h : s.Plain) {a : Arena} (ha : a.Flat)
    (hosts : ∀ id x, a.hosts.get? id = some x → x ≠ Arena.undetermined)
    (hstable : a.unstable = s.arena.unstable) : s.Goes [] { s with arena := a } where
  plain := { h with arena := ha, hosts := hosts }
  leads := {
    problems := fun hp => hp
    stable := fun hs => hstable ▸ hs
    reads := fun _ hr => hr
    shapes := fun _ x hx => ⟨x, hx, .inl rfl, fun _ _ => rfl⟩
    resolutions := fun _ _ => rfl }
  scopes := rfl

theorem goes_push (h : s.Plain) {shape : Shape} (hshape : shape.isFlat = true) :
    s.Goes [] (inArena (·.push shape) s).2 ∧ (inArena (·.push shape) s).1 ≠ Arena.undetermined :=
  ⟨goes_arena h (h.arena.push hshape) h.hosts rfl, h.arena.size_ne⟩

theorem goes_host (h : s.Plain) (id : HostTypeId) :
    s.Goes [] (inArena (·.host id) s).2 ∧ (inArena (·.host id) s).1 ≠ Arena.undetermined := by
  have hrun : inArena (·.host id) s = ((s.arena.host id).1, { s with arena := (s.arena.host id).2 }) :=
    rfl
  rw [hrun]
  cases hget : s.arena.hosts.get? id with
  | some x =>
    rw [Arena.host, hget]
    exact ⟨.refl h, h.hosts id x hget⟩
  | none =>
    rw [Arena.host, hget]
    have hflat := h.arena.push (show (Shape.concrete (.host id)).isFlat = true from rfl)
    refine ⟨goes_arena h (hflat.of_shapes rfl) ?_ rfl, h.arena.size_ne⟩
    intro other x hx
    rw [Arena.push, OrderedMap.get?_insert] at hx
    split at hx
    · cases hx
      exact h.arena.size_ne
    · exact h.hosts other x hx

theorem goes_ofType (h : s.Plain) (ty : TypeRef) :
    s.Goes [] (inArena (·.ofType ty) s).2 ∧ (inArena (·.ofType ty) s).1 ≠ Arena.undetermined := by
  cases ty with
  | host id => exact goes_host h id
  | number _ => exact ⟨.refl h, (by decide : Arena.number ≠ Arena.undetermined)⟩
  | bool => exact ⟨.refl h, (by decide : Arena.bool ≠ Arena.undetermined)⟩
  | string => exact ⟨.refl h, (by decide : Arena.string ≠ Arena.undetermined)⟩
  | _ => exact ⟨.refl h, Nat.zero_ne_one⟩

theorem goes_hostMemberShape (h : s.Plain) (m : Member) (span : Span) :
    s.Goes [] (hostMemberShape m span s).2 ∧
      (hostMemberShape m span s).1 ≠ Arena.undetermined := by
  unfold hostMemberShape
  split
  · exact goes_push h rfl
  · split
    · exact ⟨(goes_report h (.type (.writeOnly m.qualifiedName)) span).1, Nat.zero_ne_one⟩
    · cases m.valueType? with
      | some ty => exact goes_ofType h ty
      | none => exact ⟨.refl h, Nat.zero_ne_one⟩

theorem finds_hostMemberShape (m : Member) (span : Span) :
    Finds [] id (hostMemberShape m span) (· ≠ Arena.undetermined) fun _ _ _ => True :=
  .of_goes (fun _ hs => goes_hostMemberShape hs m span) fun _ _ _ _ _ => trivial

theorem finds_ident (ctx : Context) (n : Node) (name : String) :
    Finds [n.id] id (ident ctx n name) (· ≠ Arena.undetermined) fun b vs x =>
      ∃ symbol, OrderedMap.lookup name vs = some symbol ∧
        b.analysis.resolutions.get? n.id = some (.local symbol) ∧
        x.IsScalar ∧ b.rep symbol.node = x.scalarRep := by
  refine (finds_resolve? ctx n name).bind fun r _ => (?_ : Finds [] _ _ _ _)
  match r with
  | some (.local symbol) =>
    refine (finds_readSymbol symbol).mono fun b vs x hx ⟨symbol', hr, hlookup, hget⟩ => ?_
    cases hr
    exact ⟨symbol, hlookup, hget, hx hlookup hget⟩
  | some (.input m) =>
    exact (finds_hostMemberShape m n.span).mono fun _ _ _ _ ⟨_, hr, _⟩ => by cases hr
  | none => exact .pure Nat.zero_ne_one fun _ _ ⟨_, hr, _⟩ => by cases hr

/-! ### Stores -/

/-- A store widens the variable. If the variable was read before, the pass becomes unstable. -/
theorem goes_storeLocal (h : s.Plain) (symbol : Symbol) (hvalue : value ≠ Arena.undetermined) :
    s.Goes [] (storeLocal symbol value s).2 ∧
      ∀ old, s.shape? symbol.node = some old →
        (storeLocal symbol value s).2.shape? symbol.node = some (s.arena.derive old value).1 := by
  cases hold : s.shape? symbol.node with
  | none =>
    rw [storeLocal_eq, h.stack, Layers.shape?_root, show s.layers.get? Layers.root _ = none from hold]
    exact ⟨.refl h, fun old ho => by cases ho⟩
  | some old =>
    obtain ⟨harena, hwidens⟩ := h.arena.derive (h.shapes _ old hold) hvalue
    have hrun : (storeLocal symbol value s).2 = if (s.arena.derive old value).1 = old then s
        else s.widen symbol (s.arena.derive old value).1 := by
      have hshape : s.layers.shape? s.stack symbol.node = some old := by
        rw [h.stack, Layers.shape?_root]
        exact hold
      rw [storeLocal_eq, hshape]
      dsimp only
      rw [harena, Arena.same, h.arena.resolve, h.arena.resolve]
      by_cases heq : (s.arena.derive old value).1 = old <;> simp [heq]
    suffices hgoes : s.Goes [] (storeLocal symbol value s).2 ∧
        (storeLocal symbol value s).2.shape? symbol.node = some (s.arena.derive old value).1 from
      ⟨hgoes.1, fun old' ho => by cases ho; exact hgoes.2⟩
    rw [hrun]
    by_cases heq : (s.arena.derive old value).1 = old
    · rw [if_pos heq]
      exact ⟨.refl h, by rw [heq, hold]⟩
    · rw [if_neg heq]
      have hne : (s.arena.derive old value).1 ≠ Arena.undetermined := by
        rcases hwidens with hw | hw <;> rw [hw]
        · exact h.shapes _ old hold
        · exact Nat.zero_ne_one
      generalize (s.arena.derive old value).1 = derived at *
      have hwiden : s.widen symbol derived = { s with
          arena := (s.widen symbol derived).arena
          layers := { s.layers with
            layers := s.layers.layers.modify Layers.root (·.insert symbol.node derived) } } := by
        rw [State.widen, h.stack, Layers.replace_root h.size h.thawed]
      have harena : (s.widen symbol derived).arena =
          if (Layers.root, symbol.node) ∈ s.declarationReads then
            s.arena.forceDeclaration symbol.node else s.arena := by
        rw [State.widen, h.stack, Layers.replace_root h.size h.thawed]
        simp
      refine goes_insert h hne ?_ ?_ hwiden
      · intro old' ho
        cases hold.symm.trans ho
        refine ⟨hwidens, ?_⟩
        rw [harena]
        by_cases hmem : (Layers.root, symbol.node) ∈ s.declarationReads
        · exact .inr (by simp [hmem, Arena.forceDeclaration])
        · exact .inl hmem
      · rw [harena]
        split
        · exact ⟨h.arena.of_shapes rfl, rfl, fun hs => by cases hs⟩
        · exact ⟨h.arena, rfl, id⟩

theorem does_checkAccepts (ty : TypeRef) (x : ShapeId) (use owner : String) (span : Span) :
    Does [] id (checkAccepts ty x use owner span) fun _ _ => True := by
  refine does_check (fun s => !ty.accepts s.arena x)
    (fun s => .type (.notAccepted (s.arena.describe x) use owner ty)) span (fun s => ?_)
    fun _ _ _ => trivial
  show (do if !ty.accepts s.arena x then
          report (.type (.notAccepted (← describe x) use owner ty)) span : Analyze Unit) s = _
  cases !ty.accepts s.arena x <;> rfl

/-- What is stored in a variable has the representation of the variable, or the variable takes any
value. -/
theorem does_store (ctx : Context) {p : Place} (hp : ∃ r, p = placeOf r)
    (hx : x ≠ Arena.undetermined) (span : Span) : Does [] id (store ctx p x span) fun b vs =>
      ∀ {name symbol}, p = .local symbol → OrderedMap.lookup name vs = some symbol →
        x.IsScalar → x.scalarRep.Enters (b.rep symbol.node) := by
  obtain ⟨r, rfl⟩ := hp
  match r with
  | some (.local symbol) =>
    refine .of_goes (fun s hs => ⟨(goes_storeLocal hs symbol hx).1, trivial⟩) ?_
    intro s last rest vs b hs hv hlast hleads _ name symbol' hr hlookup hscalar
    cases hr
    -- the variable is widened to hold the value, and widens further until the end
    obtain ⟨old, hold, holdScalar⟩ := hv.scalar _ (OrderedMap.mem_of_lookup hlookup)
    obtain ⟨y, hy, hwy, _⟩ := hleads.shapes _ _ ((goes_storeLocal hs symbol hx).2 old hold)
    have hwidens := (holdScalar.widens_derive hs.arena hscalar).trans hwy
    rw [hlast.rep _ y hy (hscalar.of_widens hwidens)]
    exact ShapeId.enters_of_widens hwidens
  | some (.input m) =>
    show Does [] id (checkHostStore m x span) _
    unfold checkHostStore
    split
    · exact (does_report _ span).mono fun _ _ _ h => h.elim
    · cases m.valueType? with
      | some ty =>
        exact (does_checkAccepts ty x "member" m.qualifiedName span).mono fun _ _ _ _ _ _ hr => by
          cases hr
      | none => exact .pure trivial fun _ _ _ _ hr => by cases hr
  | none => exact .pure trivial fun _ _ _ _ hr => by cases hr

theorem finds_placeShape (ctx : Context) {p : Place} (hp : ∃ r, p = placeOf r) (span : Span) :
    Finds [] id (placeShape ctx p span) (· ≠ Arena.undetermined) fun b vs x =>
      ∀ {name id symbol}, p = .local symbol → OrderedMap.lookup name vs = some symbol →
        b.analysis.resolutions.get? id = some (.local symbol) →
          x.IsScalar ∧ b.rep symbol.node = x.scalarRep := by
  obtain ⟨r, rfl⟩ := hp
  match r with
  | some (.local symbol) =>
    refine (finds_readSymbol symbol).mono fun b vs x hx name id symbol' hr => ?_
    cases hr
    exact hx
  | some (.input m) =>
    exact (finds_hostMemberShape m span).mono fun _ _ _ _ _ _ _ hr => by cases hr
  | none => exact .pure Nat.zero_ne_one fun _ _ _ _ _ hr => by cases hr

/-- The place that a name stands for. -/
theorem finds_place (ctx : Context) (enter : Enter) (n : Node) (name : String) :
    Finds [n.id] id (place ctx enter (.ident n name)) (fun p => ∃ r, p = placeOf r) fun b vs p =>
      ∃ symbol, p = .local symbol ∧ OrderedMap.lookup name vs = some symbol ∧
        b.analysis.resolutions.get? n.id = some (.local symbol) := by
  rw [place]
  refine (finds_resolve? ctx n name).bind fun r _ => (?_ : Finds [] _ _ _ _)
  rcases r with _ | symbol | m
  · refine .pure ⟨none, rfl⟩ ?_
    rintro _ _ ⟨_, hr, _⟩
    cases hr
  · refine Finds.bind (does_noteUse symbol) fun _ _ => .pure ⟨some (.local symbol), rfl⟩ ?_
    rintro b vs - ⟨symbol', hr, hfound⟩
    cases hr
    exact ⟨symbol, rfl, hfound⟩
  · refine .pure ⟨some (.input m), rfl⟩ ?_
    rintro _ _ ⟨_, hr, _⟩
    cases hr

/-! ### Declarations -/

/-- Other scopes and owners, in a state that is otherwise the same. -/
theorem moves_scopes (h : s.Plain) {scopes : Scopes} {owners : NumberedMap Symbol (Option NodeId)}
    {declared : List (Symbol × String × Span)} (hstays : s.scopes.Stays scopes)
    (howners : ∀ symbol, (owners.get? symbol).join = none) :
    s.Moves [] { s with scopes, owners, declared } where
  plain := { h with owners := howners, current := hstays.lt_size h.current }
  leads := {
    problems := fun hp => hp
    stable := fun hs => hs
    reads := fun _ hr => hr
    shapes := fun _ x hx => ⟨x, hx, .inl rfl, fun _ _ => rfl⟩
    resolutions := fun _ _ => rfl }
  stays := hstays

theorem moves_declareName (h : s.Plain) (name : String) (symbol : Symbol) (span : Span) :
    s.Moves [] (s.declareName name symbol span) ∧
      (s.declareName name symbol span).shape? = s.shape? ∧
      ((s.declareName name symbol span).problems = [] →
        s.scopes.declare name symbol span.start = .ok (s.declareName name symbol span).scopes) := by
  unfold State.declareName
  cases hd : s.scopes.declare name symbol span.start with
  | ok scopes =>
    exact ⟨moves_scopes h (.of_declare hd) h.owners, rfl, fun _ => rfl⟩
  | error problem =>
    have hreport := goes_report h (.scope problem) span
    exact ⟨hreport.1.moves, rfl, fun hp => absurd hp hreport.2⟩

theorem moves_declare (h : s.Plain) (name : String) (id : NodeId) (hx : x ≠ Arena.undetermined)
    (span : Span) :
    s.Moves [] (declare name (.var id) x span s).2 ∧
      ((declare name (.var id) x span s).2.problems = [] →
        s.shape? id = none ∧
        (declare name (.var id) x span s).2.shape? id = some (s.declaredShape id x) ∧
        s.scopes.declare name (.var id) span.start =
          .ok (declare name (.var id) x span s).2.scopes) := by
  have hne : s.declaredShape id x ≠ Arena.undetermined := by
    unfold State.declaredShape
    split
    · exact Nat.zero_ne_one
    · exact hx
  rw [declare_run]
  dsimp only [Symbol.node]
  obtain ⟨hrecord, hnew⟩ := goes_record h id hne span
  generalize (record id (s.declaredShape id x) span s).2 = s₁ at *
  obtain ⟨hname, hshape, hscopes⟩ := moves_declareName hrecord.plain name (.var id) span
  generalize s₁.declareName name (.var id) span = s₂ at *
  refine ⟨(hrecord.moves.trans hname).trans (moves_scopes hname.plain (.refl _) ?_), ?_⟩
  · intro symbol
    rw [hname.plain.enclosing, NumberedMap.get?_insert]
    split
    · rfl
    · exact hname.plain.owners symbol
  · intro hp
    obtain ⟨hx', hfree⟩ := hnew (hname.leads.problems hp)
    refine ⟨hfree, ?_, ?_⟩
    · exact (congrFun hshape id).trans hx'
    · rw [← hrecord.scopes]
      exact hscopes hp

end Analysis

end HostScript
