import HostScript.Proofs.Shape.Edits

/-!
# Links have no cycles and stay

Whatever operations built an arena, its links have no cycles, so `resolve` finds data within its
budget. Merging ends as well, also for shapes that contain each other: every merge inside another
one comes after one more record or array was forwarded. Shapes that lead to one place do so ever
after. -/

namespace HostScript.Arena

variable {N : String → Prop} {a b c : Arena} {i r x y : ShapeId} {shape : Shape}

/-! ### Operations -/

/-- One operation on an arena. The shapes of a signature and the signature of a call are there
before; the shapes that are merged, read or written need not be. -/
inductive Operates (a : Arena) : Arena → Prop where
  | host (id : HostTypeId) : Operates a (a.host id).2
  | newRecord (origin : NodeId) (fields : OrderedMap String ShapeId) :
      Operates a (a.newRecord origin fields).2
  | newArray (origin : NodeId) (element : ShapeId) : Operates a (a.newArray origin element).2
  | hostMethod (m : Member) : Operates a (a.push (.hostMethod m)).2
  | lambda {l : LambdaShape} :
      (∀ s ∈ l.signatures, ∀ p ∈ s.ret :: s.args, p < a.shapes.size) →
      Operates a (a.push (.lambda l)).2
  | signature {s : Signature} (method : ShapeId) : (∀ p ∈ s.ret :: s.args, p < a.shapes.size) →
      Operates a (a.modifyLambda method fun l => { l with signatures := l.signatures ++ [s] })
  | newCall {method : ShapeId} {k : Nat} {s : Signature} : a.signature? method k = some s →
      Operates a (a.newCall method k).2
  | derive (x y : ShapeId) : Operates a (a.derive x y).2
  | readField (record : ShapeId) (name : String) : Operates a (a.readField record name).2
  | writeField (record : ShapeId) (name : String) (value : ShapeId) :
      Operates a (a.writeField record name value).2
  | readElement (array : ShapeId) : Operates a (a.readElement array).2
  | writeElement (array value : ShapeId) : Operates a (a.writeElement array value).2
  | freeze : Operates a a.freeze.2
  | thaw (bound : Nat) : Operates a (a.thaw bound)

/-- The arenas that operations build, one after the other. -/
def Built (a : Arena) : Prop :=
  ∃ widening : Widening, Relation.ReflTransGen Operates { widening } a

/-! ### What operations keep -/

/-- What all arenas that operations build have in common. -/
structure Tied (a : Arena) : Prop extends Based (fun _ => True) a where
  nonempty : Arena.unknown < a.shapes.size
  enclosed : a.Enclosed

/-- Where a link leads later is decided by where it led. -/
def Follows (a b : Arena) : Prop :=
  ∀ i, b.resolve i = b.resolve (a.resolve i)

theorem Follows.trans (h : Follows a b) (h' : Follows b c) : Follows a c := by
  intro i
  rw [h' i, h i, ← h' (a.resolve i)]

/-- A later arena that is still tied, and in which links follow. -/
structure Preserves (a b : Arena) : Prop where
  tied : b.Tied
  follows : Follows a b

section

variable (h : a.Tied)

include h

theorem Tied.preserves_refl : Preserves a a :=
  ⟨h, fun i => (h.grounded.resolve_resolve i).symm⟩

omit h in
theorem tied_start (widening : Widening) : ({ widening } : Arena).Tied where
  unknown := rfl
  nonempty := (sound_start widening).unknown_lt_size
  rooted := fun i hi => by
    by_cases hlt : i < 5
    · have hget : ({ widening } : Arena).get i = ({} : Arena).get i := rfl
      rw [hget, isCompound_first i hlt] at hi
      cases hi
    · rw [get_of_ge (Nat.le_of_not_lt hlt)] at hi
      cases hi
  grounded := (sound_start widening).grounded
  named := fun _ _ _ => trivial
  enclosed := (sound_start widening).enclosed

theorem Tied.of_shapes (hs : b.shapes = a.shapes) : Preserves a b where
  tied :=
    { unknown := (get_of_shapes hs _).trans h.unknown
      nonempty := hs ▸ h.nonempty
      rooted := fun i hi => by
        rw [get_of_shapes hs] at hi
        rw [Arena.origins, get_of_shapes hs]
        exact h.rooted i hi
      grounded := h.grounded.of_shapes hs
      named := fun _ _ _ => trivial
      enclosed := fun i t ht => by
        rw [get_of_shapes hs] at ht
        rw [hs]
        exact h.enclosed i t ht }
  follows := fun i => by
    rw [resolve_of_shapes hs, resolve_of_shapes hs, h.grounded.resolve_resolve]

theorem Tied.push (hties : ∀ t ∈ shape.ties, t < a.shapes.size)
    (hroot : shape.isCompound = true → ∃ o, ((a.push shape).2.origins a.shapes.size).head? = some o)
    (hnew : ∃ r, (a.push shape).2.Resolves a.shapes.size r) : Preserves a (a.push shape).2 where
  tied :=
    { unknown := (get_push_of_lt h.nonempty).trans h.unknown
      nonempty := by
        rw [size_push]
        exact Nat.lt_succ_of_lt h.nonempty
      rooted := h.rooted.push hroot
      named := fun _ _ _ => trivial
      grounded := h.grounded.push h.enclosed hnew
      enclosed := fun i t ht => by
        rw [size_push]
        rw [get_push] at ht
        split at ht
        · exact Nat.lt_succ_of_lt (hties t ht)
        · exact Nat.lt_succ_of_lt (h.enclosed i t ht) }
  follows := fun i => by
    by_cases hi : i < a.shapes.size
    · have hr := h.grounded.resolves i
      have hlt := h.enclosed.lt_size_of_resolves hr hi
      have hdata : ((a.push shape).2.get (a.resolve i)).isLink = false := by
        rw [get_push_of_lt hlt]
        exact hr.isLink
      exact (h.enclosed.resolves_push hr hi).resolve_eq.trans (resolve_of_data hdata).symm
    · -- What is not there yet leads to itself.
      rw [resolve_of_data (a := a) (by rw [get_of_ge (Nat.le_of_not_lt hi)]; rfl)]

theorem Tied.push_data (hties : ∀ t ∈ shape.ties, t < a.shapes.size)
    (hroot : shape.isCompound = true → ∃ o, ((a.push shape).2.origins a.shapes.size).head? = some o)
    (hdata : shape.isLink = false) : Preserves a (a.push shape).2 :=
  h.push hties hroot ⟨_, .data (by rwa [get_push_self])⟩

theorem Tied.edits (he : Edits (fun _ => True) a b) : Preserves a b where
  tied :=
    { h.toBased.edits he with
      nonempty := he.evolves.size ▸ h.nonempty
      enclosed := fun i t ht => by
        rw [he.evolves.size]
        cases hc : (a.get i).isCompound with
        | true =>
          rcases he.evolves.compound hc with hkind | ⟨target, hb, htarget⟩
          · rw [Shape.ties_of_isCompound hkind.isCompound] at ht
            cases ht
          · rw [hb] at ht
            cases List.mem_singleton.mp ht
            exact lt_size_of_isCompound htarget.isCompound
        | false =>
          rw [he.evolves.other hc] at ht
          exact h.enclosed i t ht }
  follows := he.evolves.resolve h.grounded (h.toBased.edits he).grounded

theorem Tied.edited (he : Edited (fun _ => True) a b) : Preserves a b := by
  induction he with
  | refl => exact h.preserves_refl
  | tail _ he ih =>
    have hstep := ih.tied.edits he
    exact ⟨hstep.tied, ih.follows.trans hstep.follows⟩

theorem Tied.modifyLambda (x : ShapeId) {f : LambdaShape → LambdaShape}
    (hgrows : ∀ l, l.signatures <+: (f l).signatures)
    (hties : ∀ l, a.resolved x = .lambda l → ∀ t ∈ (Shape.lambda (f l)).ties, t < a.shapes.size) :
    Preserves a (a.modifyLambda x f) := by
  rw [Arena.modifyLambda]
  split
  next l hl =>
    have hget : a.get (a.resolve x) = .lambda l := hl
    have hresolves (i : ShapeId) : (a.set (a.resolve x) (.lambda (f l))).Resolves i (a.resolve i) :=
      (h.grounded.resolves i).later (f := id) (links_set_lambda hget (hgrows l))
        (fun hj => .data (isLink_set_lambda hj)) fun _ => rfl
    refine ⟨⟨⟨?_, fun i hi => ?_, fun i => ⟨_, hresolves i⟩, fun _ _ _ => trivial⟩, ?_,
      fun i t ht => ?_⟩, fun i => ?_⟩
    · rw [get_set_of_ne, h.unknown]
      intro heq
      rw [← heq, h.unknown] at hget
      cases hget
    · rw [get_set] at hi
      split at hi
      · cases hi
      next hne =>
        rw [Arena.origins, get_set, if_neg hne]
        exact h.rooted i hi
    · rw [size_set]
      exact h.nonempty
    · rw [size_set]
      rw [get_set] at ht
      split at ht
      · exact hties l hl t ht
      · exact h.enclosed i t ht
    · rw [(hresolves i).resolve_eq, (hresolves (a.resolve i)).resolve_eq,
        h.grounded.resolve_resolve]
  next => exact h.preserves_refl

theorem Tied.newCall {k : Nat} {s : Signature} (hsig : a.signature? x k = some s) :
    Preserves a (a.newCall x k).2 := by
  obtain ⟨l, hl, hk⟩ := Option.bind_eq_some_iff.mp hsig
  have hget : a.get (a.resolve x) = .lambda l := get_of_lambda? hl
  have hx : x < a.shapes.size := by
    refine Nat.lt_of_not_le fun hge => ?_
    rw [resolve_of_data (by rw [get_of_ge hge]; rfl), get_of_ge hge] at hget
    cases hget
  have hmethod := h.grounded.resolves x
  refine h.push (fun t ht => ?_) (fun hc => by cases hc) ⟨_, .result get_push_self
    (h.enclosed.resolves_push hmethod hx)
    ((get_push_of_lt (h.enclosed.lt_size_of_resolves hmethod hx)).trans hget) hk
    (h.enclosed.resolves_push (h.grounded.resolves s.ret) (h.enclosed.ret hget hk))⟩
  cases List.mem_singleton.mp ht
  exact hx

theorem Tied.host (id : HostTypeId) : Preserves a (a.host id).2 := by
  rw [Arena.host]
  split
  · exact h.preserves_refl
  · have hpush : Preserves a (a.push (.concrete (.host id))).2 :=
      h.push_data (fun _ ht => by cases ht) (fun hc => by cases hc) rfl
    have hnote := hpush.tied.of_shapes (b := { (a.push (.concrete (.host id))).2 with
      hosts := a.hosts.insert id a.shapes.size }) rfl
    exact ⟨hnote.tied, hpush.follows.trans hnote.follows⟩

/-- Every operation keeps arenas tied. -/
theorem Tied.operates (ho : Operates a b) : Preserves a b := by
  cases ho with
  | host id => exact h.host id
  | newRecord origin fields =>
    refine h.push_data (fun _ ht => by cases ht) (fun _ => ⟨origin, ?_⟩) rfl
    rw [origins_of_record get_push_self]
    rfl
  | newArray origin element =>
    refine h.push_data (fun _ ht => by cases ht) (fun _ => ⟨origin, ?_⟩) rfl
    rw [origins_of_array get_push_self]
    rfl
  | hostMethod m => exact h.push_data (fun _ ht => by cases ht) (fun hc => by cases hc) rfl
  | lambda hin =>
    refine h.push_data (fun t ht => ?_) (fun hc => by cases hc) rfl
    obtain ⟨s, hs, rfl⟩ := List.mem_map.mp ht
    exact hin s hs _ List.mem_cons_self
  | @signature s method hin =>
    refine h.modifyLambda method (fun l => List.prefix_append ..) fun l hl t ht => ?_
    rw [Shape.ties, List.map_append] at ht
    rcases List.mem_append.mp ht with hold | hnew
    · exact h.enclosed (a.resolve method) t (by rw [show a.get _ = _ from hl]; exact hold)
    · cases List.mem_singleton.mp hnew
      exact hin _ List.mem_cons_self
  | newCall hsig => exact h.newCall hsig
  | derive x y => exact h.edited (h.toBased.derive x y)
  | readField record name =>
    refine h.of_shapes ?_
    rw [Arena.readField]
    split <;> rfl
  | writeField record name value => exact h.edited (h.toBased.writeField record trivial value)
  | readElement array =>
    refine h.of_shapes ?_
    rw [Arena.readElement]
    split <;> rfl
  | writeElement array value => exact h.edited (h.toBased.writeElement array value)
  | freeze | thaw bound => exact h.of_shapes rfl

theorem Tied.later (hab : Relation.ReflTransGen Operates a b) : Preserves a b := by
  induction hab with
  | refl => exact h.preserves_refl
  | tail _ ho ih =>
    have hstep := ih.tied.operates ho
    exact ⟨hstep.tied, ih.follows.trans hstep.follows⟩

end

theorem Built.tied (h : a.Built) : a.Tied := by
  obtain ⟨widening, hbuilt⟩ := h
  exact ((tied_start widening).later hbuilt).tied

/-! ### Cycles -/

/-- A link leads to a shape: a forward to its target, the result of a call to its method and to what
the signature returns. -/
inductive LinksTo (a : Arena) : ShapeId → ShapeId → Prop where
  | forward {i target : ShapeId} : a.get i = .forward target → LinksTo a i target
  | method {i method : ShapeId} {k : Nat} : a.get i = .callResult method k → LinksTo a i method
  | result {i method : ShapeId} {k : Nat} {s : Signature} : a.get i = .callResult method k →
      a.signature? method k = some s → LinksTo a i s.ret

/-- No links lead on for ever from a shape that leads to data. -/
theorem Resolves.acc (h : a.Resolves i r) : Acc (fun t j => a.LinksTo j t) i := by
  induction h with
  | data hdata =>
    refine ⟨_, fun t ht => ?_⟩
    cases ht with
    | forward hget | method hget | result hget _ => rw [hget] at hdata; cases hdata
  | forward hget _ ih =>
    refine ⟨_, fun t ht => ?_⟩
    cases ht with
    | forward hget' =>
      cases hget.symm.trans hget'
      exact ih
    | method hget' | result hget' _ => cases hget.symm.trans hget'
  | result hget hm hl hk _ ihm ihr =>
    refine ⟨_, fun t ht => ?_⟩
    cases ht with
    | forward hget' => cases hget.symm.trans hget'
    | method hget' =>
      cases hget.symm.trans hget'
      exact ihm
    | result hget' hsig =>
      cases hget.symm.trans hget'
      rw [signature?, lambda?, resolved, hm.resolve_eq, hl] at hsig
      cases hk.symm.trans hsig
      exact ihr

theorem Grounded.acyclic (h : a.Grounded) (i : ShapeId) : ¬ Relation.TransGen a.LinksTo i i := by
  have hwf : WellFounded (fun t j => a.LinksTo j t) := ⟨fun i => (h.resolves i).acc⟩
  intro hcycle
  have hback := Relation.transGen_swap.mpr hcycle
  exact hwf.transGen.asymmetric i i hback hback

/-! ### Merging ends -/

/-- Two different records, or two different arrays, that may both be changed. -/
structure Nests (a : Arena) (x y : ShapeId) : Prop where
  ne : a.resolve x ≠ a.resolve y
  left : a.isFrozen (a.resolve x) = false
  right : a.isFrozen (a.resolve y) = false
  kind : (∃ xFields xOrigins yFields yOrigins, a.resolved x = .record xFields xOrigins ∧
      a.resolved y = .record yFields yOrigins) ∨
    ∃ xElement xOrigins yElement yOrigins, a.resolved x = .array xElement xOrigins ∧
      a.resolved y = .array yElement yOrigins

mutual

/-- Merging two shapes of `a` gives `d`. These are the rules of a merge without a budget, so that
each merge they speak of ends. -/
inductive Derives : Arena → ShapeId → ShapeId → ShapeId × Arena → Prop where
  /-- If nothing is merged inside, one level is enough. -/
  | simple {a : Arena} {x y : ShapeId} : ¬ a.Nests x y → Derives a x y (deriveWith 1 x y a)
  | records {a b : Arena} {x y : ShapeId} {xFields yFields : OrderedMap String ShapeId}
      {xOrigins yOrigins : List NodeId} : a.Nests x y → a.resolved x = .record xFields xOrigins →
      a.resolved y = .record yFields yOrigins →
      DerivesFields (a.resolve x) (xOrigins ++ yOrigins) yFields.entries
        ((a.set (a.resolve y) (.forward (a.resolve x))).set (a.resolve x)
          (.record xFields (xOrigins ++ yOrigins))) b →
      Derives a x y (a.resolve x, b)
  | arrays {a : Arena} {x y xElement yElement : ShapeId} {xOrigins yOrigins : List NodeId}
      {d : ShapeId × Arena} : a.Nests x y → a.resolved x = .array xElement xOrigins →
      a.resolved y = .array yElement yOrigins →
      Derives ((a.set (a.resolve y) (.forward (a.resolve x))).set (a.resolve x)
        (.array xElement (xOrigins ++ yOrigins))) xElement yElement d →
      Derives a x y (mergeArrays (fun _ _ _ => d) (a.resolve x) (a.resolve y) xElement yElement
        xOrigins yOrigins a)

/-- Merging fields into a record, one after the other. -/
inductive DerivesFields : ShapeId → List NodeId → List (String × ShapeId) → Arena → Arena → Prop where
  | nil {record : ShapeId} {origins : List NodeId} {a : Arena} : DerivesFields record origins [] a a
  /-- `d` is what merging the field gives, if the record has it already. -/
  | cons {record t : ShapeId} {origins : List NodeId} {name : String}
      {rest : List (String × ShapeId)} {a b : Arena} {d : ShapeId × Arena} :
      (∀ fields own old, a.get record = .record fields own → fields.get? name = some old →
        Derives a old t d) →
      DerivesFields record origins rest (mergeField (fun _ _ _ => d) record origins a name t) b →
      DerivesFields record origins ((name, t) :: rest) a b

end

/-- The records and arrays that are not forwarded. -/
def compounds (a : Arena) : Finset ShapeId :=
  (Finset.range a.shapes.size).filter fun i => (a.get i).isCompound = true

theorem mem_compounds : i ∈ a.compounds ↔ (a.get i).isCompound = true := by
  simp only [compounds, Finset.mem_filter, Finset.mem_range, and_iff_right_iff_imp]
  exact lt_size_of_isCompound

theorem card_compounds_le (a : Arena) : a.compounds.card ≤ a.shapes.size :=
  (Finset.card_filter_le ..).trans_eq (Finset.card_range _)

theorem Evolves.compounds_subset (h : Evolves a b) : b.compounds ⊆ a.compounds := by
  intro i hi
  rw [mem_compounds] at hi ⊢
  cases hc : (a.get i).isCompound with
  | true => rfl
  | false => rw [h.other hc, hc] at hi; cases hi

/-- Each merge of two records or arrays leaves one less. -/
theorem card_compounds_absorb (he : Evolves a ((a.set y (.forward x)).set x shape)) (hne : x ≠ y)
    (hy : (a.get y).isCompound = true) :
    ((a.set y (.forward x)).set x shape).compounds.card < a.compounds.card := by
  refine Finset.card_lt_card (Finset.ssubset_iff_of_subset he.compounds_subset |>.mpr
    ⟨y, mem_compounds.mpr hy, fun hin => ?_⟩)
  rw [mem_compounds, get_set_of_ne hne.symm, get_set_self (lt_size_of_isCompound hy)] at hin
  cases hin

/-- Without records or arrays to merge, the budget is not used. -/
theorem deriveWith_of_not_nests (h : ¬ a.Nests x y) (budget : Nat) :
    deriveWith (budget + 1) x y a = deriveWith 1 x y a := by
  simp only [deriveWith]
  split
  · rfl
  next hne =>
    split
    · rfl
    · rfl
    · rfl
    · rfl
    · rfl
    next hgx hgy =>
      split
      · rfl
      next hfrozen =>
        rw [Bool.or_eq_true, not_or, Bool.not_eq_true, Bool.not_eq_true] at hfrozen
        exact absurd ⟨hne, hfrozen.1, hfrozen.2, .inl ⟨_, _, _, _, hgx, hgy⟩⟩ h
    next hgx hgy =>
      split
      · rfl
      next hfrozen =>
        rw [Bool.or_eq_true, not_or, Bool.not_eq_true, Bool.not_eq_true] at hfrozen
        exact absurd ⟨hne, hfrozen.1, hfrozen.2, .inr ⟨_, _, _, _, hgx, hgy⟩⟩ h
    · rfl

section

variable {budget : Nat}
  (hderive : ∀ {u v : ShapeId} {a : Arena}, a.Based N → a.compounds.card < budget →
    Derives a u v (Arena.deriveWith budget u v a))

include hderive

/-- What merging one field asks for is what the merge of its shapes gives. -/
theorem Based.derivesField (h : a.Based N) (hbudget : a.compounds.card < budget) (x : ShapeId)
    (asked : List NodeId) (name : String) (t : ShapeId) :
    ∃ d, (∀ fields own old, a.get x = .record fields own → fields.get? name = some old →
        Derives a old t d) ∧
      Arena.mergeField (Arena.deriveWith budget) x asked a name t =
        Arena.mergeField (fun _ _ _ => d) x asked a name t := by
  cases hget : a.get x with
  | record fields origins =>
    cases hown : fields.get? name with
    | none =>
      refine ⟨(x, a), fun _ _ _ heq hold => ?_, by simp only [Arena.mergeField, hget, hown]⟩
      cases heq
      cases hown.symm.trans hold
    | some own =>
      refine ⟨Arena.deriveWith budget own t a, fun _ _ _ heq hold => ?_, by
        simp only [Arena.mergeField, hget, hown]⟩
      cases heq
      cases hown.symm.trans hold
      exact hderive h hbudget
  | _ =>
    exact ⟨(x, a), (fun _ _ _ heq => by cases heq), by simp only [Arena.mergeField, hget]⟩

theorem Based.derivesFields (h : a.Based N) (hbudget : a.compounds.card < budget)
    (hx : a.frozenBelow ≤ x) {asked : List NodeId} (hne : asked ≠ [])
    (hasked : ∀ {fields origins}, a.get x = .record fields origins → asked <+: origins)
    (entries : List (String × ShapeId)) (hnames : ∀ e ∈ entries, N e.1) :
    DerivesFields x asked entries a (entries.foldl
      (fun a e => Arena.mergeField (Arena.deriveWith budget) x asked a e.1 e.2) a) := by
  induction entries generalizing a with
  | nil => exact .nil
  | cons e rest ih =>
    obtain ⟨d, hd, heq⟩ := h.derivesField hderive hbudget x asked e.1 e.2
    have hfirst := h.mergeField (fun ha => ha.deriveWith budget _ _) hx hne hasked
      (hnames e List.mem_cons_self) e.2
    refine .cons hd (heq ▸ ih (hfirst.based h) ?_ (hfirst.evolves.frozen ▸ hx) (fun hget => ?_)
      fun e' he' => hnames e' (List.mem_cons_of_mem _ he'))
    · exact Nat.lt_of_le_of_lt (Finset.card_le_card hfirst.evolves.compounds_subset) hbudget
    · obtain ⟨_, _, hbefore, hlead⟩ := hfirst.record_before hget
      exact (hasked hbefore).trans hlead

theorem Based.derivesRecords (h : a.Based N) (hbudget : a.compounds.card < budget + 1)
    (hnests : a.Nests x y) {xFields yFields : OrderedMap String ShapeId}
    {xOrigins yOrigins : List NodeId} (hx : a.resolved x = .record xFields xOrigins)
    (hy : a.resolved y = .record yFields yOrigins) :
    Derives a x y (Arena.mergeRecords (Arena.deriveWith budget) (a.resolve x) (a.resolve y) xFields
      yFields xOrigins yOrigins a) := by
  have hfrozen := h.grounded.frozenBelow_le (x := x) (Bool.eq_false_iff.mp hnests.left)
  have hstart : Edits N a ((a.set (a.resolve y) (.forward (a.resolve x))).set (a.resolve x)
      (.record xFields (xOrigins ++ yOrigins))) :=
    .absorbRecord hnests.ne hx hy hfrozen
      (h.grounded.frozenBelow_le (Bool.eq_false_iff.mp hnests.right))
  have hfewer := card_compounds_absorb hstart.evolves hnests.ne (by rw [show a.get _ = _ from hy]; rfl)
  refine .records hnests hx hy ((h.edits hstart).derivesFields hderive
    (Nat.lt_of_lt_of_le hfewer (Nat.le_of_lt_succ hbudget)) hfrozen ?_ (fun hget => ?_) _
    fun e he => h.named hy e.1 (List.mem_map_of_mem he))
  · obtain ⟨o, ho⟩ := h.rooted.record (i := a.resolve x) hx
    exact List.append_ne_nil_of_left_ne_nil (fun hnil => by rw [hnil] at ho; cases ho) _
  · rw [get_set_self (by
      rw [size_set]
      exact lt_size_of_isCompound (by rw [show a.get _ = _ from hx]; rfl))] at hget
    cases hget
    exact List.prefix_refl _

theorem Based.derivesArrays (h : a.Based N) (hbudget : a.compounds.card < budget + 1)
    (hnests : a.Nests x y) {xElement yElement : ShapeId} {xOrigins yOrigins : List NodeId}
    (hx : a.resolved x = .array xElement xOrigins) (hy : a.resolved y = .array yElement yOrigins) :
    Derives a x y (Arena.mergeArrays (Arena.deriveWith budget) (a.resolve x) (a.resolve y) xElement
      yElement xOrigins yOrigins a) := by
  have hstart : Edits N a ((a.set (a.resolve y) (.forward (a.resolve x))).set (a.resolve x)
      (.array xElement (xOrigins ++ yOrigins))) :=
    .absorbArray hnests.ne hx hy (h.grounded.frozenBelow_le (Bool.eq_false_iff.mp hnests.left))
      (h.grounded.frozenBelow_le (Bool.eq_false_iff.mp hnests.right))
  have hfewer := card_compounds_absorb hstart.evolves hnests.ne (by rw [show a.get _ = _ from hy]; rfl)
  exact .arrays hnests hx hy (hderive (h.edits hstart)
    (Nat.lt_of_lt_of_le hfewer (Nat.le_of_lt_succ hbudget)))

end

/-- A merge follows the rules if its budget is larger than the number of records and arrays. -/
theorem Based.derives (h : a.Based N) {budget : Nat} (hbudget : a.compounds.card < budget)
    (x y : ShapeId) : Derives a x y (Arena.deriveWith budget x y a) := by
  induction budget generalizing a x y with
  | zero => cases hbudget
  | succ budget ih =>
    by_cases hnests : a.Nests x y
    · have hfrozen : ¬ (a.isFrozen (a.resolve x) || a.isFrozen (a.resolve y)) = true := by
        rw [hnests.left, hnests.right]
        exact Bool.false_ne_true
      rcases hnests.kind with ⟨xFields, xOrigins, yFields, yOrigins, hx, hy⟩ |
        ⟨xElement, xOrigins, yElement, yOrigins, hx, hy⟩
      · have hmerge : Arena.deriveWith (budget + 1) x y a =
            Arena.mergeRecords (Arena.deriveWith budget) (a.resolve x) (a.resolve y) xFields
              yFields xOrigins yOrigins a := by
          simp only [Arena.deriveWith, if_neg hnests.ne, show a.get (a.resolve x) = _ from hx,
            show a.get (a.resolve y) = _ from hy, if_neg hfrozen]
        rw [hmerge]
        exact h.derivesRecords (fun ha hlt => ih ha hlt _ _) hbudget hnests hx hy
      · have hmerge : Arena.deriveWith (budget + 1) x y a =
            Arena.mergeArrays (Arena.deriveWith budget) (a.resolve x) (a.resolve y) xElement
              yElement xOrigins yOrigins a := by
          simp only [Arena.deriveWith, if_neg hnests.ne, show a.get (a.resolve x) = _ from hx,
            show a.get (a.resolve y) = _ from hy, if_neg hfrozen]
        rw [hmerge]
        exact h.derivesArrays (fun ha hlt => ih ha hlt _ _) hbudget hnests hx hy
    · rw [deriveWith_of_not_nests hnests]
      exact .simple hnests

/-! ### Permanence -/

/-- In every arena that operations build, links have no cycles, `resolve` finds data within its
budget and merging ends. Shapes that lead to one place do so after any further operations. -/
theorem links_permanent (ha : a.Built) (hab : Relation.ReflTransGen Operates a b) :
    (∀ i, ¬ Relation.TransGen a.LinksTo i i) ∧
    (∀ i, a.ResolvesIn (a.shapes.size + 1) i (a.resolve i) ∧
      (a.get (a.resolve i)).isLink = false) ∧
    (∀ x y, Derives a x y (a.derive x y)) ∧
    ∀ x y, a.resolve x = a.resolve y → b.resolve x = b.resolve y := by
  have htied := ha.tied
  refine ⟨htied.grounded.acyclic, fun i => ?_, fun x y => ?_, fun x y hxy => ?_⟩
  · have hresolves := htied.grounded.resolves i
    exact ⟨hresolves.within_size, hresolves.isLink⟩
  · exact htied.toBased.derives (Nat.lt_succ_of_le (card_compounds_le a)) x y
  · have hfollows := (htied.later hab).follows
    rw [hfollows x, hfollows y, hxy]

/-- Two records that contain each other, merged. -/
def ring : Arena :=
  (((((({} : Arena).newRecord 1 {}).2.newRecord 2 {}).2.writeField 5 "next" 6).2.writeField
    6 "next" 5).2.derive 5 6).2

theorem links_permanent_ring :
    ring.resolve 5 = ring.resolve 6 ∧
      (ring.newArray 3 5).2.resolve 5 = (ring.newArray 3 5).2.resolve 6 := by
  have hbuilt : ring.Built :=
    ⟨{}, .head (.newRecord 1 {}) (.head (.newRecord 2 {}) (.head (.writeField 5 "next" 6)
      (.head (.writeField 6 "next" 5) (.single (.derive 5 6)))))⟩
  have hsame : ring.resolve 5 = ring.resolve 6 := by decide
  exact ⟨hsame, (links_permanent hbuilt (.single (.newArray 3 5))).2.2.2 5 6 hsame⟩

end HostScript.Arena
