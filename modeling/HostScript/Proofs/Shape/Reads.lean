import HostScript.Proofs.Shape.Reachable

/-!
# Reads that still stand

The first origin of a record or array is the literal that made it, and stays first when others are
merged into it. A read is noted at that origin, so a change of what was read is noticed. If the
record or array is itself forwarded to another one, nothing is said: what was read of it may change
unnoticed. -/

namespace HostScript.Arena

variable {a b c : Arena} {i s t x y : ShapeId} {name : String} {shape : Shape}
  {element xElement yElement : ShapeId} {f : LambdaShape → LambdaShape}

theorem mem_foldl_insert {α β : Type} [BEq β] [LawfulBEq β] {f : α → β} {items : List α}
    {start : List β} {r : β} :
    r ∈ items.foldl (fun rs o => rs.insert (f o)) start ↔ r ∈ start ∨ ∃ o ∈ items, f o = r := by
  induction items generalizing start with
  | nil => simp
  | cons o rest ih =>
    rw [List.foldl_cons, ih, List.mem_insert_iff]
    simp only [List.mem_cons, exists_eq_or_imp]
    constructor
    · rintro ((rfl | h) | h)
      · exact .inr (.inl rfl)
      · exact .inl h
      · exact .inr (.inr h)
    · rintro (h | rfl | h)
      · exact .inl (.inr h)
      · exact .inl (.inl rfl)
      · exact .inr h

/-! ### Origins -/

theorem origins_of_record {fields : OrderedMap String ShapeId} {origins : List NodeId}
    (h : a.get i = .record fields origins) : a.origins i = origins := by
  rw [Arena.origins, h]

theorem origins_of_array {origins : List NodeId} (h : a.get i = .array element origins) :
    a.origins i = origins := by
  rw [Arena.origins, h]

/-- Records and arrays have an origin. -/
def Rooted (a : Arena) : Prop :=
  ∀ i, (a.get i).isCompound = true → ∃ o, (a.origins i).head? = some o

theorem Rooted.record (h : a.Rooted) {fields : OrderedMap String ShapeId} {origins : List NodeId}
    (hi : a.get i = .record fields origins) : ∃ o, origins.head? = some o :=
  origins_of_record hi ▸ h i (by rw [hi]; rfl)

theorem Rooted.array (h : a.Rooted) {origins : List NodeId}
    (hi : a.get i = .array element origins) : ∃ o, origins.head? = some o :=
  origins_of_array hi ▸ h i (by rw [hi]; rfl)

/-! ### Later arenas -/

/-- A later arena in which a place that was read holds what it held, unless its record or array was
forwarded or the arena is unstable. -/
structure Remembers (a b : Arena) : Prop where
  fieldReads : a.fieldReads ⊆ b.fieldReads
  elementReads : a.elementReads ⊆ b.elementReads
  unstable : a.unstable = true → b.unstable = true
  forward : ∀ {i t}, a.get i = .forward t → b.get i = .forward t
  record : ∀ {i fields origins}, a.get i = .record fields origins →
    (∃ t, b.get i = .forward t) ∨ ∃ fields' origins', b.get i = .record fields' origins' ∧
      origins'.head? = origins.head? ∧ ∀ o name t, origins.head? = some o →
        fields.get? name = some t → (o, name) ∈ a.fieldReads →
          fields'.get? name = some t ∨ b.unstable = true
  array : ∀ {i element origins}, a.get i = .array element origins →
    (∃ t, b.get i = .forward t) ∨ ∃ element' origins', b.get i = .array element' origins' ∧
      origins'.head? = origins.head? ∧ ∀ o, origins.head? = some o → o ∈ a.elementReads →
        element' = element ∨ b.unstable = true

/-- Records, arrays and forwards stay as they are, and reads are only added. -/
theorem Remembers.of_get
    (hget : ∀ i, a.get i ≠ .unknown → (∀ l, a.get i ≠ .lambda l) → b.get i = a.get i)
    (hfields : a.fieldReads ⊆ b.fieldReads) (helements : a.elementReads ⊆ b.elementReads)
    (hunstable : a.unstable = true → b.unstable = true) : Remembers a b where
  fieldReads := hfields
  elementReads := helements
  unstable := hunstable
  forward := fun hi => (hget _ (by simp [hi]) (by simp [hi])).trans hi
  record := fun hi => .inr ⟨_, _, (hget _ (by simp [hi]) (by simp [hi])).trans hi, rfl,
    fun _ _ _ _ hname _ => .inl hname⟩
  array := fun hi => .inr ⟨_, _, (hget _ (by simp [hi]) (by simp [hi])).trans hi, rfl,
    fun _ _ _ => .inl rfl⟩

theorem Remembers.of_shapes (h : b.shapes = a.shapes) (hfields : a.fieldReads ⊆ b.fieldReads)
    (helements : a.elementReads ⊆ b.elementReads)
    (hunstable : a.unstable = true → b.unstable = true) : Remembers a b :=
  .of_get (fun i _ _ => get_of_shapes h i) hfields helements hunstable

theorem Remembers.refl (a : Arena) : Remembers a a :=
  .of_shapes rfl (fun _ h => h) (fun _ h => h) id

theorem Remembers.trans (h : Remembers a b) (h' : Remembers b c) : Remembers a c where
  fieldReads := fun _ hmem => h'.fieldReads (h.fieldReads hmem)
  elementReads := fun _ hmem => h'.elementReads (h.elementReads hmem)
  unstable := fun hu => h'.unstable (h.unstable hu)
  forward := fun hi => h'.forward (h.forward hi)
  record := fun {i fields origins} hi => by
    rcases h.record hi with ⟨t, hb⟩ | ⟨fields', origins', hb, hhead, hkept⟩
    · exact .inl ⟨t, h'.forward hb⟩
    · rcases h'.record hb with hc | ⟨fields'', origins'', hc, hhead', hkept'⟩
      · exact .inl hc
      · refine .inr ⟨fields'', origins'', hc, hhead'.trans hhead, fun o name t ho hname hread => ?_⟩
        rcases hkept o name t ho hname hread with hname' | hu
        · exact hkept' o name t (hhead.trans ho) hname' (h.fieldReads hread)
        · exact .inr (h'.unstable hu)
  array := fun {i element origins} hi => by
    rcases h.array hi with ⟨t, hb⟩ | ⟨element', origins', hb, hhead, hkept⟩
    · exact .inl ⟨t, h'.forward hb⟩
    · rcases h'.array hb with hc | ⟨element'', origins'', hc, hhead', hkept'⟩
      · exact .inl hc
      · refine .inr ⟨element'', origins'', hc, hhead'.trans hhead, fun o ho hread => ?_⟩
        rcases hkept o ho hread with rfl | hu
        · exact hkept' o (hhead.trans ho) (h.elementReads hread)
        · exact .inr (h'.unstable hu)

/-- Origins stay where no record or array is new. -/
theorem Rooted.of_remembers (h : a.Rooted) (hr : Remembers a b)
    (hback : ∀ {i}, (b.get i).isCompound = true → (a.get i).isCompound = true) : b.Rooted := by
  intro i hi
  have hold := hback hi
  cases hget : a.get i with
  | record fields origins =>
    rcases hr.record hget with ⟨t, hb⟩ | ⟨fields', origins', hb, hhead, _⟩
    · rw [hb] at hi
      cases hi
    · rw [origins_of_record hb, hhead]
      exact h.record hget
  | array element origins =>
    rcases hr.array hget with ⟨t, hb⟩ | ⟨element', origins', hb, hhead, _⟩
    · rw [hb] at hi
      cases hi
    · rw [origins_of_array hb, hhead]
      exact h.array hget
  | _ =>
    rw [hget] at hold
    cases hold

theorem Rooted.of_evolves (h : a.Rooted) (hr : Remembers a b) (he : Evolves a b) : b.Rooted := by
  refine h.of_remembers hr fun {i} hi => ?_
  cases hc : (a.get i).isCompound with
  | true => rfl
  | false => rw [← hc, ← he.other hc, hi]

/-! ### Reading -/

theorem readField_fst (a : Arena) (record : ShapeId) (name : String) :
    (a.readField record name).1 = a.field? record name := by
  rw [Arena.readField, field?]
  split <;> rfl

theorem readElement_fst (a : Arena) (array : ShapeId) :
    (a.readElement array).1 = a.element? array := by
  rw [Arena.readElement, element?]
  split <;> rfl

theorem remembers_readField (a : Arena) (record : ShapeId) (name : String) :
    Remembers a (a.readField record name).2 := by
  rw [Arena.readField]
  split
  · refine .of_shapes rfl (fun r hr => ?_) (fun _ hm => hm) id
    exact (mem_foldl_insert (f := fun o => (o, name))).mpr (.inl hr)
  · exact .refl a

theorem remembers_readElement (a : Arena) (array : ShapeId) :
    Remembers a (a.readElement array).2 := by
  rw [Arena.readElement]
  split
  · refine .of_shapes rfl (fun _ hm => hm) (fun r hr => ?_) id
    exact (mem_foldl_insert (f := fun o => o)).mpr (.inl hr)
  · exact .refl a

theorem mem_fieldReads_readField {fields : OrderedMap String ShapeId} {origins : List NodeId}
    (hx : a.resolved x = .record fields origins) {o : NodeId} (ho : origins.head? = some o) :
    (o, name) ∈ (a.readField x name).2.fieldReads := by
  simp only [Arena.readField, hx]
  exact (mem_foldl_insert (f := fun o => (o, name))).mpr (.inr ⟨o, List.mem_of_head? ho, rfl⟩)

theorem mem_elementReads_readElement {origins : List NodeId} (hx : a.resolved x = .array t origins)
    {o : NodeId} (ho : origins.head? = some o) : o ∈ (a.readElement x).2.elementReads := by
  simp only [Arena.readElement, hx]
  exact (mem_foldl_insert (f := fun o => o)).mpr (.inr ⟨o, List.mem_of_head? ho, rfl⟩)

/-! ### New shapes and lambdas -/

theorem remembers_push (a : Arena) (shape : Shape) : Remembers a (a.push shape).2 :=
  .of_get (fun _ hi _ => get_push_of_lt (lt_size_of_get hi)) (fun _ hm => hm) (fun _ hm => hm) id

theorem Rooted.push (hr : a.Rooted)
    (hnew : shape.isCompound = true → ∃ o, ((a.push shape).2.origins a.shapes.size).head? = some o) :
    (a.push shape).2.Rooted := by
  intro i hi
  by_cases heq : i = a.shapes.size
  · subst heq
    rw [get_push_self] at hi
    exact hnew hi
  · have hold : (a.push shape).2.get i = a.get i := by rw [get_push, if_neg heq]
    rw [hold] at hi
    rw [Arena.origins, hold]
    exact hr i hi

theorem get_modifyLambda_of_ne (hi : ∀ l, a.get i ≠ .lambda l) :
    (a.modifyLambda x f).get i = a.get i := by
  rw [Arena.modifyLambda]
  split
  next l hl =>
    refine get_set_of_ne ?_
    rintro rfl
    exact hi l hl
  next => rfl

theorem get_modifyLambda_lambda {l : LambdaShape} (hi : (a.modifyLambda x f).get i = .lambda l) :
    ∃ l', a.get i = .lambda l' ∧ (l = l' ∨ l = f l') := by
  rw [Arena.modifyLambda] at hi
  split at hi
  next l' hl =>
    rw [get_set] at hi
    split at hi
    next heq =>
      cases hi
      exact ⟨l', by rw [heq.1]; exact hl, .inr rfl⟩
    next => exact ⟨l, hi, .inl rfl⟩
  next => exact ⟨l, hi, .inl rfl⟩

theorem remembers_modifyLambda (a : Arena) (x : ShapeId) (f : LambdaShape → LambdaShape) :
    Remembers a (a.modifyLambda x f) := by
  refine .of_get (fun i _ hi => get_modifyLambda_of_ne hi) ?_ ?_ ?_
  · rw [Arena.modifyLambda]
    split <;> exact fun _ hm => hm
  · rw [Arena.modifyLambda]
    split <;> exact fun _ hm => hm
  · rw [Arena.modifyLambda]
    split <;> exact id

/-- A lambda leads where it led before it got more signatures. -/
theorem Sound.resolve_modifyLambda (h : a.Sound) (x : ShapeId)
    (hgrows : ∀ l, l.signatures <+: (f l).signatures) (i : ShapeId) :
    (a.modifyLambda x f).resolve i = a.resolve i := by
  rw [Arena.modifyLambda]
  split
  next l hl =>
    exact ((h.grounded.resolves i).later (f := id) (links_set_lambda hl (hgrows l))
      (fun {j} hj => .data (isLink_set_lambda hj)) fun _ => rfl).resolve_eq
  next => rfl

theorem resolve_of_shapes (h : b.shapes = a.shapes) (i : ShapeId) : b.resolve i = a.resolve i := by
  have hwith : ∀ budget i, b.resolveWith budget i = a.resolveWith budget i := by
    intro budget
    induction budget with
    | zero => exact fun _ => rfl
    | succ budget ih => exact fun i => by simp only [resolveWith, get_of_shapes h, ih]
  rw [Arena.resolve, Arena.resolve, h, hwith]

/-! ### What still stands -/

/-- A later arena of the same pass. -/
structure Later (a b : Arena) : Prop extends Remembers a b where
  size : a.shapes.size ≤ b.shapes.size
  resolve : ∀ {i}, i < a.shapes.size → b.resolve i = b.resolve (a.resolve i)

theorem Sound.later_refl (h : a.Sound) : Later a a :=
  ⟨.refl a, Nat.le_refl _, fun {i} _ => (h.grounded.resolve_resolve i).symm⟩

theorem Later.trans (h : Later a b) (h' : Later b c) (ha : a.Sound) : Later a c where
  toRemembers := h.toRemembers.trans h'.toRemembers
  size := h.size.trans h'.size
  resolve := fun {i} hi => by
    have hr : a.resolve i < b.shapes.size := Nat.lt_of_lt_of_le (ha.resolve_lt_size hi) h.size
    rw [h'.resolve (Nat.lt_of_lt_of_le hi h.size), h.resolve hi, ← h'.resolve hr]

theorem Remembers.later_of_keeps (h : Remembers a b) (ha : a.Sound) (hkeeps : Keeps a b) :
    Later a b :=
  ⟨h, Nat.le_of_eq hkeeps.evolves.size.symm, fun {i} _ =>
    hkeeps.evolves.resolve ha.grounded hkeeps.sound.grounded i⟩

/-- All shapes lead where they led. -/
theorem Remembers.later_of_resolve (h : Remembers a b) (ha : a.Sound)
    (hsize : a.shapes.size ≤ b.shapes.size)
    (hresolve : ∀ {i}, i < a.shapes.size → b.resolve i = a.resolve i) : Later a b :=
  ⟨h, hsize, fun {i} hi => by
    rw [hresolve hi, hresolve (ha.resolve_lt_size hi), ha.grounded.resolve_resolve]⟩

/-- A record has a field of a given shape that was read. -/
def ReadField (a : Arena) (record : ShapeId) (name : String) (t : ShapeId) : Prop :=
  ∃ fields origins o, a.get record = .record fields origins ∧ fields.get? name = some t ∧
    origins.head? = some o ∧ (o, name) ∈ a.fieldReads

/-- An array has elements of a given shape that were read. -/
def ReadElement (a : Arena) (array t : ShapeId) : Prop :=
  ∃ origins o, a.get array = .array t origins ∧ origins.head? = some o ∧ o ∈ a.elementReads

/-- A field that was read is as it was, if the record was not forwarded and the arena is stable. -/
theorem Remembers.readField (h : Remembers a b) (hread : a.ReadField i name t)
    (hstable : b.unstable = false) : (∃ u, b.get i = .forward u) ∨ b.ReadField i name t := by
  obtain ⟨fields, origins, o, hget, hname, ho, hnoted⟩ := hread
  rcases h.record hget with hforward | ⟨fields', origins', hb, hhead, hkept⟩
  · exact .inl hforward
  · rcases hkept o name t ho hname hnoted with hstands | hunstable
    · exact .inr ⟨fields', origins', o, hb, hstands, hhead.trans ho, h.fieldReads hnoted⟩
    · rw [hunstable] at hstable
      cases hstable

/-- An element that was read is as it was, if the array was not forwarded and the arena is
stable. -/
theorem Remembers.readElement (h : Remembers a b) (hread : a.ReadElement i t)
    (hstable : b.unstable = false) : (∃ u, b.get i = .forward u) ∨ b.ReadElement i t := by
  obtain ⟨origins, o, hget, ho, hnoted⟩ := hread
  rcases h.array hget with hforward | ⟨element', origins', hb, hhead, hkept⟩
  · exact .inl hforward
  · rcases hkept o ho hnoted with rfl | hunstable
    · exact .inr ⟨origins', o, hb, hhead.trans ho, h.elementReads hnoted⟩
    · rw [hunstable] at hstable
      cases hstable

end HostScript.Arena
