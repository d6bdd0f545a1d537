import HostScript.Proofs.OrderedMap
import HostScript.Proofs.Shape.Links

/-!
# What merging changes

Merging changes records and arrays only. Each of them keeps its kind or is forwarded, and links that
led to data still do. What two shapes have in common they keep.
-/

namespace HostScript

variable {fields fields' xFields yFields : OrderedMap String ShapeId}
  {origins origins' xOrigins yOrigins : List NodeId}
  {element r element' xElement yElement : ShapeId}

/-- Records and arrays. -/
def Shape.isCompound : Shape → Bool
  | .record .. | .array .. => true
  | _ => false

/-- The shapes that a shape refers to. -/
def Shape.parts : Shape → List ShapeId
  | .record fields _ => fields.values
  | .array element _ => [element]
  | .lambda l => l.signatures.flatMap fun s => s.ret :: s.args
  | .callResult method _ => [method]
  | .forward target => [target]
  | _ => []

theorem Shape.ties_subset_parts (s : Shape) : s.ties ⊆ s.parts := by
  cases s with
  | lambda l =>
    intro p hp
    obtain ⟨sig, hsig, rfl⟩ := List.mem_map.mp hp
    exact List.mem_flatMap.mpr ⟨sig, hsig, List.mem_cons_self⟩
  | forward _ | callResult _ _ => exact fun _ hp => hp
  | _ =>
    exact fun _ hp => by cases hp

theorem Shape.ties_of_isCompound {s : Shape} (h : s.isCompound = true) : s.ties = [] := by
  cases s <;> simp_all [isCompound, ties]

theorem Shape.isLink_of_isCompound {s : Shape} (h : s.isCompound = true) : s.isLink = false := by
  cases s <;> simp_all [isCompound, isLink]

/-- Two records or two arrays. -/
inductive Shape.SameKind : Shape → Shape → Prop where
  | records {fields fields' : OrderedMap String ShapeId} {origins origins' : List NodeId} :
      SameKind (.record fields origins) (.record fields' origins')
  | arrays {element element' : ShapeId} {origins origins' : List NodeId} :
      SameKind (.array element origins) (.array element' origins')

namespace Shape.SameKind

variable {s t u : Shape}

theorem of_isCompound (h : s.isCompound = true) : SameKind s s := by
  cases s with
  | record => exact .records
  | array => exact .arrays
  | _ => cases h

theorem symm (h : SameKind s t) : SameKind t s := by
  cases h <;> constructor

theorem trans (h : SameKind s t) (h' : SameKind t u) : SameKind s u := by
  cases h <;> cases h' <;> constructor

theorem isCompound (h : SameKind s t) : t.isCompound = true := by
  cases h <;> rfl

theorem record (h : SameKind (.record fields origins) t) :
    ∃ fields' origins', t = .record fields' origins' := by
  cases h
  exact ⟨_, _, rfl⟩

end Shape.SameKind

namespace Arena

variable {a b c : Arena} {i x y : ShapeId} {shape : Shape}

/-! ### Evolution -/

/-- A later arena in which at most records and arrays changed. Each of them keeps its kind or is
forwarded to one of its kind. -/
structure Evolves (a b : Arena) : Prop where
  size : b.shapes.size = a.shapes.size
  frozen : b.frozenBelow = a.frozenBelow
  hosts : b.hosts = a.hosts
  other : ∀ {i}, (a.get i).isCompound = false → b.get i = a.get i
  compound : ∀ {i}, (a.get i).isCompound = true → (a.get i).SameKind (b.get i) ∨
    ∃ target, b.get i = .forward target ∧ (a.get i).SameKind (a.get target)

theorem Evolves.of_shapes (h : b.shapes = a.shapes) (hf : b.frozenBelow = a.frozenBelow)
    (hh : b.hosts = a.hosts) : Evolves a b where
  size := congrArg Array.size h
  frozen := hf
  hosts := hh
  other := fun _ => get_of_shapes h _
  compound := fun hi => .inl (by rw [get_of_shapes h]; exact .of_isCompound hi)

theorem Evolves.refl (a : Arena) : Evolves a a :=
  .of_shapes rfl rfl rfl

section

variable (h : Evolves a b)

include h

theorem Evolves.record (hget : a.get i = .record fields origins) :
    (∃ fields' origins', b.get i = .record fields' origins') ∨
      ∃ target, b.get i = .forward target ∧ ∃ fields' origins', a.get target = .record fields' origins' := by
  have hkind := h.compound (i := i) (by rw [hget]; rfl)
  rw [hget] at hkind
  exact hkind.imp Shape.SameKind.record fun ⟨target, hb, htarget⟩ => ⟨target, hb, htarget.record⟩

theorem Evolves.forward {target : ShapeId} (hget : a.get i = .forward target) :
    b.get i = .forward target :=
  (h.other (by rw [hget]; rfl)).trans hget

/-- Records and arrays were of the same kind before. -/
theorem Evolves.before (hi : (b.get i).isCompound = true) :
    (a.get i).SameKind (b.get i) := by
  cases hc : (a.get i).isCompound with
  | true =>
    rcases h.compound hc with hkind | ⟨_, hb, _⟩
    · exact hkind
    · rw [hb] at hi
      cases hi
  | false =>
    rw [h.other hc, hc] at hi
    cases hi

theorem Evolves.record_before (hget : b.get i = .record fields origins) :
    ∃ fields' origins', a.get i = .record fields' origins' := by
  have hkind := (h.before (i := i) (by rw [hget]; rfl)).symm
  rw [hget] at hkind
  exact hkind.record

theorem Evolves.trans (h' : Evolves b c) : Evolves a c where
  size := h'.size.trans h.size
  frozen := h'.frozen.trans h.frozen
  hosts := h'.hosts.trans h.hosts
  other := fun hi => (h'.other (by rw [h.other hi]; exact hi)).trans (h.other hi)
  compound := fun hi => by
    rcases h.compound hi with hkind | ⟨target, hb, htarget⟩
    · rcases h'.compound hkind.isCompound with hkind' | ⟨target, hc, htarget⟩
      · exact .inl (hkind.trans hkind')
      · exact .inr ⟨target, hc, hkind.trans (htarget.trans (h.before htarget.isCompound).symm)⟩
    · exact .inr ⟨target, h'.forward hb, htarget⟩

/-- Records and arrays lead to ones of the same kind. -/
theorem Evolves.resolves (hr : b.Resolves i r) (hi : (a.get i).isCompound = true) :
    (a.get i).SameKind (b.get r) := by
  induction hr with
  | data hdata =>
    rcases h.compound hi with hkind | ⟨_, hb, _⟩
    · exact hkind
    · rw [hb] at hdata
      cases hdata
  | forward hget _ ih =>
    rcases h.compound hi with hkind | ⟨_, hb, htarget⟩
    · rw [hget] at hkind
      cases hkind.isCompound
    · cases hget.symm.trans hb
      exact htarget.trans (ih htarget.isCompound)
  | result hget =>
    rcases h.compound hi with hkind | ⟨_, hb, _⟩
    · rw [hget] at hkind
      cases hkind.isCompound
    · cases hget.symm.trans hb

/-- What is neither a record or array nor forwarded was there before. -/
theorem Evolves.get_eq (hi : (b.get i).isCompound = false)
    (hforward : ∀ target, b.get i ≠ .forward target) : b.get i = a.get i := by
  cases hc : (a.get i).isCompound with
  | true =>
    rcases h.compound hc with hkind | ⟨target, hb, _⟩
    · rw [hkind.isCompound] at hi
      cases hi
    · exact absurd hb (hforward target)
  | false => exact h.other hc

theorem Evolves.lambda_before {l : LambdaShape} (hl : b.get i = .lambda l) :
    a.get i = .lambda l :=
  (h.get_eq (by rw [hl]; rfl) (by rw [hl]; exact fun _ => Shape.noConfusion)).symm.trans hl

omit h in
/-- Links stay where at most records and arrays differ. -/
theorem links_of_agree (h : ∀ {i}, (a.get i).isCompound = false → b.get i = a.get i) :
    Links a b where
  forward := fun hget => (h (by rw [hget]; rfl)).trans hget
  result := fun hget => (h (by rw [hget]; rfl)).trans hget
  lambda := fun hget => ⟨_, (h (by rw [hget]; rfl)).trans hget, id⟩

omit h in
theorem Grounded.of_agree (ha : a.Grounded)
    (h : ∀ {i}, (a.get i).isCompound = false → b.get i = a.get i)
    (hdata : ∀ {i}, (a.get i).isCompound = true → (b.get i).isLink = false) : b.Grounded := by
  intro i
  obtain ⟨r, hr⟩ := ha i
  refine ⟨r, hr.later (f := id) (links_of_agree h) (fun {j} hj => .data ?_) fun _ => rfl⟩
  cases hc : (a.get j).isCompound with
  | true => exact hdata hc
  | false => rwa [h hc]

theorem Evolves.links : Links a b :=
  links_of_agree h.other

/-- Where links lead depends on where they led. -/
theorem Evolves.resolve (ha : a.Grounded) (hb : b.Grounded) (i : ShapeId) :
    b.resolve i = b.resolve (a.resolve i) := by
  refine (Resolves.later (f := b.resolve) h.links (fun _ => hb.resolves _) ?_
    (ha.resolves i)).resolve_eq
  intro m l hget
  exact resolve_of_data (by rw [(h.other (by rw [hget]; rfl)).trans hget]; rfl)

end

/-! ### Sound arenas -/

/-- Shapes refer to shapes of the arena, and all links lead to data. -/
structure Sound (a : Arena) : Prop where
  first : ∀ {i}, i ≤ Arena.string → a.get i = ({} : Arena).get i
  inside : ∀ {i x}, x ∈ (a.get i).parts → x < a.shapes.size
  grounded : a.Grounded

theorem lt_size_of_get (h : a.get i ≠ .unknown) : i < a.shapes.size :=
  Nat.lt_of_not_le fun hge => h (get_of_ge hge)

theorem lt_size_of_isCompound (h : (a.get i).isCompound = true) : i < a.shapes.size :=
  lt_size_of_get fun hget => by rw [hget] at h; cases h

section

variable (h : a.Sound)

include h

theorem Sound.get_unknown : a.get Arena.unknown = .unknown :=
  (h.first (by decide)).trans rfl

theorem Sound.lt_size (hi : i ≤ Arena.string) : i < a.shapes.size := by
  have hlast : Arena.string < a.shapes.size := by
    refine lt_size_of_get ?_
    rw [h.first (Nat.le_refl _)]
    exact Shape.noConfusion
  exact Nat.lt_of_le_of_lt hi hlast

theorem Sound.unknown_lt_size : Arena.unknown < a.shapes.size :=
  h.lt_size (by decide)

theorem Sound.enclosed : a.Enclosed :=
  fun _ _ ht => h.inside (Shape.ties_subset_parts _ ht)

theorem Sound.lt_size_of_resolves (hr : a.Resolves i r) (hi : i < a.shapes.size) :
    r < a.shapes.size :=
  h.enclosed.lt_size_of_resolves hr hi

theorem Sound.resolve_lt_size (hi : i < a.shapes.size) : a.resolve i < a.shapes.size :=
  h.lt_size_of_resolves (h.grounded.resolves i) hi

theorem Sound.element_lt_size (hget : a.get i = .array element origins) :
    element < a.shapes.size :=
  h.inside (by rw [hget]; exact List.mem_singleton_self _)

theorem Sound.of_shapes (hs : b.shapes = a.shapes) : b.Sound where
  first := fun hi => (get_of_shapes hs _).trans (h.first hi)
  inside := fun hx => by
    rw [get_of_shapes hs] at hx
    rw [hs]
    exact h.inside hx
  grounded := h.grounded.of_agree (fun _ => get_of_shapes hs _) fun hc => by
    rw [get_of_shapes hs]
    exact Shape.isLink_of_isCompound hc

end

/-! ### Steps of merging -/

@[simp] theorem size_set (a : Arena) (i : ShapeId) (shape : Shape) :
    (a.set i shape).shapes.size = a.shapes.size := by
  simp [Arena.set]

theorem get_set_self (h : x < a.shapes.size) : (a.set x shape).get x = shape := by
  rw [get_set, if_pos ⟨rfl, h⟩]

theorem get_set_of_ne (h : i ≠ x) : (a.set x shape).get i = a.get i := by
  rw [get_set, if_neg fun hi => h hi.1]

/-- A record or array is forwarded, or changed to another one of its kind. -/
theorem evolves_set (hx : (a.get x).isCompound = true)
    (hshape : (a.get x).SameKind shape ∨
      ∃ target, shape = .forward target ∧ (a.get x).SameKind (a.get target)) :
    Evolves a (a.set x shape) where
  size := size_set ..
  frozen := rfl
  hosts := rfl
  other := fun {i} hi => get_set_of_ne fun h => by rw [h, hx] at hi; cases hi
  compound := fun {i} hi => by
    by_cases h : i = x
    · subst h
      rw [get_set_self (lt_size_of_isCompound hx)]
      exact hshape
    · rw [get_set_of_ne h]
      exact .inl (.of_isCompound hi)

theorem evolves_set_sameKind (h : (a.get x).SameKind shape) : Evolves a (a.set x shape) :=
  evolves_set h.symm.isCompound (.inl h)

theorem evolves_forward (h : (a.get y).SameKind (a.get x)) : Evolves a (a.set y (.forward x)) :=
  evolves_set h.symm.isCompound (.inr ⟨x, rfl, h⟩)

/-- `y` is forwarded to `x`, which stays of its kind. -/
theorem evolves_absorb (hne : x ≠ y) (h : (a.get y).SameKind (a.get x))
    (hshape : (a.get x).SameKind shape) : Evolves a ((a.set y (.forward x)).set x shape) :=
  (evolves_forward h).trans (evolves_set_sameKind (by rwa [get_set_of_ne hne]))

/-- The shapes that every arena starts with are simple. -/
theorem isCompound_first : ∀ i : Nat, i < 5 → (({} : Arena).get i).isCompound = false := by
  decide

theorem isLambda_first : ∀ i : Nat, i < 5 → ∀ l, ({} : Arena).get i ≠ .lambda l
  | 0, _, _ | 1, _, _ | 2, _, _ | 3, _, _ | 4, _, _ => Shape.noConfusion

section

variable (h : a.Sound)

include h

theorem Sound.first_set (hx : (a.get x).isCompound = true) (hi : i ≤ Arena.string) :
    (a.set x shape).get i = ({} : Arena).get i := by
  have hne : i ≠ x := by
    rintro rfl
    rw [h.first hi, isCompound_first i (Nat.lt_succ_of_le hi)] at hx
    cases hx
  rw [get_set_of_ne hne, h.first hi]

theorem Sound.inside_set (hp : ∀ p ∈ shape.parts, p < a.shapes.size) {p : ShapeId}
    (hmem : p ∈ ((a.set x shape).get i).parts) : p < (a.set x shape).shapes.size := by
  rw [size_set]
  rw [get_set] at hmem
  split at hmem
  · exact hp p hmem
  · exact h.inside hmem

theorem Sound.set_compound (hx : (a.get x).isCompound = true) (hs : shape.isCompound = true)
    (hp : ∀ p ∈ shape.parts, p < a.shapes.size) :
    (a.set x shape).Sound where
  first := h.first_set hx
  inside := h.inside_set hp
  grounded := by
    refine h.grounded.of_agree (fun {j} hj => get_set_of_ne fun he => ?_) fun {j} hj => ?_
    · rw [he, hx] at hj
      cases hj
    · rw [get_set]
      split
      · exact Shape.isLink_of_isCompound hs
      · exact Shape.isLink_of_isCompound hj

omit h in
theorem resolves_forward (hx : (a.get x).isCompound = true) (hy : (a.get y).isCompound = true)
    (hne : x ≠ y) (hr : a.Resolves i r) :
    (a.set y (.forward x)).Resolves i (if r = y then x else r) := by
  have hlinks : Links a (a.set y (.forward x)) :=
    links_of_agree fun hi => get_set_of_ne fun heq => by rw [heq, hy] at hi; cases hi
  refine hr.later (f := fun r => if r = y then x else r) hlinks
    (fun {j} hj => ?_) fun {j l} hget => ?_
  · have hdata {k : ShapeId} (hk : k ≠ y) (hlink : (a.get k).isLink = false) :
        (a.set y (.forward x)).Resolves k k := .data (by rw [get_set_of_ne hk]; exact hlink)
    split
    · next heq =>
        subst heq
        exact .forward (get_set_self (lt_size_of_isCompound hy))
          (hdata hne (Shape.isLink_of_isCompound hx))
    · next hjy => exact hdata hjy hj
  · exact if_neg fun heq => by rw [← heq, hget] at hy; cases hy

theorem Sound.set_forward (hx : (a.get x).isCompound = true) (hy : (a.get y).isCompound = true)
    (hne : x ≠ y) : (a.set y (.forward x)).Sound where
  first := h.first_set hy
  inside := h.inside_set fun p hp => by
    rw [List.mem_singleton.mp hp]
    exact lt_size_of_isCompound hx
  grounded := fun i =>
    have ⟨_, hr⟩ := h.grounded i
    ⟨_, resolves_forward hx hy hne hr⟩

/-! ### Merging -/

omit h in
/-- A later arena that is sound and differs at most in records and arrays. -/
structure Keeps (a b : Arena) : Prop where
  evolves : Evolves a b
  sound : b.Sound

theorem Sound.keeps : Keeps a a :=
  ⟨.refl a, h⟩

omit h in
theorem Keeps.trans (h : Keeps a b) (h' : Keeps b c) : Keeps a c :=
  ⟨h.evolves.trans h'.evolves, h'.sound⟩

theorem Sound.keeps_of_shapes (hs : b.shapes = a.shapes) (hf : b.frozenBelow = a.frozenBelow)
    (hh : b.hosts = a.hosts) : Keeps a b :=
  ⟨.of_shapes hs hf hh, h.of_shapes hs⟩

omit h in
/-- What merging two shapes of an arena does to it. -/
structure Merges (a : Arena) (d : ShapeId × Arena) : Prop extends Keeps a d.2 where
  lt_size : d.1 < a.shapes.size

theorem Sound.merges (hx : x < a.shapes.size) : Merges a (x, a) :=
  ⟨h.keeps, hx⟩

theorem Sound.insertField (name : String) (hy : y < a.shapes.size) :
    Keeps a (a.insertField x name y) := by
  rw [Arena.insertField]
  split
  next fields origins hget =>
    refine ⟨evolves_set_sameKind (by rw [hget]; exact .records), h.set_compound (by rw [hget]; rfl) rfl fun p hp => ?_⟩
    rcases OrderedMap.mem_values_insert hp with rfl | hp
    · exact hy
    · exact h.inside (by rw [hget]; exact hp)
  next => exact h.keeps

omit h in
theorem get_noteFieldWidened (a : Arena) (origins : List NodeId) (name : String) (i : ShapeId) :
    (a.noteFieldWidened origins name).get i = a.get i := by
  rw [Arena.noteFieldWidened]
  split <;> rfl

theorem Sound.noteFieldWidened (origins : List NodeId) (name : String) :
    Keeps a (a.noteFieldWidened origins name) := by
  rw [Arena.noteFieldWidened]
  split
  · exact h.keeps_of_shapes rfl rfl rfl
  · exact h.keeps

theorem Sound.setElement (hy : y < a.shapes.size) : Keeps a (a.setElement x y) := by
  have hnoted (origins : List NodeId) : Keeps a (a.noteElementWidened origins) := by
    rw [noteElementWidened]
    split
    · exact h.keeps_of_shapes rfl rfl rfl
    · exact h.keeps
  rcases a.setElement_cases x y with ⟨element, origins, hx, heq⟩ | ⟨_, heq⟩ <;> rw [heq]
  · have hget := (get_noteElementWidened a origins x).trans hx
    refine (hnoted origins).trans ⟨evolves_set_sameKind (by rw [hget]; exact .arrays),
      (hnoted origins).sound.set_compound (by rw [hget]; rfl) rfl fun p hp => ?_⟩
    rw [List.mem_singleton.mp hp, (hnoted origins).evolves.size]
    exact hy
  · exact hnoted _

/-- The first step of a merge: `y` is forwarded to `x`, which takes its origins over. -/
theorem Sound.absorb (hne : x ≠ y) (hkind : (a.get y).SameKind (a.get x))
    (hshape : (a.get x).SameKind shape) (hp : ∀ p ∈ shape.parts, p < a.shapes.size) :
    Keeps a ((a.set y (.forward x)).set x shape) := by
  refine ⟨evolves_absorb hne hkind hshape,
    (h.set_forward hkind.isCompound hkind.symm.isCompound hne).set_compound ?_ hshape.isCompound ?_⟩
  · rw [get_set_of_ne hne]
    exact hkind.isCompound
  · rw [size_set]
    exact hp

theorem Sound.absorbRecord (hne : x ≠ y) (hx : a.get x = .record xFields xOrigins)
    (hy : a.get y = .record yFields yOrigins) :
    Keeps a ((a.set y (.forward x)).set x (.record xFields origins)) :=
  h.absorb hne (by rw [hx, hy]; exact .records) (by rw [hx]; exact .records)
    fun p hp => h.inside (by rw [hx]; exact hp)

theorem Sound.absorbArray (hne : x ≠ y) (hx : a.get x = .array xElement xOrigins)
    (hy : a.get y = .array yElement yOrigins) :
    Keeps a ((a.set y (.forward x)).set x (.array xElement origins)) :=
  h.absorb hne (by rw [hx, hy]; exact .arrays) (by rw [hx]; exact .arrays)
    fun p hp => h.inside (by rw [hx]; exact hp)

end

/-- A shape that was forwarded stays forwarded. -/
theorem Keeps.get_absorbed (hne : x ≠ y) (hy : y < a.shapes.size)
    (h : Keeps ((a.set y (.forward x)).set x shape) b) : b.get y = .forward x :=
  h.evolves.forward ((get_set_of_ne hne.symm).trans (get_set_self hy))

section

variable {derive : ShapeId → ShapeId → Arena → ShapeId × Arena}
  (hderive : ∀ {u v : ShapeId} {a : Arena}, a.Sound → u < a.shapes.size → v < a.shapes.size →
    Merges a (derive u v a))

include hderive

section

variable (h : a.Sound)

include h

theorem Sound.mergeField (record : ShapeId) (origins : List NodeId) (name : String)
    (hy : y < a.shapes.size) : Keeps a (mergeField derive record origins a name y) := by
  simp only [Arena.mergeField]
  split
  next own heq =>
    have hown : own < a.shapes.size := by
      split at heq
      next fields origins' hget => exact h.inside (by rw [hget]; exact OrderedMap.mem_values heq)
      next => cases heq
    have hmerged := hderive h hown hy
    split
    · exact hmerged.toKeeps
    · have hnoted := hmerged.toKeeps.trans (hmerged.sound.noteFieldWidened origins name)
      refine hnoted.trans (hnoted.sound.insertField name ?_)
      rw [hnoted.evolves.size]
      exact hmerged.lt_size
  next =>
    refine h.insertField name ?_
    split
    · exact h.unknown_lt_size
    · exact hy

theorem Sound.mergeFields (record : ShapeId) (origins : List NodeId)
    (entries : List (String × ShapeId)) (hin : ∀ e ∈ entries, e.2 < a.shapes.size) :
    Keeps a (entries.foldl (fun a e => Arena.mergeField derive record origins a e.1 e.2) a) := by
  induction entries generalizing a with
  | nil => exact h.keeps
  | cons e rest ih =>
    have hfirst := h.mergeField hderive record origins e.1 (hin e List.mem_cons_self)
    refine hfirst.trans (ih hfirst.sound fun e' he' => ?_)
    rw [hfirst.evolves.size]
    exact hin e' (List.mem_cons_of_mem _ he')

/-- The fields of `y` are merged into `x` after `y` was forwarded. -/
theorem Sound.fillRecord (hne : x ≠ y) (hx : a.get x = .record xFields xOrigins)
    (hy : a.get y = .record yFields yOrigins) :
    Keeps ((a.set y (.forward x)).set x (.record xFields (xOrigins ++ yOrigins)))
      (mergeRecords derive x y xFields yFields xOrigins yOrigins a).2 := by
  have hstart : Keeps a ((a.set y (.forward x)).set x (.record xFields (xOrigins ++ yOrigins))) :=
    h.absorbRecord hne hx hy
  refine hstart.sound.mergeFields hderive x _ _ fun e he => ?_
  rw [hstart.evolves.size]
  exact h.inside (by rw [hy]; exact List.mem_map_of_mem he)

theorem Sound.mergeRecords (hne : x ≠ y) (hx : a.get x = .record xFields xOrigins)
    (hy : a.get y = .record yFields yOrigins) :
    Merges a (mergeRecords derive x y xFields yFields xOrigins yOrigins a) := by
  have hlt : x < a.shapes.size := lt_size_of_isCompound (by rw [hx]; rfl)
  exact ⟨(h.absorbRecord hne hx hy).trans (h.fillRecord hderive hne hx hy), hlt⟩

/-- The elements of `x` and `y` can be merged after `y` was forwarded. -/
theorem Sound.mergesElements (hne : x ≠ y) (hx : a.get x = .array xElement xOrigins)
    (hy : a.get y = .array yElement yOrigins) :
    Merges ((a.set y (.forward x)).set x (.array xElement origins))
      (derive xElement yElement ((a.set y (.forward x)).set x (.array xElement origins))) := by
  have hstart : Keeps a ((a.set y (.forward x)).set x (.array xElement origins)) :=
    h.absorbArray hne hx hy
  exact hderive hstart.sound (hstart.evolves.size ▸ h.element_lt_size hx)
    (hstart.evolves.size ▸ h.element_lt_size hy)

theorem Sound.fillArray (hne : x ≠ y) (hx : a.get x = .array xElement xOrigins)
    (hy : a.get y = .array yElement yOrigins) :
    Keeps ((a.set y (.forward x)).set x (.array xElement (xOrigins ++ yOrigins)))
      (mergeArrays derive x y xElement yElement xOrigins yOrigins a).2 := by
  let start := (a.set y (.forward x)).set x (.array xElement (xOrigins ++ yOrigins))
  have hmerged : Merges start (derive xElement yElement start) :=
    h.mergesElements hderive hne hx hy
  simp only [Arena.mergeArrays]
  split
  · exact hmerged.toKeeps
  · refine hmerged.toKeeps.trans (hmerged.sound.setElement ?_)
    rw [hmerged.evolves.size]
    exact hmerged.lt_size

theorem Sound.mergeArrays (hne : x ≠ y) (hx : a.get x = .array xElement xOrigins)
    (hy : a.get y = .array yElement yOrigins) :
    Merges a (mergeArrays derive x y xElement yElement xOrigins yOrigins a) := by
  have hlt : x < a.shapes.size := lt_size_of_isCompound (by rw [hx]; rfl)
  exact ⟨(h.absorbArray hne hx hy).trans (h.fillArray hderive hne hx hy), hlt⟩

end

end

/-- Merging keeps an arena sound, whatever its budget. -/
theorem Sound.deriveWith (h : a.Sound) (budget : Nat) (hx : x < a.shapes.size)
    (hy : y < a.shapes.size) : Merges a (deriveWith budget x y a) := by
  induction budget generalizing a x y with
  | zero => exact h.merges h.unknown_lt_size
  | succ budget ih =>
    have hrx := h.resolve_lt_size hx
    have hry := h.resolve_lt_size hy
    refine deriveWith_cases (fun r hr => h.merges ?_) (fun hne hgx hgy _ => ?_) fun hne hgx hgy _ => ?_
    · rcases hr with rfl | rfl | rfl
      · exact h.unknown_lt_size
      · exact hrx
      · exact hry
    · exact h.mergeRecords ih hne hgx hgy
    · exact h.mergeArrays ih hne hgx hgy

theorem Sound.derive (h : a.Sound) (hx : x < a.shapes.size) (hy : y < a.shapes.size) :
    Merges a (a.derive x y) :=
  h.deriveWith _ hx hy

end Arena

end HostScript
