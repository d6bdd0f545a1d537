import HostScript.Proofs.Shape.Reads
import Mathlib.Logic.Relation

/-!
# Merges as chains of edits

A merge, and a write that merges, is a chain of edits of single records and arrays: one is absorbed
by another of its kind, a record gets a field, a field or element is widened. What every edit keeps,
a merge keeps. An edit says all that later proofs ask of it: no frozen shape is edited, the origins
that are asked whether a field is forced start the record's own, and an unknown field is not
widened. The names of the fields are among those that are allowed.
-/

namespace HostScript.Arena

variable {N : String → Prop} {a b : Arena} {i x y : ShapeId} {name : String}
  {origins asked xOrigins yOrigins : List NodeId} {fields : OrderedMap String ShapeId}

/-- One edit of a record or array. Records have no fields but those that `N` allows. -/
inductive Edits (N : String → Prop) (a : Arena) : Arena → Prop where
  /-- The record `y` is forwarded to the record `x`. -/
  | absorbRecord {x y : ShapeId} {xFields yFields : OrderedMap String ShapeId}
      {xOrigins yOrigins : List NodeId} : x ≠ y → a.get x = .record xFields xOrigins →
      a.get y = .record yFields yOrigins → a.frozenBelow ≤ x → a.frozenBelow ≤ y →
      Edits N a ((a.set y (.forward x)).set x (.record xFields (xOrigins ++ yOrigins)))
  /-- The array `y` is forwarded to the array `x`. -/
  | absorbArray {x y xElement yElement : ShapeId} {xOrigins yOrigins : List NodeId} : x ≠ y →
      a.get x = .array xElement xOrigins → a.get y = .array yElement yOrigins →
      a.frozenBelow ≤ x → a.frozenBelow ≤ y →
      Edits N a ((a.set y (.forward x)).set x (.array xElement (xOrigins ++ yOrigins)))
  | addField {x : ShapeId} {fields : OrderedMap String ShapeId} {origins asked : List NodeId}
      {name : String} (t : ShapeId) : a.get x = .record fields origins →
      fields.get? name = none → N name → a.frozenBelow ≤ x → asked <+: origins → asked ≠ [] →
      Edits N a (a.insertField x name (if a.isFieldForced asked name then unknown else t))
  | widenField {x old : ShapeId} {fields : OrderedMap String ShapeId} {origins asked : List NodeId}
      {name : String} (t : ShapeId) : a.get x = .record fields origins →
      fields.get? name = some old → old ≠ unknown → a.frozenBelow ≤ x → asked <+: origins →
      asked ≠ [] → Edits N a ((a.noteFieldWidened asked name).insertField x name t)
  | widenElement {x old : ShapeId} {origins : List NodeId} (t : ShapeId) :
      a.get x = .array old origins → old ≠ unknown → a.frozenBelow ≤ x →
      Edits N a (a.setElement x t)

/-- An edit is one as well if more names are allowed. -/
theorem Edits.mono {N' : String → Prop} (hN : ∀ name, N name → N' name) (h : Edits N a b) :
    Edits N' a b := by
  cases h with
  | absorbRecord hne hx hy hfx hfy => exact .absorbRecord hne hx hy hfx hfy
  | absorbArray hne hx hy hfx hfy => exact .absorbArray hne hx hy hfx hfy
  | addField t hx hnone hname hf hlead hasked => exact .addField t hx hnone (hN _ hname) hf hlead hasked
  | widenField t hx hold hne hf hlead hasked => exact .widenField t hx hold hne hf hlead hasked
  | widenElement t hx hne hf => exact .widenElement t hx hne hf

/-- What merging relies on. -/
structure Based (N : String → Prop) (a : Arena) : Prop where
  unknown : a.get Arena.unknown = .unknown
  rooted : a.Rooted
  grounded : a.Grounded
  named : ∀ {x fields origins}, a.get x = .record fields origins → ∀ name ∈ fields.keys, N name

theorem head?_eq_of_leading (hlead : asked <+: origins) (hne : asked ≠ []) :
    origins.head? = asked.head? := by
  obtain ⟨rest, rfl⟩ := hlead
  obtain ⟨o, ho⟩ := Option.ne_none_iff_exists'.mp (mt List.head?_eq_none_iff.mp hne)
  rw [List.head?_append, ho]
  rfl

/-! ### What an edit does -/

theorem insertField_of_record (h : a.get x = .record fields origins) (name : String) (t : ShapeId) :
    a.insertField x name t = a.set x (.record (fields.insert name t) origins) := by
  rw [Arena.insertField, h]

/-- `y` is forwarded to `x`, which gets another shape, and all others stay. -/
theorem get_absorbed (hne : x ≠ y) (hx : (a.get x).isCompound) (hy : (a.get y).isCompound)
    (shape : Shape) :
    ((a.set y (.forward x)).set x shape).get x = shape ∧
      ((a.set y (.forward x)).set x shape).get y = .forward x ∧
      ∀ i, i ≠ x → i ≠ y → ((a.set y (.forward x)).set x shape).get i = a.get i := by
  refine ⟨get_set_self ?_, ?_, fun i hix hiy => (get_set_of_ne hix).trans (get_set_of_ne hiy)⟩
  · rw [size_set]
    exact lt_size_of_isCompound hx
  · exact (get_set_of_ne hne.symm).trans (get_set_self (lt_size_of_isCompound hy))

/-- What an edit leaves as it is. -/
theorem Edits.frame (h : Edits N a b) : b.shapes.size = a.shapes.size ∧
    b.frozenBelow = a.frozenBelow ∧ b.hosts = a.hosts ∧ b.fieldReads = a.fieldReads ∧
    b.elementReads = a.elementReads ∧ (a.unstable = true → b.unstable = true) := by
  cases h with
  | absorbRecord _ _ _ _ _ | absorbArray _ _ _ _ _ => simp [Arena.set]
  | addField t hx _ _ _ _ _ =>
    rw [insertField_of_record hx]
    simp [Arena.set]
  | @widenField _ _ _ _ asked name t hx _ _ _ _ _ =>
    rw [insertField_of_record ((get_noteFieldWidened ..).trans hx), noteFieldWidened]
    split <;> simp [Arena.set, forceField]
  | widenElement t hx _ _ =>
    rw [setElement_of_array hx, noteElementWidened]
    split <;> simp [Arena.set]

/-- What an edit makes of a record or array. If a field or an element that was read is widened, the
arena becomes unstable. -/
inductive Becomes (N : String → Prop) (a b : Arena) (i : ShapeId) : Prop where
  | forward {x : ShapeId} : (a.get i).SameKind (a.get x) → (b.get x).isCompound = true →
      b.get i = .forward x → Becomes N a b i
  | absorbsRecord {j : ShapeId} {fields others : OrderedMap String ShapeId}
      {own absorbed : List NodeId} : a.get i = .record fields own →
      a.get j = .record others absorbed → b.get i = .record fields (own ++ absorbed) →
      Becomes N a b i
  | absorbsArray {j element other : ShapeId} {own absorbed : List NodeId} :
      a.get i = .array element own → a.get j = .array other absorbed →
      b.get i = .array element (own ++ absorbed) → Becomes N a b i
  | addsField {fields : OrderedMap String ShapeId} {origins asked : List NodeId} {name : String}
      {t : ShapeId} : a.get i = .record fields origins → fields.get? name = none → N name →
      asked <+: origins → asked ≠ [] → (a.isFieldForced asked name = true → t = unknown) →
      b.get i = .record (fields.insert name t) origins → Becomes N a b i
  | widensField {fields : OrderedMap String ShapeId} {origins : List NodeId} {name : String}
      {old t : ShapeId} : a.get i = .record fields origins → fields.get? name = some old →
      old ≠ unknown →
      (∀ o, origins.head? = some o → (o, name) ∈ a.fieldReads → b.unstable = true) →
      b.get i = .record (fields.insert name t) origins → Becomes N a b i
  | widensElement {old t : ShapeId} {origins : List NodeId} : a.get i = .array old origins →
      old ≠ unknown → (∀ o, origins.head? = some o → o ∈ a.elementReads → b.unstable = true) →
      b.get i = .array t origins → Becomes N a b i

theorem unstable_noteFieldWidened (hlead : asked <+: origins) (hne : asked ≠ []) {o : NodeId}
    (ho : origins.head? = some o) (h : (o, name) ∈ a.fieldReads) :
    (a.noteFieldWidened asked name).unstable = true := by
  rw [head?_eq_of_leading hlead hne] at ho
  have hread : a.fieldWasRead asked name = true :=
    List.any_eq_true.mpr ⟨o, List.mem_of_head? ho, List.contains_iff_mem.mpr h⟩
  rw [Arena.noteFieldWidened, if_pos hread]
  rfl

/-- An edit changes records and arrays that are not frozen, and nothing else. -/
theorem Edits.becomes (h : Edits N a b) (i : ShapeId) :
    b.get i = a.get i ∨ a.frozenBelow ≤ i ∧ Becomes N a b i := by
  cases h with
  | @absorbRecord x y xFields yFields xOrigins yOrigins hne hx hy hfx hfy =>
    obtain ⟨hself, hforward, hother⟩ := get_absorbed hne (by rw [hx]; rfl) (by rw [hy]; rfl)
      (.record xFields (xOrigins ++ yOrigins))
    by_cases hiy : i = y
    · subst hiy
      exact .inr ⟨hfy, .forward (by rw [hx, hy]; constructor) (by rw [hself]; rfl) hforward⟩
    by_cases hix : i = x
    · subst hix
      exact .inr ⟨hfx, .absorbsRecord hx hy hself⟩
    · exact .inl (hother i hix hiy)
  | @absorbArray x y xElement yElement xOrigins yOrigins hne hx hy hfx hfy =>
    obtain ⟨hself, hforward, hother⟩ := get_absorbed hne (by rw [hx]; rfl) (by rw [hy]; rfl)
      (.array xElement (xOrigins ++ yOrigins))
    by_cases hiy : i = y
    · subst hiy
      exact .inr ⟨hfy, .forward (by rw [hx, hy]; constructor) (by rw [hself]; rfl) hforward⟩
    by_cases hix : i = x
    · subst hix
      exact .inr ⟨hfx, .absorbsArray hx hy hself⟩
    · exact .inl (hother i hix hiy)
  | @addField x fields _ asked name t hx hnone hname hf hlead hasked =>
    by_cases hix : i = x
    · subst hix
      exact .inr ⟨hf, .addsField hx hnone hname hlead hasked (fun hforced => if_pos hforced)
        ((get_insertField hx).trans (if_pos rfl))⟩
    · exact .inl ((get_insertField hx).trans (if_neg hix))
  | @widenField x old fields origins asked name t hx hold hne hf hlead hasked =>
    have hnoted : (a.noteFieldWidened asked name).get x = .record fields origins :=
      (get_noteFieldWidened ..).trans hx
    by_cases hix : i = x
    · subst hix
      refine .inr ⟨hf, .widensField hx hold hne (fun o ho hread => ?_)
        ((get_insertField hnoted).trans (if_pos rfl))⟩
      rw [insertField_of_record hnoted]
      exact unstable_noteFieldWidened hlead hasked ho hread
    · exact .inl (((get_insertField hnoted).trans (if_neg hix)).trans (get_noteFieldWidened ..))
  | @widenElement x old origins t hx hne hf =>
    by_cases hix : i = x
    · subst hix
      refine .inr ⟨hf, .widensElement hx hne (fun o ho hread => ?_) (get_setElement_self hx)⟩
      rw [setElement_of_array hx, noteElementWidened, if_pos (List.any_eq_true.mpr
        ⟨o, List.mem_of_head? ho, List.contains_iff_mem.mpr hread⟩)]
      rfl
    · exact .inl (get_setElement_of_ne hix)

/-! ### What an edit keeps -/

theorem Becomes.sameKind (h : Becomes N a b i) : (a.get i).SameKind (b.get i) ∨
    ∃ x, b.get i = .forward x ∧ (a.get i).SameKind (a.get x) ∧ (b.get x).isCompound = true := by
  cases h with
  | forward hkind hx hb => exact .inr ⟨_, hb, hkind, hx⟩
  | absorbsRecord ha _ hb | absorbsArray ha _ hb | addsField ha _ _ _ _ _ hb | widensField ha _ _ _ hb
  | widensElement ha _ _ hb =>
    rw [ha, hb]
    exact .inl (by constructor)

theorem Becomes.isCompound (h : Becomes N a b i) : (a.get i).isCompound = true := by
  rcases h.sameKind with hkind | ⟨_, _, hkind, _⟩ <;> exact hkind.symm.isCompound

theorem Edits.evolves (h : Edits N a b) : Evolves a b where
  size := h.frame.1
  frozen := h.frame.2.1
  hosts := h.frame.2.2.1
  other {i} hi := by
    rcases h.becomes i with hsame | ⟨_, hbecomes⟩
    · exact hsame
    · rw [hbecomes.isCompound] at hi
      cases hi
  compound {i} hi := by
    rcases h.becomes i with hsame | ⟨_, hbecomes⟩
    · rw [hsame]
      exact .inl (.of_isCompound hi)
    · exact hbecomes.sameKind.imp id fun ⟨x, hb, hkind, _⟩ => ⟨x, hb, hkind⟩

/-- What was read stays, as long as its record or array is not forwarded. -/
theorem Based.remembers (h : a.Based N) (he : Edits N a b) : Remembers a b where
  fieldReads := fun _ hm => he.frame.2.2.2.1 ▸ hm
  elementReads := fun _ hm => he.frame.2.2.2.2.1 ▸ hm
  unstable := he.frame.2.2.2.2.2
  forward {i t} hi := by
    rw [he.evolves.other (by rw [hi]; rfl), hi]
  record {i fields origins} hi := by
    rcases he.becomes i with hsame | ⟨_, hbecomes⟩
    · exact .inr ⟨fields, origins, hsame.trans hi, rfl, fun _ _ _ _ hname _ => .inl hname⟩
    cases hbecomes with
    | forward _ _ hb => exact .inl ⟨_, hb⟩
    | absorbsRecord ha _ hb =>
      cases hi.symm.trans ha
      obtain ⟨o, ho⟩ := h.rooted.record hi
      refine .inr ⟨_, _, hb, ?_, fun _ _ _ _ hname _ => .inl hname⟩
      rw [List.head?_append, ho]
      rfl
    | addsField ha hnone _ _ _ _ hb =>
      cases hi.symm.trans ha
      refine .inr ⟨_, _, hb, rfl, fun o n u _ hn _ => .inl ?_⟩
      rwa [OrderedMap.get?_insert, if_neg]
      rintro rfl
      cases hnone.symm.trans hn
    | @widensField _ _ name _ _ ha _ _ hread hb =>
      cases hi.symm.trans ha
      refine .inr ⟨_, _, hb, rfl, fun o n u ho hn hnoted => ?_⟩
      by_cases hname : n = name
      · subst hname
        exact .inr (hread o ho hnoted)
      · rw [OrderedMap.get?_insert, if_neg hname]
        exact .inl hn
    | absorbsArray ha _ _ | widensElement ha _ _ _ => cases hi.symm.trans ha
  array {i element origins} hi := by
    rcases he.becomes i with hsame | ⟨_, hbecomes⟩
    · exact .inr ⟨element, origins, hsame.trans hi, rfl, fun _ _ _ => .inl rfl⟩
    cases hbecomes with
    | forward _ _ hb => exact .inl ⟨_, hb⟩
    | absorbsArray ha _ hb =>
      cases hi.symm.trans ha
      obtain ⟨o, ho⟩ := h.rooted.array hi
      refine .inr ⟨_, _, hb, ?_, fun _ _ _ => .inl rfl⟩
      rw [List.head?_append, ho]
      rfl
    | widensElement ha _ hread hb =>
      cases hi.symm.trans ha
      exact .inr ⟨_, _, hb, rfl, fun o ho hnoted => .inr (hread o ho hnoted)⟩
    | absorbsRecord ha _ _ | addsField ha _ _ _ _ _ _ | widensField ha _ _ _ _ =>
      cases hi.symm.trans ha

theorem Grounded.of_shapes (ha : a.Grounded) (h : b.shapes = a.shapes) : b.Grounded :=
  ha.of_agree (fun _ => get_of_shapes h _) fun hc => by
    rw [get_of_shapes h]
    exact Shape.isLink_of_isCompound hc

/-- A shape is forwarded to data only. -/
theorem Grounded.edits (ha : a.Grounded) (h : Edits N a b) : b.Grounded := by
  have hdata {i : ShapeId} (hi : (a.get i).isLink = false) : b.Resolves i (b.resolve i) := by
    have hleads : ∃ r, b.Resolves i r := by
      rcases h.becomes i with hsame | ⟨_, hbecomes⟩
      · exact ⟨i, .data (by rwa [hsame])⟩
      rcases hbecomes.sameKind with hkind | ⟨x, hb, _, hx⟩
      · exact ⟨i, .data (Shape.isLink_of_isCompound hkind.isCompound)⟩
      · exact ⟨x, .forward hb (.data (Shape.isLink_of_isCompound hx))⟩
    obtain ⟨r, hr⟩ := hleads
    rwa [hr.resolve_eq]
  intro i
  refine ⟨_, (ha.resolves i).later (f := b.resolve) h.evolves.links hdata fun hl => ?_⟩
  exact resolve_of_data (by rw [h.evolves.other (by rw [hl]; rfl), hl]; rfl)

theorem mem_keys_of_get? {t : ShapeId} (h : fields.get? name = some t) : name ∈ fields.keys :=
  List.mem_map.mpr ⟨(name, t), OrderedMap.mem_of_lookup h, rfl⟩

theorem Edits.record_cases (h : Edits N a b) (hb : b.get i = .record fields origins) :
    a.get i = .record fields origins ∨
    (∃ j own others absorbed, a.get i = .record fields own ∧ a.get j = .record others absorbed ∧
      origins = own ++ absorbed) ∨
    ∃ before name t, a.get i = .record before origins ∧ fields = before.insert name t ∧
      ((∃ old, before.get? name = some old ∧ old ≠ unknown) ∨
        N name ∧ ∃ asked, asked <+: origins ∧ asked ≠ [] ∧
          (a.isFieldForced asked name = true → t = unknown)) := by
  rcases h.becomes i with hsame | ⟨_, hbecomes⟩
  · exact .inl (hsame.symm.trans hb)
  cases hbecomes with
  | absorbsRecord ha hj hget =>
    cases hb.symm.trans hget
    exact .inr (.inl ⟨_, _, _, _, ha, hj, rfl⟩)
  | addsField ha _ hname hlead hasked hforced hget =>
    cases hb.symm.trans hget
    exact .inr (.inr ⟨_, _, _, ha, rfl, .inr ⟨hname, _, hlead, hasked, hforced⟩⟩)
  | widensField ha hold hne _ hget =>
    cases hb.symm.trans hget
    exact .inr (.inr ⟨_, _, _, ha, rfl, .inl ⟨_, hold, hne⟩⟩)
  | forward _ _ hget | absorbsArray _ _ hget | widensElement _ _ _ hget => cases hb.symm.trans hget

theorem Edits.array_cases (h : Edits N a b) {element : ShapeId}
    (hb : b.get i = .array element origins) :
    a.get i = .array element origins ∨
    (∃ j own other absorbed, a.get i = .array element own ∧ a.get j = .array other absorbed ∧
      origins = own ++ absorbed) ∨
    ∃ old, a.get i = .array old origins ∧ old ≠ unknown := by
  rcases h.becomes i with hsame | ⟨_, hbecomes⟩
  · exact .inl (hsame.symm.trans hb)
  cases hbecomes with
  | absorbsArray ha hj hget =>
    cases hb.symm.trans hget
    exact .inr (.inl ⟨_, _, _, _, ha, hj, rfl⟩)
  | widensElement ha hne _ hget =>
    cases hb.symm.trans hget
    exact .inr (.inr ⟨_, ha, hne⟩)
  | forward _ _ hget | absorbsRecord _ _ hget | addsField _ _ _ _ _ _ hget
  | widensField _ _ _ _ hget => cases hb.symm.trans hget

/-- The origins of a record that stays one only grow at the end. It has the fields that it had, and
may have one more that is allowed. -/
theorem Edits.record_before (h : Edits N a b) (hb : b.get x = .record fields origins) :
    ∃ fields' origins', a.get x = .record fields' origins' ∧ origins' <+: origins ∧
      ∀ name ∈ fields.keys, name ∈ fields'.keys ∨ N name := by
  rcases h.record_cases hb with hx | ⟨_, own, _, absorbed, hx, _, rfl⟩ |
    ⟨before, name, t, hx, rfl, hname⟩
  · exact ⟨fields, origins, hx, List.prefix_refl _, fun _ => .inl⟩
  · exact ⟨fields, own, hx, List.prefix_append .., fun _ => .inl⟩
  · refine ⟨before, origins, hx, List.prefix_refl _, fun other hother => ?_⟩
    rw [OrderedMap.keys_insert] at hother
    split at hother
    · exact .inl hother
    · rcases List.mem_append.mp hother with hold | hnew
      · exact .inl hold
      · rw [List.mem_singleton.mp hnew]
        exact hname.imp (fun ⟨_, hold, _⟩ => mem_keys_of_get? hold) And.left

/-- A record has at least the fields that it had, or it was forwarded. -/
theorem Edits.record_after (h : Edits N a b) {i : ShapeId} (ha : a.get i = .record fields origins) :
    (∃ fields' origins', b.get i = .record fields' origins' ∧ fields.keys ⊆ fields'.keys) ∨
      ∃ next, b.get i = .forward next := by
  rcases h.evolves.record ha with ⟨fields', origins', hb⟩ | ⟨next, hb, _⟩
  · refine .inl ⟨fields', origins', hb, ?_⟩
    rcases h.record_cases hb with hx | ⟨_, _, _, _, hx, _⟩ | ⟨before, name, t, hx, rfl, _⟩
    · cases ha.symm.trans hx
      exact List.Subset.refl _
    · cases ha.symm.trans hx
      exact List.Subset.refl _
    · cases ha.symm.trans hx
      intro key hkey
      rw [OrderedMap.keys_insert]
      split
      · exact hkey
      · exact List.mem_append_left _ hkey
  · exact .inr ⟨next, hb⟩

theorem Based.edits (h : a.Based N) (he : Edits N a b) : b.Based N where
  unknown := (he.evolves.other (by rw [h.unknown]; rfl)).trans h.unknown
  rooted := h.rooted.of_evolves (h.remembers he) he.evolves
  grounded := h.grounded.edits he
  named hb name hname := by
    obtain ⟨_, _, hget, _, hkeys⟩ := he.record_before hb
    exact (hkeys name hname).elim (h.named hget name) id

/-- The fields of a record have different names. -/
def Distinct (a : Arena) : Prop :=
  ∀ ⦃i fields origins⦄, a.get i = .record fields origins → fields.keys.Nodup

theorem Edits.distinct (h : Edits N a b) (ha : a.Distinct) : b.Distinct := by
  intro i fields origins hb
  rcases h.record_cases hb with hx | ⟨_, _, _, _, hx, _⟩ | ⟨before, name, t, hx, rfl, _⟩
  · exact ha hx
  · exact ha hx
  · exact OrderedMap.nodup_keys_insert (ha hx) name t

theorem Sound.based (h : a.Sound) (hr : a.Rooted) : a.Based fun _ => True :=
  ⟨h.get_unknown, hr, h.grounded, fun _ _ _ => trivial⟩

/-! ### Chains -/

/-- Edits one after the other. -/
abbrev Edited (N : String → Prop) : Arena → Arena → Prop :=
  Relation.ReflTransGen (Edits N)

namespace Edited

theorem evolves (h : Edited N a b) : Evolves a b := by
  induction h with
  | refl => exact .refl a
  | tail _ he ih => exact ih.trans he.evolves

theorem based (h : Edited N a b) (ha : a.Based N) : b.Based N := by
  induction h with
  | refl => exact ha
  | tail _ he ih => exact ih.edits he

theorem remembers (h : Edited N a b) (ha : a.Based N) : Remembers a b := by
  induction h with
  | refl => exact .refl a
  | tail hab he ih => exact ih.trans ((based hab ha).remembers he)

theorem distinct (h : Edited N a b) (ha : a.Distinct) : b.Distinct := by
  induction h with
  | refl => exact ha
  | tail _ he ih => exact he.distinct ih

theorem record_before (h : Edited N a b) (hb : b.get x = .record fields origins) :
    ∃ fields' origins', a.get x = .record fields' origins' ∧ origins' <+: origins := by
  induction h generalizing fields origins with
  | refl => exact ⟨fields, origins, hb, List.prefix_refl _⟩
  | tail _ he ih =>
    obtain ⟨_, _, hmid, hlead, _⟩ := he.record_before hb
    obtain ⟨fields', origins', ha, hlead'⟩ := ih hmid
    exact ⟨fields', origins', ha, hlead'.trans hlead⟩

end Edited

/-! ### Merges -/

/-- Merging an unknown shape with another one does nothing. -/
theorem deriveWith_unknown (h : a.get unknown = .unknown) (budget : Nat) (y : ShapeId) :
    deriveWith budget unknown y a = (unknown, a) := by
  have hresolve : a.resolve unknown = unknown := resolve_of_data (by rw [h]; rfl)
  cases budget with
  | zero => rfl
  | succ budget =>
    simp only [Arena.deriveWith, hresolve, h]
    split
    · rfl
    · cases a.get (a.resolve y) <;> rfl

section

variable {budget : Nat}
  (hderive : ∀ {u v : ShapeId} {a : Arena}, a.Based N → Edited N a (deriveWith budget u v a).2)

include hderive

theorem Based.ne_unknown_of_not_same (h : a.Based N)
    (hnot : ¬ (deriveWith budget x y a).2.same (deriveWith budget x y a).1 x = true) :
    x ≠ Arena.unknown ∧ (Arena.deriveWith budget x y a).2 = a := by
  have hmerged := hderive (u := x) (v := y) h
  refine ⟨?_, deriveWith_unchanged hmerged.evolves h.grounded (hmerged.based h).grounded
    (Bool.eq_false_iff.mpr hnot)⟩
  rintro rfl
  rw [deriveWith_unknown h.unknown] at hnot
  exact hnot (beq_self_eq_true _)

theorem Based.mergeField (h : a.Based N) (hx : a.frozenBelow ≤ x) (hne : asked ≠ [])
    (hasked : ∀ {fields origins}, a.get x = .record fields origins → asked <+: origins)
    (hname : N name) (t : ShapeId) :
    Edited N a (Arena.mergeField (deriveWith budget) x asked a name t) := by
  cases hget : a.get x with
  | record fields origins =>
    cases hown : fields.get? name with
    | none =>
      simp only [Arena.mergeField, hget, hown]
      exact .single (.addField t hget hown hname hx (hasked hget) hne)
    | some own =>
      simp only [Arena.mergeField, hget, hown]
      split
      · exact hderive h
      next hnot =>
        obtain ⟨hold, hsame⟩ := h.ne_unknown_of_not_same hderive hnot
        rw [hsame]
        exact .single (.widenField _ hget hown hold hx (hasked hget) hne)
  | _ =>
    simp only [Arena.mergeField, hget, Arena.insertField]
    exact .refl

theorem Based.mergeFields (h : a.Based N) (hx : a.frozenBelow ≤ x) (hne : asked ≠ [])
    (hasked : ∀ {fields origins}, a.get x = .record fields origins → asked <+: origins)
    (entries : List (String × ShapeId)) (hnames : ∀ e ∈ entries, N e.1) :
    Edited N a (entries.foldl
      (fun a e => Arena.mergeField (deriveWith budget) x asked a e.1 e.2) a) := by
  induction entries generalizing a with
  | nil => exact .refl
  | cons e rest ih =>
    have hfirst := h.mergeField hderive hx hne hasked (hnames e List.mem_cons_self) e.2
    refine hfirst.trans (ih (hfirst.based h) (hfirst.evolves.frozen ▸ hx) (fun hget => ?_)
      fun e' he' => hnames e' (List.mem_cons_of_mem _ he'))
    obtain ⟨_, _, hbefore, hlead⟩ := hfirst.record_before hget
    exact (hasked hbefore).trans hlead

theorem Based.mergeRecords (h : a.Based N) (hne : x ≠ y)
    {xFields yFields : OrderedMap String ShapeId} (hx : a.get x = .record xFields xOrigins)
    (hy : a.get y = .record yFields yOrigins) (hfx : a.frozenBelow ≤ x) (hfy : a.frozenBelow ≤ y) :
    Edited N a (Arena.mergeRecords (deriveWith budget) x y xFields yFields xOrigins yOrigins a).2 := by
  have hstart : Edits N a ((a.set y (.forward x)).set x (.record xFields (xOrigins ++ yOrigins))) :=
    .absorbRecord hne hx hy hfx hfy
  refine .head hstart ((h.edits hstart).mergeFields hderive hfx ?_ ?_ yFields.entries
    fun e he => h.named hy e.1 (List.mem_map_of_mem he))
  · obtain ⟨o, ho⟩ := h.rooted.record hx
    exact List.append_ne_nil_of_left_ne_nil (fun hnil => by rw [hnil] at ho; cases ho) _
  · intro fields origins hget
    rw [get_set_self (by rw [size_set]; exact lt_size_of_isCompound (by rw [hx]; rfl))] at hget
    cases hget
    exact List.prefix_refl _

theorem Based.mergeArrays (h : a.Based N) (hne : x ≠ y) {xElement yElement : ShapeId}
    (hx : a.get x = .array xElement xOrigins) (hy : a.get y = .array yElement yOrigins)
    (hfx : a.frozenBelow ≤ x) (hfy : a.frozenBelow ≤ y) :
    Edited N a
      (Arena.mergeArrays (deriveWith budget) x y xElement yElement xOrigins yOrigins a).2 := by
  have hstart : Edits N a ((a.set y (.forward x)).set x (.array xElement (xOrigins ++ yOrigins))) :=
    .absorbArray hne hx hy hfx hfy
  refine .head hstart ?_
  simp only [Arena.mergeArrays]
  split
  · exact hderive (h.edits hstart)
  next hnot =>
    obtain ⟨hold, hsame⟩ := (h.edits hstart).ne_unknown_of_not_same hderive hnot
    rw [hsame]
    refine .single (.widenElement _ (get_set_self ?_) hold hfx)
    rw [size_set]
    exact lt_size_of_isCompound (by rw [hx]; rfl)

end

theorem Grounded.frozenBelow_le (h : a.Grounded) (hx : ¬ a.isFrozen (a.resolve x) = true) :
    a.frozenBelow ≤ a.resolve x := by
  rw [isFrozen, h.resolve_resolve, decide_eq_true_eq] at hx
  exact Nat.le_of_not_lt hx

/-- A merge is a chain of edits, whatever its budget. -/
theorem Based.deriveWith (h : a.Based N) (budget : Nat) (x y : ShapeId) :
    Edited N a (Arena.deriveWith budget x y a).2 := by
  induction budget generalizing a x y with
  | zero => exact .refl
  | succ budget ih =>
    refine deriveWith_cases (P := fun d => Edited N a d.2) (fun _ _ => .refl)
      (fun hne hgx hgy hfrozen => ?_) fun hne hgx hgy hfrozen => ?_
    all_goals rw [Bool.or_eq_true, not_or] at hfrozen
    · exact h.mergeRecords (fun ha => ih ha _ _) hne hgx hgy
        (h.grounded.frozenBelow_le hfrozen.1) (h.grounded.frozenBelow_le hfrozen.2)
    · exact h.mergeArrays (fun ha => ih ha _ _) hne hgx hgy
        (h.grounded.frozenBelow_le hfrozen.1) (h.grounded.frozenBelow_le hfrozen.2)

theorem Based.derive (h : a.Based N) (x y : ShapeId) : Edited N a (a.derive x y).2 :=
  h.deriveWith _ x y

/-! ### Writes -/

theorem Based.writeField (h : a.Based N) (record : ShapeId) (hname : N name) (t : ShapeId) :
    Edited N a (a.writeField record name t).2 := by
  simp only [Arena.writeField]
  cases hget : a.get (a.resolve record) with
  | record fields origins =>
    have hfield : a.field? (a.resolve record) name = fields.get? name := by
      rw [field?, resolved, h.grounded.resolve_resolve, hget]
    have horigins : origins ≠ [] := by
      obtain ⟨o, ho⟩ := h.rooted.record hget
      rintro rfl
      cases ho
    rw [hfield]
    split
    next hnone =>
      split
      · exact .refl
      next hfrozen =>
        rw [origins_of_record hget]
        exact .single (.addField t hget hnone hname (h.grounded.frozenBelow_le hfrozen)
          (List.prefix_refl _) horigins)
    next existing hsome =>
      split
      · exact h.derive existing t
      next hnot =>
        obtain ⟨hold, hsame⟩ := h.ne_unknown_of_not_same (fun ha => ha.deriveWith _ _ _) hnot
        have hsame' : (a.derive existing t).2 = a := hsame
        rw [hsame']
        split
        · exact .refl
        next hfrozen =>
          rw [h.grounded.resolve_resolve, origins_of_record hget]
          exact .single (.widenField _ hget hsome hold (h.grounded.frozenBelow_le hfrozen)
            (List.prefix_refl _) horigins)
  | _ =>
    have hfield : a.field? (a.resolve record) name = none := by
      rw [field?, resolved, h.grounded.resolve_resolve, hget]
    rw [hfield]
    simp only [Arena.insertField, hget]
    split <;> exact .refl

theorem Based.writeElement (h : a.Based N) (array t : ShapeId) :
    Edited N a (a.writeElement array t).2 := by
  simp only [Arena.writeElement]
  split
  · exact .refl
  next existing helement =>
    split
    · exact h.derive existing t
    next hnot =>
      obtain ⟨hold, hsame⟩ := h.ne_unknown_of_not_same (fun ha => ha.deriveWith _ _ _) hnot
      have hsame' : (a.derive existing t).2 = a := hsame
      rw [hsame']
      split
      · exact .refl
      next hfrozen =>
        rw [element?, resolved, h.grounded.resolve_resolve] at helement
        rw [h.grounded.resolve_resolve]
        split at helement
        next hget =>
          cases helement
          exact .single (.widenElement _ hget hold (h.grounded.frozenBelow_le hfrozen))
        next => cases helement

end HostScript.Arena
