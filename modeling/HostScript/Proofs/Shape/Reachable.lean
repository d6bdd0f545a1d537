import HostScript.Proofs.Shape.Union

/-!
# Arenas that analysis builds

Every operation of analysis keeps an arena sound, so all arenas it can build are. In such an arena,
with nothing frozen, merging two records or arrays makes them one that is their union.
-/

namespace HostScript.Arena

variable {a b : Arena} {i r s t x y : ShapeId} {shape : Shape}

/-! ### New shapes -/

@[simp] theorem size_push (a : Arena) (shape : Shape) :
    (a.push shape).2.shapes.size = a.shapes.size + 1 := by
  simp [Arena.push]

theorem get_push_of_lt (h : i < a.shapes.size) : (a.push shape).2.get i = a.get i := by
  rw [get_push, if_neg (Nat.ne_of_lt h)]

theorem get_push_self : (a.push shape).2.get a.shapes.size = shape := by
  rw [get_push, if_pos rfl]

/-- Links of older shapes do not lead to a new one. -/
theorem Enclosed.resolves_push (h : a.Enclosed) (hr : a.Resolves i r) (hi : i < a.shapes.size) :
    (a.push shape).2.Resolves i r := by
  induction hr with
  | data hdata => exact .data (by rwa [get_push_of_lt hi])
  | forward hget _ ih => exact .forward ((get_push_of_lt hi).trans hget) (ih (h.forward hget))
  | result hget hm hl hsig _ ihm ihr =>
    exact .result ((get_push_of_lt hi).trans hget) (ihm (h.method hget))
      ((get_push_of_lt (h.lt_size_of_resolves hm (h.method hget))).trans hl) hsig
      (ihr (h.ret hl hsig))

theorem Grounded.push (hg : a.Grounded) (h : a.Enclosed)
    (hnew : ∃ r, (a.push shape).2.Resolves a.shapes.size r) : (a.push shape).2.Grounded := by
  intro i
  rcases Nat.lt_trichotomy i a.shapes.size with hlt | heq | hgt
  · exact ⟨_, h.resolves_push (hg.resolves i) hlt⟩
  · rw [heq]
    exact hnew
  · refine ⟨i, .data ?_⟩
    rw [get_push, if_neg (Nat.ne_of_gt hgt), get_of_ge (Nat.le_of_lt hgt)]
    rfl

section

variable (h : a.Sound)

include h

theorem Sound.resolves_push (hr : a.Resolves i r) (hi : i < a.shapes.size) :
    (a.push shape).2.Resolves i r :=
  h.enclosed.resolves_push hr hi

theorem Sound.push (hp : ∀ p ∈ shape.parts, p < a.shapes.size)
    (hnew : ∃ r, (a.push shape).2.Resolves a.shapes.size r) : (a.push shape).2.Sound where
  first := fun {i} hi => (get_push_of_lt (h.lt_size hi)).trans (h.first hi)
  inside := fun {i p} hmem => by
    rw [size_push]
    rw [get_push] at hmem
    split at hmem
    · exact Nat.lt_succ_of_lt (hp p hmem)
    · exact Nat.lt_succ_of_lt (h.inside hmem)
  grounded := h.grounded.push h.enclosed hnew

theorem Sound.push_data (hp : ∀ p ∈ shape.parts, p < a.shapes.size) (hdata : shape.isLink = false) :
    (a.push shape).2.Sound :=
  h.push hp ⟨_, .data (by rwa [get_push_self])⟩

theorem Sound.host (id : HostTypeId) : (a.host id).2.Sound := by
  rw [Arena.host]
  split
  · exact h
  · have hpush : (a.push (.concrete (.host id))).2.Sound := h.push_data (by simp [Shape.parts]) rfl
    exact hpush.of_shapes rfl

omit h in
theorem get_of_lambda? {l : LambdaShape} (h : a.lambda? x = some l) :
    a.get (a.resolve x) = .lambda l := by
  rw [lambda?] at h
  split at h
  next hl =>
    cases h
    exact hl
  next => cases h

/-- The result of a call is that of the signature, which is there before it. -/
theorem Sound.newCall (hx : x < a.shapes.size) {k : Nat} {sig : Signature}
    (hsig : a.signature? x k = some sig) : (a.newCall x k).2.Sound := by
  obtain ⟨l, hl, hk⟩ := Option.bind_eq_some_iff.mp hsig
  have hget := get_of_lambda? hl
  have hret : sig.ret ∈ (a.get (a.resolve x)).parts := by
    rw [hget]
    exact List.mem_flatMap.mpr ⟨sig, List.mem_of_getElem? hk, List.mem_cons_self⟩
  refine h.push (fun p hp => ?_) ⟨_, .result get_push_self
    (h.resolves_push (h.grounded.resolves x) hx)
    ((get_push_of_lt (h.resolve_lt_size hx)).trans hget) hk
    (h.resolves_push (h.grounded.resolves sig.ret) (h.inside hret))⟩
  rw [List.mem_singleton.mp hp]
  exact hx

omit h in
/-- A lambda with more signatures keeps all links. -/
theorem links_set_lambda {l l' : LambdaShape} (hx : a.get x = .lambda l)
    (hgrows : l.signatures <+: l'.signatures) : Links a (a.set x (.lambda l')) := by
  have hlt : x < a.shapes.size := lt_size_of_get (by rw [hx]; exact Shape.noConfusion)
  refine ⟨fun {i target} hi => ?_, fun {i method k} hi => ?_, fun {i l''} hi => ?_⟩
  · rw [get_set_of_ne, hi]
    rintro rfl
    cases hx.symm.trans hi
  · rw [get_set_of_ne, hi]
    rintro rfl
    cases hx.symm.trans hi
  · by_cases heq : i = x
    · subst heq
      cases hx.symm.trans hi
      refine ⟨l', get_set_self hlt, fun {k s} hk => ?_⟩
      obtain ⟨rest, hrest⟩ := hgrows
      rw [← hrest, List.getElem?_append_left (List.getElem?_eq_some_iff.mp hk).1, hk]
    · exact ⟨l'', (get_set_of_ne heq).trans hi, id⟩

omit h in
theorem isLink_set_lambda {l : LambdaShape} (hi : (a.get i).isLink = false) :
    ((a.set x (.lambda l)).get i).isLink = false := by
  rw [get_set]
  split
  · rfl
  · exact hi

theorem Sound.modifyLambda (x : ShapeId) {f : LambdaShape → LambdaShape}
    (hgrows : ∀ l, l.signatures <+: (f l).signatures)
    (hin : ∀ l, a.resolved x = .lambda l → ∀ p ∈ (Shape.lambda (f l)).parts, p < a.shapes.size) :
    (a.modifyLambda x f).Sound := by
  rw [Arena.modifyLambda]
  split
  next l hl =>
    have hget : a.get (a.resolve x) = .lambda l := hl
    refine ⟨fun {i} hi => ?_, h.inside_set (hin l hl), fun i => ?_⟩
    · have hne : i ≠ a.resolve x := by
        rintro rfl
        rw [h.first hi] at hget
        exact (isLambda_first _ (Nat.lt_succ_of_le hi) l) hget
      rw [get_set_of_ne hne, h.first hi]
    · obtain ⟨r, hr⟩ := h.grounded i
      exact ⟨r, hr.later (f := id) (links_set_lambda hget (hgrows l))
        (fun hj => .data (isLink_set_lambda hj)) fun _ => rfl⟩
  next => exact h

/-! ### Reading and writing -/

theorem Sound.readField (record : ShapeId) (name : String) :
    (a.readField record name).2.Sound := by
  rw [Arena.readField]
  split
  · exact h.of_shapes rfl
  · exact h

theorem Sound.readElement (array : ShapeId) : (a.readElement array).2.Sound := by
  rw [Arena.readElement]
  split
  · exact h.of_shapes rfl
  · exact h

theorem Sound.lt_size_of_field? {name : String} (hfield : a.field? x name = some s) :
    s < a.shapes.size := by
  rw [field?] at hfield
  split at hfield
  next fields origins hget =>
    refine h.inside (i := a.resolve x) ?_
    rw [show a.get (a.resolve x) = _ from hget]
    exact OrderedMap.mem_values hfield
  next => cases hfield

theorem Sound.lt_size_of_element? (helement : a.element? x = some s) :
    s < a.shapes.size := by
  rw [element?] at helement
  split at helement
  next element origins hget =>
    cases helement
    exact h.element_lt_size (i := a.resolve x) hget
  next => cases helement

theorem Sound.writeField (record : ShapeId) (name : String) (hy : y < a.shapes.size) :
    Keeps a (a.writeField record name y).2 := by
  simp only [Arena.writeField]
  split
  · split
    · exact h.keeps
    · refine h.insertField name ?_
      split
      · exact h.unknown_lt_size
      · exact hy
  next existing hfield =>
    have hmerged := h.derive (h.lt_size_of_field? hfield) hy
    split
    · exact hmerged.toKeeps
    · split
      · exact hmerged.toKeeps
      · have hnoted := hmerged.toKeeps.trans (hmerged.sound.noteFieldWidened
          ((a.derive existing y).2.origins ((a.derive existing y).2.resolve (a.resolve record)))
          name)
        refine hnoted.trans (hnoted.sound.insertField name ?_)
        rw [hnoted.evolves.size]
        exact hmerged.lt_size

theorem Sound.writeElement (array : ShapeId) (hy : y < a.shapes.size) :
    Keeps a (a.writeElement array y).2 := by
  simp only [Arena.writeElement]
  split
  · exact h.keeps
  next existing helement =>
    have hmerged := h.derive (h.lt_size_of_element? helement) hy
    split
    · exact hmerged.toKeeps
    · split
      · exact hmerged.toKeeps
      · exact hmerged.toKeeps.trans
          (hmerged.sound.setElement (hmerged.evolves.size ▸ hmerged.lt_size))

end

/-! ### Reachable arenas -/

/-- The arenas that the operations of analysis build from shapes that they made before. -/
inductive Reachable : Arena → Prop where
  | start (widening : Widening) : Reachable { widening }
  | host {a : Arena} (id : HostTypeId) : Reachable a → Reachable (a.host id).2
  | record {a : Arena} {fields : OrderedMap String ShapeId} (origin : NodeId) : Reachable a →
      (∀ p ∈ fields.values, p < a.shapes.size) → Reachable (a.newRecord origin fields).2
  | array {a : Arena} {element : ShapeId} (origin : NodeId) : Reachable a →
      element < a.shapes.size → Reachable (a.newArray origin element).2
  | hostMethod {a : Arena} (m : Member) : Reachable a → Reachable (a.push (.hostMethod m)).2
  | lambda {a : Arena} {l : LambdaShape} : Reachable a → l.signatures = [] →
      Reachable (a.push (.lambda l)).2
  | signature {a : Arena} {sig : Signature} (x : ShapeId) : Reachable a →
      (∀ p ∈ sig.ret :: sig.args, p < a.shapes.size) →
      Reachable (a.modifyLambda x fun l => { l with signatures := l.signatures ++ [sig] })
  | modifyLambda {a : Arena} {f : LambdaShape → LambdaShape} (x : ShapeId) : Reachable a →
      (∀ l, (f l).signatures = l.signatures) → Reachable (a.modifyLambda x f)
  | call {a : Arena} {x : ShapeId} {k : Nat} {sig : Signature} : Reachable a →
      x < a.shapes.size → a.signature? x k = some sig → Reachable (a.newCall x k).2
  | derive {a : Arena} {x y : ShapeId} : Reachable a → x < a.shapes.size → y < a.shapes.size →
      Reachable (a.derive x y).2
  | readField {a : Arena} (x : ShapeId) (name : String) : Reachable a →
      Reachable (a.readField x name).2
  | writeField {a : Arena} {y : ShapeId} (x : ShapeId) (name : String) : Reachable a →
      y < a.shapes.size → Reachable (a.writeField x name y).2
  | readElement {a : Arena} (x : ShapeId) : Reachable a → Reachable (a.readElement x).2
  | writeElement {a : Arena} {y : ShapeId} (x : ShapeId) : Reachable a → y < a.shapes.size →
      Reachable (a.writeElement x y).2
  | freeze {a : Arena} : Reachable a → Reachable a.freeze.2
  | thaw {a : Arena} (bound : Nat) : Reachable a → Reachable (a.thaw bound)
  | forceDeclaration {a : Arena} (node : NodeId) : Reachable a → Reachable (a.forceDeclaration node)

theorem sound_start (widening : Widening) : ({ widening } : Arena).Sound where
  first := fun _ => rfl
  inside := fun {i p} hp => by
    have hnone : (({ widening } : Arena).get i).parts = [] := by
      by_cases hi : i < 5
      · match i, hi with
        | 0, _ | 1, _ | 2, _ | 3, _ | 4, _ => rfl
      · rw [get_of_ge (Nat.le_of_not_lt hi)]
        rfl
    rw [hnone] at hp
    cases hp
  grounded := fun i => ⟨i, .data (by
    by_cases hi : i < 5
    · match i, hi with
      | 0, _ | 1, _ | 2, _ | 3, _ | 4, _ => rfl
    · rw [get_of_ge (Nat.le_of_not_lt hi)]
      rfl)⟩

theorem Reachable.sound (h : Reachable a) : a.Sound := by
  induction h with
  | start widening => exact sound_start widening
  | host id _ ih => exact ih.host id
  | @record a fields origin _ hin ih =>
    refine ih.push_data (fun p hp => ?_) rfl
    obtain ⟨name, q, hq, rfl⟩ := OrderedMap.mem_values_mapValues hp
    split
    · exact ih.unknown_lt_size
    · exact hin q hq
  | array origin _ hin ih =>
    refine ih.push_data (fun p hp => ?_) rfl
    rw [List.mem_singleton.mp hp]
    split
    · exact ih.unknown_lt_size
    · exact hin
  | hostMethod m _ ih => exact ih.push_data (fun p hp => by cases hp) rfl
  | lambda _ hnone ih =>
    refine ih.push_data (fun p hp => ?_) rfl
    rw [Shape.parts, hnone] at hp
    cases hp
  | @signature a sig x _ hin ih =>
    refine ih.modifyLambda x (fun l => List.prefix_append ..) fun l hl p hp => ?_
    simp only [Shape.parts, List.flatMap_append, List.mem_append, List.flatMap_cons,
      List.flatMap_nil, List.append_nil] at hp
    rcases hp with hp | hp
    · refine ih.inside (i := a.resolve x) ?_
      rw [show a.get (a.resolve x) = _ from hl]
      exact hp
    · exact hin p hp
  | @modifyLambda a f x _ hsame ih =>
    refine ih.modifyLambda x (fun l => by rw [hsame]) fun l hl p hp => ?_
    refine ih.inside (i := a.resolve x) ?_
    rw [show a.get (a.resolve x) = _ from hl]
    rwa [Shape.parts, hsame] at hp
  | call _ hx hsig ih => exact ih.newCall hx hsig
  | derive _ hx hy ih => exact (ih.derive hx hy).sound
  | readField x name _ ih => exact ih.readField x name
  | writeField x name _ hy ih => exact (ih.writeField x name hy).sound
  | readElement x _ ih => exact ih.readElement x
  | writeElement x _ hy ih => exact (ih.writeElement x hy).sound
  | freeze _ ih | thaw bound _ ih | forceDeclaration node _ ih => exact ih.of_shapes rfl

/-! ### Merging makes one of two -/

/-- The record `r` of `b` has the fields of all records of `a` that lead to it. A field is unknown
if it was unknown in one of them, or of different kinds in two of them. -/
structure IsUnion (a b : Arena) (r : ShapeId) : Prop where
  record : b.IsRecord r
  names : ∀ name, (∃ t, b.HasField r name t) ↔ ∃ i s, b.resolve i = r ∧ a.HasField i name s
  covers : ∀ {i name s t}, b.resolve i = r → a.HasField i name s → b.HasField r name t →
    b.Covers s t
  unknown : ∀ {i name s t}, b.resolve i = r → a.HasField i name s → b.HasField r name t →
    a.resolved s = .unknown → b.resolved t = .unknown
  conflict : ∀ {i j name s u t c d}, b.resolve i = r → a.HasField i name s → b.resolve j = r →
    a.HasField j name u → b.HasField r name t → a.resolved s = .concrete c →
    a.resolved u = .concrete d → c ≠ d → b.resolved t = .unknown

/-- The array `r` of `b` has an element that describes those of all arrays of `a` that lead to
it. -/
structure IsElementUnion (a b : Arena) (r : ShapeId) : Prop where
  element : ∃ t origins, b.get r = .array t origins ∧
    (∀ {i s o}, b.resolve i = r → a.get i = .array s o → b.Covers s t) ∧
    (∀ {i s o}, b.resolve i = r → a.get i = .array s o → a.resolved s = .unknown →
      b.resolved t = .unknown) ∧
    ∀ {i j s u o p c d}, b.resolve i = r → a.get i = .array s o → b.resolve j = r →
      a.get j = .array u p → a.resolved s = .concrete c → a.resolved u = .concrete d → c ≠ d →
      b.resolved t = .unknown

theorem HasField.unique {name : String} (h : a.HasField i name s) (h' : a.HasField i name t) :
    s = t := by
  obtain ⟨_, _, hget, hname⟩ := h
  obtain ⟨_, _, hget', hname'⟩ := h'
  cases hget.symm.trans hget'
  exact Option.some.inj (hname.symm.trans hname')

theorem Keeps.resolved_unknown (h : Keeps a b) (ha : a.Sound) (hs : a.resolved s = .unknown) :
    b.resolved s = .unknown :=
  (h.resolved_of_simple ha (by rw [hs]; rfl)).trans hs

theorem Keeps.resolved_concrete (h : Keeps a b) (ha : a.Sound) {c : Concrete}
    (hs : a.resolved s = .concrete c) : b.resolved s = .concrete c :=
  (h.resolved_of_simple ha (by rw [hs]; rfl)).trans hs

theorem Unites.isUnion (h : Unites a a.HasField b) (ha : a.Sound) (hkeeps : Keeps a b)
    (hr : b.IsRecord r) (hd : Direct a b r) : IsUnion a b r := by
  have hunited := h r hr hd
  have hcovers {i : ShapeId} {name : String} {s t : ShapeId} (hir : b.resolve i = r)
      (hs : a.HasField i name s) (ht : b.HasField r name t) : b.Covers s t := by
    obtain ⟨u, hu, hsu⟩ := hunited.covers hir hs
    rwa [ht.unique hu]
  refine ⟨hr, fun name => ⟨fun ⟨_, ht⟩ => hunited.names ht, fun ⟨_, _, hir, hs⟩ => ?_⟩, hcovers,
    fun hir hs ht hunknown => ?_, fun hir hs hjr hu ht hc hd hne => ?_⟩
  · obtain ⟨t, ht, _⟩ := hunited.covers hir hs
    exact ⟨t, ht⟩
  · exact (hcovers hir hs ht).unknown (hkeeps.resolved_unknown ha hunknown)
  · exact (hcovers hir hs ht).unknown_of_ne (hcovers hjr hu ht) (hkeeps.resolved_concrete ha hc)
      (hkeeps.resolved_concrete ha hd) hne

theorem CoversElements.isElementUnion (h : CoversElements a b) (ha : a.Sound) (hkeeps : Keeps a b)
    {element : ShapeId} {origins : List NodeId} (hx : a.get x = .array element origins) :
    IsElementUnion a b (b.resolve x) := by
  obtain ⟨t, o, ht, _⟩ := h x element origins hx
  have hcovers {i s : ShapeId} {o' : List NodeId} (hir : b.resolve i = b.resolve x)
      (hs : a.get i = .array s o') : b.Covers s t := by
    obtain ⟨u, _, hu, hsu⟩ := h i s o' hs
    rw [resolved_congr hir, ht] at hu
    cases hu
    exact hsu
  refine ⟨t, o, ht, hcovers, fun hir hs hunknown => ?_, fun hir hs hjr hu hc hd hne => ?_⟩
  · exact (hcovers hir hs).unknown (hkeeps.resolved_unknown ha hunknown)
  · exact (hcovers hir hs).unknown_of_ne (hcovers hjr hu) (hkeeps.resolved_concrete ha hc)
      (hkeeps.resolved_concrete ha hd) hne

/-- The operands of a merge lead to its result. -/
def MakesOne (a : Arena) (x y : ShapeId) : Prop :=
  (a.derive x y).2.resolve x = (a.derive x y).2.resolve (a.derive x y).1 ∧
    (a.derive x y).2.resolve y = (a.derive x y).2.resolve (a.derive x y).1

theorem makesOne_of_covers {d : ShapeId × Arena}
    (h : d.2.Covers x d.1 ∧ d.2.Covers y d.1)
    (hx : (d.2.resolved x).isCompound = true) (hy : (d.2.resolved y).isCompound = true)
    (hd : (d.2.resolved d.1).isCompound = true) :
    d.2.resolve x = d.2.resolve d.1 ∧ d.2.resolve y = d.2.resolve d.1 := by
  have hone {s : ShapeId} (hs : d.2.Covers s d.1) (hc : (d.2.resolved s).isCompound = true) :
      d.2.resolve s = d.2.resolve d.1 := by
    rcases hs with hu | hu | heq | ⟨c, hu, _⟩
    · rw [hu] at hd
      cases hd
    · rw [hu] at hc
      cases hc
    · exact heq.symm
    · rw [hu] at hc
      cases hc
  exact ⟨hone h.1 hx, hone h.2 hy⟩

theorem not_isFrozen (h : a.frozenBelow = 0) (x : ShapeId) : a.isFrozen x = false := by
  simp [isFrozen, h]

theorem derive_fst_of_records (h : a.frozenBelow = 0) (hx : a.IsRecord (a.resolve x))
    (hy : a.IsRecord (a.resolve y)) : (a.derive x y).1 = a.resolve x := by
  obtain ⟨_, _, hx⟩ := hx
  obtain ⟨_, _, hy⟩ := hy
  simp only [Arena.derive, deriveWith, hx, hy, not_isFrozen h]
  split <;> rfl

theorem derive_fst_of_arrays (h : a.frozenBelow = 0) {s t : ShapeId} {o p : List NodeId}
    (hx : a.resolved x = .array s o) (hy : a.resolved y = .array t p) :
    (a.derive x y).1 = a.resolve x := by
  rw [resolved] at hx hy
  simp only [Arena.derive, deriveWith, hx, hy, not_isFrozen h]
  split <;> rfl

theorem Keeps.isRecord_resolve_later (h : Keeps a b) (ha : a.Sound) (hx : a.IsRecord (a.resolve x)) :
    b.IsRecord (b.resolve x) := by
  rw [h.evolves.resolve ha.grounded h.sound.grounded]
  exact h.isRecord_resolve hx

theorem IsRecord.isCompound (h : a.IsRecord i) : (a.get i).isCompound = true := by
  obtain ⟨_, _, hget⟩ := h
  rw [hget]
  rfl

/-- Merging two records makes them one, which is their union if the records that were merged into it
are forwarded to it directly. Merging two arrays makes them one, which is always their union. -/
theorem derive_union (h : Reachable a) (hactive : a.frozenBelow = 0) (hx : x < a.shapes.size)
    (hy : y < a.shapes.size) :
    (a.IsRecord (a.resolve x) → a.IsRecord (a.resolve y) → MakesOne a x y ∧
      (Direct a (a.derive x y).2 ((a.derive x y).2.resolve (a.derive x y).1) →
        IsUnion a (a.derive x y).2 ((a.derive x y).2.resolve (a.derive x y).1))) ∧
    ∀ s t o p, a.resolved x = .array s o → a.resolved y = .array t p → MakesOne a x y ∧
      IsElementUnion a (a.derive x y).2 ((a.derive x y).2.resolve (a.derive x y).1) := by
  have hjoins : Joins a x y (a.derive x y) := h.sound.joins _ hx hy
  have hlater := hjoins.evolves.resolve h.sound.grounded hjoins.sound.grounded
  refine ⟨fun hrx hry => ?_, fun s t o p hax hay => ?_⟩
  · have hresult : (a.derive x y).2.IsRecord ((a.derive x y).2.resolve (a.derive x y).1) := by
      rw [derive_fst_of_records hactive hrx hry]
      exact hjoins.isRecord_resolve hrx
    refine ⟨makesOne_of_covers ⟨hjoins.left, hjoins.right⟩ ?_ ?_ hresult.isCompound, fun hdirect =>
      hjoins.unites.isUnion h.sound hjoins.toKeeps hresult hdirect⟩
    · exact (hjoins.isRecord_resolve_later h.sound hrx).isCompound
    · exact (hjoins.isRecord_resolve_later h.sound hry).isCompound
  · have harray {i u : ShapeId} {q : List NodeId} (hi : a.resolved i = .array u q) :
        ((a.derive x y).2.resolved i).isCompound = true := by
      obtain ⟨_, _, hb, _⟩ := hjoins.elements (a.resolve i) u q hi
      rw [resolved, hlater i]
      rw [resolved] at hb
      rw [hb]
      rfl
    have hfirst := derive_fst_of_arrays hactive hax hay
    have hresult : ((a.derive x y).2.resolved (a.derive x y).1).isCompound = true := by
      rw [hfirst, resolved, ← hlater x]
      exact harray hax
    refine ⟨makesOne_of_covers ⟨hjoins.left, hjoins.right⟩ (harray hax) (harray hay) hresult, ?_⟩
    rw [hfirst]
    exact hjoins.elements.isElementUnion h.sound hjoins.toKeeps hax

/-- A record with a number in `f`, and one with a text in `f` and a truth value in `g`. -/
def twoRecords : Arena :=
  ((({} : Arena).newRecord 1 ⟨[("f", Arena.number)]⟩).2.newRecord 2
    ⟨[("f", Arena.string), ("g", Arena.bool)]⟩).2

theorem reachable_twoRecords : Reachable twoRecords :=
  ((Reachable.start {}).record 1 (by decide)).record 2 (by decide)

theorem direct_twoRecords : Direct twoRecords (twoRecords.derive 5 6).2 5 := by
  intro i hi hir hne
  have hlt : i < 7 := lt_size_of_isCompound hi.isCompound
  match i, hlt with
  | 5, _ => exact absurd rfl hne
  | 6, _ => rfl
  | 0, _ | 1, _ | 2, _ | 3, _ | 4, _ =>
    obtain ⟨_, _, hget⟩ := hi
    cases hget

theorem derive_union_twoRecords :
    MakesOne twoRecords 5 6 ∧ IsUnion twoRecords (twoRecords.derive 5 6).2 5 := by
  have hunion := (derive_union (x := 5) (y := 6) reachable_twoRecords rfl (by decide) (by decide)).1
    ⟨_, _, rfl⟩ ⟨_, _, rfl⟩
  exact ⟨hunion.1, hunion.2 direct_twoRecords⟩

/-- A record `x` whose field `f` is a record, and a record `y` whose field `f` is `x`. -/
def chainedRecords : Arena :=
  (((({} : Arena).newRecord 1 ⟨[("f", Arena.unknown)]⟩).2.newRecord 2 ⟨[("f", 5)]⟩).2.newRecord 3
    ⟨[("f", 6), ("g", Arena.number)]⟩).2

/-- Merging `f` forwards `x`, and `g` is lost. -/
theorem derive_loses_field :
    Reachable chainedRecords ∧ chainedRecords.frozenBelow = 0 ∧ MakesOne chainedRecords 6 7 ∧
      chainedRecords.HasField 7 "g" Arena.number ∧
      ¬ IsUnion chainedRecords (chainedRecords.derive 6 7).2
        ((chainedRecords.derive 6 7).2.resolve (chainedRecords.derive 6 7).1) := by
  have hfield : chainedRecords.HasField 7 "g" Arena.number := ⟨_, _, rfl, rfl⟩
  refine ⟨(((Reachable.start {}).record 1 (by decide)).record 2 (by decide)).record 3 (by decide),
    rfl, ⟨rfl, rfl⟩, hfield, fun hunion => ?_⟩
  obtain ⟨t, _, _, hget, hname⟩ := (hunion.names "g").mpr ⟨7, Arena.number, rfl, hfield⟩
  cases hget
  cases hname

end HostScript.Arena
