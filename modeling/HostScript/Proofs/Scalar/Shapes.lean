import HostScript.Proofs.OrderedMap
import HostScript.Proofs.Scalar.Settled

/-!
# Shapes of scalars

In a flat arena no shape refers to another one. There `derive` either keeps a shape or gives it up,
and the shapes of scalars correspond to their representations.
-/

namespace HostScript

/-! ### Flat arenas -/

/-- Shapes without parts. -/
def Shape.isFlat : Shape → Bool
  | .unknown | .concrete _ | .hostMethod _ => true
  | _ => false

theorem Shape.isFlat_cases {s : Shape} (h : s.isFlat = true) :
    s = .unknown ∨ (∃ c, s = .concrete c) ∨ ∃ m, s = .hostMethod m := by
  cases s with
  | unknown => exact .inl rfl
  | concrete c => exact .inr (.inl ⟨c, rfl⟩)
  | hostMethod m => exact .inr (.inr ⟨m, rfl⟩)
  | _ => cases h

/-- The first shapes are those of scalars, and all but the one without evidence are flat. -/
structure Arena.Flat (a : Arena) : Prop where
  first : [.unknown, .undetermined, .concrete .number, .concrete .bool, .concrete .string] <+:
    a.shapes.toList
  flat : ∀ id, id ≠ Arena.undetermined → (a.get id).isFlat = true

namespace Arena.Flat

variable {a : Arena} {x y : ShapeId}

section

variable (h : a.Flat)

include h

theorem get_of_lt {i : Nat} {shape : Shape}
    (hi : [Shape.unknown, .undetermined, .concrete .number, .concrete .bool,
      .concrete .string][i]? = some shape) : a.get i = shape := by
  obtain ⟨rest, hrest⟩ := h.first
  have hlt := (List.getElem?_eq_some_iff.mp hi).1
  have hget : a.shapes.toList[i]? = some shape := by
    rw [← hrest, List.getElem?_append_left hlt, hi]
  rw [Arena.get, ← Array.getElem?_toList, hget]
  rfl

theorem get_unknown : a.get Arena.unknown = .unknown :=
  h.get_of_lt rfl

theorem get_undetermined : a.get Arena.undetermined = .undetermined :=
  h.get_of_lt rfl

theorem get_number : a.get Arena.number = .concrete .number :=
  h.get_of_lt rfl

theorem get_bool : a.get Arena.bool = .concrete .bool :=
  h.get_of_lt rfl

theorem get_string : a.get Arena.string = .concrete .string :=
  h.get_of_lt rfl

/-- No shape is a link. -/
theorem resolve (x : ShapeId) : a.resolve x = x := by
  rw [Arena.resolve, Arena.resolveWith]
  by_cases hx : x = Arena.undetermined
  · rw [hx, h.get_undetermined]
  · rcases Shape.isFlat_cases (h.flat x hx) with hs | ⟨c, hs⟩ | ⟨m, hs⟩ <;> rw [hs]

theorem resolved (x : ShapeId) : a.resolved x = a.get x := by
  rw [Arena.resolved, h.resolve]

/-- Merging keeps the first shape or gives it up, and leaves the arena as it is. -/
theorem derive (hx : x ≠ Arena.undetermined) (hy : y ≠ Arena.undetermined) :
    (a.derive x y).2 = a ∧ ((a.derive x y).1 = x ∨ (a.derive x y).1 = Arena.unknown) := by
  rw [Arena.derive, Arena.deriveWith]
  simp only [h.resolve]
  split
  · exact ⟨rfl, .inl rfl⟩
  · rcases Shape.isFlat_cases (h.flat x hx) with hsx | ⟨c, hsx⟩ | ⟨m, hsx⟩ <;>
      rcases Shape.isFlat_cases (h.flat y hy) with hsy | ⟨d, hsy⟩ | ⟨m', hsy⟩ <;>
      simp only [hsx, hsy, true_and, or_true]
    -- two concrete shapes
    by_cases hcd : c = d <;> simp [hcd]

theorem size_ne : a.shapes.size ≠ Arena.undetermined := by
  have hlt := h.first.length_le
  simp only [List.length_cons, List.length_nil, Array.length_toList] at hlt
  exact Nat.ne_of_gt (Nat.lt_of_lt_of_le (by decide) hlt)

theorem push {shape : Shape} (hshape : shape.isFlat = true) :
    (a.push shape).2.Flat where
  first := by
    rw [Arena.push, Array.toList_push]
    exact h.first.trans (List.prefix_append _ _)
  flat := by
    intro id hid
    rw [Arena.push, Arena.get, Array.getElem?_push]
    split
    · exact hshape
    · exact h.flat id hid

/-- Flatness is about the shapes alone. -/
theorem of_shapes {b : Arena} (heq : b.shapes = a.shapes) : b.Flat :=
  ⟨heq ▸ h.first, fun id hid => by rw [Arena.get, heq]; exact h.flat id hid⟩

end

end Arena.Flat

/-! ### Shapes and representations of scalars -/

/-- The shapes of scalars. -/
def ShapeId.IsScalar (id : ShapeId) : Prop :=
  id = Arena.unknown ∨ id = Arena.number ∨ id = Arena.bool ∨ id = Arena.string

/-- The representation of the values of a scalar shape. -/
def ShapeId.scalarRep (id : ShapeId) : Rep :=
  if id = Arena.number then .num
  else if id = Arena.bool then .bool
  else if id = Arena.string then .str
  else .any

/-- The second shape describes all values of the first one. -/
def ShapeId.Widens (x y : ShapeId) : Prop :=
  y = x ∨ y = Arena.unknown

namespace ShapeId

variable {a : Arena} {x y z : ShapeId}

theorem Widens.trans (h : Widens x y) (h' : Widens y z) : Widens x z := by
  rcases h' with rfl | rfl
  · exact h
  · exact .inr rfl

theorem IsScalar.of_widens (h : IsScalar x) (hw : Widens x y) : IsScalar y := by
  rcases hw with rfl | rfl
  · exact h
  · exact .inl rfl

theorem enters_of_widens (h : Widens x y) : (scalarRep x).Enters (scalarRep y) := by
  rcases h with rfl | rfl
  · exact .inl rfl
  · exact .inr rfl

theorem IsScalar.isScalar_rep (h : IsScalar x) : (scalarRep x).isScalar = true := by
  rcases h with rfl | rfl | rfl | rfl <;> rfl

theorem IsScalar.ne_undetermined (h : IsScalar x) : x ≠ Arena.undetermined := by
  rcases h with rfl | rfl | rfl | rfl <;> decide

/-- Merging two scalar shapes describes the values of both. -/
theorem IsScalar.widens_derive (ha : a.Flat) (hx : IsScalar x) (hy : IsScalar y) :
    Widens y (a.derive x y).1 := by
  rw [Arena.derive, Arena.deriveWith]
  simp only [ha.resolve]
  split
  · next heq => exact .inl heq
  · next hne =>
      refine .inr ?_
      rcases hx with rfl | rfl | rfl | rfl <;> rcases hy with rfl | rfl | rfl | rfl <;>
        simp [ha.get_unknown, ha.get_number, ha.get_bool, ha.get_string] at hne ⊢

/-! What analysis asks of a scalar shape depends on its representation. -/

theorem IsScalar.isDynamic (ha : a.Flat) (hx : IsScalar x) :
    a.isDynamic x = decide (scalarRep x = .any) := by
  rw [Arena.isDynamic, ha.resolved]
  rcases hx with rfl | rfl | rfl | rfl
  · rw [ha.get_unknown]; rfl
  · rw [ha.get_number]; rfl
  · rw [ha.get_bool]; rfl
  · rw [ha.get_string]; rfl

theorem IsScalar.concrete? (ha : a.Flat) (hx : IsScalar x) :
    a.concrete? x = match scalarRep x with
      | .num => some .number
      | .bool => some .bool
      | .str => some .string
      | _ => none := by
  rw [Arena.concrete?, ha.resolved]
  rcases hx with rfl | rfl | rfl | rfl
  · rw [ha.get_unknown]; rfl
  · rw [ha.get_number]; rfl
  · rw [ha.get_bool]; rfl
  · rw [ha.get_string]; rfl

theorem IsScalar.is_number (ha : a.Flat) (hx : IsScalar x) :
    a.is x .number = decide (scalarRep x = .num) := by
  rw [Arena.is, hx.concrete? ha]
  rcases hx with rfl | rfl | rfl | rfl <;> rfl

theorem IsScalar.is_string (ha : a.Flat) (hx : IsScalar x) :
    a.is x .string = decide (scalarRep x = .str) := by
  rw [Arena.is, hx.concrete? ha]
  rcases hx with rfl | rfl | rfl | rfl <;> rfl

theorem IsScalar.is_bool (ha : a.Flat) (hx : IsScalar x) :
    a.is x .bool = decide (scalarRep x = .bool) := by
  rw [Arena.is, hx.concrete? ha]
  rcases hx with rfl | rfl | rfl | rfl <;> rfl

/-- The shape that analysis finds for an operator is the one of the operation that is selected. -/
theorem binaryShape?_rep {op : BinOp} (ha : a.Flat) (hx : IsScalar x) (hy : IsScalar y)
    (h : Analysis.binaryShape? a op x y = some z) :
    IsScalar z ∧ scalarRep z = (Generate.binaryOp op (scalarRep x) (scalarRep y)).2 := by
  simp only [Analysis.binaryShape?, hx.isDynamic ha, hy.isDynamic ha, hx.is_number ha,
    hy.is_number ha, hx.is_string ha, hy.is_string ha] at h
  have hl := hx.isScalar_rep
  have hr := hy.isScalar_rep
  generalize scalarRep x = l at *
  generalize scalarRep y = r at *
  cases op with
  | eq | ne =>
    cases h
    exact ⟨.inr (.inr (.inl rfl)), rfl⟩
  | lt | gt | le | ge =>
    simp only at h
    split at h
    · cases h
      exact ⟨.inr (.inr (.inl rfl)), rfl⟩
    · cases h
  | add | sub | mul | div | mod =>
    cases l <;> cases hl <;> cases r <;> cases hr <;> cases h <;>
      exact ⟨by simp [IsScalar], rfl⟩

/-- An operator that analysis allows between known operands has an operation of its own. -/
theorem binaryShape?_direct {op : BinOp} (ha : a.Flat) (hx : IsScalar x) (hy : IsScalar y)
    (h : Analysis.binaryShape? a op x y = some z) (hl : scalarRep x ≠ .any)
    (hr : scalarRep y ≠ .any) :
    (Generate.binaryOp op (scalarRep x) (scalarRep y)).1.isDynamic = false ∧
      (Generate.binaryOp op (scalarRep x) (scalarRep y)).2 ≠ .any := by
  simp only [Analysis.binaryShape?, hx.isDynamic ha, hy.isDynamic ha, hx.is_number ha,
    hy.is_number ha, hx.is_string ha, hy.is_string ha] at h
  have hl' := hx.isScalar_rep
  have hr' := hy.isScalar_rep
  generalize scalarRep x = l at *
  generalize scalarRep y = r at *
  revert h
  cases l <;> cases hl' <;> cases r <;> cases hr' <;> cases op <;>
    simp_all [Generate.binaryOp, Generate.addOp, Generate.arithOp, Generate.equalOp,
      Generate.orderOp, Op.isDynamic]

end ShapeId

end HostScript
