import HostScript.Shape.Layers
import HostScript.Proofs.OrderedMap

/-!
# Recording shapes in layers
-/

namespace HostScript.Layers

variable {t : Layers} {layer other : LayerId} {n node : NodeId} {x y : ShapeId} {stack : List LayerId}

theorem get?_put (t : Layers) (layer other : LayerId) (n node : NodeId) (x : ShapeId) :
    (t.put layer n x).2.get? other node =
      if other = layer ∧ layer < t.layers.size ∧ node = n then some x else t.get? other node := by
  rw [put]
  split
  next hlt =>
    simp only [get?, Array.getElem?_modify]
    by_cases hother : layer = other
    · subst hother
      simp only [if_true, Array.getElem?_eq_getElem hlt, Option.map_some, Option.bind_some,
        NumberedMap.get?_insert, hlt, true_and]
    · rw [if_neg hother, if_neg fun h => hother h.1.symm]
  next hlt => rw [if_neg fun h => hlt h.2.1]

@[simp] theorem size_put (t : Layers) (layer : LayerId) (n : NodeId) (x : ShapeId) :
    (t.put layer n x).2.layers.size = t.layers.size := by
  rw [put]
  split
  · exact Array.size_modify
  · rfl

@[simp] theorem frozenBelow_put (t : Layers) (layer : LayerId) (n : NodeId) (x : ShapeId) :
    (t.put layer n x).2.frozenBelow = t.frozenBelow := by
  rw [put]
  split <;> rfl

/-- A shape is recorded in the innermost layer, which has none for the node. -/
theorem set?_eq_some {found : Option LayerId × Layers} (h : t.set? stack n x = some found) :
    found.2 = t ∧ stack = [] ∨
      ∃ top, stack.getLast? = some top ∧ t.get? top n = none ∧ found.2 = (t.put top n x).2 := by
  rw [set?] at h
  split at h
  next hlast =>
    cases h
    exact .inl ⟨rfl, List.getLast?_eq_none_iff.mp hlast⟩
  next top hlast =>
    split at h
    · cases h
    · next hnew =>
        cases h
        exact .inr ⟨top, hlast, by simpa using hnew, rfl⟩

theorem get?_newLayer (t : Layers) (layer : LayerId) (node : NodeId) :
    t.newLayer.2.get? layer node = t.get? layer node := by
  simp only [newLayer, get?, Array.getElem?_push]
  split
  · next h => simp [h]
  · rfl

theorem get?_of_ge (h : t.layers.size ≤ layer) : t.get? layer node = none := by
  simp [get?, Array.getElem?_eq_none h]

theorem lt_of_get? (h : t.get? layer node = some x) : layer < t.layers.size :=
  Nat.lt_of_not_le fun hle => by rw [get?_of_ge hle] at h; cases h

/-! ### Stacks -/

/-- A node that has a shape in the innermost layer has this shape. -/
theorem shape?_of_last (hlast : stack.getLast? = some layer) (hget : t.get? layer node = some x) :
    t.shape? stack node = some x := by
  obtain ⟨front, rfl⟩ := List.getLast?_eq_some_iff.mp hlast
  rw [shape?, find?, List.reverse_append, List.reverse_singleton, List.singleton_append,
    List.find?_cons_of_pos (by rw [hget]; rfl)]
  exact hget

end HostScript.Layers
