import HostScript.Proofs.Shape.Merging

/-!
# What a merged shape describes

`Covers` says that one shape describes all values of another. It lasts while merging goes on, so
what a merge has covered once stays covered. The shape that `derive` gives covers both of its
operands. -/

namespace HostScript.Arena

variable {a b : Arena} {i s t u x y : ShapeId}

/-- The shape `t` describes all values that `s` describes. -/
def Covers (a : Arena) (s t : ShapeId) : Prop :=
  a.resolved t = .unknown ∨ a.resolved s = .undetermined ∨ a.resolve t = a.resolve s ∨
    ∃ c, a.resolved s = .concrete c ∧ a.resolved t = .concrete c

theorem resolved_congr (h : a.resolve s = a.resolve t) : a.resolved s = a.resolved t := by
  rw [resolved, resolved, h]

theorem Covers.of_resolve (h : a.resolve t = a.resolve s) : a.Covers s t :=
  .inr (.inr (.inl h))

theorem Covers.refl (a : Arena) (s : ShapeId) : a.Covers s s :=
  .of_resolve rfl

theorem Covers.trans (h : a.Covers s t) (h' : a.Covers t u) : a.Covers s u := by
  rcases h' with hu | ht | heq | ⟨c, ht, hu⟩
  · exact .inl hu
  · -- Only what has no values yet is described by a shape without values.
    rcases h with ht' | hs | heq | ⟨c, _, ht'⟩
    · cases ht.symm.trans ht'
    · exact .inr (.inl hs)
    · exact .inr (.inl ((resolved_congr heq).symm.trans ht))
    · cases ht.symm.trans ht'
  · rwa [Covers, resolved_congr heq, heq]
  · rcases h with ht' | hs | heq | ⟨d, hs, ht'⟩
    · cases ht.symm.trans ht'
    · exact .inr (.inl hs)
    · exact .inr (.inr (.inr ⟨c, (resolved_congr heq).symm.trans ht, hu⟩))
    · cases ht.symm.trans ht'
      exact .inr (.inr (.inr ⟨c, hs, hu⟩))

/-! ### Later arenas -/

/-- A shape that is no record and no array stays as it is. -/
theorem Keeps.resolve_of_simple (h : Keeps a b) (ha : a.Sound)
    (hs : (a.resolved s).isCompound = false) : b.resolve s = a.resolve s := by
  rw [h.evolves.resolve ha.grounded h.sound.grounded]
  refine resolve_of_data ?_
  rw [h.evolves.other hs]
  exact ha.grounded.isLink_resolved s

theorem Keeps.resolved_of_simple (h : Keeps a b) (ha : a.Sound)
    (hs : (a.resolved s).isCompound = false) : b.resolved s = a.resolved s := by
  rw [resolved, h.resolve_of_simple ha hs]
  exact h.evolves.other hs

theorem Keeps.resolve_congr (h : Keeps a b) (ha : a.Sound) (heq : a.resolve s = a.resolve t) :
    b.resolve s = b.resolve t := by
  rw [h.evolves.resolve ha.grounded h.sound.grounded s, heq,
    ← h.evolves.resolve ha.grounded h.sound.grounded t]

theorem Covers.later (hc : a.Covers s t) (ha : a.Sound) (h : Keeps a b) : b.Covers s t := by
  have hstays {i : ShapeId} {shape : Shape} (hi : a.resolved i = shape)
      (hsimple : shape.isCompound = false) : b.resolved i = shape :=
    (h.resolved_of_simple ha (by rw [hi]; exact hsimple)).trans hi
  rcases hc with ht | hs | heq | ⟨c, hs, ht⟩
  · exact .inl (hstays ht rfl)
  · exact .inr (.inl (hstays hs rfl))
  · exact .of_resolve (h.resolve_congr ha heq)
  · exact .inr (.inr (.inr ⟨c, hstays hs rfl, hstays ht rfl⟩))

/-- Unknown is covered by unknown only. -/
theorem Covers.unknown (h : a.Covers s t) (hs : a.resolved s = .unknown) :
    a.resolved t = .unknown := by
  rcases h with ht | hs' | heq | ⟨c, hs', _⟩
  · exact ht
  · cases hs.symm.trans hs'
  · exact (resolved_congr heq).trans hs
  · cases hs.symm.trans hs'

/-- Only unknown covers two different concrete kinds. -/
theorem Covers.unknown_of_ne {c d : Concrete} (hs : a.Covers s u) (ht : a.Covers t u)
    (hc : a.resolved s = .concrete c) (hd : a.resolved t = .concrete d) (hne : c ≠ d) :
    a.resolved u = .unknown := by
  have hkind {v : ShapeId} {k : Concrete} (hv : a.Covers v u) (hk : a.resolved v = .concrete k) :
      a.resolved u = .unknown ∨ a.resolved u = .concrete k := by
    rcases hv with hu | hv | heq | ⟨k', hv, hu⟩
    · exact .inl hu
    · cases hk.symm.trans hv
    · exact .inr ((resolved_congr heq).trans hk)
    · cases hk.symm.trans hv
      exact .inr hu
  rcases hkind hs hc, hkind ht hd with ⟨hu | hu, hu' | hu'⟩
  · exact hu
  · exact hu
  · exact hu'
  · cases hu.symm.trans hu'
    exact absurd rfl hne

/-! ### Merging -/

theorem Sound.resolve_unknown (h : a.Sound) : a.resolve Arena.unknown = Arena.unknown :=
  resolve_of_data (by rw [h.get_unknown]; rfl)

theorem Sound.covers_unknown (h : a.Sound) (s : ShapeId) : a.Covers s Arena.unknown :=
  .inl (by rw [resolved, h.resolve_unknown, h.get_unknown])

theorem Sound.covers_resolve (h : a.Sound) (s : ShapeId) : a.Covers s (a.resolve s) :=
  .of_resolve (h.grounded.resolve_resolve s)

/-- The shape that a forward leads to is the one of its target. -/
theorem Sound.resolve_forward (h : a.Sound) (hget : a.get y = .forward x) :
    a.resolve y = a.resolve x :=
  (Resolves.forward hget (h.grounded.resolves x)).resolve_eq

/-- Two shapes lead to the result of a merge that forwarded one to the other. -/
theorem Keeps.covers_forwarded (h : Keeps a b) (ha : a.Sound)
    (hget : b.get (a.resolve y) = .forward (a.resolve x)) :
    b.Covers x (a.resolve x) ∧ b.Covers y (a.resolve x) := by
  have hresolve (s : ShapeId) : b.resolve s = b.resolve (a.resolve s) :=
    h.evolves.resolve ha.grounded h.sound.grounded s
  refine ⟨.of_resolve (hresolve x).symm, .of_resolve ?_⟩
  rw [hresolve y, h.sound.resolve_forward hget]

/-- The result of merging describes the values of both shapes. -/
theorem Sound.deriveWith_covers (h : a.Sound) (budget : Nat) (hy : y < a.shapes.size) :
    (Arena.deriveWith budget x y a).2.Covers x (Arena.deriveWith budget x y a).1 ∧
      (Arena.deriveWith budget x y a).2.Covers y (Arena.deriveWith budget x y a).1 := by
  have hunknown : a.Covers x Arena.unknown ∧ a.Covers y Arena.unknown :=
    ⟨h.covers_unknown x, h.covers_unknown y⟩
  cases budget with
  | zero => exact hunknown
  | succ budget =>
    have hderive {u v : ShapeId} {a : Arena} (ha : a.Sound) (hu : u < a.shapes.size)
        (hv : v < a.shapes.size) : Merges a (Arena.deriveWith budget u v a) :=
      ha.deriveWith budget hu hv
    simp only [Arena.deriveWith]
    split
    next heq => exact ⟨h.covers_resolve x, heq ▸ h.covers_resolve y⟩
    next hne =>
      split
      next hgx => exact ⟨.inr (.inl hgx), h.covers_resolve y⟩
      next hgy _ => exact ⟨h.covers_resolve x, .inr (.inl hgy)⟩
      · exact hunknown
      · exact hunknown
      next c d hgx hgy =>
        split
        next hcd =>
          subst hcd
          refine ⟨h.covers_resolve x, .inr (.inr (.inr ⟨c, hgy, ?_⟩))⟩
          rw [resolved, h.grounded.resolve_resolve, hgx]
        · exact hunknown
      next hgx hgy =>
        split
        · exact hunknown
        · refine (h.mergeRecords hderive hne hgx hgy).toKeeps.covers_forwarded h ?_
          exact (h.fillRecord hderive hne hgx hgy).get_absorbed hne (h.resolve_lt_size hy)
      next hgx hgy =>
        split
        · exact hunknown
        · refine (h.mergeArrays hderive hne hgx hgy).toKeeps.covers_forwarded h ?_
          exact (h.fillArray hderive hne hgx hgy).get_absorbed hne (h.resolve_lt_size hy)
      · exact hunknown

/-- Merging changes the arena only if its result is the first shape. -/
theorem deriveWith_unchanged {budget : Nat} (he : Evolves a (Arena.deriveWith budget x y a).2)
    (ha : a.Grounded) (hd : (Arena.deriveWith budget x y a).2.Grounded)
    (hnot : (Arena.deriveWith budget x y a).2.same (Arena.deriveWith budget x y a).1 x = false) :
    (Arena.deriveWith budget x y a).2 = a := by
  -- A merge that forwards gives the shape that the first one resolved to.
  have hsame (hfirst : (Arena.deriveWith budget x y a).1 = a.resolve x) :
      (Arena.deriveWith budget x y a).2 = a := by
    have heq := he.resolve ha hd x
    rw [← hfirst] at heq
    rw [same, ← heq, beq_self_eq_true] at hnot
    cases hnot
  revert hsame
  clear hnot he hd
  cases budget with
  | zero => exact fun _ => rfl
  | succ budget =>
    exact deriveWith_cases (P := fun d => (d.1 = a.resolve x → d.2 = a) → d.2 = a)
      (fun _ _ _ => rfl) (fun _ _ _ _ hsame => hsame rfl) fun _ _ _ _ hsame => hsame rfl

theorem Sound.deriveWith_unchanged (h : a.Sound) (budget : Nat) (hx : x < a.shapes.size)
    (hy : y < a.shapes.size)
    (hnot : (Arena.deriveWith budget x y a).2.same (Arena.deriveWith budget x y a).1 x = false) :
    (Arena.deriveWith budget x y a).2 = a :=
  have hresult := h.deriveWith budget hx hy
  Arena.deriveWith_unchanged hresult.evolves h.grounded hresult.sound.grounded hnot

end HostScript.Arena
