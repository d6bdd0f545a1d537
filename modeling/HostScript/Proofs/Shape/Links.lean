import HostScript.Proofs.Shape.Literals
import Mathlib.Data.Finset.Card
import Mathlib.Data.Finset.Range

/-!
# Links between shapes

A forward and the result of a call stand for another shape. `Resolves` says by rules where the links
of a shape lead. Links that lead somewhere do so within as many steps as the arena has shapes, so
`resolve` finds where they lead.
-/

namespace HostScript

/-- Whether a shape stands for another one. -/
def Shape.isLink : Shape → Bool
  | .forward _ | .callResult .. => true
  | _ => false

/-- The shapes that links of a shape, or links through it, lead to next. -/
def Shape.ties : Shape → List ShapeId
  | .forward target => [target]
  | .callResult method _ => [method]
  | .lambda l => l.signatures.map (·.ret)
  | _ => []

namespace Arena

/-- The links of a shape lead to the shape that holds the data. -/
inductive Resolves (a : Arena) : ShapeId → ShapeId → Prop where
  | data {id : ShapeId} : (a.get id).isLink = false → Resolves a id id
  | forward {id target r : ShapeId} : a.get id = .forward target → Resolves a target r →
      Resolves a id r
  | result {id method m r : ShapeId} {k : Nat} {l : LambdaShape} {s : Signature} :
      a.get id = .callResult method k → Resolves a method m → a.get m = .lambda l →
      l.signatures[k]? = some s → Resolves a s.ret r → Resolves a id r

/-- The links of a shape lead to its data in fewer steps than `n`. -/
inductive ResolvesIn (a : Arena) : Nat → ShapeId → ShapeId → Prop where
  | data {n : Nat} {id : ShapeId} : (a.get id).isLink = false → ResolvesIn a (n + 1) id id
  | forward {n : Nat} {id target r : ShapeId} : a.get id = .forward target →
      ResolvesIn a n target r → ResolvesIn a (n + 1) id r
  | result {n : Nat} {id method m r : ShapeId} {k : Nat} {l : LambdaShape} {s : Signature} :
      a.get id = .callResult method k → ResolvesIn a n method m → a.get m = .lambda l →
      l.signatures[k]? = some s → ResolvesIn a n s.ret r → ResolvesIn a (n + 1) id r

variable {a b : Arena} {id r : ShapeId} {n m : Nat}

/-! ### Budgets -/

theorem ResolvesIn.mono (h : a.ResolvesIn n id r) (hle : n ≤ m) : a.ResolvesIn m id r := by
  induction h generalizing m with
  | data hdata =>
    obtain ⟨m, rfl⟩ := Nat.exists_eq_add_of_lt hle
    exact .data hdata
  | forward hget _ ih =>
    obtain ⟨m, rfl⟩ := Nat.exists_eq_add_of_lt hle
    exact .forward hget (ih (by omega))
  | result hget _ hlambda hsig _ ihm ihr =>
    obtain ⟨m, rfl⟩ := Nat.exists_eq_add_of_lt hle
    exact .result hget (ihm (by omega)) hlambda hsig (ihr (by omega))

theorem ResolvesIn.resolves (h : a.ResolvesIn n id r) : a.Resolves id r := by
  induction h with
  | data hdata => exact .data hdata
  | forward hget _ ih => exact .forward hget ih
  | result hget _ hlambda hsig _ ihm ihr => exact .result hget ihm hlambda hsig ihr

theorem Resolves.within (h : a.Resolves id r) : ∃ n, a.ResolvesIn n id r := by
  induction h with
  | data hdata => exact ⟨1, .data hdata⟩
  | forward hget _ ih =>
    obtain ⟨n, hn⟩ := ih
    exact ⟨n + 1, .forward hget hn⟩
  | result hget _ hlambda hsig _ ihm ihr =>
    obtain ⟨n, hn⟩ := ihm
    obtain ⟨k, hk⟩ := ihr
    exact ⟨max n k + 1, .result hget (hn.mono (Nat.le_max_left ..)) hlambda hsig
      (hk.mono (Nat.le_max_right ..))⟩

theorem Resolves.isLink (h : a.Resolves id r) : (a.get r).isLink = false := by
  induction h with
  | data hdata => exact hdata
  | forward _ _ ih | result _ _ _ _ _ _ ih => exact ih

/-- Links lead to one place only. -/
theorem Resolves.unique {r' : ShapeId} (h : a.Resolves id r) (h' : a.Resolves id r') : r = r' := by
  induction h generalizing r' with
  | data hdata =>
    cases h' with
    | data _ => rfl
    | forward hget _ | result hget _ _ _ _ => simp [hget, Shape.isLink] at hdata
  | forward hget _ ih =>
    cases h' with
    | data hdata => simp [hget, Shape.isLink] at hdata
    | forward hget' h' =>
      cases hget.symm.trans hget'
      exact ih h'
    | result hget' _ _ _ _ => cases hget.symm.trans hget'
  | result hget _ hlambda hsig _ ihm ihr =>
    cases h' with
    | data hdata => simp [hget, Shape.isLink] at hdata
    | forward hget' _ => cases hget.symm.trans hget'
    | result hget' hm' hlambda' hsig' hr' =>
      cases hget.symm.trans hget'
      cases ihm hm'
      cases hlambda.symm.trans hlambda'
      cases hsig.symm.trans hsig'
      exact ihr hr'

/-- A budget beyond which no more links are followed. -/
def Exhausts (a : Arena) (n : Nat) : Prop :=
  ∀ id r, a.ResolvesIn (n + 1) id r → a.ResolvesIn n id r

theorem Exhausts.of_add (h : a.Exhausts n) {k : Nat} (hk : a.ResolvesIn (n + k) id r) :
    a.ResolvesIn n id r := by
  induction k generalizing id r with
  | zero => exact hk
  | succ k ih =>
    refine h id r ?_
    cases hk with
    | data hdata => exact .data hdata
    | forward hget h' => exact .forward hget (ih h')
    | result hget hm hlambda hsig hr => exact .result hget (ih hm) hlambda hsig (ih hr)

open Classical in
/-- The shapes of the arena whose links lead to their data in fewer steps than `n`. -/
noncomputable def within (a : Arena) (n : Nat) : Finset ShapeId :=
  (Finset.range a.shapes.size).filter fun id => ∃ r, a.ResolvesIn n id r

theorem mem_within : id ∈ a.within n ↔ id < a.shapes.size ∧ ∃ r, a.ResolvesIn n id r := by
  simp [within]

/-- One more step reaches more shapes of the arena, or none at all. -/
theorem card_within_lt (h : ¬ a.Exhausts (n + 1)) :
    (a.within (n + 1)).card < (a.within (n + 2)).card := by
  simp only [Exhausts, not_forall] at h
  obtain ⟨id, r, hreach, hnot⟩ := h
  have hid : id < a.shapes.size := by
    refine Nat.lt_of_not_le fun hge => hnot ?_
    have hdata : (a.get id).isLink = false := by rw [get_of_ge hge]; rfl
    cases hreach.resolves.unique (.data hdata)
    exact .data hdata
  refine Finset.card_lt_card (Finset.ssubset_iff_of_subset ?_ |>.mpr ⟨id, ?_, ?_⟩)
  · intro i hi
    obtain ⟨hlt, r, hr⟩ := mem_within.mp hi
    exact mem_within.mpr ⟨hlt, r, hr.mono (Nat.le_succ _)⟩
  · exact mem_within.mpr ⟨hid, r, hreach⟩
  · rintro hin
    obtain ⟨_, r', hr'⟩ := mem_within.mp hin
    rw [hreach.resolves.unique hr'.resolves] at hnot
    exact hnot hr'

/-- The size of the arena is budget enough. -/
theorem exhausts_size (a : Arena) : ∃ n ≤ a.shapes.size + 1, a.Exhausts n := by
  by_contra hnone
  have hgrows : ∀ n ≤ a.shapes.size + 1, n ≤ (a.within (n + 1)).card := by
    intro n
    induction n with
    | zero => exact fun _ => Nat.zero_le _
    | succ n ih =>
      intro hle
      have hnot : ¬ a.Exhausts (n + 1) := fun h => hnone ⟨n + 1, hle, h⟩
      exact Nat.lt_of_le_of_lt (ih (by omega)) (card_within_lt hnot)
  have hmany := hgrows (a.shapes.size + 1) (Nat.le_refl _)
  have hfew : (a.within (a.shapes.size + 2)).card ≤ a.shapes.size := by
    refine (Finset.card_le_card (t := Finset.range a.shapes.size) ?_).trans ?_
    · exact fun i hi => Finset.mem_range.mpr (mem_within.mp hi).1
    · rw [Finset.card_range]
  exact absurd (hmany.trans hfew) (Nat.not_succ_le_self _)

theorem ResolvesIn.resolveWith (h : a.ResolvesIn n id r) : a.resolveWith n id = r := by
  induction h with
  | @data n id hdata =>
    rw [Arena.resolveWith]
    cases hget : a.get id <;> simp_all [Shape.isLink]
  | forward hget _ ih => rw [Arena.resolveWith, hget]; exact ih
  | result hget _ hlambda hsig _ ihm ihr =>
    rw [Arena.resolveWith, hget]
    simp only [ihm, hlambda, hsig, ihr]

/-- Links that lead somewhere do so within the budget of `resolve`. -/
theorem Resolves.within_size (h : a.Resolves id r) : a.ResolvesIn (a.shapes.size + 1) id r := by
  obtain ⟨n, hn⟩ := h.within
  obtain ⟨k, hk, hexhausts⟩ := exhausts_size a
  have hbudget : a.ResolvesIn k id r := hexhausts.of_add (k := n) (hn.mono (Nat.le_add_left n k))
  exact hbudget.mono hk

/-- `resolve` finds where links lead. -/
theorem Resolves.resolve_eq (h : a.Resolves id r) : a.resolve id = r :=
  h.within_size.resolveWith

/-! ### Arenas in which all links lead somewhere -/

/-- All links lead to data. -/
def Grounded (a : Arena) : Prop :=
  ∀ id, ∃ r, a.Resolves id r

theorem Grounded.resolves (h : a.Grounded) (id : ShapeId) : a.Resolves id (a.resolve id) := by
  obtain ⟨r, hr⟩ := h id
  rwa [hr.resolve_eq]

theorem resolve_of_data (h : (a.get id).isLink = false) : a.resolve id = id :=
  (Resolves.data h).resolve_eq

theorem Grounded.isLink_resolved (h : a.Grounded) (id : ShapeId) :
    (a.get (a.resolve id)).isLink = false :=
  (h.resolves id).isLink

theorem Grounded.resolve_resolve (h : a.Grounded) (id : ShapeId) :
    a.resolve (a.resolve id) = a.resolve id :=
  resolve_of_data (h.isLink_resolved id)

/-- The links of an arena are those of a later one, in which a lambda may have more signatures. -/
structure Links (a b : Arena) : Prop where
  forward : ∀ {id target}, a.get id = .forward target → b.get id = .forward target
  result : ∀ {id method k}, a.get id = .callResult method k → b.get id = .callResult method k
  lambda : ∀ {id l}, a.get id = .lambda l →
    ∃ l', b.get id = .lambda l' ∧
      ∀ {k : Nat} {s : Signature}, l.signatures[k]? = some s → l'.signatures[k]? = some s

/-- Where links lead later, if it is known where data went. -/
theorem Resolves.later {f : ShapeId → ShapeId} (hlinks : Links a b)
    (hdata : ∀ {x}, (a.get x).isLink = false → b.Resolves x (f x))
    (hlambda : ∀ {x l}, a.get x = .lambda l → f x = x)
    (h : a.Resolves id r) : b.Resolves id (f r) := by
  induction h with
  | data h => exact hdata h
  | forward hget _ ih => exact .forward (hlinks.forward hget) ih
  | result hget _ hl hsig _ ihm ihr =>
    obtain ⟨l', hl', hsigs⟩ := hlinks.lambda hl
    rw [hlambda hl] at ihm
    exact .result (hlinks.result hget) ihm hl' (hsigs hsig) ihr

/-! ### Arenas whose links stay inside -/

/-- Links lead to shapes of the arena. -/
def Enclosed (a : Arena) : Prop :=
  ∀ id, ∀ t ∈ (a.get id).ties, t < a.shapes.size

theorem Enclosed.forward (h : a.Enclosed) {target : ShapeId} (hget : a.get id = .forward target) :
    target < a.shapes.size :=
  h id target (by rw [hget]; exact List.mem_singleton_self _)

theorem Enclosed.method (h : a.Enclosed) {method : ShapeId} {k : Nat}
    (hget : a.get id = .callResult method k) : method < a.shapes.size :=
  h id method (by rw [hget]; exact List.mem_singleton_self _)

theorem Enclosed.ret (h : a.Enclosed) {l : LambdaShape} (hget : a.get id = .lambda l) {k : Nat}
    {s : Signature} (hs : l.signatures[k]? = some s) : s.ret < a.shapes.size :=
  h id s.ret (by rw [hget]; exact List.mem_map_of_mem (List.mem_of_getElem? hs))

/-- The shape that links lead to is one of the arena. -/
theorem Enclosed.lt_size_of_resolves (h : a.Enclosed) (hr : a.Resolves id r)
    (hid : id < a.shapes.size) : r < a.shapes.size := by
  induction hr with
  | data _ => exact hid
  | forward hget _ ih => exact ih (h.forward hget)
  | result _ _ hl hsig _ _ ih => exact ih (h.ret hl hsig)

end Arena

end HostScript
