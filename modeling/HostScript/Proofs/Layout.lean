import HostScript.Layout
import HostScript.Proofs.OrderedMap
import Mathlib.Data.Finset.Card
import Mathlib.Data.Set.Function

/-!
# Laying out shapes

A layout gets its number before its contents are known, and a shape may contain itself. However the
shapes are asked for, each record and array gets one layout of its own, and when a request is over
the layouts say what is in the shapes. Another order of the requests changes the numbers only.
-/

namespace HostScript

/-- The names and shapes in a record. The element of an array has no name. -/
def Shape.contents : Shape → List (String × ShapeId)
  | .record fields _ => fields.entries
  | .array element _ => [("", element)]
  | _ => []

/-- Whether values of the shape have a layout. -/
def Shape.isContainer : Shape → Bool
  | .record .. | .array .. => true
  | _ => false

/-- The representation with other numbers for records and arrays. -/
def Rep.renamed (ρ α : Nat → Nat) : Rep → Rep
  | .record n => .record (ρ n)
  | .array n => .array (α n)
  | rep => rep

namespace Layouts

variable {arena : Arena} {C : ShapeId → Prop} {pending : List ShapeId} {l l' l'' : Layouts}
  {id x : ShapeId} {rep : Rep} {shape : Shape} {budget : Nat}

/-! ### Contents -/

/-- The contents of a layout. -/
def content? (l : Layouts) : Rep → Option (List (String × Rep))
  | .record n => l.records[n]?
  | .array n => l.arrays[n]?.map fun element => [("", element)]
  | _ => none

/-- What a layout has to say about a shape. -/
def describe (arena : Arena) (l : Layouts) (shape : Shape) : List (String × Rep) :=
  shape.contents.map fun entry => (entry.1, l.rep arena entry.2)

/-- The representation is a layout for shapes of this kind. -/
inductive Matches : Rep → Shape → Prop
  | record {n fields origins} : Matches (.record n) (.record fields origins)
  | array {n element origins} : Matches (.array n) (.array element origins)

/-- The next layout for shapes of this kind. -/
def next (l : Layouts) : Shape → Rep
  | .record .. => .record l.records.size
  | .array .. => .array l.arrays.size
  | _ => .any

/-- The layouts with a new one whose contents come later. -/
def opened (l : Layouts) (id : ShapeId) : Rep → Layouts
  | .record n => { l with reps := l.reps.insert id (.record n), records := l.records.push [] }
  | .array n => { l with reps := l.reps.insert id (.array n), arrays := l.arrays.push .any }
  | _ => l

/-- The layouts with the contents of one filled in. -/
def filled (l : Layouts) : Rep → List (String × Rep) → Layouts
  | .record n, fields => { l with records := l.records.setIfInBounds n fields }
  | .array n, (_, element) :: _ => { l with arrays := l.arrays.setIfInBounds n element }
  | _, _ => l

theorem Matches.isContainer (h : Matches rep shape) : shape.isContainer = true := by
  cases h <;> rfl

theorem matches_next (h : shape.isContainer = true) : Matches (l.next shape) shape := by
  unfold Shape.isContainer at h
  split at h
  · exact .record
  · exact .array
  · cases h

theorem content?_next : l.content? (l.next shape) = none := by
  cases shape <;> simp [next, content?]

theorem reps_opened (l : Layouts) (id : ShapeId) (h : Matches rep shape) :
    (l.opened id rep).reps = l.reps.insert id rep := by
  cases h <;> rfl

theorem content?_opened_next (id : ShapeId) (h : Matches (l.next shape) shape) :
    ∃ fields, (l.opened id (l.next shape)).content? (l.next shape) = some fields := by
  cases shape <;> simp [next, opened, content?] <;> cases h

theorem content?_opened (l : Layouts) (id : ShapeId) (shape : Shape) {rep' : Rep}
    (hne : rep' ≠ l.next shape) :
    (l.opened id (l.next shape)).content? rep' = l.content? rep' := by
  cases shape <;> cases rep' <;> simp_all [next, opened, content?, Array.getElem?_push]

theorem reps_filled (l : Layouts) (rep : Rep) (fields : List (String × Rep)) :
    (l.filled rep fields).reps = l.reps := by
  unfold filled
  split <;> rfl

theorem rep_filled {fields : List (String × Rep)} :
    (l.filled rep fields).rep arena x = l.rep arena x := by
  rw [Layouts.rep, Layouts.rep, reps_filled]

theorem content?_filled_self (arena : Arena) (h : Matches rep shape) (hsome : l.content? rep ≠ none) :
    (l.filled rep (l.describe arena shape)).content? rep = some (l.describe arena shape) := by
  cases h with
  | record => simp_all [content?, filled]
  | array => simp_all [content?, filled, describe, Shape.contents]

theorem content?_filled (l : Layouts) (fields : List (String × Rep)) {rep' : Rep}
    (hne : rep' ≠ rep) :
    (l.filled rep fields).content? rep' = l.content? rep' := by
  unfold filled
  split
  · cases rep' <;> simp_all [content?, Array.getElem?_setIfInBounds_ne, Ne.symm]
  · cases rep' <;> simp_all [content?, Array.getElem?_setIfInBounds_ne, Ne.symm]
  · rfl

/-! ### What holds between requests -/

/-- A shape with contents has a layout. -/
def Laid (arena : Arena) (l : Layouts) (x : ShapeId) : Prop :=
  (arena.resolved x).isContainer = true → l.reps.get? (arena.resolve x) ≠ none

/-- Layouts belong to one shape each, among the shapes `C`. They say what is in the shape, unless it
is one of those that are `pending`. -/
structure Sound (arena : Arena) (C : ShapeId → Prop) (pending : List ShapeId) (l : Layouts) :
    Prop where
  covers : ∀ {id rep}, l.reps.get? id = some rep → C id
  kind : ∀ {id rep}, l.reps.get? id = some rep → Matches rep (arena.get id)
  content : ∀ {id rep}, l.reps.get? id = some rep → l.content? rep ≠ none
  owner : ∀ {rep}, l.content? rep ≠ none → ∃ id, l.reps.get? id = some rep
  injective : ∀ {id id' rep}, l.reps.get? id = some rep → l.reps.get? id' = some rep → id = id'
  described : ∀ {id rep}, l.reps.get? id = some rep → id ∉ pending →
    l.content? rep = some (l.describe arena (arena.get id))
  laid : ∀ {id rep}, l.reps.get? id = some rep → id ∉ pending →
    ∀ entry ∈ (arena.get id).contents, l.Laid arena entry.2

/-- Representations that are given out stay. -/
def Extends (l l' : Layouts) : Prop :=
  ∀ ⦃id rep⦄, l.reps.get? id = some rep → l'.reps.get? id = some rep

theorem Extends.trans (h : l.Extends l') (h' : l'.Extends l'') : l.Extends l'' :=
  fun _ _ hrep => h' (h hrep)

theorem Laid.extends (h : l.Laid arena x) (hl : l.Extends l') : l'.Laid arena x := by
  intro hx hnone
  obtain ⟨rep, hrep⟩ := Option.ne_none_iff_exists'.mp (h hx)
  cases hnone.symm.trans (hl hrep)

theorem rep_of_get? (h : l.reps.get? (arena.resolve x) = some rep) : l.rep arena x = rep := by
  rw [Layouts.rep, h]

/-- The representation of a shape stays, once the shape is laid out. -/
theorem Laid.rep_eq (hx : l.Laid arena x) (hl : l.Extends l')
    (hkind : ∀ {id rep}, l'.reps.get? id = some rep → Matches rep (arena.get id)) :
    l'.rep arena x = l.rep arena x := by
  cases hrep : l.reps.get? (arena.resolve x) with
  | some rep => rw [rep_of_get? hrep, rep_of_get? (hl hrep)]
  | none =>
    have hnone : l'.reps.get? (arena.resolve x) = none := by
      cases hrep' : l'.reps.get? (arena.resolve x) with
      | none => rfl
      | some rep => exact absurd hrep (hx (hkind hrep').isContainer)
    rw [Layouts.rep, Layouts.rep, hrep, hnone]

theorem describe_eq (hlaid : ∀ entry ∈ shape.contents, l.Laid arena entry.2) (hl : l.Extends l')
    (hkind : ∀ {id rep}, l'.reps.get? id = some rep → Matches rep (arena.get id)) :
    l'.describe arena shape = l.describe arena shape :=
  List.map_congr_left fun entry hmem => by rw [(hlaid entry hmem).rep_eq hl hkind]

namespace Sound

theorem empty : Sound arena C [] {} where
  covers h := by cases h
  kind h := by cases h
  content h := by cases h
  owner {rep} h := absurd (by cases rep <;> simp [content?]) h
  injective h := by cases h
  described h := by cases h
  laid h := by cases h

/-- The contents of a layout are those of the shape that it belongs to. -/
theorem described_of_content? (h : l.Sound arena C []) {fields : List (String × Rep)}
    (hfields : l.content? rep = some fields) :
    ∃ id, l.reps.get? id = some rep ∧ fields = l.describe arena (arena.get id) := by
  have hsome : l.content? rep ≠ none := by simp [hfields]
  obtain ⟨id, hid⟩ := h.owner hsome
  have hdescribed := h.described hid List.not_mem_nil
  exact ⟨id, hid, Option.some.inj (hfields.symm.trans hdescribed)⟩

/-- A new layout is another one than all others. -/
theorem opened (h : l.Sound arena C pending) (hid : l.reps.get? id = none) (hC : C id)
    (hcontainer : (arena.get id).isContainer = true) :
    (l.opened id (l.next (arena.get id))).Sound arena C (id :: pending) ∧
      l.Extends (l.opened id (l.next (arena.get id))) := by
  have hmatches := matches_next (l := l) hcontainer
  have hreps := reps_opened l id hmatches
  have hold {rep : Rep} (hne : rep ≠ l.next (arena.get id)) := content?_opened l id _ hne
  obtain ⟨blank, hblank⟩ := content?_opened_next id hmatches
  generalize l.opened id (l.next (arena.get id)) = l' at *
  have hnew {id' : ShapeId} {rep : Rep} (hrep : l.reps.get? id' = some rep) :
      rep ≠ l.next (arena.get id) :=
    fun heq => h.content hrep (heq ▸ content?_next)
  have hget {id' : ShapeId} {rep : Rep} (hrep : l'.reps.get? id' = some rep) :
      id' = id ∧ rep = l.next (arena.get id) ∨ id' ≠ id ∧ l.reps.get? id' = some rep := by
    rw [hreps, OrderedMap.get?_insert] at hrep
    split at hrep
    next heq => exact .inl ⟨heq, (Option.some.inj hrep).symm⟩
    next hne => exact .inr ⟨hne, hrep⟩
  have hext : l.Extends l' := by
    intro id' rep hrep
    have hne : id' ≠ id := by
      rintro rfl
      cases hid.symm.trans hrep
    rw [hreps, OrderedMap.get?_insert_of_ne _ _ hne, hrep]
  have hkind {id' : ShapeId} {rep : Rep} (hrep : l'.reps.get? id' = some rep) :
      Matches rep (arena.get id') := by
    obtain ⟨rfl, rfl⟩ | ⟨-, hrep⟩ := hget hrep
    · exact hmatches
    · exact h.kind hrep
  refine ⟨⟨fun hrep => ?_, hkind, fun hrep => ?_, fun {rep} hrep => ?_, fun hrep hrep' => ?_,
    fun hrep hpending => ?_, fun hrep hpending => ?_⟩, hext⟩
  · obtain ⟨rfl, -⟩ | ⟨-, hrep⟩ := hget hrep
    · exact hC
    · exact h.covers hrep
  · obtain ⟨-, rfl⟩ | ⟨-, hrep⟩ := hget hrep
    · simp [hblank]
    · rw [hold (hnew hrep)]
      exact h.content hrep
  · by_cases heq : rep = l.next (arena.get id)
    · exact ⟨id, by rw [hreps, OrderedMap.get?_insert_self, heq]⟩
    · rw [hold heq] at hrep
      exact (h.owner hrep).imp fun _ hid => hext hid
  · obtain ⟨rfl, rfl⟩ | ⟨-, hrep⟩ := hget hrep <;> obtain ⟨rfl, heq⟩ | ⟨-, hrep'⟩ := hget hrep'
    · rfl
    · exact absurd rfl (hnew hrep')
    · exact absurd heq (hnew hrep)
    · exact h.injective hrep hrep'
  · obtain ⟨rfl, -⟩ | ⟨-, hrep⟩ := hget hrep
    · exact absurd (List.mem_cons_self ..) hpending
    · have hpending := List.not_mem_of_not_mem_cons hpending
      rw [hold (hnew hrep), h.described hrep hpending, describe_eq (h.laid hrep hpending) hext hkind]
  · obtain ⟨rfl, -⟩ | ⟨-, hrep⟩ := hget hrep
    · exact absurd (List.mem_cons_self ..) hpending
    · exact fun entry hmem => (h.laid hrep (List.not_mem_of_not_mem_cons hpending) entry hmem).extends hext

/-- A layout whose parts are laid out may be filled. -/
theorem filled (h : l.Sound arena C (id :: pending)) (hid : l.reps.get? id = some rep)
    (hlaid : ∀ entry ∈ (arena.get id).contents, l.Laid arena entry.2) :
    (l.filled rep (l.describe arena (arena.get id))).Sound arena C pending := by
  have hself := content?_filled_self arena (h.kind hid) (h.content hid)
  have hreps := reps_filled l rep (l.describe arena (arena.get id))
  have hrest {rep' : Rep} (hne : rep' ≠ rep) :=
    content?_filled l (l.describe arena (arena.get id)) hne
  have hdescribe (shape : Shape) :
      (l.filled rep (l.describe arena (arena.get id))).describe arena shape = l.describe arena shape := by
    simp only [describe, rep_filled]
  generalize l.filled rep (l.describe arena (arena.get id)) = l' at *
  have hlaid' {x : ShapeId} (hx : l.Laid arena x) : l'.Laid arena x := by rwa [Laid, hreps]
  have hsome (rep' : Rep) : l'.content? rep' ≠ none ↔ l.content? rep' ≠ none := by
    by_cases heq : rep' = rep
    · simp [heq, hself, h.content hid]
    · rw [hrest heq]
  refine ⟨fun hrep => ?_, fun hrep => ?_, fun hrep => ?_, fun hrep => ?_, fun hrep hrep' => ?_,
    fun {id' rep'} hrep hpending => ?_, fun {id' rep'} hrep hpending entry hmem => ?_⟩ <;>
    rw [hreps] at *
  · exact h.covers hrep
  · exact h.kind hrep
  · exact (hsome _).mpr (h.content hrep)
  · exact h.owner ((hsome _).mp hrep)
  · exact h.injective hrep hrep'
  · by_cases heq : id' = id
    · subst heq
      cases hid.symm.trans hrep
      rw [hself, hdescribe]
    · have hne : rep' ≠ rep := fun hsame => heq (h.injective hrep (hsame ▸ hid))
      rw [hrest hne, hdescribe, h.described hrep (by simp [heq, hpending])]
  · by_cases heq : id' = id
    · exact hlaid' (hlaid entry (heq ▸ hmem))
    · exact hlaid' (h.laid hrep (by simp [heq, hpending]) entry hmem)

end Sound

/-! ### Shapes without a layout yet -/

/-- The records and arrays that have no layout. -/
def unlaid (arena : Arena) (l : Layouts) : Finset ShapeId :=
  (Finset.range arena.shapes.size).filter fun id =>
    (arena.get id).isContainer = true ∧ l.reps.get? id = none

theorem card_unlaid_le : (l.unlaid arena).card ≤ arena.shapes.size :=
  (Finset.card_filter_le _ _).trans (Finset.card_range _).le

theorem Extends.unlaid_subset (h : l.Extends l') : l'.unlaid arena ⊆ l.unlaid arena := by
  refine Finset.monotone_filter_right _ fun id _ ⟨hcontainer, hnone⟩ => ⟨hcontainer, ?_⟩
  cases hrep : l.reps.get? id with
  | none => rfl
  | some rep => cases hnone.symm.trans (h hrep)

theorem Extends.card_unlaid_lt (h : l.Extends l') (hcontainer : (arena.get id).isContainer = true)
    (hid : l.reps.get? id = none) (hrep : l'.reps.get? id = some rep) :
    (l'.unlaid arena).card < (l.unlaid arena).card := by
  have hsize : id < arena.shapes.size := by
    by_contra hge
    rw [Arena.get, Array.getElem?_eq_none (Nat.le_of_not_lt hge)] at hcontainer
    cases hcontainer
  refine Finset.card_lt_card ((Finset.ssubset_iff_of_subset h.unlaid_subset).mpr ⟨id, ?_, ?_⟩)
  · exact Finset.mem_filter.mpr ⟨Finset.mem_range.mpr hsize, hcontainer, hid⟩
  · intro hmem
    cases hrep.symm.trans (Finset.mem_filter.mp hmem).2.2

/-! ### One request -/

/-- Lay out the entries of a shape one after the other. -/
def layEntries (arena : Arena) (budget : Nat) (entries : List (String × ShapeId)) :
    StateM Layouts (List (String × Rep)) :=
  entries.mapM fun (name, field) => do return (name, ← layOut arena budget field)

theorem layEntries_cons (entry : String × ShapeId) (entries : List (String × ShapeId)) :
    layEntries arena budget (entry :: entries) l =
      let first := layOut arena budget entry.2 l
      let others := layEntries arena budget entries first.2
      ((entry.1, first.1) :: others.1, others.2) := by
  rw [layEntries, List.mapM_cons]
  rfl

theorem layOut_succ :
    layOut arena (budget + 1) x l =
      match l.reps.get? (arena.resolve x) with
      | some rep => (rep, l)
      | none =>
        if (arena.resolved x).isContainer then
          let rep := l.next (arena.resolved x)
          let laid := layEntries arena budget (arena.resolved x).contents (l.opened (arena.resolve x) rep)
          (rep, laid.2.filled rep laid.1)
        else ((arena.resolved x).directRep (arena.resolve x), l) := by
  show (layOut arena (budget + 1) x).run l = _
  rw [layOut, StateT.run_bind, StateT.run_get, pure_bind, ← Arena.resolved]
  cases l.reps.get? (arena.resolve x) with
  | some rep => rfl
  | none => cases arena.resolved x <;> rfl

section

variable (hclosed : ∀ {id}, C id → ∀ entry ∈ (arena.get id).contents, C (arena.resolve entry.2))

/-- Entries are laid out one after the other, if each of them can be. -/
theorem layEntries_spec
    (hlay : ∀ {l : Layouts} {x : ShapeId}, l.Sound arena C pending → C (arena.resolve x) →
      (l.unlaid arena).card < budget → ∃ l' : Layouts,
        (∀ n, budget ≤ n → layOut arena n x l = (l'.rep arena x, l')) ∧
          l'.Sound arena C pending ∧ l.Extends l' ∧ l'.Laid arena x)
    (entries : List (String × ShapeId)) (h : l.Sound arena C pending)
    (hC : ∀ entry ∈ entries, C (arena.resolve entry.2)) (hbudget : (l.unlaid arena).card < budget) :
    ∃ l' : Layouts,
      (∀ n, budget ≤ n → layEntries arena n entries l =
        (entries.map fun entry => (entry.1, l'.rep arena entry.2), l')) ∧
          l'.Sound arena C pending ∧ l.Extends l' ∧ ∀ entry ∈ entries, l'.Laid arena entry.2 := by
  induction entries generalizing l with
  | nil => exact ⟨l, fun n _ => rfl, h, fun _ _ hrep => hrep, fun _ hmem => by cases hmem⟩
  | cons entry rest ih =>
    obtain ⟨hfirst, hrest⟩ := List.forall_mem_cons.mp hC
    obtain ⟨l₁, hrun₁, hsound₁, hext₁, hlaid₁⟩ := hlay h hfirst hbudget
    have hbudget₁ : (l₁.unlaid arena).card < budget :=
      (Finset.card_le_card hext₁.unlaid_subset).trans_lt hbudget
    obtain ⟨l₂, hrun₂, hsound₂, hext₂, hlaid₂⟩ := ih hsound₁ hrest hbudget₁
    refine ⟨l₂, fun n hn => ?_, hsound₂, hext₁.trans hext₂,
      List.forall_mem_cons.mpr ⟨hlaid₁.extends hext₂, hlaid₂⟩⟩
    simp only [layEntries_cons, hrun₁ n hn, hrun₂ n hn, List.map_cons,
      hlaid₁.rep_eq hext₂ hsound₂.kind]

include hclosed in
/-- A request ends, as every layout that is opened leaves one shape less without a layout. The
budget does not show once it exceeds their number. -/
theorem layOut_spec (budget : Nat) (h : l.Sound arena C pending) (hC : C (arena.resolve x))
    (hbudget : (l.unlaid arena).card < budget) :
    ∃ l' : Layouts,
      (∀ n, budget ≤ n → layOut arena n x l = (l'.rep arena x, l')) ∧
        l'.Sound arena C pending ∧ l.Extends l' ∧ l'.Laid arena x := by
  induction budget generalizing l x pending with
  | zero => exact absurd hbudget (Nat.not_lt_zero _)
  | succ budget ih =>
    -- A larger budget is the successor of a budget, so the equation of a step applies.
    have hsucc {n : Nat} (hn : budget + 1 ≤ n) : ∃ m, budget ≤ m ∧ n = m + 1 :=
      ⟨n - 1, by omega, by omega⟩
    cases hid : l.reps.get? (arena.resolve x) with
    | some rep =>
      refine ⟨l, fun n hn => ?_, h, fun _ _ hrep => hrep, fun _ => by simp [hid]⟩
      obtain ⟨m, -, rfl⟩ := hsucc hn
      rw [layOut_succ, rep_of_get? hid, hid]
    | none =>
      by_cases hcontainer : (arena.resolved x).isContainer = true
      · obtain ⟨hopened, hext⟩ :
            (l.opened (arena.resolve x) (l.next (arena.resolved x))).Sound arena C
              (arena.resolve x :: pending) ∧ l.Extends _ := h.opened hid hC hcontainer
        have hnext : (l.opened (arena.resolve x) (l.next (arena.resolved x))).reps.get?
            (arena.resolve x) = some (l.next (arena.resolved x)) := by
          rw [reps_opened _ _ (matches_next hcontainer), OrderedMap.get?_insert_self]
        have hless : (unlaid arena (l.opened (arena.resolve x) (l.next (arena.resolved x)))).card < _ :=
          hext.card_unlaid_lt hcontainer hid hnext
        obtain ⟨l₁, hrun, hsound, hext₁, hlaid⟩ := layEntries_spec ih
          (arena.resolved x).contents hopened (hclosed hC) (by omega)
        have hrep := hext₁ hnext
        refine ⟨_, fun n hn => ?_, hsound.filled hrep hlaid, ?_, ?_⟩
        · obtain ⟨m, hm, rfl⟩ := hsucc hn
          rw [layOut_succ, rep_filled, rep_of_get? hrep, hid]
          simp only [hcontainer, if_true, hrun m hm]
          rfl
        · intro id' rep' hrep'
          rw [reps_filled]
          exact hext₁ (hext hrep')
        · intro _
          simp [reps_filled, hrep]
      · refine ⟨l, fun n hn => ?_, h, fun _ _ hrep => hrep, fun hx => absurd hx hcontainer⟩
        obtain ⟨m, -, rfl⟩ := hsucc hn
        rw [layOut_succ, Layouts.rep, hid]
        simp only [hcontainer]
        rfl

end

/-! ### Sequences of requests -/

/-- The layouts after more requests for shapes, one after the other. -/
def afterRequests (arena : Arena) (l : Layouts) (xs : List ShapeId) : Layouts :=
  xs.foldl (fun l x => (layOut arena (arena.shapes.size + 1) x l).2) l

def ofRequests (arena : Arena) (xs : List ShapeId) : Layouts :=
  afterRequests arena {} xs

theorem afterRequests_append (front back : List ShapeId) :
    afterRequests arena l (front ++ back) = afterRequests arena (afterRequests arena l front) back :=
  List.foldl_append

/-- The requested shapes and all that are inside them. -/
inductive Requested (arena : Arena) (xs : List ShapeId) : ShapeId → Prop
  | shape {x : ShapeId} : x ∈ xs → Requested arena xs (arena.resolve x)
  | entry {id : ShapeId} {entry : String × ShapeId} : Requested arena xs id → entry ∈ (arena.get id).contents →
      Requested arena xs (arena.resolve entry.2)

theorem ofAnalysis_eq (a : Analysis) :
    ofAnalysis a = ofRequests a.arena a.layers.shapes := by
  have hall (xs : List ShapeId) (l : Layouts) :
      ((xs.forM fun x => do
        let _ ← layOut a.arena (a.arena.shapes.size + 1) x : StateM Layouts Unit) l).2 =
        afterRequests a.arena l xs := by
    induction xs generalizing l with
    | nil => rfl
    | cons x rest ih => exact ih _
  exact hall _ {}

/-- A request with a budget above the number of shapes ends. -/
theorem Sound.request (h : l.Sound arena C [])
    (hclosed : ∀ {id}, C id → ∀ entry ∈ (arena.get id).contents, C (arena.resolve entry.2))
    (hx : C (arena.resolve x)) :
    ∃ l' : Layouts, (∀ n, arena.shapes.size < n → layOut arena n x l = (l'.rep arena x, l')) ∧
      l'.Sound arena C [] ∧ l.Extends l' ∧ l'.Laid arena x :=
  layOut_spec hclosed (arena.shapes.size + 1) h hx (Nat.lt_succ_of_le card_unlaid_le)

/-- What one request leaves is where the next one starts. -/
theorem Sound.requests (h : l.Sound arena C [])
    (hclosed : ∀ {id}, C id → ∀ entry ∈ (arena.get id).contents, C (arena.resolve entry.2))
    {xs : List ShapeId} (hxs : ∀ x ∈ xs, C (arena.resolve x)) :
    (afterRequests arena l xs).Sound arena C [] ∧ l.Extends (afterRequests arena l xs) ∧
      ∀ x ∈ xs, (afterRequests arena l xs).Laid arena x := by
  induction xs generalizing l with
  | nil => exact ⟨h, fun _ _ hrep => hrep, fun _ hmem => by cases hmem⟩
  | cons x rest ih =>
    obtain ⟨hx, hrest⟩ := List.forall_mem_cons.mp hxs
    obtain ⟨l₁, hrun, hsound, hext, hlaid⟩ := h.request hclosed hx
    obtain ⟨hsound', hext', hlaid'⟩ := ih hsound hrest
    rw [afterRequests, List.foldl_cons, hrun _ (Nat.lt_succ_self _)]
    exact ⟨hsound', hext.trans hext', List.forall_mem_cons.mpr ⟨hlaid.extends hext', hlaid'⟩⟩

variable {xs ys : List ShapeId}

theorem sound_ofRequests : (ofRequests arena xs).Sound arena (Requested arena xs) [] :=
  (Sound.empty.requests (fun hid _ hmem => .entry hid hmem) fun _ hx => .shape hx).1

/-- Every record and array inside a requested shape is laid out with it. -/
theorem get?_of_requested (hid : Requested arena xs id)
    (hcontainer : (arena.get id).isContainer = true) :
    (ofRequests arena xs).reps.get? id ≠ none := by
  have hlaid := (Sound.empty.requests (C := Requested arena xs) (fun hid _ hmem => .entry hid hmem)
    fun _ hx => .shape hx).2.2
  induction hid with
  | shape hmem => exact hlaid _ hmem hcontainer
  | @entry id entry hid hmem ih =>
    have hinside : (arena.get id).isContainer = true := by
      cases hget : arena.get id <;> simp_all [Shape.contents, Shape.isContainer]
    obtain ⟨rep, hrep⟩ := Option.ne_none_iff_exists'.mp (ih hinside)
    exact sound_ofRequests.laid hrep List.not_mem_nil entry hmem hcontainer

/-! ### Other orders -/

/-- The layouts differ in their numbers only. -/
structure Renames (arena : Arena) (ρ α : Nat → Nat) (l l' : Layouts) : Prop where
  records : Set.BijOn ρ (Set.Iio l.records.size) (Set.Iio l'.records.size)
  arrays : Set.BijOn α (Set.Iio l.arrays.size) (Set.Iio l'.arrays.size)
  reps : ∀ x, l'.rep arena x = (l.rep arena x).renamed ρ α
  fields : ∀ n < l.records.size, l'.fields (ρ n) = (l.fields n).map fun f => (f.1, f.2.renamed ρ α)
  elements : ∀ n < l.arrays.size, l'.element (α n) = (l.element n).renamed ρ α

section

variable {C' : ShapeId → Prop} {ρ α : Nat → Nat} (h : l.Sound arena C []) (h' : l'.Sound arena C' [])

include h h' in
/-- Layouts of the same shapes have their kinds from the shapes, so numbers may be changed. -/
theorem exists_renamed (hkeys : ∀ id, l.reps.get? id = none ↔ l'.reps.get? id = none) :
    ∃ ρ α : Nat → Nat, ∀ id, l'.reps.get? id = (l.reps.get? id).map (Rep.renamed ρ α) := by
  have hsome {id : ShapeId} {rep : Rep} (hrep : l.reps.get? id = some rep) :
      ∃ rep', l'.reps.get? id = some rep' :=
    Option.ne_none_iff_exists'.mp fun hnone => by cases hrep.symm.trans ((hkeys id).mpr hnone)
  have hnumber {mk : Nat → Rep} (hmk : ∀ {rep n shape}, Matches (mk n) shape → Matches rep shape →
      ∃ m, rep = mk m) (n : Nat) :
      ∃ m, ∀ id, l.reps.get? id = some (mk n) → l'.reps.get? id = some (mk m) := by
    by_cases hn : ∃ id, l.reps.get? id = some (mk n)
    · obtain ⟨id, hid⟩ := hn
      obtain ⟨rep, hrep⟩ := hsome hid
      obtain ⟨m, rfl⟩ := hmk (h.kind hid) (h'.kind hrep)
      exact ⟨m, fun other hother => h.injective hid hother ▸ hrep⟩
    · exact ⟨0, fun id hid => absurd ⟨id, hid⟩ hn⟩
  have hrecord {rep : Rep} {n : Nat} {shape : Shape} : Matches (.record n) shape → Matches rep shape →
      ∃ m, rep = .record m := by
    rintro ⟨⟩ ⟨⟩
    exact ⟨_, rfl⟩
  have harray {rep : Rep} {n : Nat} {shape : Shape} : Matches (.array n) shape → Matches rep shape →
      ∃ m, rep = .array m := by
    rintro ⟨⟩ ⟨⟩
    exact ⟨_, rfl⟩
  choose ρ hρ using hnumber hrecord
  choose α hα using hnumber harray
  refine ⟨ρ, α, fun id => ?_⟩
  cases hrep : l.reps.get? id with
  | none => exact (hkeys id).mp hrep
  | some rep =>
    cases rep with
    | record n => exact hρ n id hrep
    | array n => exact hα n id hrep
    | _ => cases h.kind hrep

variable (hreps : ∀ id, l'.reps.get? id = (l.reps.get? id).map (Rep.renamed ρ α))

include hreps in
theorem rep_renamed (x : ShapeId) : l'.rep arena x = (l.rep arena x).renamed ρ α := by
  rw [Layouts.rep, Layouts.rep, hreps]
  cases l.reps.get? (arena.resolve x) with
  | some rep => rfl
  | none =>
    show (arena.get _).directRep _ = Rep.renamed ρ α ((arena.get _).directRep _)
    unfold Shape.directRep
    split <;> rfl

include h h' hreps in
/-- Layouts of one kind, `mk`, are numbered anew. -/
theorem bijOn_renamed {mk : Nat → Rep} {σ : Nat → Nat} (hinj : Function.Injective mk)
    (hσ : ∀ n, (mk n).renamed ρ α = mk (σ n))
    (hmk : ∀ {rep m}, Rep.renamed ρ α rep = mk m → ∃ n, rep = mk n) :
    Set.BijOn σ {n | l.content? (mk n) ≠ none} {n | l'.content? (mk n) ≠ none} := by
  have howner {n : Nat} (hn : l.content? (mk n) ≠ none) :
      ∃ id, l.reps.get? id = some (mk n) ∧ l'.reps.get? id = some (mk (σ n)) := by
    obtain ⟨id, hid⟩ := h.owner hn
    exact ⟨id, hid, by rw [hreps, hid, Option.map_some, hσ]⟩
  refine ⟨fun n hn => ?_, fun n hn n' hn' heq => ?_, fun m hm => ?_⟩
  · obtain ⟨id, -, hid'⟩ := howner hn
    exact h'.content hid'
  · obtain ⟨id, hid, hid'⟩ := howner hn
    obtain ⟨other, hother, hother'⟩ := howner hn'
    cases h'.injective hid' (heq ▸ hother')
    exact hinj (Option.some.inj (hid.symm.trans hother))
  · obtain ⟨id, hid'⟩ := h'.owner hm
    have hmap := hid'
    rw [hreps] at hmap
    obtain ⟨rep, hid, hrep⟩ := Option.map_eq_some_iff.mp hmap
    obtain ⟨n, rfl⟩ := hmk hrep
    exact ⟨n, h.content hid, hinj ((hσ n).symm.trans hrep)⟩

include h h' hreps in
/-- The contents of a layout are numbered anew with it. -/
theorem content?_renamed (rep : Rep) (hrep : l.content? rep ≠ none) :
    l'.content? (rep.renamed ρ α) =
      (l.content? rep).map (·.map fun f => (f.1, f.2.renamed ρ α)) := by
  obtain ⟨id, hid⟩ := h.owner hrep
  have hid' : l'.reps.get? id = some (rep.renamed ρ α) := by rw [hreps, hid]; rfl
  rw [h.described hid List.not_mem_nil, h'.described hid' List.not_mem_nil]
  simp only [describe, Option.map_some, List.map_map, Function.comp_def, rep_renamed hreps]

include h h' hreps in
theorem renames : Renames arena ρ α l l' := by
  have hrecords (l : Layouts) : Set.Iio l.records.size = {n | l.content? (.record n) ≠ none} := by
    ext n
    simp [content?]
  have harrays (l : Layouts) : Set.Iio l.arrays.size = {n | l.content? (.array n) ≠ none} := by
    ext n
    simp [content?]
  refine ⟨?_, ?_, rep_renamed hreps, fun n hn => ?_, fun n hn => ?_⟩
  · rw [hrecords, hrecords]
    refine bijOn_renamed h h' hreps (fun _ _ => Rep.record.inj) (fun _ => rfl) fun {rep m} hrep => ?_
    cases rep <;> cases hrep
    exact ⟨_, rfl⟩
  · rw [harrays, harrays]
    refine bijOn_renamed h h' hreps (fun _ _ => Rep.array.inj) (fun _ => rfl) fun {rep m} hrep => ?_
    cases rep <;> cases hrep
    exact ⟨_, rfl⟩
  · have hcontent := content?_renamed h h' hreps (.record n) (by simpa [content?] using hn)
    simp_all [content?, Rep.renamed, Layouts.fields]
  · have hcontent := content?_renamed h h' hreps (.array n) (by simpa [content?] using hn)
    simp_all [content?, Rep.renamed, Layouts.element]

end

/-! ### Materialization -/

/-- A request gives what the shape is represented by in the end, whatever is requested later. -/
theorem layOut_ofRequests {front back : List ShapeId} {n : Nat} (hn : arena.shapes.size < n) :
    layOut arena n x (ofRequests arena front) =
      ((ofRequests arena (front ++ x :: back)).rep arena x, ofRequests arena (front ++ [x])) := by
  let C := Requested arena (front ++ x :: back)
  have hclosed {id : ShapeId} (hid : C id) : ∀ entry ∈ (arena.get id).contents,
      C (arena.resolve entry.2) := fun _ hmem => .entry hid hmem
  have hfront : (ofRequests arena front).Sound arena C [] :=
    (Sound.empty.requests hclosed fun _ hmem => .shape (List.mem_append_left _ hmem)).1
  obtain ⟨l, hrun, hsound, -, hlaid⟩ := hfront.request hclosed (.shape (x := x) (by simp))
  have hlast : ofRequests arena (front ++ [x]) = l := by
    rw [ofRequests, afterRequests_append, ← ofRequests, afterRequests, List.foldl_cons, List.foldl_nil,
      hrun _ (Nat.lt_succ_self _)]
  obtain ⟨hall, hext, -⟩ := hsound.requests hclosed (l := l)
    fun _ hmem => .shape (List.mem_append_right _ (List.mem_cons_of_mem _ hmem))
  have hback : ofRequests arena (front ++ x :: back) = afterRequests arena l back := by
    rw [← hlast, List.append_cons, ofRequests, afterRequests_append, ← ofRequests]
  rw [hrun n hn, hlast, hback, hlaid.rep_eq hext hall.kind]

/-- The representation of a requested record or array, and what its layout says. -/
theorem rep_of_requested (hx : Requested arena xs (arena.resolve x))
    (hcontainer : (arena.resolved x).isContainer = true) :
    Matches ((ofRequests arena xs).rep arena x) (arena.resolved x) ∧
      (ofRequests arena xs).content? ((ofRequests arena xs).rep arena x) =
        some ((ofRequests arena xs).describe arena (arena.resolved x)) ∧
      (ofRequests arena xs).reps.get? (arena.resolve x) = some ((ofRequests arena xs).rep arena x) := by
  obtain ⟨rep, hrep⟩ := Option.ne_none_iff_exists'.mp (get?_of_requested hx hcontainer)
  rw [rep_of_get? hrep]
  exact ⟨sound_ofRequests.kind hrep, sound_ofRequests.described hrep List.not_mem_nil, hrep⟩

/-- Requests end with any budget above the number of shapes, and what a request gives stands. Of the
records and arrays inside the requested shapes, two have the same layout exactly if they resolve to
the same shape. A record's layout has the fields of the shape in their order and an array's has its
element, each with its representation. Requests that lay out the same shapes in another order give
other numbers at most. -/
theorem ofRequests_faithful (arena : Arena) (xs : List ShapeId) :
    (∀ front x back, xs = front ++ x :: back → ∀ n, arena.shapes.size < n →
      layOut arena n x (ofRequests arena front) =
        ((ofRequests arena xs).rep arena x, ofRequests arena (front ++ [x]))) ∧
    (∀ x y, Requested arena xs (arena.resolve x) → (arena.resolved x).isContainer = true →
      Requested arena xs (arena.resolve y) → (arena.resolved y).isContainer = true →
      ((ofRequests arena xs).rep arena x = (ofRequests arena xs).rep arena y ↔
        arena.resolve x = arena.resolve y)) ∧
    (∀ x fields origins, Requested arena xs (arena.resolve x) →
      arena.resolved x = .record fields origins →
      ∃ n, (ofRequests arena xs).rep arena x = .record n ∧
        (ofRequests arena xs).records[n]? =
          some (fields.entries.map fun f => (f.1, (ofRequests arena xs).rep arena f.2))) ∧
    (∀ x element origins, Requested arena xs (arena.resolve x) →
      arena.resolved x = .array element origins →
      ∃ n, (ofRequests arena xs).rep arena x = .array n ∧
        (ofRequests arena xs).arrays[n]? = some ((ofRequests arena xs).rep arena element)) ∧
    ∀ ys, (∀ id, (arena.get id).isContainer = true → (Requested arena xs id ↔ Requested arena ys id)) →
      ∃ ρ α, Renames arena ρ α (ofRequests arena xs) (ofRequests arena ys) := by
  refine ⟨?_, fun x y hx hcx hy hcy => ⟨fun heq => ?_, fun heq => ?_⟩,
    fun x fields origins hx hget => ?_, fun x element origins hx hget => ?_, fun ys hsame => ?_⟩
  · rintro front x back rfl n hn
    exact layOut_ofRequests hn
  · obtain ⟨-, -, hrep⟩ := rep_of_requested hx hcx
    obtain ⟨-, -, hrep'⟩ := rep_of_requested hy hcy
    exact sound_ofRequests.injective hrep (heq ▸ hrep')
  · rw [Layouts.rep, Layouts.rep, heq]
  · obtain ⟨hkind, hcontent, -⟩ := rep_of_requested hx (by rw [hget]; rfl)
    rw [hget] at hkind hcontent
    generalize (ofRequests arena xs).rep arena x = rep at *
    cases hkind
    exact ⟨_, rfl, hcontent⟩
  · obtain ⟨hkind, hcontent, -⟩ := rep_of_requested hx (by rw [hget]; rfl)
    rw [hget] at hkind hcontent
    generalize (ofRequests arena xs).rep arena x = rep at *
    cases hkind
    refine ⟨_, rfl, ?_⟩
    simpa [content?, describe, Shape.contents] using hcontent
  · have hnone {xs ys : List ShapeId} (hsame : ∀ id, (arena.get id).isContainer = true →
        Requested arena ys id → Requested arena xs id) (id : ShapeId)
        (hid : (ofRequests arena xs).reps.get? id = none) : (ofRequests arena ys).reps.get? id = none := by
      cases hrep : (ofRequests arena ys).reps.get? id with
      | none => rfl
      | some rep =>
        have hcontainer := (sound_ofRequests.kind hrep).isContainer
        exact absurd hid (get?_of_requested (hsame id hcontainer (sound_ofRequests.covers hrep)) hcontainer)
    obtain ⟨ρ, α, hreps⟩ := exists_renamed sound_ofRequests sound_ofRequests fun id =>
      ⟨hnone (fun id hid => (hsame id hid).mpr) id, hnone (fun id hid => (hsame id hid).mp) id⟩
    exact ⟨ρ, α, renames sound_ofRequests sound_ofRequests hreps⟩

/-- A record and an array in a ring: the record has the array, another record is its element, and
that one has the first. -/
def ring : Arena where
  shapes := #[.unknown, .undetermined, .concrete .number, .concrete .bool, .concrete .string,
    .record ⟨[("size", 2), ("items", 6)]⟩ [], .array 7 [], .record ⟨[("owner", 5)]⟩ []]

theorem requested_ring {x : ShapeId} (hx : x ∈ [5, 6, 7]) {id : ShapeId}
    (hid : (ring.get id).isContainer = true) : Requested ring [x] id := by
  have hitems (h : Requested ring [x] 5) : Requested ring [x] 6 :=
    @Requested.entry ring [x] 5 ("items", 6) h (by decide)
  have helement (h : Requested ring [x] 6) : Requested ring [x] 7 :=
    @Requested.entry ring [x] 6 ("", 7) h (by decide)
  have howner (h : Requested ring [x] 7) : Requested ring [x] 5 :=
    @Requested.entry ring [x] 7 ("owner", 5) h (by decide)
  have hself : Requested ring [x] (ring.resolve x) := .shape (List.mem_singleton_self x)
  have hall : Requested ring [x] 5 ∧ Requested ring [x] 6 ∧ Requested ring [x] 7 := by
    simp only [List.mem_cons, List.not_mem_nil, or_false] at hx
    rcases hx with rfl | rfl | rfl
    · exact ⟨hself, hitems hself, helement (hitems hself)⟩
    · exact ⟨howner (helement hself), hself, helement hself⟩
    · exact ⟨howner hself, hitems (howner hself), hself⟩
  match id with
  | 0 | 1 | 2 | 3 | 4 => cases hid
  | 5 => exact hall.1
  | 6 => exact hall.2.1
  | 7 => exact hall.2.2
  | n + 8 => cases hid

/-- Asked for from its other end, the ring has the same layouts under other numbers. -/
theorem ofRequests_faithful_ring :
    (ofRequests ring [5]).rep ring 5 = .record 0 ∧ (ofRequests ring [7]).rep ring 5 = .record 1 ∧
      ∃ ρ α, Renames ring ρ α (ofRequests ring [5]) (ofRequests ring [7]) :=
  ⟨rfl, rfl, (ofRequests_faithful ring [5]).2.2.2.2 [7] fun id hid =>
    ⟨fun _ => requested_ring (by simp) hid, fun _ => requested_ring (by simp) hid⟩⟩

end Layouts
end HostScript
