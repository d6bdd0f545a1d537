import HostScript.Engine
import HostScript.Proofs.Analysis.Standing
import HostScript.Proofs.Code.Tables
import HostScript.Proofs.Layout

/-!
# Layouts of generated code

The layouts of generated code are numbered by their places. The fields of a record layout have
different names, so a field has one place, whether it is looked for from the front or from the back.
-/

namespace HostScript

variable {fields : List (String × Rep)}

/-! ### Names and places -/

namespace RecordLayout

theorem lastIndex?_eq_none {name : String} :
    lastIndex? name fields = none ↔ name ∉ fields.map Prod.fst := by
  induction fields with
  | nil => simp [lastIndex?]
  | cons field rest ih =>
    obtain ⟨other, rep⟩ := field
    simp only [lastIndex?, List.map_cons, List.mem_cons, not_or]
    rw [← ih]
    cases lastIndex? name rest with
    | none => simp [eq_comm]
    | some i => simp

/-- A name that comes once is found where it stands. -/
theorem lastIndex?_of_nodup {name : String} {rep : Rep} {i : Nat} (h : (fields.map Prod.fst).Nodup)
    (hi : fields[i]? = some (name, rep)) :
    lastIndex? name fields = some i := by
  induction fields generalizing i with
  | nil => cases hi
  | cons field rest ih =>
    rw [List.map_cons, List.nodup_cons] at h
    cases i with
    | zero =>
      cases hi
      rw [lastIndex?, lastIndex?_eq_none.mpr h.1]
      simp
    | succ i => rw [lastIndex?, ih h.2 hi]

end RecordLayout

/-! ### Laying out shapes -/

namespace Layouts

/-- The fields of record layouts have different names. -/
def Distinct (l : Layouts) : Prop :=
  ∀ ⦃i : Nat⦄ ⦃fields : List (String × Rep)⦄, l.records[i]? = some fields →
    (fields.map Prod.fst).Nodup

/-- A record layout has the names of the fields of its shape. -/
theorem distinct_ofAnalysis {a : Analysis} (h : a.arena.Distinct) : (ofAnalysis a).Distinct := by
  intro i fields hi
  rw [ofAnalysis_eq] at hi
  obtain ⟨id, hid, hdescribe⟩ := sound_ofRequests.described_of_content? (show content? _ (.record i) = some fields from hi)
  have hkind := sound_ofRequests.kind hid
  cases hget : a.arena.get id with
  | record entries origins =>
    rw [hdescribe, hget, describe, List.map_map]
    exact h hget
  | _ =>
    rw [hget] at hkind
    cases hkind

end Layouts

/-! ### Analyses and code -/

/-- Layouts have their places as numbers, and the fields of a record have different names. -/
structure Code.LaidOut (c : Code) : Prop where
  records : ∀ {i : Nat} {layout}, c.records[i]? = some layout → layout.id = i
  arrays : ∀ {i : Nat} {layout}, c.arrays[i]? = some layout → layout.id = i
  names : ∀ {i : Nat} {layout}, c.records[i]? = some layout → (layout.fields.map Prod.fst).Nodup

theorem Tables.laidOut_code (t : Tables) {layouts : Layouts} (h : layouts.Distinct)
    (input : Option HostTypeId) : (t.code layouts input).LaidOut := by
  have hrecord {i : Nat} {layout : RecordLayout}
      (hi : (t.code layouts input).records[i]? = some layout) :
      ∃ fields, layouts.records[i]? = some fields ∧ ⟨i, fields⟩ = layout := by
    have hmap : (layouts.records.mapIdx fun id fields => RecordLayout.mk id fields)[i]? = some layout := hi
    rw [Array.getElem?_mapIdx] at hmap
    exact Option.map_eq_some_iff.mp hmap
  constructor
  · intro i layout hi
    obtain ⟨fields, -, rfl⟩ := hrecord hi
    rfl
  · intro i layout hi
    have hmap : (layouts.arrays.mapIdx fun id element => ArrayLayout.mk id element)[i]? = some layout := hi
    rw [Array.getElem?_mapIdx] at hmap
    obtain ⟨element, -, rfl⟩ := Option.map_eq_some_iff.mp hmap
    rfl
  · intro i layout hi
    obtain ⟨fields, hfields, rfl⟩ := hrecord hi
    exact h hfields

end HostScript
