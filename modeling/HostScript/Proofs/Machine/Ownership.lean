import HostScript.Proofs.Code.Layouts
import HostScript.Proofs.Machine.Access

/-!
# Objects and the layouts of code

Records and arrays carry the layout they were made with, and checks at run time look at its number
only. A heap is owned by code if the number tells the layout: an object with the number of a layout
of the code was made with that layout. Runs of the code keep the heap owned.
-/

namespace HostScript

variable {σ : Type} {c : Code} {h : Heap}

/-! ### What a change does to objects -/

theorem getElem?_of_modify {α : Type} {xs : Array α} {i j : Nat} {f : α → α} {y : α}
    (h : (xs.modify i f)[j]? = some y) : ∃ x, xs[j]? = some x ∧ (y = x ∨ y = f x) := by
  rw [Array.getElem?_modify] at h
  split at h
  · obtain ⟨x, hx, rfl⟩ := Option.map_eq_some_iff.mp h
    exact ⟨x, hx, .inr rfl⟩
  · exact ⟨y, h, .inl rfl⟩

namespace Machine.Changes

variable {m : Setting σ} {w w' : World σ}

/-- A record keeps its layout, or is new and has one of the code. -/
theorem record_cases (h : Changes m w w') {r : RecordRef} {o' : RecordObject}
    (ho' : w'.heap.records[r]? = some o') :
    (∃ o, w.heap.records[r]? = some o ∧ o'.layout = o.layout ∧ o'.fields.size = o.fields.size) ∨
      r = w.heap.records.size ∧ (∃ i : Nat, m.code.records[i]? = some o'.layout) ∧
        o'.fields.size = o'.layout.fields.length := by
  cases h with
  | newRecord fields hlayout hsize =>
    have hpush : (w.heap.records.push ⟨_, fields⟩)[r]? = some o' := ho'
    rw [Array.getElem?_push] at hpush
    split at hpush
    next hr =>
      cases hpush
      exact .inr ⟨hr, ⟨_, hlayout⟩, hsize⟩
    next => exact .inl ⟨o', hpush, rfl, rfl⟩
  | setField r' index content =>
    obtain ⟨o, ho, rfl | rfl⟩ := getElem?_of_modify ho'
    · exact .inl ⟨o', ho, rfl, rfl⟩
    · exact .inl ⟨o, ho, rfl, Array.size_setIfInBounds⟩
  | _ => exact .inl ⟨o', ho', rfl, rfl⟩

/-- An array keeps its layout, or is new and has one of the code. -/
theorem array_cases (h : Changes m w w') {a : ArrayRef} {o' : ArrayObject}
    (ho' : w'.heap.arrays[a]? = some o') :
    (∃ o, w.heap.arrays[a]? = some o ∧ o'.layout = o.layout) ∨
      a = w.heap.arrays.size ∧ ∃ i : Nat, m.code.arrays[i]? = some o'.layout := by
  cases h with
  | newArray items hlayout =>
    have hpush : (w.heap.arrays.push ⟨_, items⟩)[a]? = some o' := ho'
    rw [Array.getElem?_push] at hpush
    split at hpush
    next ha =>
      cases hpush
      exact .inr ⟨ha, _, hlayout⟩
    next => exact .inl ⟨o', hpush, rfl⟩
  | setItem a' index content | addItem a' content =>
    obtain ⟨o, ho, rfl | rfl⟩ := getElem?_of_modify ho'
    · exact .inl ⟨o', ho, rfl⟩
    · exact .inl ⟨o, ho, rfl⟩
  | _ => exact .inl ⟨o', ho', rfl⟩

end Machine.Changes

/-! ### Owned heaps -/

/-- Objects with the number of a layout of the code were made with that layout. -/
structure Heap.Owned (c : Code) (h : Heap) : Prop where
  records : ∀ {r : RecordRef} {o layout}, h.records[r]? = some o →
    c.records[o.layout.id]? = some layout →
      o.layout = layout ∧ o.fields.size = layout.fields.length
  arrays : ∀ {a : ArrayRef} {o layout}, h.arrays[a]? = some o →
    c.arrays[o.layout.id]? = some layout → o.layout = layout

theorem Heap.Owned.empty (c : Code) : ({} : Heap).Owned c where
  records h := by simp at h
  arrays h := by simp at h

/-! ### Values of a representation -/

section

variable {v : Value} {id : Nat}

theorem Value.record_of_conforms (hv : v.conforms h (.record id) = true) :
    v = .null ∨ ∃ r o, v = .record r ∧ h.records[r]? = some o ∧ o.layout.id = id := by
  cases v with
  | null => exact .inl rfl
  | record r =>
    obtain ⟨o, ho, hid⟩ := Option.map_eq_some_iff.mp (eq_of_beq hv)
    exact .inr ⟨r, o, rfl, ho, hid⟩
  | _ => cases hv

theorem Value.array_of_conforms (hv : v.conforms h (.array id) = true) :
    v = .null ∨ ∃ a o, v = .array a ∧ h.arrays[a]? = some o ∧ o.layout.id = id := by
  cases v with
  | null => exact .inl rfl
  | array a =>
    obtain ⟨o, ho, hid⟩ := Option.map_eq_some_iff.mp (eq_of_beq hv)
    exact .inr ⟨a, o, rfl, ho, hid⟩
  | _ => cases hv

/-- What passes for a record of a layout of the code is null or a record of that layout. -/
theorem Heap.Owned.record_of_conforms (hh : h.Owned c) (hv : v.conforms h (.record id) = true)
    {layout : RecordLayout} (hlayout : c.records[id]? = some layout) :
    v = .null ∨ ∃ r o, v = .record r ∧ h.records[r]? = some o ∧ o.layout = layout ∧
      o.fields.size = layout.fields.length := by
  refine (Value.record_of_conforms hv).imp_right ?_
  rintro ⟨r, o, hr, ho, rfl⟩
  exact ⟨r, o, hr, ho, hh.records ho hlayout⟩

/-- What passes for an array of a layout of the code is null or an array of that layout. -/
theorem Heap.Owned.array_of_conforms (hh : h.Owned c) (hv : v.conforms h (.array id) = true)
    {layout : ArrayLayout} (hlayout : c.arrays[id]? = some layout) :
    v = .null ∨ ∃ a o, v = .array a ∧ h.arrays[a]? = some o ∧ o.layout = layout := by
  refine (Value.array_of_conforms hv).imp_right ?_
  rintro ⟨a, o, ha, ho, rfl⟩
  exact ⟨a, o, ha, ho, hh.arrays ho hlayout⟩

end

/-! ### Runs -/

namespace Machine

variable {m : Setting σ} {w w' : World σ}

/-- New objects carry layouts of the code that runs, and old ones keep theirs. -/
theorem Changes.owned (hm : m.code.LaidOut) (h : Changes m w w') (hw : w.heap.Owned m.code) :
    w'.heap.Owned m.code where
  records {r o' layout} ho' hlayout := by
    rcases h.record_cases ho' with ⟨o, ho, hsame, hsize⟩ | ⟨-, ⟨i, hi⟩, hsize⟩
    · rw [hsame] at hlayout ⊢
      rw [hsize]
      exact hw.records ho hlayout
    · rw [hm.records hi, hi] at hlayout
      cases hlayout
      exact ⟨rfl, hsize⟩
  arrays {a o' layout} ho' hlayout := by
    rcases h.array_cases ho' with ⟨o, ho, hsame⟩ | ⟨-, i, hi⟩
    · rw [hsame] at hlayout ⊢
      exact hw.arrays ho hlayout
    · rw [hm.arrays hi, hi] at hlayout
      exact Option.some.inj hlayout

theorem Passes.owned (hm : m.code.LaidOut) {start : World σ} (hstart : start.heap.Owned m.code)
    {frames : List Frame} (h : Passes m start frames w) : w.heap.Owned m.code := by
  induction h with
  | start _ => exact hstart
  | @step frames _ w _ _ hstep ih =>
    have hlast := Changes.keeps (step_evolves frames w) (Changes.owned hm) ih
    rw [hstep] at hlast
    exact hlast

end Machine

theorem Engine.compile_laidOut {e : Engine} {source : String} {input : Option HostTypeId}
    {analyses : Nat} {p : Program} (hp : (compile source input analyses e).1 = some (.ok p)) :
    p.code.LaidOut := by
  obtain ⟨script, analysis, -, hanalyze, hgenerate⟩ := compile_eq_ok hp
  obtain ⟨-, t, -, -, hcode⟩ := Analysis.generate_eq_ok hgenerate
  rw [hcode]
  exact t.laidOut_code (Layouts.distinct_ofAnalysis (Script.analyze_distinct hanalyze)) _

end HostScript
