import HostScript.Code.Entry

/-!
# What code generation keeps

Code generation only ever adds to its tables, so a number that was given out keeps its meaning in
all later tables.
-/

namespace HostScript

namespace Generate

variable {α β : Type} {t t' : Tables}

theorem bind_ok {x : Generate α} {g : α → Generate β} {r : β × Tables} :
    (x >>= g) t = .ok r ↔ ∃ a t', x t = .ok (a, t') ∧ g a t' = .ok r := by
  show (x t >>= fun p => g p.1 p.2) = .ok r ↔ _
  cases h : x t with
  | error e => simp [bind, Except.bind]
  | ok p =>
    constructor
    · exact fun hg => ⟨p.1, p.2, rfl, hg⟩
    · rintro ⟨a, t', ha, hg⟩
      cases ha
      exact hg

theorem pure_ok {a : α} {r : α × Tables} : (pure a : Generate α) t = .ok r ↔ (a, t) = r := by
  show Except.ok (a, t) = Except.ok r ↔ _
  simp

/-! ### Numbered constants -/

/-- An interned item is found under its number. -/
theorem intern_getElem? {isItem : α → Bool} {item : α} {items : List α}
    (hitem : ∀ y, isItem y = true → y = item) :
    (intern isItem item items).2[(intern isItem item items).1]? = some item := by
  unfold intern
  split
  · next i h =>
      obtain ⟨hi, hy, -⟩ := List.findIdx?_eq_some_iff_getElem.mp h
      simp [hi, hitem _ hy]
  · simp

theorem prefix_intern {isItem : α → Bool} {item : α} {items : List α} :
    items <+: (intern isItem item items).2 := by
  unfold intern
  split
  · exact List.prefix_rfl
  · exact List.prefix_append ..

theorem getElem?_mono {items more : List α} {i : Nat} {y : α} (h : items <+: more)
    (hi : items[i]? = some y) : more[i]? = some y := by
  obtain ⟨rest, rfl⟩ := h
  have hlt : i < items.length := (List.getElem?_eq_some_iff.mp hi).1
  rw [List.getElem?_append_left hlt, hi]

end Generate

/-- The tables `t'` have all constants and variables of `t`, and ask for no further entries. -/
structure Tables.Grows (t t' : Tables) : Prop where
  numbers : t.numbers <+: t'.numbers
  strings : t.strings <+: t'.strings
  names : t.names <+: t'.names
  jobs : t'.jobs = t.jobs
  functions : t'.functions = t.functions
  dynamicOps : t'.dynamicOps = t.dynamicOps
  locals : ∀ s storage, t.locals.get? s = some storage → t'.locals.get? s = some storage

namespace Tables

variable {t t' t'' : Tables}

theorem Grows.refl (t : Tables) : t.Grows t :=
  ⟨List.prefix_rfl, List.prefix_rfl, List.prefix_rfl, rfl, rfl, rfl, fun _ _ h => h⟩

theorem Grows.trans (h : t.Grows t') (h' : t'.Grows t'') : t.Grows t'' where
  numbers := h.numbers.trans h'.numbers
  strings := h.strings.trans h'.strings
  names := h.names.trans h'.names
  jobs := h'.jobs.trans h.jobs
  functions := h'.functions.trans h.functions
  dynamicOps := h'.dynamicOps.trans h.dynamicOps
  locals s storage hs := h'.locals s storage (h.locals s storage hs)

end Tables

namespace Generate

theorem eq_of_toBits_beq {x y : Float} (h : (x.toBits == y.toBits) = true) : x = y := by
  obtain ⟨⟨bits, _⟩⟩ := x
  obtain ⟨⟨bits', _⟩⟩ := y
  have hbits : bits = bits' := eq_of_beq (show (bits == bits') = true from h)
  subst hbits
  rfl

variable {b : Body} {t : Tables}

theorem get_bind_run {α : Type} (f : Tables → Generate α) (t : Tables) : (get >>= f) t = f t t :=
  rfl

theorem drain_succ (budget : Nat) (t : Tables) : drain b (budget + 1) t =
    match t.jobs with
    | [] => .ok ((), t)
    | j :: rest => (job b j >>= fun _ => drain b budget) { t with jobs := rest } := by
  rw [drain, get_bind_run]
  cases t.jobs <;> rfl

theorem drain_of_empty (h : t.jobs = []) (budget : Nat) : drain b budget t = .ok ((), t) := by
  cases budget with
  | zero => rfl
  | succ budget => rw [drain_succ, h]

end Generate

/-- Code generation for the root of a script and then for all entries that wait. -/
theorem Analysis.generate_eq_ok {analysis : Analysis} {script : Script} {types : Registry}
    {code : Code} (h : analysis.generate script types = .ok code) :
    let b : Body := { script, analysis, types, layouts := .ofAnalysis analysis }
    ∃ t t', Generate.root b {} = .ok ((), t) ∧
      Generate.drain b (Generate.entryCount analysis.arena) t = .ok ((), t') ∧
      code = t'.code b.layouts analysis.input := by
  intro b
  have hrun : ((Generate.root b >>= fun _ => Generate.drain b (Generate.entryCount analysis.arena)) {}
      >>= fun r => Except.ok (r.2.code b.layouts analysis.input)) = .ok code := h
  cases haction : (Generate.root b >>= fun _ =>
      Generate.drain b (Generate.entryCount analysis.arena)) {} with
  | error problem =>
    rw [haction] at hrun
    cases hrun
  | ok r =>
    rw [haction] at hrun
    cases hrun
    obtain ⟨⟨⟩, t, hroot, hdrain⟩ := Generate.bind_ok.mp haction
    exact ⟨t, r.2, hroot, hdrain, rfl⟩

end HostScript
