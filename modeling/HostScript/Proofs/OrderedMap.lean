import HostScript.NumberedMap

/-!
# Looking up entries
-/

namespace HostScript

namespace OrderedMap

variable {κ α : Type} [DecidableEq κ] {entries : List (κ × α)} {m : OrderedMap κ α}

theorem mem_of_lookup {key : κ} {a : α} (h : lookup key entries = some a) : (key, a) ∈ entries := by
  induction entries with
  | nil => simp [lookup] at h
  | cons entry rest ih =>
    by_cases hk : entry.1 = key
    · have ha : entry.2 = a := by simpa [lookup, hk] using h
      simp [← hk, ← ha]
    · exact List.mem_cons_of_mem _ (ih (by simpa [lookup, hk] using h))

theorem lookup_eq_none {key : κ} :
    lookup key entries = none ↔ ∀ entry ∈ entries, entry.1 ≠ key := by
  induction entries with
  | nil => simp [lookup]
  | cons entry rest ih => by_cases hk : entry.1 = key <;> simp [lookup, hk, ih]

/-- A key that occurs once is looked up wherever it stands. -/
theorem lookup_of_mem {key : κ} {a : α} (hnodup : (entries.map Prod.fst).Nodup)
    (h : (key, a) ∈ entries) :
    lookup key entries = some a := by
  induction entries with
  | nil => cases h
  | cons entry rest ih =>
    obtain ⟨hnot, hrest⟩ := List.nodup_cons.mp hnodup
    rcases List.mem_cons.mp h with rfl | h
    · simp [lookup]
    · have hk : entry.1 ≠ key := fun hk => hnot (hk ▸ List.mem_map_of_mem (f := Prod.fst) h)
      simpa [lookup, hk] using ih hrest h

theorem lookup_append (key : κ) (front back : List (κ × α)) :
    lookup key (front ++ back) = (lookup key front).or (lookup key back) := by
  induction front with
  | nil => rfl
  | cons entry rest ih => by_cases hk : entry.1 = key <;> simp [lookup, hk, ih]

theorem lookup_filterMap {β : Type} (h : (entries.map Prod.fst).Nodup) (f : α → Option β) (key : κ) :
    lookup key (entries.filterMap fun entry => (f entry.2).map (entry.1, ·)) =
      (lookup key entries).bind f := by
  induction entries with
  | nil => rfl
  | cons entry rest ih =>
    obtain ⟨hnot, hrest⟩ := List.nodup_cons.mp h
    have ih := ih hrest
    by_cases hk : entry.1 = key
    · have hnone : lookup key rest = none :=
        lookup_eq_none.mpr fun other hother heq =>
          hnot (hk.trans heq.symm ▸ List.mem_map_of_mem hother)
      cases hf : f entry.2 with
      | none => simpa [hf, lookup, hk, hnone] using ih
      | some b => simp [hf, lookup, hk]
    · cases hf : f entry.2 <;> simpa [hf, lookup, hk] using ih

theorem lookup_reverse (h : (entries.map Prod.fst).Nodup) (key : κ) :
    lookup key entries.reverse = lookup key entries := by
  cases hl : lookup key entries with
  | none =>
    rw [lookup_eq_none] at hl ⊢
    exact fun entry he => hl entry (List.mem_reverse.mp he)
  | some a =>
    refine lookup_of_mem ?_ (List.mem_reverse.mpr (mem_of_lookup hl))
    rw [List.map_reverse]
    exact (List.reverse_perm _).nodup_iff.mpr h

/-- A new key goes to the end. -/
theorem entries_insert_of_new {key : κ} (value : α) (h : m.get? key = none) :
    (m.insert key value).entries = m.entries ++ [(key, value)] := by
  obtain ⟨entries⟩ := m
  simp only [insert, get?] at h ⊢
  induction entries with
  | nil => rfl
  | cons entry rest ih =>
    by_cases hk : entry.1 = key
    · simp [lookup, hk] at h
    · simp only [lookup, hk, if_false] at h
      simp [put, hk, ih h]

theorem get?_insert (m : OrderedMap κ α) (key other : κ) (value : α) :
    (m.insert key value).get? other = if other = key then some value else m.get? other := by
  by_cases h : other = key
  · rw [if_pos h, h, get?_insert_self]
  · rw [if_neg h, get?_insert_of_ne m value h]

theorem get?_insert_cases {key other : κ} {value found : α}
    (h : (m.insert key value).get? other = some found) :
    m.get? other = some found ∨ other = key ∧ found = value := by
  rw [get?_insert] at h
  grind

theorem get?_insert_of_new {key other : κ} {found : α} (value : α) (hnew : m.get? key = none)
    (h : m.get? other = some found) : (m.insert key value).get? other = some found := by
  rw [get?_insert, if_neg, h]
  rintro rfl
  cases hnew.symm.trans h

theorem get?_erase (m : OrderedMap κ α) (key other : κ) :
    (m.erase key).get? other = if other = key then none else m.get? other := by
  obtain ⟨entries⟩ := m
  simp only [erase, get?, ne_eq, decide_not]
  induction entries with
  | nil => simp [lookup]
  | cons entry rest ih =>
    by_cases hk : entry.1 = key
    · by_cases ho : other = key
      · simpa [hk, ho] using ih
      · simpa [lookup, hk, ho, Ne.symm ho] using ih
    · by_cases ho : entry.1 = other
      · simp [lookup, ← ho, hk]
      · simpa [lookup, hk, ho] using ih

theorem mem_values_insert {key : κ} {value x : α} (h : x ∈ (m.insert key value).values) :
    x = value ∨ x ∈ m.values := by
  obtain ⟨entries⟩ := m
  simp only [insert, values] at h ⊢
  induction entries with
  | nil => simpa [put] using h
  | cons entry rest ih =>
    by_cases hk : entry.1 = key
    · simp only [put, hk, if_true, List.map_cons, List.mem_cons] at h
      exact h.imp_right (List.mem_cons_of_mem _)
    · simp only [put, hk, if_false, List.map_cons, List.mem_cons] at h
      rcases h with rfl | h
      · exact .inr (List.mem_cons_self ..)
      · exact (ih h).imp_right (List.mem_cons_of_mem _)

omit [DecidableEq κ] in
theorem mem_values_mapValues {β : Type _} {f : κ → α → β} {x : β} (h : x ∈ (m.mapValues f).values) :
    ∃ key value, value ∈ m.values ∧ f key value = x := by
  simp only [mapValues, values, List.map_map, List.mem_map] at h
  obtain ⟨entry, he, rfl⟩ := h
  exact ⟨entry.1, entry.2, List.mem_map_of_mem he, rfl⟩

omit [DecidableEq κ] in
@[simp] theorem keys_mapValues {β : Type _} (f : κ → α → β) (m : OrderedMap κ α) :
    (m.mapValues f).keys = m.keys := by
  simp [mapValues, keys]

theorem get?_mapValues {β : Type _} (f : κ → α → β) (m : OrderedMap κ α) (key : κ) :
    (m.mapValues f).get? key = (m.get? key).map (f key) := by
  obtain ⟨entries⟩ := m
  simp only [mapValues, get?]
  induction entries with
  | nil => rfl
  | cons entry rest ih =>
    simp only [List.map_cons, lookup]
    split
    next heq => simp [heq]
    next => exact ih

/-- A new key goes to the end, and a key that is there stays where it is. -/
theorem keys_insert (m : OrderedMap κ α) (key : κ) (value : α) :
    (m.insert key value).keys = if key ∈ m.keys then m.keys else m.keys ++ [key] := by
  obtain ⟨entries⟩ := m
  simp only [insert, keys]
  induction entries with
  | nil => rfl
  | cons entry rest ih =>
    by_cases hk : entry.1 = key
    · simp [put, hk]
    · simp only [put, hk, if_false, List.map_cons, List.mem_cons, Ne.symm hk, false_or, ih]
      by_cases hmem : key ∈ rest.map Prod.fst <;> simp [hmem]

theorem nodup_keys_insert (h : m.keys.Nodup) (key : κ) (value : α) :
    (m.insert key value).keys.Nodup := by
  rw [keys_insert]
  split
  · exact h
  next hnew => exact List.nodup_append.mpr ⟨h, by simp, by grind⟩

theorem mem_values {key : κ} {a : α} (h : m.get? key = some a) : a ∈ m.values :=
  List.mem_map.mpr ⟨_, mem_of_lookup h, rfl⟩

theorem inner_alter {ι : Type} (m : OrderedMap κ (OrderedMap ι α)) (key other : κ)
    (f : OrderedMap ι α → OrderedMap ι α) :
    (m.alter key f).inner other = if other = key then f (m.inner key) else m.inner other := by
  obtain ⟨entries⟩ := m
  simp only [alter, inner, get?]
  induction entries with
  | nil => grind [alterIn, lookup]
  | cons entry rest ih => grind [alterIn, lookup]

end OrderedMap

namespace NumberedMap

variable {κ α : Type} [DecidableEq κ] [Numbered κ]

@[simp] theorem get?_empty (key : κ) : ({} : NumberedMap κ α).get? key = none :=
  rfl

theorem get?_insert (m : NumberedMap κ α) (key other : κ) (value : α) :
    (m.insert key value).get? other = if other = key then some value else m.get? other := by
  by_cases h : other = key
  · simp [get?, insert, OrderedMap.inner_alter, h]
  · simp only [get?, insert, OrderedMap.inner_alter, if_neg h]
    split
    next hpage =>
      rw [OrderedMap.inner_alter, hpage]
      split
      next hdigit => rw [OrderedMap.get?_insert_of_ne _ _ h, hdigit]
      next => rfl
    next => rfl

theorem get?_insert_cases {m : NumberedMap κ α} {key other : κ} {value found : α}
    (h : (m.insert key value).get? other = some found) :
    m.get? other = some found ∨ other = key ∧ found = value := by
  rw [get?_insert] at h
  grind

end NumberedMap

end HostScript
