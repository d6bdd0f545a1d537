import HostScript.Proofs.Machine.Access

/-!
# Conversions at run time

Code that turns a value from one representation into another keeps the value. It leaves it as it is
stored in the wanted representation, or fails with the label of the conversion if the value does not
conform to that representation.
-/

namespace HostScript

/-- The slot is the one in which its value is stored with a representation. -/
def Slot.IsValid (h : Heap) (rep : Rep) (slot : Slot) : Prop :=
  slot.value.slot? h rep = some slot

section

variable {h : Heap} {rep : Rep} {slot : Slot} {v : Value}

theorem Slot.isValid_iff :
    slot.IsValid h rep ↔ slot.value.conforms h rep = true ∧ slot.value.box rep = slot := by
  unfold IsValid Value.slot?
  split <;> simp_all

theorem Value.isValid_box (hv : v.conforms h rep = true) : (v.box rep).IsValid h rep := by
  rw [Slot.isValid_iff, Machine.box_value]
  exact ⟨hv, rfl⟩

/-- A slot of a reference holds its value as storage for any value does. -/
theorem Slot.IsValid.any_of_boxed (hs : slot.IsValid h rep) (hrep : rep.isUnboxed = false) :
    slot.IsValid h .any := by
  obtain ⟨-, hbox⟩ := isValid_iff.mp hs
  refine isValid_iff.mpr ⟨rfl, ?_⟩
  cases rep with
  | num | bool => cases hrep
  | _ => exact hbox

end

namespace Machine

variable {σ : Type}

/-- The code turns the slot on top of the stack into one with the same value in the wanted
representation, or fails with the label if the value does not conform to it. -/
def Converts (m : Setting σ) (ops : List Op) (label : String) (wanted : Rep) (slot : Slot)
    (w : World σ) : Prop :=
  ∀ (f : Frame) (ip : Nat) (st : List Slot), f.Has ip ops →
    if slot.value.conforms w.heap wanted then
      ∃ n slot', slot'.IsValid w.heap wanted ∧ slot'.value = slot.value ∧
        Reaches m n (f.at ip (slot :: st)) w (f.at (ip + ops.length) (slot' :: st)) w
    else
      ∃ n, Ends m n (f.at ip (slot :: st)) w
        (.error (.typeMismatch label (expectedName m.env.types wanted) slot.value.typeName) w)

variable {m : Setting σ} {w : World σ} {slot : Slot} {wanted given : Rep} {label : String}
  {ops : List Op}

theorem converts_nil (hs : slot.IsValid w.heap wanted) : Converts m [] label wanted slot w := by
  intro f ip st _
  rw [if_pos (Slot.isValid_iff.mp hs).1]
  exact ⟨0, slot, hs, rfl, .refl⟩

theorem execute_check (f : Frame) (ip i : Nat) (st : List Slot) :
    execute m (.check wanted i) (f.at ip (slot :: st)) w =
      if slot.value.conforms w.heap wanted then
        .ok (.next, f.at ip (slot.value.box wanted :: st)) w
      else .error (.typeMismatch (m.code.name i) (expectedName m.env.types wanted)
        slot.value.typeName) w := by
  have hcheck := checked_run (f := f.at ip st) (w := w) (v := slot.value) wanted
    (expectedName m.env.types wanted) (m.code.name i)
  show ((checked wanted (expectedName m.env.types wanted) (m.code.name i) slot.value >>= Exec.push) >>=
    fun _ => pure Flow.next : Exec σ Flow) (f.at ip st) w = _
  split at hcheck
  · rename_i hv
    rw [if_pos hv]
    exact (exec_bind_ok (exec_bind_ok hcheck)).trans rfl
  · rename_i hv
    rw [if_neg hv]
    exact exec_bind_error (exec_bind_error hcheck)

theorem converts_check {i : Nat} (hlabel : m.code.name i = label) :
    Converts m [.check wanted i] label wanted slot w := by
  intro f ip st hf
  have hrun : execute m (.check wanted i) (f.at (ip + 1) (slot :: st)) w = _ :=
    execute_check f (ip + 1) i st
  split
  · rename_i hv
    rw [if_pos hv] at hrun
    exact ⟨1, _, Value.isValid_box hv, box_value .., reaches_of_next hf.head hrun⟩
  · rename_i hv
    rw [if_neg hv, hlabel] at hrun
    exact ⟨1, ends_of_error hf.head hrun⟩

/-- Code before a conversion that puts the value in a slot for any value. -/
theorem Converts.after_erase {more : List Op} {boxed : Slot} (hvalue : boxed.value = slot.value)
    (herase : ∀ (f : Frame) (ip : Nat) (st : List Slot), f.Has ip more →
      ∃ n, Reaches m n (f.at ip (slot :: st)) w (f.at (ip + more.length) (boxed :: st)) w)
    (h : Converts m ops label wanted boxed w) : Converts m (more ++ ops) label wanted slot w := by
  intro f ip st hf
  obtain ⟨n, hreach⟩ := herase f ip st hf.left
  have hrest := h f (ip + more.length) st hf.right
  rw [hvalue] at hrest
  rw [List.length_append, ← Nat.add_assoc]
  split
  · rename_i hv
    rw [if_pos hv] at hrest
    obtain ⟨k, slot', hvalid, hsame, hreach'⟩ := hrest
    exact ⟨n + k, slot', hvalid, hsame, hreach.trans hreach'⟩
  · rename_i hv
    rw [if_neg hv] at hrest
    obtain ⟨k, hends⟩ := hrest
    exact ⟨n + k, hreach.ends hends⟩

/-- Erasing leaves the value in a slot for any value. -/
theorem erase_boxes (hs : slot.IsValid w.heap given) :
    ∃ boxed : Slot, boxed.IsValid w.heap .any ∧ boxed.value = slot.value ∧
      ∀ (f : Frame) (ip : Nat) (st : List Slot), f.Has ip (if given.isUnboxed then [.wrap] else []) →
        ∃ n, Reaches m n (f.at ip (slot :: st)) w
          (f.at (ip + (if given.isUnboxed then [Op.wrap] else []).length) (boxed :: st)) w := by
  cases hgiven : given.isUnboxed with
  | false => exact ⟨slot, hs.any_of_boxed hgiven, rfl, fun _ _ _ _ => ⟨0, .refl⟩⟩
  | true =>
    exact ⟨.ref slot.value, Slot.isValid_iff.mpr ⟨rfl, rfl⟩, rfl,
      fun _ _ _ hf => ⟨1, reaches_of_next hf.head rfl⟩⟩

end Machine

namespace Generate

variable {σ : Type} {b : Body} {t : Tables}

/-- The operations of a conversion. -/
def conversion (given wanted : Rep) (label : Nat) : List Op :=
  if given = wanted then []
  else (if given.isUnboxed then [.wrap] else []) ++ if wanted = .any then [] else [.check wanted label]

theorem check_run (wanted : Rep) (label : String) (t : Tables) :
    ∃ i t', check wanted label t = .ok ([.check wanted i], t') ∧ t'.names[i]? = some label :=
  ⟨_, _, rfl, intern_getElem? fun _ => eq_of_beq⟩

/-- A conversion never fails to be generated, and its label is the name of its check. -/
theorem convert_run (b : Body) (given wanted : Rep) (label : String) (t : Tables) :
    ∃ i t', convert b given wanted label t = .ok (conversion given wanted i, t') ∧
      (given ≠ wanted → wanted ≠ .any → t'.names[i]? = some label) := by
  by_cases hsame : given = wanted
  · exact ⟨0, t, by simp only [convert, conversion, hsame, if_true]; rfl, absurd hsame⟩
  · obtain ⟨i, t', hcheck, hname⟩ := check_run wanted label (Tables.escape b.layouts given t)
    by_cases hany : wanted = .any
    · refine ⟨0, Tables.escape b.layouts given t, ?_, fun _ hne => absurd hany hne⟩
      subst hany
      simp only [convert, conversion, if_neg hsame, if_true, List.append_nil]
      rfl
    · refine ⟨i, t', ?_, fun _ _ => hname⟩
      simp only [convert, conversion, if_neg hsame, if_neg hany]
      split
      · exact absurd rfl hany
      · exact hcheck
      · exact bind_ok.mpr ⟨_, _, rfl, bind_ok.mpr ⟨_, _, hcheck, rfl⟩⟩

/-- Conversions keep the value: they leave it as the wanted representation stores it, or fail with
their label, which they do if and only if the value does not conform. Nothing is decided at run time
if the representations are the same or any value is wanted. -/
theorem convert_keeps_value (b : Body) (given wanted : Rep) (label : String) (t : Tables) :
    ∃ ops t', convert b given wanted label t = .ok (ops, t') ∧
      (∀ {σ : Type} (m : Machine.Setting σ) (w : World σ) (slot : Slot),
        t'.names <+: m.code.names.toList → slot.IsValid w.heap given →
        Machine.Converts m ops label wanted slot w) ∧
      (given = wanted ∨ wanted = .any → ∀ op ∈ ops, op.isDynamic = false) := by
  obtain ⟨i, t', hconvert, hname⟩ := convert_run b given wanted label t
  refine ⟨_, t', hconvert, fun m w slot hnames hs => ?_, ?_⟩
  · unfold conversion
    split
    next hsame => exact Machine.converts_nil (hsame ▸ hs)
    next hsame =>
      obtain ⟨boxed, hboxed, hvalue, herase⟩ := Machine.erase_boxes hs
      refine .after_erase hvalue herase ?_
      split
      next hany => exact Machine.converts_nil (hany ▸ hboxed)
      next hany =>
        have hlabel := getElem?_mono hnames (hname hsame hany)
        exact Machine.converts_check (by simp [Code.name, ← Array.getElem?_toList, hlabel])
  · rintro (hsame | hany) op hop
    · simp [conversion, hsame] at hop
    · simp only [conversion, hany, if_true, List.append_nil] at hop
      split at hop
      · cases hop
      · split at hop
        · obtain rfl := List.mem_singleton.mp hop
          rfl
        · cases hop

/-- A boolean for a field of strings: the check fails with the name of the field. -/
theorem convert_keeps_value_field :
    ∃ (b : Body) (ops : List Op) (t' : Tables) (m : Machine.Setting Bag.Store) (w : World Bag.Store),
      convert b .bool .str "field" {} = .ok (ops, t') ∧ t'.names <+: m.code.names.toList ∧
      (Slot.bool true).IsValid w.heap .bool ∧ Machine.Converts m ops "field" .str (.bool true) w := by
  let b : Body :=
    { script := ⟨[], 0⟩
      analysis := ⟨{}, {}, {}, [], {}, none, [], 0⟩
      types := { naming := .exact }
      layouts := {} }
  let m : Machine.Setting Bag.Store :=
    { env := ⟨{}, Bag.hostCode "Bag" #[]⟩
      code := ⟨#[], #[], #[], #["field"], #[], #[], #[], #[], none, 0⟩
      input := .null
      maxDepth := 1 }
  obtain ⟨ops, t', hconvert, hruns, -⟩ := convert_keeps_value b .bool .str "field" {}
  have hnames : t'.names = ["field"] := by
    cases hconvert
    rfl
  have hvalid : (Slot.bool true).IsValid {} .bool := rfl
  have hprefix : t'.names <+: m.code.names.toList := hnames ▸ List.prefix_rfl
  exact ⟨b, ops, t', m, { data := #[] }, hconvert, hprefix, hvalid, hruns m _ _ hprefix hvalid⟩

end Generate

end HostScript
