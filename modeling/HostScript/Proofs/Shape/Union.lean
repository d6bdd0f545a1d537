import HostScript.Proofs.Shape.Covers

/-!
# Merged records are unions

After a merge a record has the fields of all records that were merged into it, and each field covers
what it was in each of them. This needs that the records were forwarded to it directly: a record
that is itself forwarded while its fields are merged loses the fields that come later. For arrays
there is no such condition.
-/

namespace HostScript.Arena

variable {a b c : Arena} {i r s t x y : ShapeId} {name : String}
  {field : ShapeId → String → ShapeId → Prop} {element xElement yElement : ShapeId}
  {xOrigins yOrigins : List NodeId} {xFields yFields : OrderedMap String ShapeId}

/-! ### Records and their fields -/

def IsRecord (a : Arena) (i : ShapeId) : Prop :=
  ∃ fields origins, a.get i = .record fields origins

def HasField (a : Arena) (i : ShapeId) (name : String) (s : ShapeId) : Prop :=
  ∃ fields origins, a.get i = .record fields origins ∧ fields.get? name = some s

theorem HasField.isRecord (h : a.HasField i name s) : a.IsRecord i :=
  have ⟨fields, origins, hget, _⟩ := h
  ⟨fields, origins, hget⟩

theorem HasField.of_get (h : a.HasField i name s) (hget : b.get i = a.get i) :
    b.HasField i name s := by
  obtain ⟨fields, origins, hi, hname⟩ := h
  exact ⟨fields, origins, hget.trans hi, hname⟩

theorem IsRecord.resolve (h : a.IsRecord i) : a.resolve i = i := by
  obtain ⟨_, _, hget⟩ := h
  exact resolve_of_data (by rw [hget]; rfl)

theorem IsRecord.ne_forward (h : a.IsRecord i) : a.get i ≠ .forward t := by
  obtain ⟨_, _, hget⟩ := h
  rw [hget]
  exact Shape.noConfusion

theorem Evolves.isRecord_before (h : Evolves a b) (hi : b.IsRecord i) : a.IsRecord i := by
  obtain ⟨_, _, hget⟩ := hi
  exact h.record_before hget

theorem Keeps.isRecord_resolve (h : Keeps a b) (hi : a.IsRecord i) : b.IsRecord (b.resolve i) := by
  obtain ⟨_, _, hget⟩ := hi
  have hkind := h.evolves.resolves (h.sound.grounded.resolves i) (by rw [hget]; rfl)
  rw [hget] at hkind
  exact hkind.record

/-! ### Unions -/

/-- The records of `a` that lead to `r` in `b` are forwarded to it directly. -/
def Direct (a b : Arena) (r : ShapeId) : Prop :=
  ∀ i, a.IsRecord i → b.resolve i = r → i ≠ r → b.get i = .forward r

/-- The fields of `r` are those of the shapes that lead to it, and cover them. -/
structure United (field : ShapeId → String → ShapeId → Prop) (b : Arena) (r : ShapeId) : Prop where
  names : ∀ {name t}, b.HasField r name t → ∃ i s, b.resolve i = r ∧ field i name s
  covers : ∀ {i name s}, b.resolve i = r → field i name s → ∃ t, b.HasField r name t ∧ b.Covers s t

/-- All records of `b` to which records of `a` were forwarded directly are unions. -/
def Unites (a : Arena) (field : ShapeId → String → ShapeId → Prop) (b : Arena) : Prop :=
  ∀ r, b.IsRecord r → Direct a b r → United field b r

/-- Where a record was on its way to the record that it leads to. -/
theorem Direct.between (hd : Direct a c r) (hr : c.IsRecord r) (hab : Keeps a b) (hbc : Keeps b c)
    (hi : a.IsRecord i) (hir : c.resolve i = r) :
    b.IsRecord i ∨ b.get i = .forward r ∧ b.resolve i = r := by
  obtain ⟨_, _, hget⟩ := hi
  rcases hab.evolves.record hget with hrecord | ⟨target, hforward, _⟩
  · exact .inl hrecord
  · have hlater := hbc.evolves.forward hforward
    have hne : i ≠ r := fun heq => hr.ne_forward (heq ▸ hlater)
    have htarget : target = r := Shape.forward.inj (hlater.symm.trans (hd i ⟨_, _, hget⟩ hir hne))
    subst htarget
    exact .inr ⟨hforward, (hab.sound.resolve_forward hforward).trans
      (hbc.evolves.isRecord_before hr).resolve⟩

theorem Unites.trans (hfield : ∀ i name s, field i name s → a.IsRecord i) (hab : Keeps a b)
    (hbc : Keeps b c) (h : Unites a field b) (h' : Unites b b.HasField c) : Unites a field c := by
  intro r hr hd
  have hlater (i : ShapeId) : c.resolve i = c.resolve (b.resolve i) :=
    hbc.evolves.resolve hab.sound.grounded hbc.sound.grounded i
  have hlast : United b.HasField c r :=
    h' r hr fun j hj hjr hne => hd j (hab.evolves.isRecord_before hj) hjr hne
  have hfirst {j : ShapeId} (hj : b.IsRecord j) (hjr : c.resolve j = r) : United field b j := by
    refine h j hj fun i hi hij hne => ?_
    have hir : c.resolve i = r := by rw [hlater, hij, hjr]
    rcases hd.between hr hab hbc hi hir with hrecord | ⟨hforward, hreaches⟩
    · exact absurd (hrecord.resolve.symm.trans hij) hne
    · rwa [← hij, hreaches]
  refine ⟨fun {name t} ht => ?_, fun {i name s} hir hs => ?_⟩
  · obtain ⟨j, u, hjr, hu⟩ := hlast.names ht
    obtain ⟨i, s, hij, hs⟩ := (hfirst hu.isRecord hjr).names hu
    exact ⟨i, s, by rw [hlater, hij, hjr], hs⟩
  · have hmiddle : b.IsRecord (b.resolve i) := by
      rcases hd.between hr hab hbc (hfield i name s hs) hir with hrecord | ⟨_, hreaches⟩
      · rwa [hrecord.resolve]
      · rw [hreaches]
        exact hbc.evolves.isRecord_before hr
    have hjr : c.resolve (b.resolve i) = r := by rw [← hlater, hir]
    obtain ⟨u, hu, hsu⟩ := (hfirst hmiddle hjr).covers rfl hs
    obtain ⟨t, ht, hut⟩ := hlast.covers hjr hu
    exact ⟨t, ht, (hsu.later hab.sound hbc).trans hut⟩

/-- Records that stay as they are remain unions of themselves. -/
theorem Keeps.unites_of_same (h : Keeps a b) (hsame : ∀ {i}, a.IsRecord i → b.get i = a.get i) :
    Unites a a.HasField b := by
  intro r hr _
  have hget := hsame (h.evolves.isRecord_before hr)
  refine ⟨fun {name t} ht => ⟨r, t, hr.resolve, ht.of_get hget.symm⟩, fun {i name s} hir hs => ?_⟩
  have hi : b.HasField i name s := hs.of_get (hsame hs.isRecord)
  rw [hi.isRecord.resolve] at hir
  exact ⟨s, hir ▸ hi, .refl b s⟩

theorem Sound.unites_refl (h : a.Sound) : Unites a a.HasField a :=
  h.keeps.unites_of_same fun _ => rfl

/-! ### The fields of one record -/

/-- The fields of the records of `a`, where `y` has only those that were merged so far. -/
def pending (a : Arena) (y : ShapeId) (done : List (String × ShapeId)) (i : ShapeId) (name : String)
    (s : ShapeId) : Prop :=
  if i = y then (name, s) ∈ done else a.HasField i name s

section

variable {done : List (String × ShapeId)}

theorem isRecord_of_pending (hy : a.IsRecord y) (h : a.pending y done i name s) : a.IsRecord i := by
  rw [pending] at h
  split at h
  · next heq => rwa [heq]
  · exact h.isRecord

theorem pending_append {name' : String} {s' : ShapeId} :
    a.pending y (done ++ [(name, s)]) i name' s' ↔
      a.pending y done i name' s' ∨ i = y ∧ name' = name ∧ s' = s := by
  by_cases h : i = y <;> simp [pending, h]

/-- A record that was forwarded to `x` counts for `x` only. -/
theorem Direct.eq_target (hd : Direct a b r) (hr : b.IsRecord r) (hy : a.IsRecord y)
    (hforward : b.get y = .forward x) (hyr : b.resolve y = r) : r = x := by
  have hne : y ≠ r := fun heq => hr.ne_forward (heq ▸ hforward)
  exact Shape.forward.inj ((hd y hy hyr hne).symm.trans hforward)

/-- One more field of `y` counts if the record of `x`, as far as it still is one, covers it. -/
theorem Unites.add (h : Unites a (a.pending y done) b) (hy : a.IsRecord y)
    (hforward : b.get y = .forward x)
    (hnew : b.IsRecord x → Direct a b x → ∃ t, b.HasField x name t ∧ b.Covers s t) :
    Unites a (a.pending y (done ++ [(name, s)])) b := by
  intro r hr hd
  have hunited := h r hr hd
  refine ⟨fun ht => ?_, fun hir hs => ?_⟩
  · obtain ⟨i, u, hir, hu⟩ := hunited.names ht
    exact ⟨i, u, hir, pending_append.mpr (.inl hu)⟩
  · rcases pending_append.mp hs with hs | ⟨rfl, rfl, rfl⟩
    · exact hunited.covers hir hs
    · cases hd.eq_target hr hy hforward hir
      exact hnew hr hd

section

variable {fields : OrderedMap String ShapeId} {origins : List NodeId}

theorem get_insertField (hx : b.get x = .record fields origins) :
    (b.insertField x name t).get i =
      if i = x then .record (fields.insert name t) origins else b.get i := by
  have hlt : x < b.shapes.size := lt_size_of_isCompound (by rw [hx]; rfl)
  simp only [insertField, hx, get_set, hlt, and_true]

theorem get_insertField_array (hget : b.get i = .array element origins) :
    (b.insertField x name t).get i = .array element origins := by
  rw [insertField]
  split
  next fields origins' hx =>
    rw [get_set_of_ne]
    · exact hget
    · rintro rfl
      cases hx.symm.trans hget
  next => exact hget

theorem hasField_insertField (hx : b.get x = .record fields origins) {name' : String}
    {u : ShapeId} :
    (b.insertField x name t).HasField i name' u ↔
      if i = x ∧ name' = name then u = t else b.HasField i name' u := by
  by_cases hi : i = x
  · subst hi
    by_cases hname : name' = name
    · simp [HasField, get_insertField hx, hname, eq_comm]
    · simp [HasField, get_insertField hx, OrderedMap.get?_insert, hname, hx]
  · simp [HasField, get_insertField hx, hi]

theorem resolve_insertField (hb : b.Sound) (ht : t < b.shapes.size)
    (hx : b.get x = .record fields origins) (i : ShapeId) :
    (b.insertField x name t).resolve i = b.resolve i := by
  have hkeeps : Keeps b (b.insertField x name t) := hb.insertField name ht
  rw [hkeeps.evolves.resolve hb.grounded hkeeps.sound.grounded]
  refine resolve_of_data ?_
  rw [get_insertField hx]
  split
  · rfl
  · exact hb.grounded.isLink_resolved i

/-- A field of `y` is written to the record of `x`. -/
theorem Unites.insert (h : Unites a (a.pending y done) b) (hb : b.Sound) (hy : a.IsRecord y)
    (hforward : b.get y = .forward x) (hx : b.get x = .record fields origins)
    (ht : t < b.shapes.size) (hs : b.Covers s t)
    (hown : ∀ {own}, fields.get? name = some own → b.Covers own t) :
    Unites a (a.pending y (done ++ [(name, s)])) (b.insertField x name t) := by
  have hkeeps : Keeps b (b.insertField x name t) := hb.insertField name ht
  have hresolve (i : ShapeId) : (b.insertField x name t).resolve i = b.resolve i :=
    resolve_insertField hb ht hx i
  intro r hr hd
  have hdirect : Direct a b r := by
    intro i hi hir hne
    have hget := hd i hi ((hresolve i).trans hir) hne
    rw [get_insertField hx] at hget
    split at hget
    · cases hget
    · exact hget
  have hunited := h r (hkeeps.evolves.isRecord_before hr) hdirect
  have hyx : b.resolve y = x :=
    (hb.resolve_forward hforward).trans (IsRecord.resolve ⟨_, _, hx⟩)
  refine ⟨fun {name' u} hu => ?_, fun {i name' s'} hir hs' => ?_⟩
  · rw [hasField_insertField hx] at hu
    split at hu
    next heq => exact ⟨y, s, by rw [hresolve, hyx, heq.1],
        pending_append.mpr (.inr ⟨rfl, heq.2, rfl⟩)⟩
    next =>
      obtain ⟨i, s', hir, hs'⟩ := hunited.names hu
      exact ⟨i, s', (hresolve i).trans hir, pending_append.mpr (.inl hs')⟩
  · rw [hresolve] at hir
    simp only [hasField_insertField hx]
    rcases pending_append.mp hs' with hs' | ⟨rfl, rfl, rfl⟩
    · obtain ⟨u, hu, hcovers⟩ := hunited.covers hir hs'
      split
      next heq =>
        obtain ⟨_, _, hget, hname⟩ := hu
        rw [heq.1, hx] at hget
        cases hget
        rw [heq.2] at hname
        exact ⟨t, rfl, (hcovers.trans (hown hname)).later hb hkeeps⟩
      next => exact ⟨u, hu, hcovers.later hb hkeeps⟩
    · exact ⟨t, by rw [if_pos ⟨hir.symm.trans hyx, rfl⟩], hs.later hb hkeeps⟩

end

end

/-! ### Arrays -/

/-- Every array leads to an array whose elements cover its own. -/
def CoversElements (a b : Arena) : Prop :=
  ∀ i element origins, a.get i = .array element origins →
    ∃ element' origins', b.resolved i = .array element' origins' ∧ b.Covers element element'

theorem CoversElements.trans (hab : Keeps a b) (hbc : Keeps b c) (h : CoversElements a b)
    (h' : CoversElements b c) : CoversElements a c := by
  intro i element origins hget
  obtain ⟨e, o, hb, hcovers⟩ := h i element origins hget
  obtain ⟨e', o', hc, hcovers'⟩ := h' _ e o hb
  refine ⟨e', o', ?_, (hcovers.later hab.sound hbc).trans hcovers'⟩
  have hlater := hbc.evolves.resolve hab.sound.grounded hbc.sound.grounded
  rw [← hc]
  refine resolved_congr ?_
  rw [hlater i]

/-- Arrays that stay as they are cover themselves. -/
theorem coversElements_of_same (h : ∀ {i element origins}, a.get i = .array element origins →
    b.get i = .array element origins) : CoversElements a b := by
  intro i element origins hget
  have hb := h hget
  refine ⟨element, origins, ?_, .refl b element⟩
  rw [resolved, resolve_of_data (by rw [hb]; rfl), hb]

theorem get_setElement_of_ne (hi : i ≠ x) : (b.setElement x t).get i = b.get i := by
  rcases b.setElement_cases x t with ⟨_, _, _, heq⟩ | ⟨_, heq⟩ <;> rw [heq]
  · exact (get_set_of_ne hi).trans (get_noteElementWidened ..)
  · exact get_noteElementWidened ..

theorem get_setElement_self {origins : List NodeId} (hx : b.get x = .array element origins) :
    (b.setElement x t).get x = .array t origins := by
  rw [setElement_of_array hx]
  exact get_set_self (lt_size_of_isCompound (by rw [get_noteElementWidened, hx]; rfl))

theorem get_setElement_record (hi : b.IsRecord i) : (b.setElement x t).get i = b.get i := by
  by_cases hix : i = x
  · obtain ⟨fields, origins, hget⟩ := hi
    rcases b.setElement_cases x t with ⟨_, _, harray, _⟩ | ⟨_, heq⟩
    · cases hget.symm.trans (hix ▸ harray)
    · rw [heq, get_noteElementWidened]
  · exact get_setElement_of_ne hix

/-- Only the array whose element is set has to cover anew. -/
theorem coversElements_setElement {origins origins' : List NodeId}
    (hx : b.get x = .array element origins)
    (hfinal : (b.setElement x t).resolved x = .array t origins')
    (hcovers : (b.setElement x t).Covers element t) : CoversElements b (b.setElement x t) := by
  intro i e o hget
  by_cases hix : i = x
  · subst hix
    cases hx.symm.trans hget
    exact ⟨t, origins', hfinal, hcovers⟩
  · have hi : (b.setElement x t).get i = .array e o := (get_setElement_of_ne hix).trans hget
    refine ⟨e, o, ?_, .refl _ e⟩
    rw [resolved, resolve_of_data (by rw [hi]; rfl), hi]

/-- `y` was forwarded to `x`, and the element of `x` came to cover the elements of both. -/
theorem coversElements_absorbed (hne : x ≠ y) {e : ShapeId} {origins o : List NodeId}
    (hx : a.get x = .array xElement xOrigins) (hy : a.get y = .array yElement yOrigins)
    (hkeeps : Keeps ((a.set y (.forward x)).set x (.array xElement origins)) b)
    (helements : CoversElements ((a.set y (.forward x)).set x (.array xElement origins)) b)
    (hfinal : b.resolved x = .array e o) (hleft : b.Covers xElement e)
    (hright : b.Covers yElement e) : CoversElements a b := by
  intro i element origins' hget
  by_cases hiy : i = y
  · subst hiy
    cases hy.symm.trans hget
    have hforward := hkeeps.get_absorbed hne (lt_size_of_isCompound (by rw [hy]; rfl))
    refine ⟨e, o, ?_, hright⟩
    rw [← hfinal]
    exact resolved_congr (hkeeps.sound.resolve_forward hforward)
  · by_cases hix : i = x
    · subst hix
      cases hx.symm.trans hget
      exact ⟨e, o, hfinal, hleft⟩
    · refine helements i element origins' ?_
      rw [get_set_of_ne hix, get_set_of_ne hiy, hget]

/-! ### Merging -/

/-- What merging two shapes gives: a shape that covers both, in an arena whose records and arrays
are unions of those before. -/
structure Joins (a : Arena) (u v : ShapeId) (d : ShapeId × Arena) : Prop extends Merges a d where
  left : d.2.Covers u d.1
  right : d.2.Covers v d.1
  unchanged : d.2.same d.1 u = false → d.2 = a
  unites : Unites a a.HasField d.2
  elements : CoversElements a d.2

theorem Keeps.unites_noteFieldWidened (h : Keeps a b) (hy : a.IsRecord y)
    {done : List (String × ShapeId)} (hunites : Unites a (a.pending y done) b)
    (origins : List NodeId) (name : String) :
    Unites a (a.pending y done) (b.noteFieldWidened origins name) := by
  have hnoted : Keeps b (b.noteFieldWidened origins name) := h.sound.noteFieldWidened origins name
  exact Unites.trans (fun _ _ _ => isRecord_of_pending hy) h hnoted hunites
    (hnoted.unites_of_same fun _ => get_noteFieldWidened ..)

section

variable {derive : ShapeId → ShapeId → Arena → ShapeId × Arena}
  (hderive : ∀ {u v : ShapeId} {a : Arena}, a.Sound → u < a.shapes.size → v < a.shapes.size →
    Joins a u v (derive u v a))

include hderive

/-- One field of `y` is merged into the record of `x`. -/
theorem Unites.mergeField {done : List (String × ShapeId)} (h : Unites a (a.pending y done) b)
    (hkeeps : Keeps a b) (hy : a.IsRecord y) (hforward : b.get y = .forward x)
    (hs : s < b.shapes.size) (origins : List NodeId) :
    Unites a (a.pending y (done ++ [(name, s)])) (mergeField derive x origins b name s) := by
  by_cases hx : b.IsRecord x
  · obtain ⟨fields, origins', hget⟩ := hx
    cases hown : fields.get? name with
    | none =>
      have hfield : Arena.mergeField derive x origins b name s =
          b.insertField x name (if b.isFieldForced origins name then unknown else s) := by
        simp only [Arena.mergeField, hget, hown]
      rw [hfield]
      refine h.insert hkeeps.sound hy hforward hget ?_ ?_ fun ho => ?_
      · split
        · exact hkeeps.sound.unknown_lt_size
        · exact hs
      · split
        · exact hkeeps.sound.covers_unknown s
        · exact .refl b s
      · cases hown.symm.trans ho
    | some own =>
      have howns : own < b.shapes.size :=
        hkeeps.sound.inside (by rw [hget]; exact OrderedMap.mem_values hown)
      have hjoins := hderive hkeeps.sound howns hs
      simp only [Arena.mergeField, hget, hown]
      split
      next hsame =>
        -- A merge inside may have changed the field: what it is now covers what it was.
        have hmerged : Unites a (a.pending y done) (derive own s b).2 :=
          Unites.trans (fun _ _ _ => isRecord_of_pending hy) hkeeps hjoins.toKeeps h hjoins.unites
        refine hmerged.add hy (hjoins.evolves.forward hforward) fun hx' hd => ?_
        have hunited := hjoins.unites x hx' fun i hi hir hne =>
          hd i (hkeeps.evolves.isRecord_before hi) hir hne
        obtain ⟨t, ht, hcovers⟩ := hunited.covers hx'.resolve ⟨fields, origins', hget, hown⟩
        have hback : (derive own s b).2.Covers (derive own s b).1 own :=
          .of_resolve (beq_iff_eq.mp hsame).symm
        exact ⟨t, ht, (hjoins.right.trans hback).trans hcovers⟩
      next hnot =>
        have hstill : (derive own s b).2 = b := hjoins.unchanged (Bool.eq_false_iff.mpr hnot)
        have hleft := hjoins.left
        have hright := hjoins.right
        rw [hstill] at hleft hright ⊢
        have hnoted := hkeeps.sound.noteFieldWidened origins name
        refine (hkeeps.unites_noteFieldWidened hy h origins name).insert hnoted.sound hy
          ((get_noteFieldWidened ..).trans hforward) ((get_noteFieldWidened ..).trans hget) ?_
          (hright.later hkeeps.sound hnoted) fun ho => ?_
        · rw [hnoted.evolves.size]
          exact hjoins.lt_size
        · cases hown.symm.trans ho
          exact hleft.later hkeeps.sound hnoted
  · -- The record was forwarded itself, so its fields are not spoken of.
    have hfield : Arena.mergeField derive x origins b name s = b := by
      rw [Arena.mergeField, Arena.insertField]
      cases hget : b.get x with
      | record fields origins' => exact absurd ⟨fields, origins', hget⟩ hx
      | _ => rfl
    rw [hfield]
    exact h.add hy hforward fun hx' => absurd hx' hx

theorem Unites.mergeFields {done : List (String × ShapeId)} (h : Unites a (a.pending y done) b)
    (hkeeps : Keeps a b) (hy : a.IsRecord y) (hforward : b.get y = .forward x)
    (entries : List (String × ShapeId)) (hin : ∀ e ∈ entries, e.2 < b.shapes.size)
    (origins : List NodeId) :
    Unites a (a.pending y (done ++ entries))
      (entries.foldl (fun a e => Arena.mergeField derive x origins a e.1 e.2) b) := by
  induction entries generalizing b done with
  | nil => rwa [List.append_nil]
  | cons e rest ih =>
    have hstep : Keeps b (Arena.mergeField derive x origins b e.1 e.2) :=
      hkeeps.sound.mergeField (fun ha hu hv => (hderive ha hu hv).toMerges) x origins e.1
        (hin e List.mem_cons_self)
    have hfirst : Unites a (a.pending y (done ++ [(e.1, e.2)]))
        (Arena.mergeField derive x origins b e.1 e.2) :=
      h.mergeField hderive hkeeps hy hforward (hin e List.mem_cons_self) origins
    rw [List.append_cons]
    refine ih hfirst (hkeeps.trans hstep) (hstep.evolves.forward hforward) fun e' he' => ?_
    rw [hstep.evolves.size]
    exact hin e' (List.mem_cons_of_mem _ he')

theorem coversElements_mergeField (hb : b.Sound) (hs : s < b.shapes.size) (record : ShapeId)
    (origins : List NodeId) (name : String) :
    CoversElements b (mergeField derive record origins b name s) := by
  simp only [Arena.mergeField]
  split
  next own heq =>
    have howns : own < b.shapes.size := by
      split at heq
      next fields origins' hget => exact hb.inside (by rw [hget]; exact OrderedMap.mem_values heq)
      next => cases heq
    have hjoins := hderive hb howns hs
    split
    · exact hjoins.elements
    · have hnoted := hjoins.sound.noteFieldWidened origins name
      have hinsert : Keeps ((derive own s b).2.noteFieldWidened origins name)
          (((derive own s b).2.noteFieldWidened origins name).insertField record name
            (derive own s b).1) :=
        hnoted.sound.insertField name (by
          rw [hnoted.evolves.size, hjoins.evolves.size]
          exact hjoins.lt_size)
      refine CoversElements.trans hjoins.toKeeps (hnoted.trans hinsert) hjoins.elements ?_
      refine coversElements_of_same fun hget => get_insertField_array ?_
      exact (get_noteFieldWidened ..).trans hget
  next => exact coversElements_of_same fun hget => get_insertField_array hget

theorem coversElements_mergeFields (hb : b.Sound) (entries : List (String × ShapeId))
    (hin : ∀ e ∈ entries, e.2 < b.shapes.size) (record : ShapeId) (origins : List NodeId) :
    CoversElements b (entries.foldl (fun a e => mergeField derive record origins a e.1 e.2) b) := by
  induction entries generalizing b with
  | nil => exact coversElements_of_same fun hget => hget
  | cons e rest ih =>
    have hmerges {u v : ShapeId} {a : Arena} (ha : a.Sound) (hu : u < a.shapes.size)
        (hv : v < a.shapes.size) : Merges a (derive u v a) := (hderive ha hu hv).toMerges
    have hhead := hin e List.mem_cons_self
    have hstep := hb.mergeField hmerges record origins e.1 hhead
    have hrest : ∀ e' ∈ rest,
        e'.2 < (mergeField derive record origins b e.1 e.2).shapes.size := by
      intro e' he'
      rw [hstep.evolves.size]
      exact hin e' (List.mem_cons_of_mem _ he')
    exact CoversElements.trans hstep (hstep.sound.mergeFields hmerges record origins rest hrest)
      (coversElements_mergeField hderive hb hhead record origins e.1) (ih hstep.sound hrest)

end

/-- `y` is forwarded to `x` before any of its fields is merged. -/
theorem Sound.unites_absorb (h : a.Sound) (hne : x ≠ y) {origins : List NodeId}
    (hx : a.get x = .record xFields xOrigins) (hy : a.get y = .record yFields yOrigins) :
    Unites a (a.pending y []) ((a.set y (.forward x)).set x (.record xFields origins)) := by
  have hkeeps : Keeps a ((a.set y (.forward x)).set x (.record xFields origins)) :=
    h.absorbRecord hne hx hy
  have hget {i : ShapeId} (hi : i ≠ y) : ((a.set y (.forward x)).set x (.record xFields origins)).get i =
      if i = x then .record xFields origins else a.get i := by
    have hlt : x < (a.set y (.forward x)).shapes.size := by
      rw [size_set]
      exact lt_size_of_isCompound (by rw [hx]; rfl)
    rw [get_set, get_set_of_ne hi]
    simp only [hlt, and_true]
  have hfield {i : ShapeId} {name : String} {s : ShapeId} (hi : i ≠ y) :
      ((a.set y (.forward x)).set x (.record xFields origins)).HasField i name s ↔
        a.HasField i name s := by
    by_cases hix : i = x
    · subst hix
      simp [HasField, hget hi, hx]
    · simp [HasField, hget hi, hix]
  have hforward : ((a.set y (.forward x)).set x (.record xFields origins)).get y = .forward x :=
    hkeeps.sound.keeps.get_absorbed hne (lt_size_of_isCompound (by rw [hy]; rfl))
  intro r hr _
  have hry : r ≠ y := by
    intro heq
    rw [heq] at hr
    exact hr.ne_forward hforward
  refine ⟨fun {name t} ht => ⟨r, t, hr.resolve, ?_⟩, fun {i name s} hir hs => ?_⟩
  · rw [pending, if_neg hry]
    exact (hfield hry).mp ht
  · rw [pending] at hs
    split at hs
    · cases hs
    next hi =>
      have hs := (hfield hi).mpr hs
      rw [hs.isRecord.resolve] at hir
      exact ⟨s, hir ▸ hs, .refl _ s⟩

/-- All fields of `y` were merged. -/
theorem Unites.of_pending (hy : a.get y = .record yFields yOrigins)
    (h : Unites a (a.pending y yFields.entries) b) :
    Unites a a.HasField b := by
  intro r hr hd
  have hunited := h r hr hd
  refine ⟨fun {name t} ht => ?_, fun {i name s} hir hs => hunited.covers hir ?_⟩
  · obtain ⟨i, s, hir, hs⟩ := hunited.names ht
    rw [pending] at hs
    split at hs
    next heq =>
      subst heq
      cases hname : yFields.get? name with
      | some s' => exact ⟨i, s', hir, yFields, yOrigins, hy, hname⟩
      | none => exact absurd rfl (OrderedMap.lookup_eq_none.mp hname (name, s) hs)
    next => exact ⟨i, s, hir, hs⟩
  · rw [pending]
    split
    next heq =>
      obtain ⟨fields, origins, hget, hname⟩ := hs
      rw [heq, hy] at hget
      cases hget
      exact OrderedMap.mem_of_lookup hname
    next => exact hs

section

variable {derive : ShapeId → ShapeId → Arena → ShapeId × Arena}
  (hderive : ∀ {u v : ShapeId} {a : Arena}, a.Sound → u < a.shapes.size → v < a.shapes.size →
    Joins a u v (derive u v a))

include hderive

theorem Sound.unites_mergeRecords (h : a.Sound) (hne : x ≠ y)
    (hx : a.get x = .record xFields xOrigins) (hy : a.get y = .record yFields yOrigins) :
    Unites a a.HasField (Arena.mergeRecords derive x y xFields yFields xOrigins yOrigins a).2 := by
  have hkeeps : Keeps a ((a.set y (.forward x)).set x (.record xFields (xOrigins ++ yOrigins))) :=
    h.absorbRecord hne hx hy
  have hforward := hkeeps.sound.keeps.get_absorbed hne (lt_size_of_isCompound (by rw [hy]; rfl))
  refine Unites.of_pending hy ((h.unites_absorb hne hx hy).mergeFields hderive hkeeps
    ⟨_, _, hy⟩ hforward yFields.entries (fun e he => ?_) _)
  rw [hkeeps.evolves.size]
  exact h.inside (by rw [hy]; exact List.mem_map_of_mem he)

theorem Sound.elements_mergeRecords (h : a.Sound) (hne : x ≠ y)
    (hx : a.get x = .record xFields xOrigins) (hy : a.get y = .record yFields yOrigins) :
    CoversElements a (Arena.mergeRecords derive x y xFields yFields xOrigins yOrigins a).2 := by
  have hkeeps : Keeps a ((a.set y (.forward x)).set x (.record xFields (xOrigins ++ yOrigins))) :=
    h.absorbRecord hne hx hy
  refine CoversElements.trans hkeeps
    (h.fillRecord (fun ha hu hv => (hderive ha hu hv).toMerges) hne hx hy) ?_
    (coversElements_mergeFields hderive hkeeps.sound yFields.entries (fun e he => ?_) x _)
  · refine coversElements_of_same fun {i element origins} hget => ?_
    have hix : i ≠ x := by
      rintro rfl
      cases hx.symm.trans hget
    have hiy : i ≠ y := by
      rintro rfl
      cases hy.symm.trans hget
    rw [get_set_of_ne hix, get_set_of_ne hiy, hget]
  · rw [hkeeps.evolves.size]
    exact h.inside (by rw [hy]; exact List.mem_map_of_mem he)

theorem Sound.unites_mergeArrays (h : a.Sound) (hne : x ≠ y)
    (hx : a.get x = .array xElement xOrigins) (hy : a.get y = .array yElement yOrigins) :
    Unites a a.HasField
      (Arena.mergeArrays derive x y xElement yElement xOrigins yOrigins a).2 := by
  let start := (a.set y (.forward x)).set x (.array xElement (xOrigins ++ yOrigins))
  have hkeeps : Keeps a start := h.absorbArray hne hx hy
  have hstart : Unites a a.HasField start := by
    refine hkeeps.unites_of_same fun {i} hi => ?_
    obtain ⟨_, _, hget⟩ := hi
    have hix : i ≠ x := by
      rintro rfl
      cases hx.symm.trans hget
    have hiy : i ≠ y := by
      rintro rfl
      cases hy.symm.trans hget
    exact (get_set_of_ne hix).trans (get_set_of_ne hiy)
  have hjoins : Joins start xElement yElement (derive xElement yElement start) :=
    hderive hkeeps.sound (hkeeps.evolves.size ▸ h.element_lt_size hx)
      (hkeeps.evolves.size ▸ h.element_lt_size hy)
  have hmerged : Unites a a.HasField (derive xElement yElement start).2 :=
    Unites.trans (fun _ _ _ => HasField.isRecord) hkeeps hjoins.toKeeps hstart hjoins.unites
  simp only [Arena.mergeArrays]
  split
  · exact hmerged
  · have hset : Keeps (derive xElement yElement start).2
        ((derive xElement yElement start).2.setElement x (derive xElement yElement start).1) :=
      hjoins.sound.setElement (hjoins.evolves.size ▸ hjoins.lt_size)
    exact Unites.trans (fun _ _ _ => HasField.isRecord) (hkeeps.trans hjoins.toKeeps) hset hmerged
      (hset.unites_of_same get_setElement_record)

theorem Sound.elements_mergeArrays (h : a.Sound) (hne : x ≠ y)
    (hx : a.get x = .array xElement xOrigins) (hy : a.get y = .array yElement yOrigins) :
    CoversElements a (Arena.mergeArrays derive x y xElement yElement xOrigins yOrigins a).2 := by
  let start := (a.set y (.forward x)).set x (.array xElement (xOrigins ++ yOrigins))
  have hkeeps : Keeps a start := h.absorbArray hne hx hy
  have hjoins : Joins start xElement yElement (derive xElement yElement start) :=
    hderive hkeeps.sound (hkeeps.evolves.size ▸ h.element_lt_size hx)
      (hkeeps.evolves.size ▸ h.element_lt_size hy)
  have hgetx : start.get x = .array xElement (xOrigins ++ yOrigins) := by
    refine get_set_self ?_
    rw [size_set]
    exact lt_size_of_isCompound (by rw [hx]; rfl)
  simp only [Arena.mergeArrays]
  split
  next hsame =>
    -- The element of `x` may have changed inside; it covers what it was, and so both elements.
    have hback : (derive xElement yElement start).2.Covers (derive xElement yElement start).1
        xElement := .of_resolve (beq_iff_eq.mp hsame).symm
    obtain ⟨e, o, hresolved, hcovers⟩ := hjoins.elements x _ _ hgetx
    exact coversElements_absorbed hne hx hy hjoins.toKeeps hjoins.elements hresolved hcovers
      ((hjoins.right.trans hback).trans hcovers)
  next hnot =>
    have hstill : (derive xElement yElement start).2 = start :=
      hjoins.unchanged (Bool.eq_false_iff.mpr hnot)
    have hset : Keeps start (start.setElement x (derive xElement yElement start).1) :=
      hkeeps.sound.setElement hjoins.lt_size
    have hfinal : (start.setElement x (derive xElement yElement start).1).resolved x =
        .array (derive xElement yElement start).1 (xOrigins ++ yOrigins) := by
      have hget := get_setElement_self (t := (derive xElement yElement start).1) hgetx
      rw [resolved, resolve_of_data (by rw [hget]; rfl), hget]
    have hleft := hjoins.left
    have hright := hjoins.right
    rw [hstill] at hleft hright
    have hleft := hleft.later hkeeps.sound hset
    have hright := hright.later hkeeps.sound hset
    have helements : CoversElements start
        (start.setElement x (derive xElement yElement start).1) :=
      coversElements_setElement hgetx hfinal hleft
    have hall := coversElements_absorbed hne hx hy hset helements hfinal hleft hright
    exact (congrArg (fun d : Arena => CoversElements a
      (d.setElement x (derive xElement yElement start).1)) hstill).mpr hall

end

/-- Merging joins, whatever its budget. -/
theorem Sound.joins (h : a.Sound) (budget : Nat) (hx : x < a.shapes.size)
    (hy : y < a.shapes.size) : Joins a x y (Arena.deriveWith budget x y a) := by
  induction budget generalizing a x y with
  | zero =>
    exact ⟨h.deriveWith 0 hx hy, h.covers_unknown x, h.covers_unknown y, fun _ => rfl,
      h.unites_refl, coversElements_of_same fun hget => hget⟩
  | succ budget ih =>
    have hcovers := h.deriveWith_covers (x := x) (budget + 1) hy
    refine ⟨h.deriveWith _ hx hy, hcovers.1, hcovers.2,
      h.deriveWith_unchanged _ hx hy, ?_, ?_⟩
    · exact deriveWith_cases (P := fun d => Unites a a.HasField d.2) (fun _ _ => h.unites_refl)
        (fun hne hgx hgy _ => h.unites_mergeRecords ih hne hgx hgy)
        fun hne hgx hgy _ => h.unites_mergeArrays ih hne hgx hgy
    · exact deriveWith_cases (P := fun d => CoversElements a d.2)
        (fun _ _ => coversElements_of_same fun hget => hget)
        (fun hne hgx hgy _ => h.elements_mergeRecords ih hne hgx hgy)
        fun hne hgx hgy _ => h.elements_mergeArrays ih hne hgx hgy

end HostScript.Arena
