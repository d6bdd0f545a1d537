import HostScript.Proofs.Analysis.Termination
import HostScript.Proofs.Analysis.Tracing
import HostScript.Proofs.Script.Numbering

/-!
# Repeated passes make progress

A pass that widens a location after it was read forces that location, and the next pass starts with
it unknown. A location that is forced from the start is never widened again, because an unknown
shape stays unknown. So every pass that is unstable forces a location that was not forced before.
All of them are locations of the script, of which there are finitely many.
-/

namespace HostScript

variable {start : Widening}

/-- A place of a script whose shape may be forced to be unknown. -/
inductive Location where
  /-- A variable or parameter. -/
  | declaration (node : NodeId)
  /-- A field of the records that a literal makes. -/
  | field (literal : NodeId) (name : String)
  /-- The elements of the arrays that a literal makes. -/
  | element (literal : NodeId)
deriving DecidableEq

def Widening.Forces (w : Widening) : Location → Prop
  | .declaration node => node ∈ w.declarations
  | .field literal name => (literal, name) ∈ w.fields
  | .element literal => literal ∈ w.elements

instance (w : Widening) : DecidablePred w.Forces
  | .declaration node => inferInstanceAs (Decidable (node ∈ w.declarations))
  | .field literal name => inferInstanceAs (Decidable ((literal, name) ∈ w.fields))
  | .element literal => inferInstanceAs (Decidable (literal ∈ w.elements))

/-- The locations of the records or arrays that a piece of a script makes. -/
def Piece.locations (names : List String) : Piece → List Location
  | .expr (.object n _) => names.map (.field n.id)
  | .expr (.array n _) => [.element n.id]
  | _ => []

/-- The locations of a script: its variables and parameters, the pairs of a record literal and the
name of a field that the script writes, and its array literals. -/
def Script.locations (script : Script) : Finset Location :=
  (script.stored.map Location.declaration ++
    script.pieces.flatMap (Piece.locations script.fieldNames)).toFinset

namespace Script

variable {script : Script}

theorem declaration_mem_locations {node : NodeId} (h : node ∈ script.stored) :
    .declaration node ∈ script.locations :=
  List.mem_toFinset.mpr (List.mem_append_left _ (List.mem_map_of_mem h))

theorem field_mem_locations {n : Node} {props : List Property}
    (h : .expr (.object n props) ∈ script.pieces) {name : String}
    (hname : name ∈ script.fieldNames) :
    .field n.id name ∈ script.locations :=
  List.mem_toFinset.mpr (List.mem_append_right _
    (List.mem_flatMap.mpr ⟨_, h, List.mem_map_of_mem hname⟩))

theorem element_mem_locations {n : Node} {items : List Expr}
    (h : .expr (.array n items) ∈ script.pieces) : .element n.id ∈ script.locations :=
  List.mem_toFinset.mpr (List.mem_append_right _
    (List.mem_flatMap.mpr ⟨_, h, List.mem_singleton_self _⟩))

end Script

/-! ### What a change forces -/

/-- An edit forces nothing, or it widens a field or an element that was known and forces it for
literals that may have made the record or array. -/
theorem Arena.Edits.forces {N : String → Prop} {a b : Arena} (h : a.Edits N b) :
    b.widening = a.widening ∧ b.unstable = a.unstable ∨
    ∃ new : List Location, (∀ l, b.widening.Forces l ↔ a.widening.Forces l ∨ l ∈ new) ∧
      ((∃ i fields origins asked name old, a.get i = .record fields origins ∧
          fields.get? name = some old ∧ old ≠ Arena.unknown ∧ asked <+: origins ∧ asked ≠ [] ∧
          new = asked.map (.field · name)) ∨
        ∃ i old origins, a.get i = .array old origins ∧ old ≠ Arena.unknown ∧
          new = origins.map .element) := by
  cases h with
  | absorbRecord _ _ _ _ _ | absorbArray _ _ _ _ _ => exact .inl ⟨rfl, rfl⟩
  | addField t hx _ _ _ _ _ =>
    rw [insertField_of_record hx]
    exact .inl ⟨rfl, rfl⟩
  | @widenField i old fields origins asked name t hi hold hne _ hlead hasked =>
    rw [insertField_of_record ((get_noteFieldWidened ..).trans hi), noteFieldWidened]
    by_cases hread : a.fieldWasRead asked name = true
    · refine .inr ⟨asked.map (.field · name), fun l => ?_,
        .inl ⟨i, fields, origins, asked, name, old, hi, hold, hne, hlead, hasked, rfl⟩⟩
      rw [if_pos hread]
      show Widening.Forces { a.widening with fields := _ } l ↔ _
      cases l with
      | field literal other =>
        simp only [Widening.Forces, mem_foldl_insert, List.mem_map, Location.field.injEq,
          Prod.mk.injEq]
      | declaration node | element literal => simp [Widening.Forces]
    · rw [if_neg hread]
      exact .inl ⟨rfl, rfl⟩
  | @widenElement i old origins t hi hne _ =>
    rw [setElement_of_array hi, noteElementWidened]
    by_cases hread : origins.any a.elementReads.contains = true
    · refine .inr ⟨origins.map .element, fun l => ?_, .inr ⟨i, old, origins, hi, hne, rfl⟩⟩
      rw [if_pos hread]
      show Widening.Forces { a.widening with elements := _ } l ↔ _
      cases l with
      | element literal =>
        simp only [Widening.Forces, mem_foldl_insert, List.mem_map, Location.element.injEq]
      | declaration node | field literal name => simp [Widening.Forces]
    · rw [if_neg hread]
      exact .inl ⟨rfl, rfl⟩

/-- A known field of a record was known before an edit, or it is not forced. -/
theorem Arena.Edits.field_before {N : String → Prop} {a b : Arena} (h : a.Edits N b)
    (hrooted : a.Rooted) {i x : ShapeId} {fields : OrderedMap String ShapeId}
    {origins : List NodeId}
    {literal : NodeId} {name : String} (hi : b.get i = .record fields origins)
    (hfirst : origins.head? = some literal) (hx : fields.get? name = some x)
    (hne : x ≠ Arena.unknown) :
    (∃ fields' origins' x', a.get i = .record fields' origins' ∧ origins'.head? = some literal ∧
      fields'.get? name = some x' ∧ x' ≠ Arena.unknown) ∨ (literal, name) ∉ a.widening.fields := by
  rcases h.record_cases hi with ha | ⟨_, own, _, absorbed, ha, _, rfl⟩ |
    ⟨before, written, t, ha, rfl, hwritten⟩
  · exact .inl ⟨fields, origins, x, ha, hfirst, hx, hne⟩
  · obtain ⟨first, hown⟩ := hrooted.record ha
    rw [List.head?_append, hown] at hfirst
    exact .inl ⟨fields, own, x, ha, hown.trans hfirst, hx, hne⟩
  · by_cases hname : name = written
    · subst hname
      rw [OrderedMap.get?_insert_self] at hx
      cases hx
      rcases hwritten with ⟨old, hold, hknown⟩ | ⟨_, asked, hlead, hasked, hforced⟩
      · exact .inl ⟨before, origins, old, ha, hfirst, hold, hknown⟩
      · refine .inr fun hmem => hne (hforced ?_)
        rw [head?_eq_of_leading hlead hasked] at hfirst
        exact List.any_eq_true.mpr
          ⟨literal, List.mem_of_head? hfirst, List.contains_iff_mem.mpr hmem⟩
    · rw [OrderedMap.get?_insert_of_ne _ _ hname] at hx
      exact .inl ⟨before, origins, x, ha, hfirst, hx, hne⟩

/-- A known element of an array was known before an edit. -/
theorem Arena.Edits.element_before {N : String → Prop} {a b : Arena} (h : a.Edits N b)
    (hrooted : a.Rooted) {i x : ShapeId} {origins : List NodeId} {literal : NodeId}
    (hi : b.get i = .array x origins) (hfirst : origins.head? = some literal)
    (hne : x ≠ Arena.unknown) :
    ∃ origins' x', a.get i = .array x' origins' ∧ origins'.head? = some literal ∧
      x' ≠ Arena.unknown := by
  rcases h.array_cases hi with ha | ⟨_, own, _, absorbed, ha, _, rfl⟩ | ⟨old, ha, hknown⟩
  · exact ⟨origins, x, ha, hfirst, hne⟩
  · obtain ⟨first, hown⟩ := hrooted.array ha
    rw [List.head?_append, hown] at hfirst
    exact ⟨own, x, ha, hown.trans hfirst, hne⟩
  · exact ⟨origins, old, ha, hfirst, hknown⟩

namespace Analysis

variable {ctx : Context} {bound : Nat} {s s' : State} {b : Arena} {i : ShapeId} {l : Location}

/-- The shape of a location is known somewhere. Records and arrays count for the first of the
literals that may have made them. -/
def State.Knows (ctx : Context) (s : State) : Location → Prop
  | .declaration node => ctx.Keeps node ∧
    ∃ layer x, s.layers.get? layer node = some x ∧ x ≠ Arena.unknown
  | .field literal name => ∃ i fields origins x, s.arena.get i = .record fields origins ∧
    origins.head? = some literal ∧ fields.get? name = some x ∧ x ≠ Arena.unknown
  | .element literal => ∃ i x origins, s.arena.get i = .array x origins ∧
    origins.head? = some literal ∧ x ≠ Arena.unknown

/-- All records and arrays are made by literals of the script. -/
structure State.Located (ctx : Context) (s : State) : Prop where
  record : ∀ {i fields origins}, s.arena.get i = .record fields origins → ∀ o ∈ origins,
    ∀ name, ctx.Names name → .field o name ∈ ctx.script.locations
  array : ∀ {i x origins}, s.arena.get i = .array x origins → ∀ o ∈ origins,
    .element o ∈ ctx.script.locations
  named : ∀ {i fields origins}, s.arena.get i = .record fields origins →
    ∀ name ∈ fields.keys, ctx.Names name

theorem State.Alters.forces (h : s.Alters ctx bound b) :
    b.widening = s.arena.widening ∧ b.unstable = s.arena.unstable ∨ s.arena.Edits ctx.Names b := by
  have hmodify (method : ShapeId) (f : LambdaShape → LambdaShape) :
      (s.arena.modifyLambda method f).widening = s.arena.widening ∧
        (s.arena.modifyLambda method f).unstable = s.arena.unstable := by
    rw [Arena.modifyLambda]
    split <;> exact ⟨rfl, rfl⟩
  cases h with
  | edits he => exact .inr he
  | host id =>
    rw [Arena.host]
    split <;> exact .inl ⟨rfl, rfl⟩
  | scope _ _ | signature _ | generic _ => exact .inl (hmodify _ _)
  | _ => exact .inl ⟨rfl, rfl⟩

/-- A change forces nothing, or it forces locations of the script, of which one was known. -/
theorem Change.forces (h : Change ctx bound s s') (hrooted : s.arena.Rooted) (hl : s.Located ctx) :
    s'.arena.widening = s.arena.widening ∧ s'.arena.unstable = s.arena.unstable ∨
    ∃ new : List Location,
      (∀ l, s'.arena.widening.Forces l ↔ s.arena.widening.Forces l ∨ l ∈ new) ∧
      (∀ l ∈ new, l ∈ ctx.script.locations) ∧ ∃ l ∈ new, s.Knows ctx l := by
  cases h with
  | aside _ _ _ hw hu _ _ => exact .inl ⟨hw, hu⟩
  | record _ _ _ | declare _ _ _ | newLayer => exact .inl ⟨rfl, rfl⟩
  | alters ha =>
    rcases ha.forces with hsame | he
    · exact .inl hsame
    rcases he.forces with hsame | ⟨new, hnew, hwhere⟩
    · exact .inl hsame
    refine .inr ⟨new, hnew, ?_⟩
    rcases hwhere with ⟨i, fields, origins, asked, name, old, hi, hold, hne, hlead, hasked, rfl⟩ |
      ⟨i, old, origins, hi, hne, rfl⟩
    · obtain ⟨first, hfirst⟩ := hrooted.record hi
      have hhead : asked.head? = some first :=
        (Arena.head?_eq_of_leading hlead hasked).symm.trans hfirst
      refine ⟨fun l hmem => ?_, .field first name, ?_, i, fields, origins, old, hi, hfirst, hold,
        hne⟩
      · obtain ⟨o, ho, rfl⟩ := List.mem_map.mp hmem
        exact hl.record hi o (hlead.subset ho) name
          (hl.named hi name (Arena.mem_keys_of_get? hold))
      · exact List.mem_map_of_mem (List.mem_of_head? hhead)
    · obtain ⟨first, hfirst⟩ := hrooted.array hi
      refine ⟨fun l hmem => ?_, .element first, ?_, i, old, origins, hi, hfirst, hne⟩
      · obtain ⟨o, ho, rfl⟩ := List.mem_map.mp hmem
        exact hl.array hi o ho
      · exact List.mem_map_of_mem (List.mem_of_head? hfirst)
  | @widen symbol x old hkeeps _ hold hne =>
    rw [State.widen]
    dsimp only
    split
    · split
      · obtain ⟨layer, _, hget⟩ := shape?_eq_some hold
        refine .inr ⟨[.declaration symbol.node], fun l => ?_, fun l hmem => ?_, _,
          List.mem_singleton_self _, hkeeps, layer, old, hget, hne⟩
        · cases l with
          | declaration node =>
            simp only [Arena.forceDeclaration, Widening.Forces, List.mem_insert_iff,
              List.mem_singleton, Location.declaration.injEq]
            exact or_comm
          | field literal name | element literal => simp [Arena.forceDeclaration, Widening.Forces]
        · rw [List.mem_singleton.mp hmem]
          exact Script.declaration_mem_locations hkeeps
      · exact .inl ⟨rfl, rfl⟩
    · exact .inl ⟨rfl, rfl⟩

/-! ### What a change makes known -/

/-- A record or array that a change of the arena brings was there or edited, or it is a new one in
which what is forced is unknown. -/
theorem State.Alters.compound (h : s.Alters ctx bound b) (hc : (b.get i).isCompound = true) :
    b.get i = s.arena.get i ∨ s.arena.Edits ctx.Names b ∨
    (∃ n props given, .expr (.object n props) ∈ ctx.script.pieces ∧
      b.get i = .record (OrderedMap.mapValues (fun name shape =>
        if s.arena.widening.fields.contains (n.id, name) then Arena.unknown else shape) given)
          [n.id]) ∨
    ∃ n items x, .expr (.array n items) ∈ ctx.script.pieces ∧
      b.get i = .array (if s.arena.widening.elements.contains n.id then Arena.unknown else x)
        [n.id] := by
  have hpush {shape : Shape} : (s.arena.push shape).2.get i = s.arena.get i ∨
      (s.arena.push shape).2.get i = shape := by
    rw [Arena.get_push]
    split
    · exact .inr rfl
    · exact .inl rfl
  have hmodify (method : ShapeId) (f : LambdaShape → LambdaShape)
      (hc : ((s.arena.modifyLambda method f).get i).isCompound = true) :
      (s.arena.modifyLambda method f).get i = s.arena.get i := by
    rcases get_modifyLambda_cases s.arena method i f with heq | ⟨_, _, _, hnew⟩
    · exact heq
    · rw [hnew] at hc
      cases hc
  have hplain {shape : Shape} (hshape : shape.isCompound = false)
      (hc : ((s.arena.push shape).2.get i).isCompound = true) :
      (s.arena.push shape).2.get i = s.arena.get i := by
    rcases hpush with heq | heq
    · exact heq
    · rw [heq, hshape] at hc
      cases hc
  cases h with
  | edits he => exact .inr (.inl he)
  | host id =>
    rcases get_host s.arena id i with heq | ⟨_, hnew⟩
    · exact .inl heq
    · rw [hnew] at hc
      cases hc
  | hostMethod _ | newLambda _ _ _ _ _ | newCall _ => exact .inl (hplain rfl hc)
  | @newRecord n props fields hmem _ =>
    exact hpush.imp id fun heq => .inr (.inl ⟨n, props, fields, hmem, heq⟩)
  | @newArray n items x hmem =>
    exact hpush.imp id fun heq => .inr (.inr ⟨n, items, x, hmem, heq⟩)
  | scope _ _ | signature _ | generic _ => exact .inl (hmodify _ _ hc)

theorem Change.knows_declaration (h : Change ctx bound s s') (hids : ctx.script.ids.Nodup)
    {node : NodeId} (hl : s'.Knows ctx (.declaration node)) :
    s.Knows ctx (.declaration node) ∨ node ∉ s.arena.widening.declarations := by
  obtain ⟨hkeeps, layer, x, hx, hne⟩ := hl
  have hset {n : NodeId} {y : ShapeId} {found : Option LayerId × Layers}
      (hfound : s.layers.set? s.stack n y = some found) (hx : found.2.get? layer node = some x) :
      s.layers.get? layer node = some x ∨ node = n ∧ x = y := by
    rcases Layers.set?_eq_some hfound with ⟨heq, _⟩ | ⟨top, _, _, heq⟩
    · exact .inl (heq ▸ hx)
    · rw [heq, Layers.get?_put] at hx
      split at hx
      next hat => exact .inr ⟨hat.2.2, (Option.some.inj hx).symm⟩
      next => exact .inl hx
  cases h with
  | aside _ _ _ _ _ hlayers _ => exact .inl ⟨hkeeps, layer, x, hlayers ▸ hx, hne⟩
  | alters _ => exact .inl ⟨hkeeps, layer, x, hx, hne⟩
  | record hmem _ hfound =>
    rcases hset hfound hx with hold | ⟨rfl, _⟩
    · exact .inl ⟨hkeeps, layer, x, hold, hne⟩
    · exact absurd hkeeps (Script.not_stored hids hmem)
  | declare _ _ hfound =>
    rcases hset hfound hx with hold | ⟨rfl, rfl⟩
    · exact .inl ⟨hkeeps, layer, x, hold, hne⟩
    · refine .inr fun hmem => hne ?_
      rw [State.declaredShape, Arena.isDeclarationForced, List.contains_iff_mem.mpr hmem,
        if_pos rfl]
  | widen _ _ hold hknown =>
    rcases Change.widen_layers hold with heq | ⟨found, _, hbefore, _, heq⟩
    · exact .inl ⟨hkeeps, layer, x, heq ▸ hx, hne⟩
    · rw [heq, Layers.get?_put] at hx
      split at hx
      next hat => exact .inl ⟨hkeeps, found, _, hat.2.2 ▸ hbefore, hknown⟩
      next => exact .inl ⟨hkeeps, layer, x, hx, hne⟩
  | newLayer => exact .inl ⟨hkeeps, layer, x, (Layers.get?_newLayer ..).symm.trans hx, hne⟩

/-- What a change makes known is not forced. -/
theorem Change.knows (h : Change ctx bound s s') (hrooted : s.arena.Rooted)
    (hids : ctx.script.ids.Nodup) (hl : s'.Knows ctx l) :
    s.Knows ctx l ∨ ¬ s.arena.widening.Forces l := by
  cases l with
  | declaration node => exact h.knows_declaration hids hl
  | field literal name =>
    obtain ⟨i, fields, origins, x, hi, hfirst, hx, hne⟩ := hl
    rcases h.arena with ha | ⟨hshapes, _⟩
    · rcases ha.compound (i := i) (by rw [hi]; rfl) with heq | he | ⟨n, _, given, _, hnew⟩ |
        ⟨_, _, _, _, hnew⟩
      · exact .inl ⟨i, fields, origins, x, heq.symm.trans hi, hfirst, hx, hne⟩
      · exact (he.field_before hrooted hi hfirst hx hne).imp_left fun hbefore => ⟨i, hbefore⟩
      · cases hi.symm.trans hnew
        cases hfirst
        rw [OrderedMap.get?_mapValues] at hx
        obtain ⟨t, _, rfl⟩ := Option.map_eq_some_iff.mp hx
        exact .inr fun hmem => hne (if_pos (List.contains_iff_mem.mpr hmem))
      · cases hi.symm.trans hnew
    · exact .inl ⟨i, fields, origins, x, (Arena.get_of_shapes hshapes i).symm.trans hi, hfirst, hx,
        hne⟩
  | element literal =>
    obtain ⟨i, x, origins, hi, hfirst, hne⟩ := hl
    rcases h.arena with ha | ⟨hshapes, _⟩
    · rcases ha.compound (i := i) (by rw [hi]; rfl) with heq | he | ⟨_, _, _, _, hnew⟩ |
        ⟨n, _, x', _, hnew⟩
      · exact .inl ⟨i, x, origins, heq.symm.trans hi, hfirst, hne⟩
      · obtain ⟨origins', x', hbefore⟩ := he.element_before hrooted hi hfirst hne
        exact .inl ⟨i, x', origins', hbefore⟩
      · cases hi.symm.trans hnew
      · cases hi.symm.trans hnew
        cases hfirst
        exact .inr fun hmem => hne (if_pos (List.contains_iff_mem.mpr hmem))
    · exact .inl ⟨i, x, origins, (Arena.get_of_shapes hshapes i).symm.trans hi, hfirst, hne⟩

theorem State.Located.change (h : s.Located ctx) (hc : Change ctx bound s s') : s'.Located ctx where
  named := (hc.slot _).named h.named
  record {i fields origins} hi o ho := by
    cases hc.slot i with
    | same heq => exact h.record (heq.symm.trans hi) o ho
    | edits he =>
      rcases he.record_cases hi with ha | ⟨_, _, _, _, hown, hother, rfl⟩ | ⟨_, _, _, ha, _⟩
      · exact h.record ha o ho
      · rcases List.mem_append.mp ho with ho | ho
        · exact h.record hown o ho
        · exact h.record hother o ho
      · exact h.record ha o ho
    | new _ hnew =>
      rw [hi] at hnew
      cases hnew with
      | record hmem _ =>
        rw [List.mem_singleton.mp ho]
        exact fun name hname => Script.field_mem_locations hmem hname
    | lambda _ hl _ => cases hi.symm.trans hl
  array {i x origins} hi o ho := by
    cases hc.slot i with
    | same heq => exact h.array (heq.symm.trans hi) o ho
    | edits he =>
      rcases he.array_cases hi with ha | ⟨_, _, _, _, hown, hother, rfl⟩ | ⟨_, ha, _⟩
      · exact h.array ha o ho
      · rcases List.mem_append.mp ho with ho | ho
        · exact h.array hown o ho
        · exact h.array hother o ho
      · exact h.array ha o ho
    | new _ hnew =>
      rw [hi] at hnew
      cases hnew with
      | array _ hmem =>
        rw [List.mem_singleton.mp ho]
        exact Script.element_mem_locations hmem
    | lambda _ hl _ => cases hi.symm.trans hl

/-! ### One pass -/

/-- What a pass that started with a widening has come to. What was forced at the start is still
unknown, so what is forced on the way is new. -/
structure State.Advances (ctx : Context) (start : Widening) (s : State) : Prop where
  located : s.Located ctx
  unknown : ∀ l, s.Knows ctx l → ¬ start.Forces l
  kept : ∀ l, start.Forces l → s.arena.widening.Forces l
  within : ∀ l, s.arena.widening.Forces l → start.Forces l ∨ l ∈ ctx.script.locations
  grows : s.arena.unstable = true → ∃ l, s.arena.widening.Forces l ∧ ¬ start.Forces l

theorem advances_start (ctx : Context) (start : Widening) :
    (State.start start).Advances ctx start := by
  have hcompound {i : ShapeId} {shape : Shape} (hget : (State.start start).arena.get i = shape) :
      shape.isCompound = false := hget ▸ (get_start start i).1
  refine ⟨⟨fun hi => ?_, fun hi => ?_, fun hi => ?_⟩, fun l hl => ?_, fun l hl => hl,
    fun l hl => .inl hl, fun hunstable => ?_⟩
  · cases hcompound hi
  · cases hcompound hi
  · cases hcompound hi
  · cases l with
    | declaration node =>
      obtain ⟨_, layer, x, hx, _⟩ := hl
      cases (get?_start layer node).symm.trans hx
    | field literal name =>
      obtain ⟨_, _, _, _, hi, _⟩ := hl
      cases hcompound hi
    | element literal =>
      obtain ⟨_, _, _, hi, _⟩ := hl
      cases hcompound hi
  · cases hunstable

theorem State.Advances.change (h : s.Advances ctx start) (ht : s.Tidy) (hids : ctx.script.ids.Nodup)
    (hc : Change ctx bound s s') : s'.Advances ctx start := by
  have hunknown (l : Location) (hl : s'.Knows ctx l) : ¬ start.Forces l := by
    rcases hc.knows ht.tied.rooted hids hl with hold | hnot
    · exact h.unknown l hold
    · exact mt (h.kept l) hnot
  rcases hc.forces ht.tied.rooted h.located with ⟨hsame, hunstable⟩ |
    ⟨new, hnew, hmem, l, hl, hknown⟩
  · exact ⟨h.located.change hc, hunknown, hsame ▸ h.kept, hsame ▸ h.within, by
      rw [hsame, hunstable]
      exact h.grows⟩
  · refine ⟨h.located.change hc, hunknown, fun l hl => ?_, fun l hl => ?_, fun _ => ?_⟩
    · exact (hnew l).mpr (.inl (h.kept l hl))
    · rcases (hnew l).mp hl with hold | hnew
      · exact h.within l hold
      · exact .inr (hmem l hnew)
    · exact ⟨l, (hnew l).mpr (.inr hl), h.unknown l hknown⟩

theorem lasts_advances (hids : ctx.script.ids.Nodup) (start : Widening) :
    Lasts ctx (State.Advances ctx start) where
  change ht hc h := h.change ht hids hc
  bounds _ _ h := ⟨⟨h.located.record, h.located.array, h.located.named⟩, fun
    | .declaration node => h.unknown (.declaration node)
    | .field literal name => h.unknown (.field literal name)
    | .element literal => h.unknown (.element literal), h.kept, h.within, h.grows⟩

theorem pass_advances (hids : ctx.script.ids.Nodup) (budget : Nat) (start : Widening) :
    (pass ctx budget (.start start)).2.Advances ctx start :=
  Tracing.pass_keeps (lasts_advances hids start) budget (advances_start ctx start)

/-! ### Repeated passes -/

/-- The locations of the script that a widening does not force. -/
def Context.free (ctx : Context) (w : Widening) : Finset Location :=
  ctx.script.locations.filter fun l => ¬ w.Forces l

theorem Context.card_free_le (ctx : Context) (w : Widening) :
    (ctx.free w).card ≤ ctx.script.locations.card :=
  Finset.card_filter_le _ _

/-- After an unstable pass, fewer locations are left. -/
theorem card_free_lt (hids : ctx.script.ids.Nodup) {budget : Nat}
    (hunstable : (pass ctx budget (.start start)).2.arena.unstable = true) :
    (ctx.free (pass ctx budget (.start start)).2.arena.widening).card < (ctx.free start).card := by
  have hpass := pass_advances hids budget start
  obtain ⟨l, hforced, hnew⟩ := hpass.grows hunstable
  have hmem : l ∈ ctx.script.locations := (hpass.within l hforced).resolve_left hnew
  apply Finset.card_lt_card
  refine (Finset.ssubset_iff_of_subset fun other hother => ?_).mpr ⟨l, ?_, ?_⟩
  · simp only [Context.free, Finset.mem_filter] at hother ⊢
    exact ⟨hother.1, mt (hpass.kept other) hother.2⟩
  · exact Finset.mem_filter.mpr ⟨hmem, hnew⟩
  · simp [Context.free, hforced]

theorem pass_add {budget : Nat} (h : (pass ctx budget (.start start)).1 = true) (more : Nat) :
    pass ctx (budget + more) (.start start) = pass ctx budget (.start start) := by
  have hdrained : (drain ctx budget (.walked ctx start)).1 = true := h
  rw [pass_run, pass_run, drain_add hdrained]

/-- The pass that starts with one widening comes to an end and is repeated with the other one. -/
def Repeats (ctx : Context) (start next : Widening) : Prop :=
  ∃ budget, (pass ctx budget (.start start)).1 = true ∧
    (pass ctx budget (.start start)).2.arena.unstable = true ∧
    (pass ctx budget (.start start)).2.arena.widening = next

/-- If the passes come to an end, they are repeated at most as often as there are locations left,
and the last one is stable. -/
theorem settle_stable (hids : ctx.script.ids.Nodup)
    (hends : ∀ next, Relation.ReflTransGen (Repeats ctx) start next →
      ∃ budget, (pass ctx budget (.start next)).1 = true) :
    ∃ again ≤ (ctx.free start).card, ∃ budget last,
      Relation.ReflTransGen (Repeats ctx) start last ∧
      (pass ctx budget (.start last)).1 = true ∧
      (pass ctx budget (.start last)).2.arena.unstable = false ∧
      ∀ extra more number, again ≤ more → settle ctx (budget + extra) more number start =
        some (ofState ctx (number + again) (pass ctx budget (.start last)).2) := by
  -- The induction is on the number of locations that are left, which an unstable pass lowers.
  induction hn : (ctx.free start).card using Nat.strong_induction_on generalizing start with
  | _ n ih =>
    subst hn
    obtain ⟨budget, hdrained⟩ := hends start .refl
    by_cases hunstable : (pass ctx budget (.start start)).2.arena.unstable = true
    · have hlt := card_free_lt hids hunstable
      have hrepeats : Repeats ctx start (pass ctx budget (.start start)).2.arena.widening :=
        ⟨budget, hdrained, hunstable, rfl⟩
      obtain ⟨again, hle, budget', last, hreach, hlast, hstable, hsettle⟩ :=
        ih _ hlt (fun next hnext => hends next (.head hrepeats hnext)) rfl
      refine ⟨again + 1, by omega, budget' + budget, last, .head hrepeats hreach, ?_, ?_, ?_⟩
      · rw [pass_add hlast, hlast]
      · rw [pass_add hlast, hstable]
      · intro extra more number hmore
        obtain ⟨more, rfl⟩ : ∃ m, more = m + 1 := ⟨more - 1, by omega⟩
        have hbudget : budget' + budget + extra = budget + (budget' + extra) := by omega
        have hfirst : pass ctx (budget' + budget + extra) (.start start) =
            pass ctx budget (.start start) := by
          rw [hbudget, pass_add hdrained]
        have hrest := hsettle (budget + extra) more (number + 1) (by omega)
        rw [settle_run, hfirst, hdrained, pass_add hlast]
        simp only [Bool.not_true, Bool.false_eq_true, if_false, hunstable, if_true]
        rw [Nat.add_assoc, hrest, Nat.add_assoc, Nat.add_comm 1 again]
    · have hstable := Bool.eq_false_iff.mpr hunstable
      refine ⟨0, Nat.zero_le _, budget, start, .refl, hdrained, hstable,
        fun extra more number _ => ?_⟩
      rw [settle_run, pass_add hdrained, hdrained]
      cases more with
      | zero => rfl
      | succ more => simp [hstable]

/-- A pass keeps all that was forced at its start, and what it forces besides are locations of the
script. If it is unstable, at least one of them is new. So if each pass comes to an end, repeated
passes reach a stable one after at most as many unstable ones as the script has locations, and no
limit above that cuts the analysis short. -/
theorem late_widening_progresses {source : String} (hparse : Engine.parse source = .ok ctx.script) :
    (∀ start budget, let s := (pass ctx budget (.start start)).2
      (∀ l, start.Forces l → s.arena.widening.Forces l) ∧
      (∀ l, s.arena.widening.Forces l → start.Forces l ∨ l ∈ ctx.script.locations) ∧
      (s.arena.unstable = true → ∃ l, s.arena.widening.Forces l ∧ ¬ start.Forces l)) ∧
    ∀ start, (∀ next, Relation.ReflTransGen (Repeats ctx) start next →
        ∃ budget, (pass ctx budget (.start next)).1 = true) →
      ∃ again ≤ ctx.script.locations.card, ∃ budget last,
        Relation.ReflTransGen (Repeats ctx) start last ∧
        (pass ctx budget (.start last)).1 = true ∧
        (pass ctx budget (.start last)).2.arena.unstable = false ∧
        ∀ extra more number, again ≤ more → settle ctx (budget + extra) more number start =
          some (ofState ctx (number + again) (pass ctx budget (.start last)).2) := by
  have hids := Engine.nodup_ids hparse
  constructor
  · intro start budget
    have hpass := pass_advances hids budget start
    exact ⟨hpass.kept, hpass.within, hpass.grows⟩
  · intro start hends
    obtain ⟨again, hle, hlast⟩ := settle_stable hids hends
    exact ⟨again, hle.trans (ctx.card_free_le start), hlast⟩

/-- The first pass of this script is unstable: a field, an element and a variable are read and
widened after that. -/
theorem late_widening_progresses_repeated :
    ∃ script, Engine.parse "var p = { n: 1 }; var a = [1]; var v = 1; print p.n + a[0] + v;
        p.n = true; a.add(true); v = true;" = .ok script ∧
      let ctx : Context :=
        { types := (Engine.new {}).registry, options := {}, input := none, script }
      (pass ctx 0 (.start {})).2.arena.unstable = true ∧ script.locations.card = 5 ∧
        ∃ again ≤ 5, ∃ budget last,
          (pass ctx budget (.start last)).2.arena.unstable = false ∧
          ∀ more, again ≤ more → settle ctx budget more 1 {} =
            some (ofState ctx (1 + again) (pass ctx budget (.start last)).2) := by
  obtain ⟨script, hparse, hcheck⟩ := Engine.exists_parsed
    "var p = { n: 1 }; var a = [1]; var v = 1; print p.n + a[0] + v;
        p.n = true; a.add(true); v = true;" (fun script =>
      let ctx : Context :=
        { types := (Engine.new {}).registry, options := {}, input := none, script }
      (pass ctx 0 (.start {})).2.arena.unstable && decide (script.locations.card = 5) &&
        decide (script.Stratified fun _ => 0)) (by decide +kernel)
  simp only [Bool.and_eq_true, decide_eq_true_eq] at hcheck
  obtain ⟨⟨hunstable, hcard⟩, hstratified⟩ := hcheck
  let ctx : Context := { types := (Engine.new {}).registry, options := {}, input := none, script }
  have hends (next : Widening) : ∃ budget, (pass ctx budget (.start next)).1 = true :=
    (pass_ends hstratified next).imp fun _ h => h.1
  obtain ⟨again, hle, budget, last, _, _, hstable, hsettle⟩ :=
    (@late_widening_progresses ctx _ hparse).2 {} fun next _ => hends next
  exact ⟨script, hparse, hunstable, hcard, again, hcard ▸ hle, budget, last, hstable,
    fun more hmore => hsettle 0 more 1 hmore⟩

end Analysis

end HostScript
