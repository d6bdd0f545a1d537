import HostScript.Proofs.Analysis.Tracing
import HostScript.Proofs.Engine

/-!
# Generic analyses are sandboxed

While a lambda is analyzed for unknown arguments, all shapes and layers that were there before are
frozen. No change on the way touches a record, an array or a plain shape among them, nor an entry of
a layer, whatever the body does.
-/

namespace HostScript

namespace Arena

variable {N : String → Prop} {a b : Arena} {i : ShapeId}

theorem Edits.get_of_frozen (h : Edits N a b) (hi : i < a.frozenBelow) : b.get i = a.get i :=
  (h.becomes i).resolve_right fun hchanged => Nat.not_le_of_lt hi hchanged.1

end Arena

namespace Analysis

variable {ctx : Context} {bound : Nat} {s t t' : State} {widening : Widening}

/-- What a state has of records, arrays, plain shapes and entries of layers is in another state as
it was. -/
structure State.Untouched (s t : State) : Prop where
  record : ∀ {i fields origins}, s.arena.get i = .record fields origins →
    t.arena.get i = .record fields origins
  array : ∀ {i element origins}, s.arena.get i = .array element origins →
    t.arena.get i = .array element origins
  concrete : ∀ {i c}, s.arena.get i = .concrete c → t.arena.get i = .concrete c
  entry : ∀ {layer node shape}, s.layers.get? layer node = some shape →
    t.layers.get? layer node = some shape

/-- What was there at a freeze is untouched, and still frozen. -/
structure State.Guards (s t : State) : Prop extends s.Untouched t where
  shapes : t.arena.frozenBelow = s.arena.shapes.size
  layers : t.layers.frozenBelow = s.layers.layers.size
  size_le : s.arena.shapes.size ≤ t.arena.shapes.size

theorem Change.layers_frozenBelow (h : Change ctx bound s t) :
    t.layers.frozenBelow = s.layers.frozenBelow := by
  have hset {stack : List LayerId} {node : NodeId} {x : ShapeId} {found : Option LayerId × Layers}
      (hset : s.layers.set? stack node x = some found) :
      found.2.frozenBelow = s.layers.frozenBelow := by
    rcases Layers.set?_eq_some hset with ⟨heq, _⟩ | ⟨_, _, _, heq⟩
    · rw [heq]
    · rw [heq, Layers.frozenBelow_put]
  cases h with
  | aside _ _ _ _ _ hl _ => rw [hl]
  | alters _ => rfl
  | record _ _ hfound | declare _ _ hfound => exact hset hfound
  | widen _ _ hold _ =>
    rcases Change.widen_layers hold with heq | ⟨_, _, _, _, heq⟩
    · rw [heq]
    · rw [heq, Layers.frozenBelow_put]
  | newLayer => rfl

theorem Change.entry_of_frozen (h : Change ctx bound s t) {layer : LayerId} {node : NodeId}
    {x : ShapeId} (hlayer : layer < s.layers.frozenBelow) (hx : s.layers.get? layer node = some x) :
    t.layers.get? layer node = some x := by
  cases h with
  | aside _ _ _ _ _ hl _ => rwa [hl]
  | alters _ => exact hx
  | record _ _ hset | declare _ _ hset => exact get?_of_set? hset hx
  | widen _ _ hold _ =>
    rcases Change.widen_layers hold with heq | ⟨found, _, _, hle, heq⟩
    · rwa [heq]
    · rw [heq, Layers.get?_put, if_neg, hx]
      rintro ⟨rfl, _⟩
      exact Nat.not_le_of_lt hlayer hle
  | newLayer => exact (Layers.get?_newLayer ..).trans hx

theorem Change.get_of_frozen (h : Change ctx bound s t) {i : ShapeId} (hi : i < s.arena.frozenBelow)
    (hsize : s.arena.frozenBelow ≤ s.arena.shapes.size) (hlambda : ∀ l, s.arena.get i ≠ .lambda l) :
    t.arena.get i = s.arena.get i := by
  cases h.slot i with
  | same heq => exact heq
  | edits he => exact he.get_of_frozen hi
  | new heq _ => exact absurd (heq ▸ hi) (Nat.not_lt_of_le hsize)
  | lambda hl _ _ => exact absurd hl (hlambda _)

theorem State.guards_frozen (s : State) : s.frozen.Guards s.frozen :=
  ⟨⟨id, id, id, id⟩, rfl, rfl, Nat.le_refl _⟩

/-- No change touches what is guarded. -/
theorem State.Guards.change (h : s.Guards t) (hc : Change ctx bound t t') : s.Guards t' := by
  have hsize : t.arena.frozenBelow ≤ t.arena.shapes.size := h.shapes ▸ h.size_le
  have hget {i : ShapeId} {shape : Shape} (hs : s.arena.get i = shape) (hne : shape ≠ .unknown)
      (hlambda : ∀ l, shape ≠ .lambda l) (ht : t.arena.get i = shape) : t'.arena.get i = shape := by
    have hi : i < t.arena.frozenBelow := by
      rw [h.shapes]
      exact Arena.lt_size_of_get (hs ▸ hne)
    rw [hc.get_of_frozen hi hsize (by rwa [ht]), ht]
  refine ⟨⟨fun hs => ?_, fun hs => ?_, fun hs => ?_, fun hs => ?_⟩, ?_, ?_, h.size_le.trans hc.size_le⟩
  · exact hget hs Shape.noConfusion (fun _ => Shape.noConfusion) (h.record hs)
  · exact hget hs Shape.noConfusion (fun _ => Shape.noConfusion) (h.array hs)
  · exact hget hs Shape.noConfusion (fun _ => Shape.noConfusion) (h.concrete hs)
  · exact hc.entry_of_frozen (h.layers ▸ Layers.lt_of_get? hs) (h.entry hs)
  · rw [hc.frozenBelow_eq, h.shapes]
  · rw [hc.layers_frozenBelow, h.layers]

theorem State.guards_of_chain (hc : Chain ctx bound s.frozen t) : s.frozen.Guards t := by
  induction hc with
  | refl => exact s.guards_frozen
  | tail _ hc ih => exact ih.change hc

/-- The states of a pass in which the loop over the pending lambdas is, from its start on. -/
inductive Draining (ctx : Context) (widening : Widening) : State → Prop where
  | start : Draining ctx widening (.walked ctx widening)
  | next {s : State} {method : ShapeId} {rest : List ShapeId} : Draining ctx widening s →
      s.pending = method :: rest →
      Draining ctx widening (analyzeGeneric ctx method { s with pending := rest }).2

theorem Tracing.between_pending (h : Tracing.Between ctx s) (rest : List ShapeId) :
    Tracing.Between ctx { s with pending := rest } :=
  have hpop : (tracing ctx (Layers.root + 1) [Layers.root]).Does s
      (modify fun s : State => { s with pending := rest }) :=
    of_same h {} rfl rfl trivial
  hpop.holds

theorem Draining.between (h : Draining ctx widening s) : Tracing.Between ctx s := by
  induction h with
  | start => exact (Tracing.runs_walked ctx widening).1
  | @next _ method rest _ _ ih =>
    exact (Tracing.analyzeGeneric_keeps (P := fun _ => True) ⟨fun _ _ _ => trivial, fun _ _ _ => trivial⟩
      (Tracing.between_pending ih rest) trivial method).1.between

/-- Noting the result of a generic analysis changes a lambda only. -/
theorem State.Untouched.generic {u : State} (h : s.Untouched t) (method : ShapeId)
    (f : LambdaShape → LambdaShape) (hshapes : u.arena.shapes = t.arena.shapes)
    (hlayers : u.layers.layers = t.layers.layers) :
    s.Untouched { u with arena := u.arena.modifyLambda method f } := by
  have hget {i : ShapeId} {shape : Shape} (hlambda : ∀ l, shape ≠ .lambda l)
      (ht : t.arena.get i = shape) : (u.arena.modifyLambda method f).get i = shape := by
    have hu : u.arena.get i = shape := (Arena.get_of_shapes hshapes i).trans ht
    rw [Arena.get_modifyLambda_of_ne (by rwa [hu]), hu]
  refine ⟨fun hs => ?_, fun hs => ?_, fun hs => ?_, fun hs => ?_⟩
  · exact hget (fun _ => Shape.noConfusion) (h.record hs)
  · exact hget (fun _ => Shape.noConfusion) (h.array hs)
  · exact hget (fun _ => Shape.noConfusion) (h.concrete hs)
  · show u.layers.layers[_]?.bind _ = _
    rw [hlayers]
    exact h.entry hs

/-- In every iteration of the loop over the pending lambdas of a pass, the analysis of the body is a
chain of changes from the frozen state. No state along such a chain, the last one included, has a
record, an array, a plain shape or an entry of a layer of before in another form, and neither has
the state after the thaw. -/
theorem generic_analysis_untouched (h : Draining ctx widening s) (method : ShapeId)
    (rest : List ShapeId) :
    let frozen := State.frozen { s with pending := rest }
    Chain ctx (Layers.root + 1) frozen (enter ctx method none frozen).2 ∧
      (∀ t, Chain ctx (Layers.root + 1) frozen t → s.Untouched t) ∧
      s.Untouched (enter ctx method none frozen).2 ∧
      s.Untouched (analyzeGeneric ctx method { s with pending := rest }).2 := by
  intro frozen
  have hfrozen : Tracing.Between ctx frozen :=
    Tracing.holds_bounded (Tracing.between_pending h.between rest) _ _
  have henter := Tracing.enters_enterLambda ctx ctx.script.lambdas.length method none hfrozen
    fun p hp => absurd hp List.not_mem_nil
  have hkept (t : State) (hc : Chain ctx (Layers.root + 1) frozen t) : s.Untouched t :=
    have hguards := State.guards_of_chain hc
    ⟨hguards.record, hguards.array, hguards.concrete, hguards.entry⟩
  have hentered := hkept _ henter.leads.2
  exact ⟨henter.leads.2, hkept, hentered, hentered.generic method _ rfl rfl⟩

/-- A lambda whose body writes and adds fields of an outer record, adds to an outer array and
assigns an outer variable. -/
theorem generic_analysis_untouched_writes :
    ∃ script, Engine.parse "var p = { n: 1 }; var a = [1]; var v = 1;
        var f = (x) => { p.n = x; p.m = x; a.add(p); v = a; return v; };" = .ok script ∧
      let ctx : Context := { types := (Engine.new {}).registry, options := {}, input := none, script }
      let s := State.walked ctx {}
      ∃ method i j, s.pending = [method] ∧
        (∃ fields origins, s.arena.get i = .record fields origins) ∧
        (∃ element origins, s.arena.get j = .array element origins) ∧
        s.Untouched (analyzeGeneric ctx method { s with pending := [] }).2 := by
  obtain ⟨script, hparse, hcheck⟩ := Engine.exists_parsed "var p = { n: 1 }; var a = [1]; var v = 1;
        var f = (x) => { p.n = x; p.m = x; a.add(p); v = a; return v; };" (fun script =>
      let ctx : Context := { types := (Engine.new {}).registry, options := {}, input := none, script }
      (State.walked ctx {}).pending.length == 1 && ((State.walked ctx {}).arena.field? 5 "n").isSome &&
        ((State.walked ctx {}).arena.element? 6).isSome) (by decide +kernel)
  simp only [Bool.and_eq_true, beq_iff_eq, Arena.field?, Arena.element?] at hcheck
  obtain ⟨⟨hlength, hfield⟩, helement⟩ := hcheck
  obtain ⟨method, hpending⟩ := List.length_eq_one_iff.mp hlength
  split at hfield
  next fields origins hrecord =>
    split at helement
    next element origins' harray =>
      exact ⟨script, hparse, method, _, _, hpending, ⟨fields, origins, hrecord⟩,
        ⟨element, origins', harray⟩, (generic_analysis_untouched .start method []).2.2.2⟩
    next => cases helement
  next => cases hfield

end Analysis

end HostScript
