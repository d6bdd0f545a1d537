import HostScript.Proofs.Analysis.Tracing

/-!
# What an analysis has on record

Every analysis of a lambda has a layer of its own, in which every expression of the body has its
shape. The layer of the script itself has shapes for the expressions outside of all lambdas.
-/

namespace HostScript

namespace Analysis

variable {ctx : Context} {s s' : State}

/-- The analyses of lambdas have layers of their own. -/
structure State.Analyzed (ctx : Context) (s : State) : Prop where
  covers : ∀ {i l e signature lambda}, s.arena.get i = .lambda l → l.analysis? e = some signature →
    ctx.script.lambda? l.node = some lambda → s.Covers ctx lambda.body.valued signature.layer
  above : ∀ {i l e signature}, s.arena.get i = .lambda l → l.analysis? e = some signature →
    Layers.root < signature.layer
  apart : ∀ {i i' l l' e e' signature signature'}, s.arena.get i = .lambda l →
    l.analysis? e = some signature → s.arena.get i' = .lambda l' →
    l'.analysis? e' = some signature' → signature.layer = signature'.layer → i = i' ∧ e = e'

theorem analyzed_start (ctx : Context) (widening : Widening) :
    (State.start widening).Analyzed ctx := by
  have hnone {i : ShapeId} {l : LambdaShape} : (State.start widening).arena.get i ≠ .lambda l :=
    (get_start widening i).2 l
  exact ⟨fun hl => absurd hl hnone, fun hl => absurd hl hnone, fun hl => absurd hl hnone⟩

theorem State.Analyzed.change (h : s.Analyzed ctx) (ht : s.Tidy)
    (hc : Change ctx (Layers.root + 1) s s') : s'.Analyzed ctx := by
  obtain ⟨j, d, hgains⟩ := hc.gains
  refine ⟨fun {i l' e signature lambda} hl' hsig hlambda => ?_,
    fun {i l' e signature} hl' hsig => ?_, fun {i i' l l' e e' signature signature'} hl hsig hl' hsig' heq => ?_⟩
  · rcases hgains hl' hsig with ⟨l, hl, hsame, hold⟩ | ⟨_, _, method, l, hi, hl, hsame, ho⟩
    · exact (h.covers hl hold (hsame.node ▸ hlambda)).change ht hc
    · have hmethod : s.arena.lambda? method = some l := lambda?_eq_some.mpr (by rw [← hl, hi]; rfl)
      exact (ho.covers l lambda hmethod (hsame.node ▸ hlambda)).change ht hc
  · rcases hgains hl' hsig with ⟨l, hl, _, hold⟩ | ⟨_, _, _, _, _, _, _, ho⟩
    · exact h.above hl hold
    · exact ho.fresh
  · -- A layer that a lambda gets belongs to no analysis before.
    rcases hgains hl hsig with ⟨k, hk, _, hold⟩ | ⟨hi, he, _, _, _, _, _, ho⟩
    · rcases hgains hl' hsig' with ⟨k', hk', _, hold'⟩ | ⟨_, _, _, _, _, _, _, ho'⟩
      · exact h.apart hk hold hk' hold' heq
      · exact absurd ⟨i, k, e, signature, hk, hold, heq⟩ ho'.unused
    · rcases hgains hl' hsig' with ⟨k', hk', _, hold'⟩ | ⟨hi', he', _⟩
      · exact absurd ⟨i', k', e', signature', hk', hold', heq.symm⟩ ho.unused
      · exact ⟨hi.trans hi'.symm, he.trans he'.symm⟩

theorem lasts_analyzed (ctx : Context) : Lasts ctx fun s =>
    s.Analyzed ctx ∧ s.Covers ctx (Stmt.valuedOfAll ctx.script.body) Layers.root where
  change ht hc h := ⟨h.1.change ht hc, h.2.change ht hc⟩
  bounds n m h := ⟨⟨fun hl hsig hlambda => (h.1.covers hl hsig hlambda).bounded n m,
    h.1.above, h.1.apart⟩, h.2.bounded n m⟩

/-- What a pass without problems has on record. -/
structure State.Recorded (ctx : Context) (s : State) : Prop extends s.Analyzed ctx, s.Traced ctx where
  problems : s.problems = []
  root : s.Covers ctx (Stmt.valuedOfAll ctx.script.body) Layers.root

theorem pass_recorded (ctx : Context) (budget : Nat) (widening : Widening)
    (hproblems : (pass ctx budget (.start widening)).2.problems = []) :
    (pass ctx budget (.start widening)).2.Recorded ctx := by
  obtain ⟨_, hleads, hroot⟩ := Tracing.runs_walked ctx widening
  have htidy := (Tracing.holds_start ctx widening).sane.tidy
  have hwalked : (State.walked ctx widening).Analyzed ctx :=
    hleads.2.keeps htidy (fun ht hc h => h.change ht hc) (analyzed_start ctx widening)
  obtain ⟨-, hanalyzed, hcovers⟩ :=
    Tracing.pass_keeps_of_walked (lasts_analyzed ctx) budget ⟨hwalked, hroot⟩
  exact ⟨hanalyzed, (Tracing.after_start ctx budget widening).between.traced, hproblems, hcovers⟩

end Analysis

variable {script : Script} {types : Registry} {options : Options} {input : Option HostTypeId}
  {budget : Nat} {analysis : Analysis}
  (h : script.analyze types options input budget = some (.ok analysis))

include h

/-- The answer of an analysis comes from a state that has all shapes on record. -/
theorem Script.analyze_recorded :
    ∃ s : Analysis.State, s.Recorded { types, options, input, script } ∧
      analysis.arena = s.arena ∧ analysis.layers = s.layers := by
  obtain ⟨_, widening, _, hstate⟩ := Analysis.settle_eq_ok h
  obtain ⟨hproblems, harena, hlayers, _⟩ := Analysis.ofState_eq_ok hstate
  exact ⟨_, Analysis.pass_recorded _ budget widening hproblems, harena, hlayers⟩

/-- The answer of an analysis has resolutions that are known. -/
theorem Script.analyze_resolutions :
    ∃ s : Analysis.State, s.Resolved { types, options, input, script } ∧
      analysis.resolutions = s.resolutions := by
  obtain ⟨_, widening, _, hstate⟩ := Analysis.settle_eq_ok h
  obtain ⟨_, _, _, hresolutions, _⟩ := Analysis.ofState_eq_ok hstate
  let ctx : Analysis.Context := { types, options, input, script }
  have hafter := Analysis.Tracing.after_start ctx budget widening
  have hstart := (Analysis.Tracing.holds_start ctx widening).sane
  exact ⟨_, (hafter.leads.2 hstart).2.resolved (fun _ _ hnode => by cases hnode), hresolutions⟩

/-- In an analyzed script, names that refer to members refer to members that the registry offers. -/
theorem Script.analyze_resolved {node : NodeId} {m : Member}
    (hm : analysis.resolutions.get? node = some (.input m)) : types.Offers m := by
  obtain ⟨s, hs, hresolutions⟩ := script.analyze_resolutions h
  exact hs (hresolutions ▸ hm)

theorem Script.analyze_distinct : analysis.arena.Distinct := by
  obtain ⟨_, widening, _, hstate⟩ := Analysis.settle_eq_ok h
  obtain ⟨_, harena, _⟩ := Analysis.ofState_eq_ok hstate
  rw [harena]
  exact (Analysis.Tracing.after_start _ budget widening).between.sane.distinct

end HostScript
