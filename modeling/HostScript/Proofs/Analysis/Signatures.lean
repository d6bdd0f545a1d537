import HostScript.Proofs.Analysis.Recorded
import HostScript.Proofs.Script.Numbering

/-!
# Calls of lambdas

In the answer of an analysis, every call of a lambda is dispatched to a signature with the argument
shapes of the call. Every signature comes from an analysis of the body that was started for
arguments that no signature of the lambda had, with the parameters declared in a layer of its own.
-/

namespace HostScript

namespace Analysis

variable {ctx : Context} {s s' s'' : State} {x : ShapeId} {xs : List ShapeId} {layer : LayerId}
  {i method : ShapeId} {l : LambdaShape} {lambda : Lambda} {signature : Signature}

/-! ### Parameters -/

/-- Entries are added to layers, and nothing else that matters to entries changes. -/
structure State.Enriches (s s' : State) : Prop where
  arena : s'.arena = s.arena
  stack : s'.stack = s.stack
  size : s'.layers.layers.size = s.layers.layers.size
  problems : s'.problems = [] → s.problems = []
  kept : ∀ {layer node x}, s.layers.get? layer node = some x → s'.layers.get? layer node = some x

theorem State.Enriches.refl (s : State) : s.Enriches s :=
  ⟨rfl, rfl, rfl, id, id⟩

theorem State.Enriches.trans (h : s.Enriches s') (h' : s'.Enriches s'') : s.Enriches s'' :=
  ⟨h'.arena.trans h.arena, h'.stack.trans h.stack, h'.size.trans h.size, h.problems ∘ h'.problems,
    fun hx => h'.kept (h.kept hx)⟩

theorem State.Enriches.declaredShape (h : s.Enriches s') (id : NodeId) (x : ShapeId) :
    s'.declaredShape id x = s.declaredShape id x := by
  rw [State.declaredShape, h.arena, State.declaredShape]

theorem State.Alike.enriches (h : s.Alike ctx s') : s.Enriches s' :=
  ⟨h.arena, h.stack, by rw [h.layers], h.problems, fun hx => h.layers ▸ hx⟩

theorem enriches_record (node : NodeId) (x : ShapeId) (span : Span) (s : State) :
    s.Enriches (record node x span s).2 := by
  rw [record_run]
  cases hset : s.layers.set? s.stack node x with
  | none => exact ⟨rfl, rfl, rfl, fun hp => (List.append_eq_nil_iff.mp hp).1, id⟩
  | some found =>
    obtain ⟨_, layers⟩ := found
    obtain ⟨rfl, _⟩ | ⟨top, _, hnone, rfl⟩ := Layers.set?_eq_some hset
    · exact ⟨rfl, rfl, rfl, id, id⟩
    · refine ⟨rfl, rfl, Layers.size_put .., id, fun {layer other y} hy => ?_⟩
      show (s.layers.put top node x).2.get? layer other = some y
      rw [Layers.get?_put, if_neg, hy]
      rintro ⟨rfl, _, rfl⟩
      cases hy.symm.trans hnone

/-- A declaration has its shape in the innermost layer. -/
theorem enriches_declare (ctx : Context) (name : String) (symbol : Symbol) (x : ShapeId) (span : Span)
    (s : State) : s.Enriches (declare name symbol x span s).2 ∧
      ((declare name symbol x span s).2.problems = [] → ∀ {layer}, s.stack.getLast? = some layer →
        layer < s.layers.layers.size → (declare name symbol x span s).2.layers.get? layer symbol.node =
          some (s.declaredShape symbol.node x)) := by
  have ha : State.Alike ctx _ _ := .of_declare name symbol x span s
  refine ⟨(enriches_record ..).trans ha.enriches, fun hproblems layer hlast hlt => ?_⟩
  rw [ha.layers]
  exact Tracing.get?_record hlt hlast (ha.problems hproblems)

theorem enriches_declareParams (ctx : Context) (node : NodeId) (xs : List ShapeId) (params : List Param)
    (index : Nat) (s : State) : s.Enriches (declareParams node xs index params s).2 ∧
      ((declareParams node xs index params s).2.problems = [] → ∀ {layer},
        s.stack.getLast? = some layer → layer < s.layers.layers.size → ∀ {j : Nat} {p : Param}, params[j]? = some p →
        (declareParams node xs index params s).2.layers.get? layer p.node.id =
          some (s.declaredShape p.node.id (xs[index + j]?.getD Arena.unknown))) := by
  induction params generalizing index s with
  | nil => exact ⟨.refl s, fun _ _ _ _ _ _ hp => by cases hp⟩
  | cons first rest ih =>
    obtain ⟨hfirst, hentry⟩ := enriches_declare ctx first.name (.parameter node index first.node.id)
      (xs[index]?.getD Arena.unknown) first.node.span s
    let t := (declare first.name (.parameter node index first.node.id) (xs[index]?.getD Arena.unknown)
      first.node.span s).2
    obtain ⟨hrest, hentries⟩ := ih (index + 1) t
    refine ⟨hfirst.trans hrest, fun hproblems layer hlast hlt j p hp => ?_⟩
    cases j with
    | zero =>
      cases Option.some.inj hp
      exact hrest.kept (hentry (hrest.problems hproblems) hlast hlt)
    | succ j =>
      have hnext := hentries hproblems (hfirst.stack ▸ hlast) (hfirst.size ▸ hlt) hp
      rw [hfirst.declaredShape, Nat.add_right_comm] at hnext
      exact hnext

theorem length_declareParams (node : NodeId) (xs : List ShapeId) (params : List Param) (index : Nat)
    (s : State) : (declareParams node xs index params s).1.length = params.length := by
  induction params generalizing index s with
  | nil => rfl
  | cons first rest ih => exact congrArg (· + 1) (ih (index + 1) _)

/-- In the state `t` the parameters of the lambda have the arguments of the signature, or are
unknown because they are forced to be. -/
structure Declares (t : State) (lambda : Lambda) (signature : Signature) : Prop where
  count : signature.args.length = lambda.params.length
  entry : ∀ {j : Nat} {p : Param} {x : ShapeId}, lambda.params[j]? = some p → signature.args[j]? = some x →
    t.layers.get? signature.layer p.node.id = some (t.declaredShape p.node.id x)

theorem Birth.declares {start : State} (h : Birth ctx s i signature start method l lambda)
    (hproblems : s.problems = []) :
    Declares (startBody method l lambda signature.args start).2 lambda signature := by
  obtain ⟨depth, hfound⟩ := h.found
  rw [analyzeBody] at hfound
  have hargs : (startBody method l lambda signature.args start).1.2.2 = signature.args :=
    congrArg Signature.args hfound
  have hlayer : (startBody method l lambda signature.args start).1.2.1 = signature.layer :=
    congrArg Signature.layer hfound
  let opened := (openBody method l { start with
    active := l.node :: start.active, stack := l.env, enclosing := l.enclosing }).2
  let t : State := { opened with
    layers := opened.layers.newLayer.2
    stack := opened.stack ++ [opened.layers.layers.size]
    enclosing := opened.enclosing ++ [l.node] }
  obtain ⟨hadds, hentry⟩ := enriches_declareParams ctx l.node signature.args lambda.params 0 t
  refine ⟨?_, fun {j p x} hp hx => ?_⟩
  · rw [← hargs]
    exact length_declareParams l.node signature.args lambda.params 0 t
  · rw [← hlayer]
    have hthere := hentry (h.later.problems hproblems) List.getLast?_concat
      (Nat.lt_of_lt_of_eq (Nat.lt_succ_self _) (Array.size_push ..).symm) hp
    rw [Nat.zero_add, hx, ← hadds.declaredShape] at hthere
    exact hthere

/-! ### Answers -/

/-- What the state `s`, in which a pass ended, tells of the calls of lambdas in an answer. -/
structure Dispatched (ctx : Context) (a : Analysis) (s : State) : Prop where
  arena : a.arena = s.arena
  layers : a.layers = s.layers
  calls : ∀ {layer n callee args x method k}, .expr (.call n callee args) ∈ ctx.script.pieces →
    a.layers.get? layer n.id = some x → a.arena.get x = .callResult method k →
    Dispatches ctx.script a.arena a.layers layer args method k
  signatures : ∀ {i l signature}, a.arena.get i = .lambda l → signature ∈ l.signatures →
    ∃ start method l lambda, Birth ctx s i signature start method l lambda ∧
      Declares (startBody method l lambda signature.args start).2 lambda signature
  apart : ∀ {i i' l l' e e' signature signature'}, a.arena.get i = .lambda l →
    l.analysis? e = some signature → a.arena.get i' = .lambda l' → l'.analysis? e' = some signature' →
    signature.layer = signature'.layer → i = i' ∧ e = e'

end Analysis

open Analysis in
/-- Calls of lambdas are dispatched to the right signatures. -/
theorem Script.calls_dispatched {source : String} {script : Script} {types : Registry}
    {options : Options} {input : Option HostTypeId} {budget : Nat} {a : Analysis}
    (hparse : Engine.parse source = .ok script)
    (hanalyze : script.analyze types options input budget = some (.ok a)) :
    let ctx : Context := { types, options, input, script }
    ∃ widening, Dispatched ctx a (pass ctx budget (.start widening)).2 := by
  intro ctx
  obtain ⟨_, widening, _, hstate⟩ := settle_eq_ok hanalyze
  obtain ⟨hproblems, harena, hlayers, _⟩ := ofState_eq_ok hstate
  have haccounted := (Tracing.after_start ctx budget widening).between.accounted (Engine.nodup_ids hparse)
  refine ⟨widening, harena, hlayers, ?_, ?_, ?_⟩
  · rw [harena, hlayers]
    exact haccounted.calls hproblems
  · rw [harena]
    intro i l signature hl hsig
    obtain ⟨start, method, l, lambda, hbirth⟩ := haccounted.signatures hl hsig
    exact ⟨start, method, l, lambda, hbirth, hbirth.declares hproblems⟩
  · rw [harena]
    exact (pass_recorded ctx budget widening hproblems).apart

def Shape.isCall (method : ShapeId) (signature : Nat) : Shape → Bool
  | .callResult m k => m == method && k == signature
  | _ => false

open Analysis in
/-- A lambda with two signatures calls another one, which gets two as well. -/
theorem Script.calls_dispatched_nested :
    ∃ script a x, Engine.parse "var g = (y) => y; var f = (x, h) => h(x); var a = f(1, g);
        var b = f(\"\", g); return f(2, g);" = .ok script ∧
      script.analyze (Engine.new {}).registry {} none 2 = some (.ok a) ∧
      a.layers.get? 3 8 = some x ∧ a.arena.get x = .callResult 5 1 ∧
      let ctx : Context := { types := (Engine.new {}).registry, options := {}, input := none, script }
      ∃ widening, Dispatched ctx a (pass ctx 2 (.start widening)).2 := by
  obtain ⟨script, a, hparse, hanalyze, hcheck⟩ := Engine.exists_analyzed
    "var g = (y) => y; var f = (x, h) => h(x); var a = f(1, g);
        var b = f(\"\", g); return f(2, g);" (Engine.new {}).registry 2
    (fun _ a => (a.layers.get? 3 8).any fun x => (a.arena.get x).isCall 5 1) (by decide +kernel)
  obtain ⟨x, hx, hcall⟩ := (Option.any_eq_true ..).mp hcheck
  unfold Shape.isCall at hcall
  split at hcall
  next method k hget =>
    obtain ⟨rfl, rfl⟩ : method = 5 ∧ k = 1 := by simpa using hcall
    exact ⟨script, a, x, hparse, hanalyze, hx, hget, Script.calls_dispatched hparse hanalyze⟩
  next => cases hcall

end HostScript
