import HostScript.Proofs.Analysis.Quiet

/-!
# Where an analysis stands

The analysis of an expression, a statement or a lambda ends where it started: in the same scope,
layers and lambdas. The lambdas under analysis are different literals of the script at any time, so
there are never more of them than the script has literals.
-/

namespace HostScript.Analysis

variable {α : Type} {ctx : Context} {enter : Enter} {active : List NodeId} {s s' : State}

/-- The given lambdas are under analysis, and the analysis comes back to where it stood. -/
def standpoint (active : List NodeId) : Invariant where
  holds s := s.active = active
  leads := State.Restores
  valid _ _ := True
  known _ _ := True
  refl _ := .of_same rfl
  trans := .trans
  valid_of_leads _ _ := trivial
  known_of_leads _ _ := trivial

theorem State.Restores.does {m : Analyze α} (h : s.Restores (m s).2)
    (hs : (standpoint active).holds s) : (standpoint active).Does s m :=
  ⟨h.active.trans hs, h, trivial⟩

/-! ### Blocks and bodies -/

/-- The scope of a block has the scope around it as its parent, also when the block was analyzed. -/
theorem State.Restores.closed (h : State.Restores { s with scopes := s.scopes.enter .block } s') :
    s.Restores { s' with scopes := s'.scopes.close } where
  current := by
    obtain ⟨scope, hscope, hparent⟩ :=
      h.scopes.exists_scope (Scopes.getElem?_enter_current s.scopes .block)
    rw [← h.current] at hscope
    exact (Scopes.close_of_parent (k := 0) hscope hparent).1
  stack := h.stack
  enclosing := h.enclosing
  active := h.active
  returns := h.returns
  scopes := (((Scopes.Extends.refl _).enter .block).trans h.scopes).close

theorem standpoint_ignores : (standpoint active).Ignores where
  valid _ _ := trivial
  known _ _ := trivial
  quiet hs h := h.restores.does hs
  blocks {s} _ hs hm :=
    have hinside := hm (openScope .block s).2 hs
    State.Restores.does (State.Restores.closed hinside.leads) hs

section

variable (henter : ∀ method args s, State.Restores s (enter method args s).2)

include henter

/-- A walk comes back to where it stood if the bodies that it enters do. -/
theorem standpoint_walks (ctx : Context) (active : List NodeId) (sites : List Site)
    (pieces : List Piece) :
    (standpoint active).Walks (fun _ _ _ => True) ctx enter sites pieces :=
  standpoint_ignores.walks (fun _ _ _ _ hs => State.Restores.does (.of_same rfl) hs)
    (fun method _ args _ hs _ _ => (henter method (some args) _).does hs) pieces

omit henter in
theorem State.Restores.popReturns (h : State.Restores { s with returns := [] :: s.returns } s') :
    s.Restores (popReturns s').2 :=
  { h with
    returns := by
      show s'.returns.tail.length = _
      rw [List.length_tail, h.returns]
      rfl }

theorem restores_bodyShape (ctx : Context) (body : LambdaBody) (s : State) :
    s.Restores (bodyShape ctx enter body s).2 := by
  have W (sites : List Site) (pieces : List Piece) :=
    (standpoint_walks henter ctx s.active sites pieces).notices
  cases body with
  | expr value =>
    have hvalue := (W _ _).shows_expr value (List.Subset.refl _) (List.Subset.refl _)
      (s := { s with returns := [] :: s.returns }) rfl
    exact State.Restores.popReturns hvalue.leads
  | block body =>
    have hstmts := (W _ _).shows_stmts body false false (List.Subset.refl _) (List.Subset.refl _)
      (s := { s with returns := [] :: s.returns }) rfl
    have hpop := State.Restores.popReturns hstmts.leads
    have hfold (first : ShapeId) (shapes : List ShapeId) (s : State) :=
      standpoint_ignores.helps.runs_foldShapes (s := s) rfl (x := first) trivial
        fun (y : ShapeId) (_ : y ∈ shapes) => trivial
    exact hpop.trans (hfold _ _ _).leads

/-- What is left of where the analysis stood when it turns to a body. -/
structure State.Turns (node : NodeId) (s s' : State) : Prop where
  active : s'.active = node :: s.active
  returns : s'.returns.length = s.returns.length
  scopes : s.scopes.Extends s'.scopes

omit henter in
theorem turns_startBody (method : ShapeId) (l : LambdaShape) (lambda : Lambda) (args : List ShapeId)
    (s : State) : s.Turns l.node (startBody method l lambda args s).2 := by
  let begun := { s with active := l.node :: s.active, stack := l.env, enclosing := l.enclosing }
  have hopened : s.Turns l.node (openBody method l begun).2 := by
    have hrefl := Scopes.Extends.refl s.scopes
    have hhere : s.scopes.Extends { s.scopes with current := l.defScope } := ⟨hrefl.size, hrefl.parents⟩
    rw [openBody]
    cases l.bodyScope with
    | some scope => exact ⟨rfl, rfl, hhere.reopen scope⟩
    | none => exact ⟨rfl, rfl, hhere.enter .lambda⟩
  have hparams := (quiet_declareParams l.node args 0 lambda.params (s := {
    (openBody method l begun).2 with
    layers := (openBody method l begun).2.layers.newLayer.2
    stack := (openBody method l begun).2.stack ++ [(openBody method l begun).2.layers.layers.size]
    enclosing := (openBody method l begun).2.enclosing ++ [l.node] })).restores
  exact ⟨hparams.active.trans hopened.active, hparams.returns.trans hopened.returns,
    hopened.scopes.trans hparams.scopes⟩

theorem restores_analyzeBody (method : ShapeId) (l : LambdaShape) (lambda : Lambda)
    (args : List ShapeId) (s : State) :
    s.Restores (analyzeBody ctx enter method l lambda args s).2 := by
  have hturns := turns_startBody method l lambda args s
  have hbody := restores_bodyShape henter ctx lambda.body
    (startBody method l lambda args s).2
  have hscopes := hturns.scopes.trans hbody.scopes
  have hclosed (body : ScopeId) := Scopes.Extends.close (t := { scopes := _, current := body })
    ⟨hscopes.size, hscopes.parents⟩
  have hactive : List.erase (bodyShape ctx enter lambda.body
      (startBody method l lambda args s).2).2.active l.node = s.active := by
    rw [hbody.active, hturns.active, List.erase_cons_head]
  rw [analyzeBody]
  exact ⟨rfl, rfl, rfl, hactive, hbody.returns.trans hturns.returns, (hclosed _).size, (hclosed _).parents⟩

end

theorem restores_enterLambda (ctx : Context) (depth : Nat) (method : ShapeId)
    (args : Option (List ShapeId)) (s : State) :
    s.Restores (enterLambda ctx depth method args s).2 := by
  induction depth generalizing method args s with
  | zero => exact .of_same rfl
  | succ depth ih =>
    rw [enterLambda_run]
    split
    · exact .of_same rfl
    · split
      · exact .of_same rfl
      · split
        · exact .of_same rfl
        · exact restores_analyzeBody ih method _ _ _ s

/-! ### The lambdas under analysis -/

/-- The analysis of a body starts, and so many more may be nested below it. -/
structure Start where
  depth : Nat
  state : State

def starts : Lookout Start where
  starts depth s := [⟨depth, s⟩]

/-- The lambdas under analysis are different literals of the script, and as many more may be entered
as there are other literals. -/
structure Nests (ctx : Context) (active : List NodeId) (depth : Nat) : Prop where
  distinct : active.Nodup
  literals : active ⊆ ctx.script.lambdas.map (·.node.id)
  depth : active.length + depth = ctx.script.lambdas.length

namespace Nests

variable {depth : Nat}

theorem nil (ctx : Context) : Nests ctx [] ctx.script.lambdas.length :=
  ⟨List.nodup_nil, List.nil_subset _, Nat.zero_add _⟩

theorem cons (h : Nests ctx active (depth + 1)) {node : NodeId} {lambda : Lambda}
    (hlambda : ctx.script.lambda? node = some lambda) (hactive : ¬ active.contains node) :
    Nests ctx (node :: active) depth where
  distinct := List.nodup_cons.mpr ⟨fun hmem => hactive (List.contains_iff_mem.mpr hmem), h.distinct⟩
  literals := by
    obtain ⟨hmem, hnode⟩ := Script.mem_of_lambda? hlambda
    exact List.cons_subset.mpr ⟨List.mem_map.mpr ⟨lambda, hmem, hnode⟩, h.literals⟩
  depth := by
    rw [List.length_cons, Nat.add_right_comm]
    exact h.depth

/-- When all literals are under analysis, no body is entered whatever depth is allowed. -/
theorem refuses (h : Nests ctx s.active 0) (depth : Nat) (method : ShapeId)
    (args : Option (List ShapeId)) : enterLambda ctx depth method args s = (none, s) := by
  have hperm := (List.subperm_of_subset h.distinct h.literals).perm_of_length_le
    (by rw [List.length_map, ← h.depth]; exact Nat.le_refl _)
  cases depth with
  | zero => rfl
  | succ depth =>
    rw [enterLambda_run]
    split
    · rfl
    next l _ =>
      split
      · rfl
      next lambda hlambda =>
        obtain ⟨hmem, hnode⟩ := Script.mem_of_lambda? hlambda
        have hactive : l.node ∈ s.active := hperm.mem_iff.mpr (List.mem_map.mpr ⟨lambda, hmem, hnode⟩)
        rw [if_pos (List.contains_iff_mem.mpr hactive)]

end Nests

/-- The bodies that start in a walk fit if those in the bodies that it enters do. -/
theorem standpoint_notices (active : List NodeId)
    (henter : ∀ method args s, State.Restores s (enter method args s).2)
    {inner : Inner Start} (hinner : ∀ method args s, s.active = active →
      ∀ v ∈ inner method args s, Nests ctx v.state.active v.depth)
    (sites : List Site) (pieces : List Piece) :
    (standpoint active).Notices (fun _ _ _ => True)
      (fun (v : Start) _ => Nests ctx v.state.active v.depth) (starts.events ctx enter inner) sites
      pieces where
  toWalks := standpoint_walks henter ctx active sites pieces
  toSees := .nothing _
  lasting _ _ h := h
  entered n _ _ c xs _ _ hs _ _ _ v hv :=
    hinner c (some xs) _ hs v (callShape_of_event enter hv n.span).1
  inScope {s} _ _ hs hm v hv := (hm (openScope .block s).2 hs).shown v hv

theorem nests_entered {depth : Nat} (h : Nests ctx s.active depth) (method : ShapeId)
    (args : Option (List ShapeId)) :
    ∀ v ∈ starts.entered ctx depth method args s, Nests ctx v.state.active v.depth := by
  induction depth generalizing method args s with
  | zero =>
    intro v hv
    cases hv
  | succ depth ih =>
    intro v hv
    obtain ⟨l, lambda, _, hlambda, hactive, hv, _⟩ := enterLambda_of_event hv
    have hturns := turns_startBody method l lambda (args.getD []) s
    have hnests : Nests ctx (startBody method l lambda (args.getD []) s).2.active depth :=
      hturns.active ▸ h.cons hlambda hactive
    rcases hv with hv | hv
    · rw [List.mem_singleton.mp hv]
      exact hnests
    · have N := standpoint_notices _ (restores_enterLambda ctx depth)
        (fun method args s hs => ih (s := s) (hs ▸ hnests) method args)
      let started := (startBody method l lambda (args.getD []) s).2
      have hstarted : (standpoint started.active).holds { started with returns := [] :: started.returns } :=
        rfl
      rw [Events.body.eq_def] at hv
      split at hv
      · exact ((N _ _).shows_expr _ (List.Subset.refl _) (List.Subset.refl _) hstarted).shown v hv
      · exact ((N _ _).shows_stmts _ _ _ (List.Subset.refl _) (List.Subset.refl _) hstarted).shown v hv

theorem nests_drained (budget : Nat) (hs : s.active = []) :
    ∀ v ∈ starts.drained ctx budget s, Nests ctx v.state.active v.depth := by
  induction budget generalizing s with
  | zero =>
    intro v hv
    cases hv
  | succ budget ih =>
    intro v hv
    rw [Lookout.drained] at hv
    split at hv
    · cases hv
    next method rest _ =>
      have hnil : Nests ctx s.active ctx.script.lambdas.length := hs ▸ .nil ctx
      rcases List.mem_append.mp hv with hv | hv
      · exact nests_entered (s := State.frozen { s with pending := rest }) hnil method none v hv
      · have hback := (restores_enterLambda ctx ctx.script.lambdas.length method none
          (State.frozen { s with pending := rest })).active
        exact ih (s := (analyzeGeneric ctx method { s with pending := rest }).2) (hback.trans hs) v hv

/-- From every state, the analysis of an expression, a statement or a lambda comes back to where it
stood, whether the lambda is entered or refused. Whenever a body starts in a pass, the lambdas under
analysis are different literals, and so are never more than the script has; only when all literals
are under analysis no further depth is allowed, and then none would be entered anyway. -/
theorem analysis_restores (ctx : Context) :
    (∀ (depth : Nat) (s : State),
      (∀ e, s.Restores (expr ctx (enterLambda ctx depth) e s).2) ∧
      (∀ st, s.Restores (stmt ctx (enterLambda ctx depth) st s).2) ∧
      ∀ method args, s.Restores (enterLambda ctx depth method args s).2) ∧
    ∀ (budget : Nat) (widening : Widening), ∀ v ∈ starts.passed ctx budget widening,
      v.state.active.Nodup ∧ v.state.active ⊆ ctx.script.lambdas.map (·.node.id) ∧
      v.state.active.length + v.depth = ctx.script.lambdas.length ∧
      (v.depth = 0 → ∀ s, s.active = v.state.active → ∀ depth method args,
        enterLambda ctx depth method args s = (none, s)) := by
  refine ⟨fun depth s => ?_, fun budget widening v hv => ?_⟩
  · have henter := restores_enterLambda ctx depth
    have W (sites : List Site) (pieces : List Piece) :=
      (standpoint_walks henter ctx s.active sites pieces).notices
    have hall {α : Type} (xs : List α) := List.Subset.refl xs
    exact ⟨fun e => ((W _ _).shows_expr e (hall _) (hall _) rfl).leads,
      fun st => ((W _ _).shows_stmt st (hall _) (hall _) rfl).leads, fun method args => henter method args s⟩
  · have hwalk := (standpoint_notices [] (restores_enterLambda ctx ctx.script.lambdas.length)
      (fun method args s hs => nests_entered (hs ▸ Nests.nil ctx) method args) _ _).shows_stmts
        ctx.script.body false false (List.Subset.refl _) (List.Subset.refl _)
        (s := { State.start widening with returns := [[]] }) rfl
    have hnests : Nests ctx v.state.active v.depth := by
      rcases List.mem_append.mp hv with hv | hv
      · exact hwalk.shown v hv
      · have hwalked : (State.walked ctx widening).active = [] := hwalk.holds
        exact nests_drained budget hwalked v hv
    exact ⟨hnests.distinct, hnests.literals, hnests.depth, fun hdepth s hs =>
      Nests.refuses (hs ▸ hdepth ▸ hnests)⟩

end HostScript.Analysis
