import HostScript.Proofs.Engine
import HostScript.Proofs.Analysis.Quiet

/-!
# Analyses that come to an end

The lambda shapes that wait for their analysis form a queue, and an analysis may add more of them:
one for each literal that stands in a body it walks. The queue becomes empty if the literals of the
script can be ranked such that a literal ranks below the one in which it stands, and no call in a
literal may reach a literal of higher rank.
-/

namespace HostScript

variable {method : ShapeId}

/-- The literals of a script are ranked: a literal that stands inside another one ranks below it,
and a call in a literal has as many arguments as parameters only for literals that do not rank
above. -/
structure Script.Stratified (script : Script) (rank : NodeId → Nat) : Prop where
  inner : ∀ l ∈ script.lambdas, ∀ m, .literal m ∈ l.body.sites → rank m.node.id < rank l.node.id
  calls : ∀ l ∈ script.lambdas, ∀ n, .call n ∈ l.body.sites →
    ∀ m ∈ script.lambdas, m.params.length = n → rank m.node.id ≤ rank l.node.id

/-- Whether a site in a literal of the given rank leads to literals of allowed ranks only. -/
def Site.allows (script : Script) (rank : NodeId → Nat) (own : Nat) : Site → Bool
  | .literal m => rank m.node.id < own
  | .call n => script.lambdas.all fun m => m.params.length ≠ n || rank m.node.id ≤ own
  | _ => true

theorem Script.stratified_iff {script : Script} {rank : NodeId → Nat} :
    script.Stratified rank ↔
      script.lambdas.all (fun l => l.body.sites.all (Site.allows script rank (rank l.node.id))) := by
  simp only [List.all_eq_true]
  constructor
  · intro h l hl site hsite
    cases site with
    | literal m => exact decide_eq_true (h.inner l hl m hsite)
    | call n =>
      simp only [Site.allows, List.all_eq_true, Bool.or_eq_true, decide_eq_true_eq]
      exact fun m hm => Decidable.or_iff_not_imp_left.mpr fun hn =>
        h.calls l hl n hsite m hm (Decidable.not_not.mp hn)
    | name | declaration => rfl
  · intro h
    refine ⟨fun l hl m hm => of_decide_eq_true (h l hl _ hm), fun l hl n hn m hm hlen => ?_⟩
    have hall := h l hl _ hn
    simp only [Site.allows, List.all_eq_true, Bool.or_eq_true, decide_eq_true_eq] at hall
    exact (hall m hm).resolve_left (not_not_intro hlen)

instance (script : Script) (rank : NodeId → Nat) : Decidable (script.Stratified rank) :=
  decidable_of_iff _ Script.stratified_iff.symm

/-- A literal with this node and number of parameters. -/
def Script.HasLiteral (script : Script) (literal : NodeId × Nat) : Prop :=
  ∃ l ∈ script.lambdas, l.node.id = literal.1 ∧ l.params.length = literal.2

namespace Analysis

/-! ### The lambda shapes that an analysis adds -/

/-- The shapes belong to literals that rank below a bound. -/
def State.RankBelow (rank : NodeId → Nat) (bound : Nat) (s : State) (ids : List ShapeId) : Prop :=
  ∀ id ∈ ids, ∃ literal, s.arena.literal? id = some literal ∧ rank literal.1 < bound

/-- From a state on only shapes of literals that rank below a bound are added to the queue. -/
structure Spawns (rank : NodeId → Nat) (bound : Nat) (s s' : State) : Prop where
  keeps : ∀ id literal, s.arena.literal? id = some literal → s'.arena.literal? id = some literal
  added : ∃ new, s'.pending = s.pending ++ new ∧ s'.RankBelow rank bound new

variable {α : Type} {ctx : Context} {rank : NodeId → Nat} {bound higher : Nat} {s s' s'' : State}

theorem State.RankBelow.of_spawns {ids : List ShapeId} {top : Nat}
    (h : s.RankBelow rank bound ids) (hs : Spawns rank top s s') : s'.RankBelow rank bound ids := by
  intro id hid
  obtain ⟨literal, hl, hlt⟩ := h id hid
  exact ⟨literal, hs.keeps id literal hl, hlt⟩

theorem State.RankBelow.append {xs ys : List ShapeId} (hx : s.RankBelow rank bound xs)
    (hy : s.RankBelow rank bound ys) : s.RankBelow rank bound (xs ++ ys) :=
  fun id hid => (List.mem_append.mp hid).elim (hx id) (hy id)

theorem State.RankBelow.mono {ids : List ShapeId} (h : s.RankBelow rank bound ids)
    (hle : bound ≤ higher) : s.RankBelow rank higher ids := by
  intro id hid
  obtain ⟨literal, hl, hlt⟩ := h id hid
  exact ⟨literal, hl, Nat.lt_of_lt_of_le hlt hle⟩

namespace Spawns

theorem of_quiet (ha : s'.arena.literal? = s.arena.literal?) (hp : s'.pending = s.pending) :
    Spawns rank bound s s' where
  keeps id literal h := by rw [ha, h]
  added := ⟨[], by rw [hp, List.append_nil], fun id hid => absurd hid List.not_mem_nil⟩

theorem trans (h : Spawns rank bound s s') (h' : Spawns rank bound s' s'') :
    Spawns rank bound s s'' where
  keeps id literal hl := h'.keeps id literal (h.keeps id literal hl)
  added := by
    obtain ⟨new, hnew, hrank⟩ := h.added
    obtain ⟨new', hnew', hrank'⟩ := h'.added
    refine ⟨new ++ new', by rw [hnew', hnew, List.append_assoc], ?_⟩
    exact (hrank.of_spawns h').append hrank'

theorem mono (h : Spawns rank bound s s') (hle : bound ≤ higher) : Spawns rank higher s s' where
  keeps := h.keeps
  added := by
    obtain ⟨new, hnew, hrank⟩ := h.added
    exact ⟨new, hnew, hrank.mono hle⟩

end Spawns

/-- All lambda shapes belong to literals of the script, and new ones rank below a bound. -/
def spawning (script : Script) (rank : NodeId → Nat) (bound : Nat) : Invariant where
  holds s := ∀ id literal, s.arena.literal? id = some literal → script.HasLiteral literal
  leads := Spawns rank bound
  valid _ _ := True
  known _ _ := True
  refl _ := .of_quiet rfl rfl
  trans := .trans
  valid_of_leads _ _ := trivial
  known_of_leads _ _ := trivial

variable {script : Script}

/-- An action that leaves the literals of shapes and the queue as they are. -/
theorem does_of_same {m : Analyze α} (hs : (spawning script rank bound).holds s)
    (ha : (m s).2.arena.literal? = s.arena.literal?) (hp : (m s).2.pending = s.pending) :
    (spawning script rank bound).Does s m where
  holds id literal hl := hs id literal (ha ▸ hl)
  leads := .of_quiet ha hp
  gives := trivial

theorem ignores : (spawning script rank bound).Ignores where
  valid _ _ := trivial
  known _ _ := trivial
  quiet hs h := does_of_same hs h.literals h.pending
  blocks hs hm := (does_of_same hs rfl rfl).bind fun _ s₁ hs₁ _ _ =>
    (hm s₁ hs₁).bind fun _ _ hs₂ _ _ => does_of_same hs₂ rfl rfl

theorem runs_lambdaLiteral {node : Node} {params : List Param}
    (hs : (spawning script rank bound).holds s) (hliteral : script.HasLiteral (node.id, params.length))
    (hrank : rank node.id < bound) :
    (spawning script rank bound).Finds s (lambdaLiteral node params) := by
  have harena (id : ShapeId) : (lambdaLiteral node params s).2.arena.literal? id =
      if id = s.arena.shapes.size then some (node.id, params.length) else s.arena.literal? id :=
    Arena.literal?_push_lambda s.arena _ id
  have hpending : (lambdaLiteral node params s).2.pending = s.pending ++ [s.arena.shapes.size] := rfl
  refine ⟨fun id literal hl => ?_, ⟨fun id literal hl => ?_, _, hpending, fun id hid => ?_⟩, trivial⟩
  · rw [harena] at hl
    split at hl
    · cases hl
      exact hliteral
    · exact hs id literal hl
  · rw [harena, if_neg ?_, hl]
    intro hid
    rw [hid, Arena.literal?, Arena.get_of_ge (Nat.le_refl _)] at hl
    cases hl
  · rw [List.mem_singleton] at hid
    exact ⟨_, by rw [harena, if_pos hid], hrank⟩

/-- Analyses of bodies add only shapes of literals that rank below the lambda. -/
def Enters (script : Script) (rank : NodeId → Nat) (enter : Enter) : Prop :=
  ∀ {bound s} method args, (spawning script rank bound).holds s →
    (∀ l, s.arena.lambda? method = some l → rank l.node ≤ bound) →
    (spawning script rank bound).Does s (enter method args)

theorem hasLiteral_of_lambda? (hs : (spawning script rank bound).holds s) {l : LambdaShape}
    (hl : s.arena.lambda? method = some l) :
    script.HasLiteral (l.node, l.paramCount) := by
  refine hs (s.arena.resolve method) _ ?_
  have hget : s.arena.get (s.arena.resolve method) = .lambda l := lambda?_eq_some.mp hl
  rw [Arena.literal?, hget]
  rfl

/-- A walk of the script spawns lambdas, and leaves no marks. -/
theorem walks {enter : Enter} {sites : List Site} (henter : Enters script rank enter)
    (hliterals : ∀ m, .literal m ∈ sites → m ∈ script.lambdas ∧ rank m.node.id < bound)
    (hcalls : ∀ n, .call n ∈ sites → ∀ m ∈ script.lambdas, m.params.length = n →
      rank m.node.id ≤ bound) (pieces : List Piece) :
    (spawning script rank bound).Walks (fun _ _ _ => True) ctx enter sites pieces := by
  refine ignores.walks (fun node params body hsite hs => ?_) (fun method l args hsite hs hl hcount => ?_)
    pieces
  · have hm := hliterals _ hsite
    exact (runs_lambdaLiteral hs ⟨_, hm.1, rfl, rfl⟩ hm.2).does
  · refine henter method (some args) hs fun l' hl' => ?_
    cases hl.symm.trans hl'
    obtain ⟨m, hm, hnode, hparams⟩ := hasLiteral_of_lambda? hs hl
    have hle := hcalls _ hsite m hm (hparams.trans hcount)
    rwa [show m.node.id = l.node from hnode] at hle

/-! ### Analyses of bodies -/

theorem does_openBody (hs : (spawning script rank bound).holds s) (method : ShapeId) (l : LambdaShape) :
    (spawning script rank bound).Does s (openBody method l) := by
  refine (does_of_same hs rfl rfl).bind fun _ s₁ hs₁ _ _ => ?_
  split
  · exact (does_of_same hs₁ rfl rfl).bind fun _ _ hs₂ _ _ => .pure hs₂ trivial
  · refine (does_of_same hs₁ rfl rfl).bind fun _ s₂ hs₂ _ _ => .get ?_
    refine (ignores.quiet hs₂ (.modifyArena fun a => ?_)).bind fun _ _ hs₃ _ _ => .pure hs₃ trivial
    exact Arena.literal?_modifyLambda a method (fun _ => rfl) fun _ => rfl

theorem does_startBody (hs : (spawning script rank bound).holds s) (method : ShapeId) (l : LambdaShape)
    (lambda : Lambda) (args : List ShapeId) :
    (spawning script rank bound).Does s (startBody method l lambda args) := by
  refine (does_of_same hs rfl rfl).bind fun _ s₁ hs₁ _ _ => ?_
  refine (does_openBody hs₁ method l).bind fun scope s₂ hs₂ _ _ => ?_
  refine (does_of_same hs₂ rfl rfl).bind fun layer s₃ hs₃ _ _ => ?_
  have hparams := quiet_declareParams (s := s₃) l.node args 0 lambda.params
  exact (ignores.quiet hs₃ hparams).bind fun _ s₄ hs₄ _ _ => .pure hs₄ trivial

theorem gathers : (spawning script rank bound).Gathers where
  starts hs := does_of_same hs rfl rfl
  ends hs := (does_of_same hs rfl rfl).imp fun _ _ _ _ _ => trivial

theorem runs_analyzeBody {enter : Enter} {lambda : Lambda}
    (W : (spawning script rank bound).Walks (fun _ _ _ => True) ctx enter lambda.body.sites
      lambda.body.pieces)
    (hs : (spawning script rank bound).holds s) (method : ShapeId) (l : LambdaShape)
    (args : List ShapeId) :
    (spawning script rank bound).Does s (analyzeBody ctx enter method l lambda args) := by
  refine .get ((does_startBody hs method l lambda args).bind fun _ s₁ hs₁ _ _ => ?_)
  refine (W.runs_bodyShape gathers hs₁).bind fun ret s₂ hs₂ _ _ => ?_
  exact (does_of_same hs₂ rfl rfl).bind fun _ s₃ hs₃ _ _ => .pure hs₃ trivial

section

variable (h : ctx.script.Stratified rank)

include h

theorem enters_enterLambda (depth : Nat) :
    Enters ctx.script rank (enterLambda ctx depth) := by
  induction depth with
  | zero => exact fun method args hs _ => .pure hs trivial
  | succ depth ih =>
    intro bound s method args hs hrank
    refine .get ?_
    split
    next => exact .pure hs trivial
    next l hl =>
      split
      next => exact .pure hs trivial
      next lambda hlambda =>
        split
        · exact .pure hs trivial
        · obtain ⟨hmem, hnode⟩ := Script.mem_of_lambda? hlambda
          have W : (spawning ctx.script rank (rank l.node)).Walks (fun _ _ _ => True) ctx
              (enterLambda ctx depth) lambda.body.sites lambda.body.pieces :=
            walks ih (fun m hm => ⟨(ctx.script.lists.inside lambda hmem).literals m hm,
              hnode ▸ h.inner lambda hmem m hm⟩) (fun n hn => hnode ▸ h.calls lambda hmem n hn) _
          have hbody := runs_analyzeBody W hs method l (args.getD [])
          exact ⟨hbody.holds, hbody.leads.mono (hrank l hl), trivial⟩

omit h in
theorem node_of_literal? {a : Arena} {literal : NodeId × Nat} {l : LambdaShape}
    (hliteral : a.literal? method = some literal) (hl : a.lambda? method = some l) :
    l.node = literal.1 := by
  have hresolve : a.resolve method = method := by
    rw [Arena.literal?] at hliteral
    rw [Arena.resolve, Arena.resolveWith]
    split <;> simp_all [Shape.literal?]
  rw [lambda?_eq_some, Arena.resolved, hresolve] at hl
  rw [Arena.literal?, hl] at hliteral
  cases hliteral
  rfl

/-- The analysis of a queued shape adds only shapes of literals that rank below it. -/
theorem runs_analyzeGeneric {literal : NodeId × Nat}
    (hs : (spawning ctx.script rank (rank literal.1)).holds s)
    (hliteral : s.arena.literal? method = some literal) :
    (spawning ctx.script rank (rank literal.1)).Does s (analyzeGeneric ctx method) := by
  have hgeneric (g : Option Signature) {s : State} :
      Quiet s (modifyArena (·.modifyLambda method fun l => { l with generic := g })) :=
    .modifyArena fun a => Arena.literal?_modifyLambda a method (fun _ => rfl) fun _ => rfl
  refine (ignores.quiet hs (.inArena fun a => Arena.literal?_of_shapes rfl)).bind
    fun arenaBound s₁ hs₁ hl₁ _ => ?_
  refine (ignores.quiet hs₁ (.skip rfl)).bind fun layerBound s₂ hs₂ hl₂ _ => ?_
  have hrank : ∀ l, s₂.arena.lambda? method = some l → rank l.node ≤ rank literal.1 := by
    intro l hl
    have hnode := node_of_literal? (hl₂.keeps _ _ (hl₁.keeps _ _ hliteral)) hl
    exact Nat.le_of_eq (congrArg rank hnode)
  refine (enters_enterLambda h _ method none hs₂ hrank).bind fun g s₃ hs₃ _ _ => ?_
  refine (ignores.quiet hs₃ (.modifyArena (f := (·.thaw arenaBound)) fun _ =>
    Arena.literal?_of_shapes rfl)).bind fun _ s₄ hs₄ _ _ => ?_
  refine (ignores.quiet hs₄ (.skip rfl)).bind fun _ s₅ hs₅ _ _ => ?_
  exact ignores.quiet hs₅ (hgeneric g)

/-! ### The queue becomes empty -/

/-- The queue becomes empty. All shapes in its front part are analyzed before those that are added
meanwhile, so the front part can be consumed first, and what is left then ranks lower. -/
theorem drain_ends {top : Nat} (hs : (spawning ctx.script rank top).holds s)
    (hrank : s.RankBelow rank bound s.pending) :
    ∃ budget, (drain ctx budget s).1 = true := by
  induction bound generalizing s with
  | zero =>
    have hp : s.pending = [] := List.eq_nil_iff_forall_not_mem.mpr fun id hid => by
      obtain ⟨literal, _, hlt⟩ := hrank id hid
      exact absurd hlt (Nat.not_lt_zero _)
    exact ⟨0, by rw [drain_of_empty hp]⟩
  | succ bound ih =>
    suffices hfront : ∀ (front back : List ShapeId) (s : State),
        (spawning ctx.script rank top).holds s → s.pending = front ++ back →
        s.RankBelow rank (bound + 1) front → s.RankBelow rank bound back →
        ∃ budget, (drain ctx budget s).1 = true from
      hfront s.pending [] s hs (List.append_nil _).symm hrank fun id hid =>
        absurd hid List.not_mem_nil
    intro front
    induction front with
    | nil =>
      intro back s hs hp _ hback
      exact ih hs (by rwa [hp])
    | cons method front ihfront =>
      intro back s hs hp hfront hback
      rw [List.cons_append] at hp
      obtain ⟨literal, hl, hlt⟩ := hfront method List.mem_cons_self
      let s₁ : State := { s with pending := front ++ back }
      have hfront₁ : s₁.RankBelow rank (bound + 1) front := fun id hid =>
        hfront id (List.mem_cons_of_mem _ hid)
      have hback₁ : s₁.RankBelow rank bound back := hback
      have hrun := runs_analyzeGeneric (s := s₁) h hs hl
      obtain ⟨new, hnew, hbelow⟩ := hrun.leads.added
      have hback₂ := (hback₁.of_spawns hrun.leads).append (hbelow.mono (Nat.le_of_lt_succ hlt))
      obtain ⟨budget, hbudget⟩ := ihfront (back ++ new) _ hrun.holds
        (by rw [hnew, List.append_assoc]) (hfront₁.of_spawns hrun.leads) hback₂
      exact ⟨budget + 1, by rw [drain_of_cons hp, hbudget]⟩

/-! ### Passes -/

omit h in
/-- All literals of a script rank below some bound. -/
theorem exists_above (rank : NodeId → Nat) (ls : List Lambda) :
    ∃ top, ∀ l ∈ ls, rank l.node.id < top := by
  induction ls with
  | nil => exact ⟨0, fun l hl => absurd hl List.not_mem_nil⟩
  | cons l rest ih =>
    obtain ⟨top, htop⟩ := ih
    refine ⟨top + rank l.node.id + 1, fun m hm => ?_⟩
    rcases List.mem_cons.mp hm with rfl | hm
    · omega
    · have := htop m hm
      omega

omit h in
theorem holds_start (widening : Widening) :
    (spawning script rank bound).holds { State.start widening with returns := [[]] } := by
  intro id literal hl
  have hnone : (State.start widening).arena.literal? id = none := by
    match id with
    | 0 | 1 | 2 | 3 | 4 => rfl
    | n + 5 => simp [Arena.literal?, Arena.get, Shape.literal?]
  cases hnone.symm.trans hl

/-- After the walk over the script itself all queued shapes rank below a bound. -/
theorem walked_rankBelow (widening : Widening) :
    ∃ top, (spawning ctx.script rank top).holds (.walked ctx widening) ∧
      (State.walked ctx widening).RankBelow rank top (State.walked ctx widening).pending := by
  obtain ⟨top, htop⟩ := exists_above rank ctx.script.lambdas
  have W : (spawning ctx.script rank top).Walks (fun _ _ _ => True) ctx (enter ctx) ctx.script.sites
      ctx.script.pieces :=
    walks (enters_enterLambda h _)
      (fun m hm => have hmem := ctx.script.lists.literals m hm; ⟨hmem, htop m hmem⟩)
      (fun n _ m hm _ => Nat.le_of_lt (htop m hm)) _
  have hrun := W.runs_stmts ctx.script.body false false (List.Subset.refl _) (List.Subset.refl _)
    (holds_start widening)
  obtain ⟨new, hnew, hbelow⟩ := hrun.leads.added
  refine ⟨top, hrun.holds, ?_⟩
  have hpending : (State.walked ctx widening).pending = new := hnew
  rw [hpending]
  exact hbelow

/-- A pass comes to an end, and a larger budget makes no difference. -/
theorem pass_ends (widening : Widening) :
    ∃ budget, (pass ctx budget (.start widening)).1 = true ∧ ∀ more,
      pass ctx (budget + more) (.start widening) = pass ctx budget (.start widening) := by
  obtain ⟨top, hs, hrank⟩ := walked_rankBelow h widening
  obtain ⟨budget, hbudget⟩ := drain_ends h hs hrank
  refine ⟨budget, hbudget, fun more => ?_⟩
  rw [pass_run, pass_run, drain_add hbudget]

theorem settle_ends (more number : Nat) (widening : Widening) :
    ∃ budget result, ∀ extra,
      settle ctx (budget + extra) more number widening = some result := by
  obtain ⟨budget, hdrained, hadd⟩ := pass_ends h widening
  induction more generalizing number widening budget with
  | zero =>
    refine ⟨budget, ofState ctx number (pass ctx budget (.start widening)).2, fun extra => ?_⟩
    rw [settle_run, hadd, hdrained]
    rfl
  | succ more ih =>
    by_cases hunstable : (pass ctx budget (.start widening)).2.arena.unstable = true
    · obtain ⟨budget', hdrained', hadd'⟩ :=
        pass_ends h (pass ctx budget (.start widening)).2.arena.widening
      obtain ⟨budget'', result, hresult⟩ := ih (number + 1) _ budget' hdrained' hadd'
      refine ⟨budget + budget'', result, fun extra => ?_⟩
      have hsplit : budget + budget'' + extra = budget'' + (budget + extra) := by omega
      rw [settle_run, Nat.add_assoc, hadd, hdrained]
      simp only [hunstable, Bool.not_true, Bool.false_eq_true, if_false, if_true]
      rw [← Nat.add_assoc, hsplit, hresult]
    · refine ⟨budget, ofState ctx number (pass ctx budget (.start widening)).2, fun extra => ?_⟩
      rw [settle_run, hadd, hdrained]
      simp only [hunstable, Bool.not_true, Bool.false_eq_true, if_false]

end

end Analysis

/-- The analysis of a stratified script comes to an end, whatever the types of the host and the
options are: some budget is enough, and a larger one gives the same answer. -/
theorem Script.analyze_ends_of_stratified {script : Script} {rank : NodeId → Nat}
    (h : script.Stratified rank) (types : Registry) (options : Options)
    (input : Option HostTypeId) :
    ∃ budget result, ∀ more, budget ≤ more →
      script.analyze types options input more = some result := by
  let ctx : Analysis.Context := { types, options, input, script }
  obtain ⟨budget, result, hresult⟩ : ∃ budget result, ∀ extra,
      Analysis.settle ctx (budget + extra) (options.maxPasses - 1) 1 {} = some result :=
    Analysis.settle_ends h _ _ _
  refine ⟨budget, result, fun more hle => ?_⟩
  obtain ⟨extra, rfl⟩ := Nat.exists_eq_add_of_le hle
  exact hresult extra

/-- A lambda that calls another one from inside a third. -/
theorem Script.analyze_ends_of_stratified_nested :
    ∃ script, Engine.parse "var twice = (g, x) => g(g(x));
        var make = (a, b, c) => () => twice((k) => k + a + b, c); return make(1, 2, 3)();" =
        .ok script ∧ script.Stratified (· - 21) ∧
      ∃ budget result, ∀ more, budget ≤ more →
        script.analyze (Engine.new {}).registry {} none more = some result := by
  obtain ⟨script, hparse, hcheck⟩ := Engine.exists_parsed "var twice = (g, x) => g(g(x));
        var make = (a, b, c) => () => twice((k) => k + a + b, c); return make(1, 2, 3)();"
    (fun script => decide (script.Stratified (· - 21))) (by decide +kernel)
  have hstratified := of_decide_eq_true hcheck
  exact ⟨script, hparse, hstratified,
    Script.analyze_ends_of_stratified hstratified (Engine.new {}).registry {} none⟩

end HostScript
