import HostScript.Proofs.Analysis.Events
import HostScript.Proofs.Analysis.Resolved
import HostScript.Proofs.Analysis.Steps
import HostScript.Proofs.Shape.Layers

/-!
# What an analysis keeps of its reads

While a pass goes on, the shape recorded for a node stays. The shape of a variable that was read
stays too, or the arena becomes unstable. Fields and elements that were read stay as the arena keeps
them. -/

namespace HostScript

variable {stack : List LayerId} {b a : Arena} {t : Layers} {n node : NodeId}
  {found : Option LayerId × Layers} {p method : ShapeId} {l : LambdaShape} {args : List ShapeId}

namespace Analysis

variable {ctx : Context} {s s' s'' : State} {x y : ShapeId}

/-- The layers of a stack are there, and there is one. -/
def State.Stacked (s : State) (stack : List LayerId) : Prop :=
  stack ≠ [] ∧ ∀ layer ∈ stack, layer < s.layers.layers.size

/-- All that a state refers to is there. -/
structure State.Sane (s : State) : Prop where
  sound : s.arena.Sound
  rooted : s.arena.Rooted
  distinct : s.arena.Distinct
  hosts : ∀ p ∈ s.arena.hosts.values, p < s.arena.shapes.size
  layers : ∀ {layer node p}, s.layers.get? layer node = some p → p < s.arena.shapes.size
  returns : ∀ shapes ∈ s.returns, ∀ p ∈ shapes, p < s.arena.shapes.size
  stack : s.Stacked s.stack
  envs : ∀ {i l}, s.arena.get i = .lambda l → s.Stacked l.env

/-- A later state of the same pass. A shape in a layer changes only at the nodes of variables, and
not after it was read, unless the arena becomes unstable. -/
structure State.Stands (ctx : Context) (s s' : State) : Prop where
  arena : s.arena.Later s'.arena
  reads : s.declarationReads ⊆ s'.declarationReads
  count : s.layers.layers.size ≤ s'.layers.layers.size
  problems : s'.problems = [] → s.problems = []
  resolved : s.Resolved ctx → s'.Resolved ctx
  layers : ∀ {layer node p}, s.layers.get? layer node = some p →
    ∃ q, s'.layers.get? layer node = some q ∧ (¬ ctx.Keeps node → q = p) ∧
      ((layer, node) ∈ s.declarationReads → q = p ∨ s'.arena.unstable = true)

theorem State.Stacked.later (h : s.Stacked stack)
    (hcount : s.layers.layers.size ≤ s'.layers.layers.size) : s'.Stacked stack :=
  ⟨h.1, fun layer hl => Nat.lt_of_lt_of_le (h.2 layer hl) hcount⟩

theorem State.stands_inArena (hb : s.arena.Later b) :
    s.Stands ctx { s with arena := b } where
  arena := hb
  reads := fun _ hm => hm
  count := Nat.le_refl _
  problems := id
  resolved := id
  layers := fun hp => ⟨_, hp, fun _ => rfl, fun _ => .inl rfl⟩

theorem State.Sane.stands_refl (h : s.Sane) : s.Stands ctx s :=
  State.stands_inArena h.sound.later_refl

theorem State.Stands.trans (h : s.Stands ctx s') (h' : s'.Stands ctx s'') (hs : s.Sane) :
    s.Stands ctx s'' where
  arena := h.arena.trans h'.arena hs.sound
  reads := fun _ hm => h'.reads (h.reads hm)
  count := h.count.trans h'.count
  problems := fun hp => h.problems (h'.problems hp)
  resolved := fun hr => h'.resolved (h.resolved hr)
  layers := fun {layer node p} hp => by
    obtain ⟨q, hq, hkeep, hread⟩ := h.layers hp
    obtain ⟨r, hr, hkeep', hread'⟩ := h'.layers hq
    refine ⟨r, hr, fun hn => (hkeep' hn).trans (hkeep hn), fun hm => ?_⟩
    rcases hread hm with rfl | hu
    · exact hread' (h.reads hm)
    · exact .inr (h'.arena.unstable hu)

/-- Reads stand while shapes change only at the nodes of variables. -/
def standing (ctx : Context) : Invariant where
  holds s := s.Sane ∧ s.scopes.Named ctx.Keeps
  leads s s' := s.arena.shapes.size ≤ s'.arena.shapes.size ∧
    (s.Sane → s'.Sane ∧ s.Stands ctx s')
  valid s x := x < s.arena.shapes.size
  known _ symbol := ctx.Keeps symbol.node
  refl _ := ⟨Nat.le_refl _, fun h => ⟨h, h.stands_refl⟩⟩
  trans h h' := ⟨h.1.trans h'.1, fun hs =>
    have hfirst := h.2 hs
    have hnext := h'.2 hfirst.1
    ⟨hnext.1, hfirst.2.trans hnext.2 hs⟩⟩
  valid_of_leads h hx := Nat.lt_of_lt_of_le hx h.1
  known_of_leads _ hk := hk

/-! ### Actions -/

variable {α : Type} {Q : State → α → Prop}

theorem Standing.runs_of_stands {m : Analyze α} (hsane : (m s).2.Sane) (hstands : s.Stands ctx (m s).2)
    (hnamed : (m s).2.scopes.Named ctx.Keeps) (hQ : Q (m s).2 (m s).1) :
    (standing ctx).Runs s m Q :=
  ⟨⟨hsane, hnamed⟩, ⟨hstands.arena.size, fun _ => ⟨hsane, hstands⟩⟩, hQ⟩

/-- A state with the same shapes, in which reads may have been noted and problems reported. -/
structure State.Alike (ctx : Context) (s s' : State) : Prop where
  arena : s'.arena = s.arena := by rfl
  layers : s'.layers = s.layers := by rfl
  stack : s'.stack = s.stack := by rfl
  reads : s.declarationReads ⊆ s'.declarationReads := by exact fun _ hm => hm
  problems : s'.problems = [] → s.problems = [] := by exact id
  resolved : s.Resolved ctx → s'.Resolved ctx := by exact id

theorem State.Alike.stands (ha : s.Alike ctx s') (h : s.Sane) : s.Stands ctx s' where
  arena := by
    rw [ha.arena]
    exact h.sound.later_refl
  reads := ha.reads
  count := by rw [ha.layers]
  problems := ha.problems
  resolved := ha.resolved
  layers := fun hp => ⟨_, by rw [ha.layers]; exact hp, fun _ => rfl, fun _ => .inl rfl⟩

theorem State.Alike.sane (ha : s.Alike ctx s') (h : s.Sane)
    (hreturns : ∀ shapes ∈ s'.returns, ∀ p ∈ shapes, p < s.arena.shapes.size) : s'.Sane := by
  have hstacked {stack : List LayerId} (hs : s.Stacked stack) : s'.Stacked stack :=
    hs.later (by rw [ha.layers])
  refine ⟨?_, ?_, ?_, ?_, ?_, ?_, ?_, ?_⟩
  · rw [ha.arena]
    exact h.sound
  · rw [ha.arena]
    exact h.rooted
  · rw [ha.arena]
    exact h.distinct
  · rw [ha.arena]
    exact h.hosts
  · rw [ha.arena, ha.layers]
    exact h.layers
  · rw [ha.arena]
    exact hreturns
  · rw [ha.stack]
    exact hstacked h.stack
  · rw [ha.arena]
    exact fun hl => hstacked (h.envs hl)

theorem State.Alike.of_report (cause : Cause) (span : Span) (s : State) :
    s.Alike ctx (report cause span s).2 :=
  ⟨rfl, rfl, rfl, fun _ hm => hm, fun hp => (List.append_eq_nil_iff.mp hp).1, id⟩

theorem State.Sane.inArena (h : s.Sane) (hb : s.arena.Goes b) :
    ({ s with arena := b } : State).Sane where
  sound := hb.sound
  rooted := hb.rooted
  distinct := hb.distinct h.distinct
  hosts := fun p hp => (hb.hosts p hp).elim
    (fun hold => Nat.lt_of_lt_of_le (h.hosts p hold) hb.later.size) id
  layers := fun hp => Nat.lt_of_lt_of_le (h.layers hp) hb.later.size
  returns := fun shapes hs p hp => Nat.lt_of_lt_of_le (h.returns shapes hs p hp) hb.later.size
  stack := h.stack
  envs := fun hl => by
    obtain ⟨l', hl', henv⟩ := hb.lambda hl
    rw [henv]
    exact h.envs hl'

theorem Standing.runs_inArena {f : Arena → α × Arena} (h : (standing ctx).holds s)
    (hgoes : s.arena.Goes (f s.arena).2)
    (hQ : Q { s with arena := (f s.arena).2 } (f s.arena).1) :
    (standing ctx).Runs s (inArena f) Q :=
  runs_of_stands (h.1.inArena hgoes) (State.stands_inArena hgoes.later) h.2 hQ

theorem Standing.runs_modifyArena {f : Arena → Arena} (h : (standing ctx).holds s)
    (hgoes : s.arena.Goes (f s.arena)) : (standing ctx).Does s (modifyArena f) :=
  runs_of_stands (h.1.inArena hgoes) (State.stands_inArena hgoes.later) h.2 trivial

/-- The layers of a state change, such that entries are only added or replaced. -/
theorem State.Sane.inLayers (h : s.Sane)
    (hcount : s.layers.layers.size ≤ t.layers.size)
    (hin : ∀ {layer node p}, t.get? layer node = some p →
      s.layers.get? layer node = some p ∨ p < s.arena.shapes.size) :
    ({ s with layers := t } : State).Sane where
  sound := h.sound
  rooted := h.rooted
  distinct := h.distinct
  hosts := h.hosts
  layers := fun hp => (hin hp).elim h.layers id
  returns := h.returns
  stack := h.stack.later hcount
  envs := fun hl => (h.envs hl).later hcount

theorem get?_of_set? (hset : t.set? stack n x = some found) {layer : LayerId}
    (hp : t.get? layer node = some p) :
    found.2.get? layer node = some p := by
  rcases Layers.set?_eq_some hset with ⟨heq, _⟩ | ⟨top, _, hnone, heq⟩
  · rw [heq, hp]
  · rw [heq, Layers.get?_put, if_neg, hp]
    rintro ⟨rfl, _, rfl⟩
    cases hnone.symm.trans hp

theorem get?_before_set? (hset : t.set? stack n x = some found) {layer : LayerId}
    (hp : found.2.get? layer node = some p) :
    t.get? layer node = some p ∨ stack.getLast? = some layer ∧ node = n ∧ p = x := by
  rcases Layers.set?_eq_some hset with ⟨heq, _⟩ | ⟨top, htop, _, heq⟩
  · exact .inl (heq ▸ hp)
  · rw [heq, Layers.get?_put] at hp
    split at hp
    next hwhere => exact .inr ⟨hwhere.1 ▸ htop, hwhere.2.2, (Option.some.inj hp).symm⟩
    next => exact .inl hp

theorem size_set? (hset : t.set? stack n x = some found) :
    found.2.layers.size = t.layers.size := by
  rcases Layers.set?_eq_some hset with ⟨heq, _⟩ | ⟨top, _, _, heq⟩ <;> rw [heq]
  exact Layers.size_put ..

theorem State.record_stands (ctx : Context) (h : s.Sane) (node : NodeId) (span : Span)
    (hx : x < s.arena.shapes.size) :
    (record node x span s).2.Sane ∧ s.Stands ctx (record node x span s).2 := by
  rw [record_run]
  cases hset : s.layers.set? s.stack node x with
  | none =>
    have ha : s.Alike ctx (report (.compiler (.shapeAlreadySet node)) span s).2 := .of_report ..
    exact ⟨ha.sane h h.returns, ha.stands h⟩
  | some found =>
    have hcount := Nat.le_of_eq (size_set? hset).symm
    refine ⟨h.inLayers hcount fun hp => ?_, h.sound.later_refl, fun _ hm => hm, hcount, id, id,
      fun hp => ⟨_, get?_of_set? hset hp, fun _ => rfl, fun _ => .inl rfl⟩⟩
    exact (get?_before_set? hset hp).imp id fun hnew => by rw [hnew.2.2]; exact hx

/-! ### Names -/

theorem keeps_of_meaning? (h : s.scopes.Named ctx.Keeps) {n : Node} {name : String} {r : Resolution}
    (hr : s.meaning? ctx n name = some r) (symbol : Symbol) (hsymbol : r = .local symbol) :
    ctx.Keeps symbol.node := by
  cases hsymbol
  obtain ⟨scope, hfind⟩ := meaning?_local hr
  exact h.find? hfind

theorem shape?_eq_some (hp : t.shape? stack node = some p) :
    ∃ layer, t.find? stack node = some layer ∧ t.get? layer node = some p := by
  obtain ⟨layer, hlayer, hget⟩ := Option.bind_eq_some_iff.mp hp
  exact ⟨layer, hlayer, hget⟩

/-! ### Stores and declarations -/

theorem goes_forceDeclaration (h : a.Sound) (hr : a.Rooted) (node : NodeId) :
    a.Goes (a.forceDeclaration node) :=
  Arena.goes_of_shapes h hr rfl rfl (.of_shapes rfl (fun _ hm => hm) (fun _ hm => hm) fun _ => rfl)

/-- A frozen layer keeps its shapes, and in another one the shape that was found is replaced. -/
theorem replace_eq {layer : LayerId} (hfind : t.find? stack node = some layer) :
    t.replace stack node x = (none, t) ∨ t.replace stack node x = t.put layer node x := by
  rw [Layers.replace]
  split
  · exact .inl rfl
  · simp only [hfind, Option.getD_some]
    split
    · exact .inl rfl
    · exact .inr rfl

theorem State.widen_stands (h : s.Sane) (symbol : Symbol) {old : ShapeId}
    (hold : s.layers.shape? s.stack symbol.node = some old) (hsymbol : ctx.Keeps symbol.node)
    (hx : x < s.arena.shapes.size) :
    (s.widen symbol x).Sane ∧ s.Stands ctx (s.widen symbol x) := by
  obtain ⟨layer, hfind, hget⟩ := shape?_eq_some hold
  have hlt := Layers.lt_of_get? hget
  rcases replace_eq (x := x) hfind with heq | heq
  · have hsame : s.widen symbol x = s := by
      rw [State.widen, heq]
    rw [hsame]
    exact ⟨h, h.stands_refl⟩
  · have hput : (s.layers.put layer symbol.node x).1 = some layer := by
      rw [Layers.put, if_pos hlt]
    have hstate : s.widen symbol x = { s with
        layers := (s.layers.put layer symbol.node x).2
        arena := if s.declarationReads.contains (layer, symbol.node) then
          s.arena.forceDeclaration symbol.node else s.arena } := by
      rw [State.widen, heq, hput]
    have hgoes : s.arena.Goes (if s.declarationReads.contains (layer, symbol.node) then
        s.arena.forceDeclaration symbol.node else s.arena) := by
      split
      · exact goes_forceDeclaration h.sound h.rooted symbol.node
      · exact .refl h.sound h.rooted
    have hcount := Nat.le_of_eq (Layers.size_put s.layers layer symbol.node x).symm
    rw [hstate]
    refine ⟨(h.inLayers (t := (s.layers.put layer symbol.node x).2) hcount ?_).inArena hgoes,
      hgoes.later, fun _ hm => hm, hcount, id, id, fun {other node p} hp => ?_⟩
    · intro other node p hp
      rw [Layers.get?_put] at hp
      split at hp
      · cases hp
        exact .inr hx
      · exact .inl hp
    · show ∃ q, (s.layers.put layer symbol.node x).2.get? other node = some q ∧ _
      rw [Layers.get?_put]
      split
      next hwhere =>
        refine ⟨x, rfl, fun hn => absurd hsymbol (hwhere.2.2 ▸ hn), fun hread => .inr ?_⟩
        rw [hwhere.1, hwhere.2.2] at hread
        show (if _ then _ else _ : Arena).unstable = true
        rw [if_pos (List.contains_iff_mem.mpr hread)]
        rfl
      next => exact ⟨p, hp, fun _ => rfl, fun _ => .inl rfl⟩

theorem State.Alike.of_declare (name : String) (symbol : Symbol) (x : ShapeId) (span : Span) (s : State) :
    (record symbol.node (s.declaredShape symbol.node x) span s).2.Alike ctx
      (declare name symbol x span s).2 := by
  rw [declare_run, State.declareName]
  split
  · exact {}
  · exact ⟨rfl, rfl, rfl, fun _ hm => hm, fun hp => (List.append_eq_nil_iff.mp hp).1, id⟩

theorem named_declareName (h : s.scopes.Named ctx.Keeps) (name : String) {symbol : Symbol}
    (hsymbol : ctx.Keeps symbol.node) (span : Span) :
    (s.declareName name symbol span).scopes.Named ctx.Keeps := by
  rw [State.declareName]
  split
  next scopes hdeclare => exact h.declare hsymbol hdeclare
  next => exact h

/-! ### Lambdas -/

theorem Standing.runs_lambdaLiteral (h : (standing ctx).holds s) (node : Node) (params : List Param) :
    (standing ctx).Finds s (lambdaLiteral node params) := by
  let l := s.lambdaShape node params
  have hrun := lambdaLiteral_run node params s
  have hsound : (s.arena.push (.lambda l)).2.Sound :=
    h.1.sound.push_data (fun p hp => by simp [Shape.parts, l, State.lambdaShape] at hp) rfl
  have hlater : s.arena.Later (s.arena.push (.lambda l)).2 := Arena.later_push h.1.sound _
  have hsane : ({ s with arena := (s.arena.push (.lambda l)).2 } : State).Sane := by
    refine ⟨hsound, h.1.rooted.push (fun hc => by cases hc),
      h.1.distinct.push (fun _ _ heq => by cases heq), fun p hp => ?_, fun hp => ?_, fun shapes hs p hp => ?_, h.1.stack, fun {i l'} hl => ?_⟩
    · exact Nat.lt_of_lt_of_le (h.1.hosts p hp) hlater.size
    · exact Nat.lt_of_lt_of_le (h.1.layers hp) hlater.size
    · exact Nat.lt_of_lt_of_le (h.1.returns shapes hs p hp) hlater.size
    · dsimp only at hl
      rw [Arena.get_push] at hl
      split at hl
      · cases hl
        exact h.1.stack
      · exact h.1.envs hl
  refine runs_of_stands ?_ ?_ ?_ ?_ <;> rw [hrun]
  · exact { hsane with }
  · exact { State.stands_inArena hlater with }
  · exact h.2
  · show s.arena.shapes.size < (s.arena.push (.lambda l)).2.shapes.size
    rw [Arena.size_push]
    exact Nat.lt_succ_self _

/-- The shapes of a signature are in the arena. -/
def State.Has (s : State) (signature : Signature) : Prop :=
  signature.ret < s.arena.shapes.size ∧ ∀ p ∈ signature.args, p < s.arena.shapes.size

/-- A signature that is found has the same arguments. -/
theorem existingSignature?_eq_some {k : Nat} (h : existingSignature? a l args = some k) :
    ∃ signature, l.signatures[k]? = some signature ∧
      signature.args.map a.resolve = args.map a.resolve := by
  obtain ⟨hlt, hfound, _⟩ := List.findIdx?_eq_some_iff_getElem.mp h
  exact ⟨_, List.getElem?_eq_getElem hlt, beq_iff_eq.mp hfound⟩

theorem ne_of_existingSignature? (h : existingSignature? a l args = none) :
    ∀ signature ∈ l.signatures, signature.args.map a.resolve ≠ args.map a.resolve := by
  intro signature hmem heq
  have hnot := List.findIdx?_eq_none_iff.mp h signature hmem
  rw [heq, beq_self_eq_true] at hnot
  cases hnot

theorem lambda?_modifyLambda (h : a.Sound) (hl : a.lambda? x = some l)
    {f : LambdaShape → LambdaShape} (hgrows : ∀ l, l.signatures <+: (f l).signatures) :
    (a.modifyLambda x f).lambda? x = some (f l) := by
  have hresolved : a.resolved x = .lambda l := lambda?_eq_some.mp hl
  have hget : a.get (a.resolve x) = .lambda l := hresolved
  have hset : a.modifyLambda x f = a.set (a.resolve x) (.lambda (f l)) := by
    rw [Arena.modifyLambda, hresolved]
  rw [lambda?_eq_some, Arena.resolved, h.resolve_modifyLambda x hgrows, hset,
    Arena.get_set_self (Arena.lt_size_of_get (by rw [hget]; exact Shape.noConfusion))]

section

variable (h : (standing ctx).holds s)

include h

theorem Standing.runs_addSignature {signature : Signature} (hsig : s.Has signature)
    (hl : s.arena.lambda? x = some l) :
    (standing ctx).Runs s (modifyArena fun a => a.modifyLambda x fun l =>
      { l with signatures := l.signatures ++ [signature] }) fun s _ =>
        s.arena.signature? x l.signatures.length = some signature := by
  have hgrows (l : LambdaShape) : l.signatures <+: l.signatures ++ [signature] :=
    List.prefix_append ..
  have hdoes := runs_modifyArena h
    (f := fun a => a.modifyLambda x fun l => { l with signatures := l.signatures ++ [signature] })
    (Arena.goes_modifyLambda h.1.sound h.1.rooted x hgrows (fun _ => rfl) fun l hl p hp => ?_)
  · refine ⟨hdoes.holds, hdoes.leads, ?_⟩
    show ((s.arena.modifyLambda x _).lambda? x).bind _ = _
    rw [lambda?_modifyLambda h.1.sound hl hgrows]
    simp
  simp only [Shape.parts, List.flatMap_append, List.mem_append, List.flatMap_cons,
    List.flatMap_nil, List.append_nil, List.mem_cons] at hp
  rcases hp with hp | rfl | hp
  · refine h.1.sound.inside (i := s.arena.resolve x) ?_
    rw [show s.arena.get (s.arena.resolve x) = .lambda l from hl]
    exact hp
  · exact hsig.1
  · exact hsig.2 p hp

/-! ### Analyses of bodies -/

/-- The analysis turns to another body, or back to the one before. -/
theorem Standing.runs_turn {m : Analyze α} {scopes : Scopes} {enclosing active : List NodeId}
    (hrun : (m s).2 = { s with scopes, stack, enclosing, active })
    (hscopes : scopes.Named ctx.Keeps) (hstack : s.Stacked stack) : (standing ctx).Does s m := by
  refine runs_of_stands ?_ ?_ ?_ trivial <;> rw [hrun]
  · exact { h.1 with stack := hstack }
  · exact { h.1.stands_refl with }
  · exact hscopes

theorem Standing.runs_newLayer {m : Analyze α} {enclosing : List NodeId} (hrun : (m s).2 = { s with
      layers := s.layers.newLayer.2, stack := s.stack ++ [s.layers.layers.size], enclosing }) :
    (standing ctx).Does s m := by
  have hsize : s.layers.newLayer.2.layers.size = s.layers.layers.size + 1 := Array.size_push ..
  have hcount : s.layers.layers.size ≤ s.layers.newLayer.2.layers.size := by
    rw [hsize]
    exact Nat.le_succ _
  have hsane : ({ s with layers := s.layers.newLayer.2 } : State).Sane :=
    h.1.inLayers hcount fun hp => .inl (by rwa [Layers.get?_newLayer] at hp)
  refine runs_of_stands ?_ ?_ ?_ trivial <;> rw [hrun]
  · refine { hsane with stack := ⟨List.append_ne_nil_of_right_ne_nil _ (List.cons_ne_nil _ _), ?_⟩ }
    intro layer hl
    rcases List.mem_append.mp hl with hl | hl
    · exact hsane.stack.2 layer hl
    · rw [List.mem_singleton.mp hl]
      exact Nat.lt_of_lt_of_eq (Nat.lt_succ_self _) hsize.symm
  · exact { h.1.stands_refl with
      count := hcount
      layers := fun hp => ⟨_, (Layers.get?_newLayer ..).trans hp, fun _ => rfl, fun _ => .inl rfl⟩ }
  · exact h.2

theorem Standing.runs_noteLambda (x : ShapeId) {f : LambdaShape → LambdaShape}
    (hsignatures : ∀ l, (f l).signatures = l.signatures) (henv : ∀ l, (f l).env = l.env) :
    (standing ctx).Does s (modifyArena (·.modifyLambda x f)) := by
  refine runs_modifyArena h (Arena.goes_modifyLambda h.1.sound h.1.rooted x
    (fun l => by rw [hsignatures]) henv fun l hl p hp => ?_)
  refine h.1.sound.inside (i := s.arena.resolve x) ?_
  rw [show s.arena.get (s.arena.resolve x) = .lambda l from hl]
  rwa [Shape.parts, hsignatures] at hp

/-! ### Passes -/

theorem Standing.runs_frozenLayers {m : Analyze α} {n : Nat}
    (hrun : (m s).2 = { s with layers := { s.layers with frozenBelow := n } }) :
    (standing ctx).Does s m := by
  refine runs_of_stands ?_ ?_ ?_ trivial <;> rw [hrun]
  · exact { h.1 with }
  · exact { h.1.stands_refl with }
  · exact h.2

end

theorem goes_frozenBelow (h : a.Sound) (hr : a.Rooted) (n : Nat) :
    a.Goes { a with frozenBelow := n } :=
  Arena.goes_of_shapes h hr rfl rfl (.of_shapes rfl (fun _ hm => hm) (fun _ hm => hm) id)

/-- The shapes that a pass starts with are no records, arrays or lambdas. -/
theorem get_start (widening : Widening) (i : ShapeId) :
    (({ widening } : Arena).get i).isCompound = false ∧ ∀ l, ({ widening } : Arena).get i ≠ .lambda l := by
  by_cases hi : i < 5
  · exact ⟨Arena.isCompound_first i hi, Arena.isLambda_first i hi⟩
  · rw [Arena.get_of_ge (Nat.le_of_not_lt hi)]
    exact ⟨rfl, fun _ => Shape.noConfusion⟩

theorem get?_start (layer : LayerId) (node : NodeId) : ({} : Layers).get? layer node = none := by
  cases layer <;> rfl

theorem Standing.holds_start (widening : Widening) (ctx : Context) :
    (standing ctx).holds (State.start widening) := by
  refine ⟨⟨Arena.sound_start widening, fun i hi => ?_, fun i fields origins hi => ?_,
    fun p hp => ?_, fun {layer node p} hp => ?_,
    fun shapes hs p hp => ?_, ⟨List.cons_ne_nil _ _, fun layer hl => ?_⟩, fun {i l} hl => ?_⟩,
    fun id scope hget d hd => ?_⟩
  · rw [(get_start widening i).1] at hi
    cases hi
  · have hcompound := (get_start widening i).1
    rw [show ({ widening } : Arena).get i = _ from hi] at hcompound
    cases hcompound
  · cases hp
  · rw [get?_start] at hp
    cases hp
  · cases hs
  · rw [List.mem_singleton.mp hl]
    exact Nat.one_pos
  · exact absurd hl ((get_start widening i).2 l)
  · cases id with
    | zero =>
      cases hget
      cases hd
    | succ id => simp at hget

end Analysis

end HostScript
