import HostScript.Proofs.Engine
import HostScript.Proofs.Analysis.Changes

/-!
# An analysis that does not come to an end

The lambda `f` of `var f = (h) => () => f([]);` gives a lambda that calls `f` with a new array. Each
analysis of the inner lambda asks for a signature of `f` that is not there yet, and the analysis for
this signature meets the inner literal again: it adds the next lambda shape to the queue.
-/

namespace HostScript

namespace Endless

def use : Expr :=
  .ident ⟨1, 21, 22⟩ "f"

def array : Expr :=
  .array ⟨2, 23, 25⟩ []

def inner : Lambda where
  node := ⟨4, 15, 26⟩
  params := []
  body := .expr (.call ⟨3, 21, 26⟩ use [array])

def outer : Lambda where
  node := ⟨5, 8, 26⟩
  params := [⟨⟨0, 9, 10⟩, "h"⟩]
  body := .expr (.lambda inner.node inner.params inner.body)

/-- The script `var f = (h) => () => f([]);`. -/
def script : Script where
  body := [.declare ⟨6, 0, 26⟩ "f" ⟨4, 5⟩ (some (.lambda outer.node outer.params outer.body))]
  nodeCount := 7

def isScript : Script → Bool
  | ⟨[.declare ⟨6, 0, 26⟩ "f" ⟨4, 5⟩ (some (.lambda ⟨5, 8, 26⟩ [⟨⟨0, 9, 10⟩, "h"⟩] (.expr (.lambda
      ⟨4, 15, 26⟩ []
        (.expr (.call ⟨3, 21, 26⟩ (.ident ⟨1, 21, 22⟩ "f") [.array ⟨2, 23, 25⟩ []]))))))],
      7⟩ => true
  | _ => false

theorem eq_of_isScript {s : Script} (h : isScript s = true) : s = script := by
  unfold isScript at h
  split at h
  · rfl
  · cases h

/-- The node that declares the variable. -/
abbrev declaration : NodeId :=
  6

/-- The shape of the outer lambda. -/
abbrev method : ShapeId :=
  5

/-! ### Scopes -/

/-- The variable is declared in the root, and no scope inside hides it. -/
def Offers : ScopeId → Scope → Prop
  | 0, c => c.parent = none ∧ c.names.get? "f" = some ⟨.var declaration, 4⟩
  | id + 1, c => (∃ parent ≤ id, c.parent = some parent) ∧ c.names.get? "f" = none

variable {t u : Scopes} {id : ScopeId}

theorem Offers.of_eq {c c' : Scope} (h : Offers id c) (hparent : c'.parent = c.parent)
    (hname : c'.names.get? "f" = c.names.get? "f") : Offers id c' := by
  cases id <;> simpa only [Offers, hparent, hname] using h

theorem Offers.turn {c : Scope} (children : List ScopeId) (alive : Bool) (h : Offers id c) :
    Offers id { c with children, alive } :=
  h.of_eq rfl rfl

/-- From each scope the variable is seen. -/
theorem find_variable (h : t.Each Offers) :
    ∀ (budget : Nat) (id : ScopeId), id < budget → id < t.scopes.size →
      (t.outwards budget id).findSome? (Scopes.Scope.before? "f" 21) = some (.var declaration, 0)
  | budget + 1, 0, _, hsize => by
    have hroot := Array.getElem?_eq_getElem hsize
    obtain ⟨hparent, hname⟩ := h 0 _ hroot
    rw [Scopes.outwards_root _ hroot hparent]
    simp [Scopes.Scope.before?, hname]
  | budget + 1, id + 1, hbudget, hsize => by
    have hscope := Array.getElem?_eq_getElem hsize
    obtain ⟨⟨parent, hle, hparent⟩, hname⟩ := h (id + 1) _ hscope
    rw [Scopes.outwards_inner _ hscope hparent, List.findSome?_cons]
    simp only [Scopes.Scope.before?, hname]
    exact find_variable h budget parent (Nat.lt_of_le_of_lt hle (Nat.lt_of_succ_lt_succ hbudget))
      (Nat.lt_of_le_of_lt hle (Nat.lt_of_succ_lt hsize))

end Endless

namespace Analysis

open Endless

variable {ctx : Context} {a b : Arena} {s s' : State} {l : LambdaShape} {m x : ShapeId}
  {scopes n : Nat}

/-! ### Shapes of the two lambdas -/

/-- A shape of one of the two lambdas. Its scopes are among the first `scopes` ones, and its
signatures are for arrays. -/
structure Circling (a : Arena) (scopes : Nat) (id : ShapeId) (l : LambdaShape) : Prop where
  node : l.node = if id = method then outer.node.id else inner.node.id
  paramCount : id = method → l.paramCount = 1
  env : Layers.root ∈ l.env
  defScope : l.defScope < scopes
  bodyScope : ∀ body, l.bodyScope = some body → 0 < body ∧ body < scopes
  signatures : ∀ g ∈ l.signatures, ∃ y element origins, g.args = [y] ∧
    a.get y = .array element origins

theorem lt_size_of_lambda (h : a.get m = .lambda l) : m < a.shapes.size :=
  Nat.lt_of_not_le fun hle => by
    rw [Arena.get_of_ge hle] at h
    cases h

theorem get_push_of_ne {new : Shape} (hx : a.get x ≠ .unknown) :
    (a.push new).2.get x = a.get x := by
  rw [Arena.get_push, if_neg]
  rintro rfl
  exact hx (Arena.get_of_ge (Nat.le_refl _))

/-- Arrays of `a` are arrays of `b`. -/
def KeepsArrays (a b : Arena) : Prop :=
  ∀ y element origins, a.get y = .array element origins → b.get y = .array element origins

theorem keepsArrays_modifyLambda (a : Arena) (m : ShapeId) (f : LambdaShape → LambdaShape) :
    KeepsArrays a (a.modifyLambda m f) := by
  intro y element origins hy
  rcases get_modifyLambda_cases a m y f with hsame | ⟨l', _, hl', _⟩
  · exact hsame.trans hy
  · cases hl'.symm.trans hy

theorem keepsArrays_push (a : Arena) (new : Shape) : KeepsArrays a (a.push new).2 := by
  intro y element origins hy
  rw [get_push_of_ne (by rw [hy]; exact nofun), hy]

theorem Circling.mono {scopes' : Nat} {id : ShapeId} (h : Circling a scopes id l)
    (hle : scopes ≤ scopes') (hab : KeepsArrays a b) : Circling b scopes' id l where
  node := h.node
  paramCount := h.paramCount
  env := h.env
  defScope := Nat.lt_of_lt_of_le h.defScope hle
  bodyScope body hbody :=
    ⟨(h.bodyScope body hbody).1, Nat.lt_of_lt_of_le (h.bodyScope body hbody).2 hle⟩
  signatures g hg := by
    obtain ⟨y, element, origins, hargs, hy⟩ := h.signatures g hg
    exact ⟨y, element, origins, hargs, hab y element origins hy⟩

/-! ### States of the analysis -/

/-- All lambda shapes are those of the two lambdas, and the variable is seen from everywhere. -/
structure Circles (s : State) : Prop where
  stack : Layers.root ∈ s.stack
  layers : ∀ layer, s.layers.get? layer declaration =
    if layer = Layers.root then some method else none
  scopes : s.scopes.Each Offers
  current : s.scopes.current < s.scopes.scopes.size
  shape : ∃ l, s.arena.get method = .lambda l
  lambdas : ∀ id l, s.arena.get id = .lambda l → Circling s.arena s.scopes.scopes.size id l
  pending : ∀ m ∈ s.pending, ∃ l, s.arena.get m = .lambda l

/-- At least `n` lambdas are added to the queue, and nothing else is under analysis than before. -/
structure Adds (n : Nat) (s s' : State) : Prop where
  circles : Circles s'
  active : s'.active = s.active
  scopes : s.scopes.scopes.size ≤ s'.scopes.scopes.size
  pending : s.pending.length + n ≤ s'.pending.length
  arrays : KeepsArrays s.arena s'.arena

theorem Adds.same (h : Circles s') (hactive : s'.active = s.active)
    (hscopes : s'.scopes.scopes.size = s.scopes.scopes.size) (hpending : s'.pending = s.pending)
    (harena : s'.arena = s.arena) : Adds 0 s s' :=
  ⟨h, hactive, Nat.le_of_eq hscopes.symm, Nat.le_of_eq (congrArg _ hpending.symm),
    harena ▸ fun _ _ _ hy => hy⟩

theorem Adds.trans {k : Nat} {s'' : State} (h : Adds n s s') (h' : Adds k s' s'') :
    Adds (n + k) s s'' where
  circles := h'.circles
  active := h'.active.trans h.active
  scopes := h.scopes.trans h'.scopes
  pending := by
    have hfirst := h.pending
    have hsecond := h'.pending
    omega
  arrays y element origins hy := h'.arrays y element origins (h.arrays y element origins hy)

theorem arena_record (node : NodeId) (x : ShapeId) (span : Span) (s : State) :
    (record node x span s).2.arena = s.arena := by
  rw [record_run]
  cases s.layers.set? s.stack node x <;> rfl

namespace Circles

variable (h : Circles s)
include h

theorem arena (hlambda : ∀ id l, s.arena.get id = .lambda l → ∃ l', b.get id = .lambda l')
    (harrays : KeepsArrays s.arena b)
    (hnew : ∀ id l, b.get id = .lambda l → Circling s.arena s.scopes.scopes.size id l) :
    Circles { s with arena := b } where
  stack := h.stack
  layers := h.layers
  scopes := h.scopes
  current := h.current
  shape := by
    obtain ⟨l, hl⟩ := h.shape
    exact hlambda method l hl
  lambdas id l hl := (hnew id l hl).mono (Nat.le_refl _) harrays
  pending m hm := by
    obtain ⟨l, hl⟩ := h.pending m hm
    exact hlambda m l hl

theorem push {new : Shape}
    (hnew : ∀ l, new = .lambda l → Circling s.arena s.scopes.scopes.size s.arena.shapes.size l) :
    Circles { s with arena := (s.arena.push new).2 } := by
  refine h.arena (fun id l hl => ⟨l, by rw [get_push_of_ne (by rw [hl]; exact nofun), hl]⟩)
    (keepsArrays_push _ _) fun id l hl => ?_
  rw [Arena.get_push] at hl
  split at hl
  next hid => exact hid ▸ hnew l hl
  next => exact h.lambdas id l hl

theorem modifyLambda (m : ShapeId) {f : LambdaShape → LambdaShape}
    (hf : ∀ id l, Circling s.arena s.scopes.scopes.size id l →
      Circling s.arena s.scopes.scopes.size id (f l)) :
    Circles { s with arena := s.arena.modifyLambda m f } := by
  refine h.arena (fun id l hl => ?_) (keepsArrays_modifyLambda _ _ _) fun id l hl => ?_
  · rcases get_modifyLambda_cases s.arena m id f with hsame | ⟨l', _, _, hget⟩
    · exact ⟨l, hsame.trans hl⟩
    · exact ⟨_, hget⟩
  · rcases get_modifyLambda_cases s.arena m id f with hsame | ⟨l', _, hl', hget⟩
    · exact h.lambdas id l (hsame ▸ hl)
    · cases hget.symm.trans hl
      exact hf id l' (h.lambdas id l' hl')

theorem turn {t : Scopes} (heach : t.Each Offers) (hcurrent : t.current < t.scopes.size)
    (hsize : s.scopes.scopes.size ≤ t.scopes.size) : Circles { s with scopes := t } where
  stack := h.stack
  layers := h.layers
  scopes := heach
  current := hcurrent
  shape := h.shape
  lambdas id l hl := (h.lambdas id l hl).mono hsize fun _ _ _ hy => hy
  pending := h.pending

theorem record {node : NodeId} (hnode : node ≠ declaration) (x : ShapeId) (span : Span) :
    Adds 0 s (record node x span s).2 := by
  rw [record_run]
  cases hset : s.layers.set? s.stack node x with
  | none => exact .same { h with } rfl rfl rfl rfl
  | some found =>
    have hlayers (layer : LayerId) : found.2.get? layer declaration =
        s.layers.get? layer declaration := by
      rcases Layers.set?_eq_some hset with ⟨heq, _⟩ | ⟨top, _, _, heq⟩
      · rw [heq]
      · rw [heq, Layers.get?_put, if_neg fun hwhere => hnode hwhere.2.2.symm]
    exact .same { h with layers := fun layer => (hlayers layer).trans (h.layers layer) } rfl rfl
      rfl rfl

theorem declare {p : Param} (hname : p.name ≠ "f") (hnode : p.node.id ≠ declaration)
    (lambda : NodeId) (index : Nat) (x : ShapeId) :
    Adds 0 s (declare p.name (.parameter lambda index p.node.id) x p.node.span s).2 := by
  have hrecord := h.record hnode (s.declaredShape p.node.id x) p.node.span
  rw [declare_run]
  dsimp only [Symbol.node]
  generalize (Analysis.record p.node.id (s.declaredShape p.node.id x) p.node.span s).2 =
    s₁ at hrecord
  rw [State.declareName]
  cases hdeclare : s₁.scopes.declare p.name (.parameter lambda index p.node.id)
    p.node.span.start with
  | error problem => exact { hrecord with circles := { hrecord.circles with } }
  | ok t =>
    have heach : t.Each Offers := hrecord.circles.scopes.declare
      (fun scope hscope => hscope.of_eq rfl (OrderedMap.get?_insert_of_ne _ _ hname.symm)) hdeclare
    have hsize : t.scopes.size = s₁.scopes.scopes.size ∧ t.current = s₁.scopes.current := by
      rcases Scopes.declare_eq_ok hdeclare with ⟨rfl, _⟩ | ⟨_, _, _, _, rfl⟩
      · exact ⟨rfl, rfl⟩
      · exact ⟨Scopes.size_modifyScope .., rfl⟩
    have hturn : Circles { s₁ with scopes := t } := hrecord.circles.turn heach
      (by rw [hsize.1, hsize.2]; exact hrecord.circles.current) (Nat.le_of_eq hsize.1.symm)
    exact { hrecord with
      circles := { hturn with }
      scopes := hrecord.scopes.trans (Nat.le_of_eq hsize.1.symm) }

theorem declareParams (lambda : NodeId) (args : List ShapeId) {params : List Param}
    (hparams : ∀ p ∈ params, p.name ≠ "f" ∧ p.node.id ≠ declaration) (index : Nat) :
    Adds 0 s (declareParams lambda args index params s).2 := by
  induction params generalizing s index with
  | nil => exact .same h rfl rfl rfl rfl
  | cons p rest ih =>
    obtain ⟨hname, hnode⟩ := hparams p List.mem_cons_self
    have hdeclare := h.declare hname hnode lambda index (args[index]?.getD Arena.unknown)
    exact hdeclare.trans (ih hdeclare.circles (fun q hq => hparams q (List.mem_cons_of_mem _ hq)) _)

/-! ### Bodies of lambdas -/

theorem openBody (hl : s.arena.get m = .lambda l) : Adds 0 s (openBody m l s).2 := by
  have hcircling := h.lambdas m l hl
  cases hbody : l.bodyScope with
  | some body =>
    let t : Scopes := { s.scopes with current := l.defScope }
    have hrun : (Analysis.openBody m l s).2 = { s with scopes := t.reopen body } := by
      simp only [Analysis.openBody, hbody]
      rfl
    obtain ⟨hpos, hlt⟩ := hcircling.bodyScope body hbody
    have hsize : (t.reopen body).scopes.size = s.scopes.scopes.size := t.size_reopen body
    have heach : (t.reopen body).Each Offers := by
      refine Scopes.Each.reopen (s := t) Offers.turn h.scopes fun scope hscope => ?_
      obtain ⟨k, rfl⟩ := Nat.exists_eq_add_one_of_ne_zero (Nat.ne_of_gt hpos)
      exact ⟨hscope.1, rfl⟩
    rw [hrun]
    exact .same (h.turn heach (hsize ▸ hlt) (Nat.le_of_eq hsize.symm)) rfl hsize rfl rfl
  | none =>
    let t := Scopes.enter { s.scopes with current := l.defScope } .lambda
    have hrun : (Analysis.openBody m l s).2 = { s with
        scopes := t
        arena := s.arena.modifyLambda m fun l =>
          { l with bodyScope := some s.scopes.scopes.size } } := by
      simp only [Analysis.openBody, hbody]
      rfl
    have hsize : t.scopes.size = s.scopes.scopes.size + 1 := by
      rw [Scopes.enter_scopes, Array.size_push, Scopes.size_modifyScope]
    have heach : t.Each Offers := by
      refine Scopes.Each.enter (s := { s.scopes with current := l.defScope }) Offers.turn
        h.scopes ?_
      obtain ⟨k, hk⟩ :=
        Nat.exists_eq_add_one_of_ne_zero (Nat.ne_of_gt (Nat.zero_lt_of_lt h.current))
      rw [hk]
      exact ⟨⟨l.defScope, Nat.le_of_lt_succ (Nat.lt_of_lt_of_eq hcircling.defScope hk), rfl⟩, rfl⟩
    have hturn : Circles { s with scopes := t } :=
      h.turn heach (hsize ▸ Nat.lt_succ_self _) (hsize ▸ Nat.le_succ _)
    rw [hrun]
    refine ⟨hturn.modifyLambda m fun id l' hc => { hc with bodyScope := fun body heq => ?_ }, rfl,
      hsize ▸ Nat.le_succ _, Nat.le_refl _, keepsArrays_modifyLambda _ _ _⟩
    cases heq
    exact ⟨Nat.zero_lt_of_lt h.current, hsize ▸ Nat.lt_succ_self _⟩

/-- The analysis turns to a body whose parameters do not hide the variable. -/
theorem startBody (hl : s.arena.get m = .lambda l) {lambda : Lambda}
    (hparams : ∀ p ∈ lambda.params, p.name ≠ "f" ∧ p.node.id ≠ declaration) (args : List ShapeId) :
    Adds 0 { s with active := l.node :: s.active } (startBody m l lambda args s).2 := by
  let s₁ : State := { s with
    active := l.node :: s.active, stack := l.env, enclosing := l.enclosing }
  have hs₁ : Circles s₁ := { h with stack := (h.lambdas m l hl).env }
  have hopen := hs₁.openBody hl
  let opened := (Analysis.openBody m l s₁).2
  have hs₂ : Circles { opened with
      layers := opened.layers.newLayer.2
      stack := opened.stack ++ [opened.layers.layers.size]
      enclosing := opened.enclosing ++ [l.node] } := { hopen.circles with
    stack := List.mem_append_left _ hopen.circles.stack
    layers := fun layer => (Layers.get?_newLayer ..).trans (hopen.circles.layers layer) }
  have hdeclared := hs₂.declareParams l.node args hparams 0
  exact { hopen.trans ({ hdeclared with } : Adds 0 opened _) with }

/-- The analysis of a body that adds a lambda to the queue. -/
theorem analyzeBody (hl : s.arena.get m = .lambda l) (ctx : Context) (enter : Enter)
    (lambda : Lambda)
    (hparams : ∀ p ∈ lambda.params, p.name ≠ "f" ∧ p.node.id ≠ declaration)
    (hbody : ∀ s', Circles s' → s'.active = l.node :: s.active →
      Adds 1 s' (bodyShape ctx enter lambda.body s').2) (args : List ShapeId) :
    Adds 1 s (analyzeBody ctx enter m l lambda args s).2 := by
  have hstart := h.startBody hl hparams args
  have hwalk := hbody _ hstart.circles hstart.active
  have hall := hstart.trans hwalk
  let scope := (Analysis.startBody m l lambda args s).1.1
  let body := (bodyShape ctx enter lambda.body (Analysis.startBody m l lambda args s).2).2
  have heach := Scopes.Each.close Offers.turn
    (s := { body.scopes with current := scope }) hwalk.circles.scopes
  have hsize := Scopes.size_close { body.scopes with current := scope }
  have hturn := hwalk.circles.turn
    (t := { ({ body.scopes with current := scope }).close with current := s.scopes.current }) heach
    (Nat.lt_of_lt_of_le h.current (hsize ▸ hall.scopes)) (Nat.le_of_eq hsize.symm)
  exact {
    circles := { hturn with stack := h.stack }
    active := by
      show body.active.erase l.node = s.active
      rw [hall.active, List.erase_cons_head]
    scopes := hsize ▸ hall.scopes
    pending := hall.pending
    arrays := hall.arrays }

theorem lambda? : ∃ l, s.arena.lambda? method = some l ∧ s.arena.get method = .lambda l := by
  obtain ⟨l, hl⟩ := h.shape
  exact ⟨l, by rw [Arena.lambda?, Arena.resolved, Arena.resolve_of_data (by rw [hl]; rfl), hl], hl⟩

/-- The literal of the inner lambda adds a shape to the queue. -/
theorem outer_body (ctx : Context) (enter : Enter) :
    Adds 1 s (bodyShape ctx enter outer.body s).2 := by
  obtain ⟨l, hl⟩ := h.shape
  have hlt : method < s.arena.shapes.size := lt_size_of_lambda hl
  let new := s.lambdaShape inner.node []
  have hpush : Circles { s with arena := (s.arena.push (.lambda new)).2 } := h.push fun l hl => by
    cases hl
    exact ⟨(if_neg (Nat.ne_of_gt hlt)).symm, fun heq => absurd heq (Nat.ne_of_gt hlt), h.stack,
      h.current, nofun, nofun⟩
  let s₁ : State := { s with
    returns := [] :: s.returns
    arena := (s.arena.push (.lambda new)).2
    pending := s.pending ++ [s.arena.shapes.size] }
  have hs₁ : Adds 1 s s₁ := {
    circles := { hpush with
      pending := fun m hm => by
        rcases List.mem_append.mp hm with hm | hm
        · exact hpush.pending m hm
        · rw [List.mem_singleton.mp hm]
          exact ⟨new, Arena.get_push_self⟩ }
    active := rfl
    scopes := Nat.le_refl _
    pending := by simp [s₁]
    arrays := keepsArrays_push _ _ }
  have hrecord := hs₁.circles.record (show inner.node.id ≠ declaration by decide)
    s.arena.shapes.size inner.node.span
  have hrun : (bodyShape ctx enter outer.body s).2 =
      (popReturns (Analysis.record inner.node.id s.arena.shapes.size inner.node.span s₁).2).2 := by
    simp only [outer, bodyShape]
    rw [expr]
    rfl
  have hall := hs₁.trans hrecord
  rw [hrun]
  exact { hall with circles := { hall.circles with } }

/-- A call of the variable with a new array asks for a new signature. -/
theorem call (hscript : ctx.script = script) (hactive : outer.node.id ∉ s.active)
    {element : ShapeId} {origins : List NodeId} (hx : s.arena.get x = .array element origins)
    (hnew : ∀ l, s.arena.get method = .lambda l → ∀ g ∈ l.signatures, g.args ≠ [x]) (span : Span) :
    Adds 1 s (callShape (enterLambda ctx 1) method [x] span s).2 := by
  obtain ⟨l, hfound, hl⟩ := h.lambda?
  have hcircling := h.lambdas method l hl
  have hnone : existingSignature? s.arena l [x] = none := by
    simp only [existingSignature?, List.findIdx?_eq_none_iff]
    intro g hg
    obtain ⟨y, _, _, hargs, hy⟩ := hcircling.signatures g hg
    have hne := hnew l hl g hg
    rw [hargs] at hne ⊢
    have hxself : s.arena.resolve x = x := Arena.resolve_of_data (by rw [hx]; rfl)
    have hyself : s.arena.resolve y = y := Arena.resolve_of_data (by rw [hy]; rfl)
    simpa [hxself, hyself] using hne
  have hcount : l.paramCount = [x].length := hcircling.paramCount rfl
  have hlambda : ctx.script.lambda? l.node = some outer := by
    rw [hscript, hcircling.node]
    rfl
  have hentered := enterLambda_of_lambda 0 (some [x]) hfound hlambda
    (by simpa [hcircling.node] using hactive)
  have hanalyzed := h.analyzeBody hl ctx (enterLambda ctx 0) outer (by decide)
    (fun _ hs _ => hs.outer_body ctx _) [x]
  have hargs : (Analysis.analyzeBody ctx (enterLambda ctx 0) method l outer [x] s).1.args = [x] :=
    rfl
  dsimp only [Option.getD_some] at hentered
  generalize Analysis.analyzeBody ctx (enterLambda ctx 0) method l outer [x] s = r
    at hentered hanalyzed hargs
  obtain ⟨l', hfound', _⟩ := hanalyzed.circles.lambda?
  have hrun : (callShape (enterLambda ctx 1) method [x] span s).2 = { r.2 with
      arena := ((r.2.arena.modifyLambda method fun l => { l with
        signatures := l.signatures ++ [r.1] }).newCall method l'.signatures.length).2 } := by
    rw [callShape_of_lambda (lambda?_eq_some.mp hfound), callLambda, if_neg (· hcount),
      get_bind_run, hnone]
    dsimp only
    rw [bind_run, hentered, useSignature, get_bind_run, hfound']
    rfl
  have hmodify : Circles { r.2 with arena := r.2.arena.modifyLambda method fun l => { l with
      signatures := l.signatures ++ [r.1] } } := by
    refine hanalyzed.circles.modifyLambda method fun id l hc =>
      { hc with signatures := fun g hg => ?_ }
    rcases List.mem_append.mp hg with hold | hlast
    · exact hc.signatures g hold
    · rw [List.mem_singleton.mp hlast]
      exact ⟨x, element, origins, hargs, hanalyzed.arrays x element origins hx⟩
  rw [hrun]
  exact { hanalyzed with
    circles := hmodify.push fun _ hl => by cases hl
    arrays := fun y element origins hy => keepsArrays_push _ _ y element origins
      (keepsArrays_modifyLambda _ _ _ y element origins (hanalyzed.arrays y element origins hy)) }

/-- The name stands for the outer lambda. -/
theorem use (ctx : Context) (enter : Enter) :
    (expr ctx enter Endless.use s).1 = method ∧
      Adds 0 s (expr ctx enter Endless.use s).2 := by
  have hmeaning : s.meaning? ctx ⟨1, 21, 22⟩ "f" = some (.local (.var declaration)) := by
    rw [State.meaning?, show s.scopes.find? "f" (Node.mk 1 ⟨21, 22⟩).span.start = _ from
      find_variable h.scopes _ _ h.current h.current]
  have hshape : s.layers.shape? s.stack declaration = some method := by
    rw [Layers.shape?]
    cases hfind : s.layers.find? s.stack declaration with
    | none =>
      have hnone := List.find?_eq_none.mp hfind Layers.root (List.mem_reverse.mpr h.stack)
      rw [h.layers] at hnone
      exact absurd rfl hnone
    | some layer =>
      have hsome := List.find?_some hfind
      rw [h.layers] at hsome
      split at hsome
      next hroot => exact (h.layers layer).trans (if_pos hroot)
      next => cases hsome
  let s₁ := (resolveNode 1 (.local (.var declaration)) s).2
  have hident : ident ctx ⟨1, 21, 22⟩ "f" s =
      (method, (s₁.noteUse (.var declaration)).noteRead (.var declaration)) := by
    rw [ident_run, resolve?_run, hmeaning]
    simp only [readSymbol_run]
    rw [show s₁.layers.shape? s₁.stack (Symbol.var declaration).node = some method from hshape]
    rfl
  have hread : Adds 0 s ((s₁.noteUse (.var declaration)).noteRead (.var declaration)) := by
    rw [State.noteUse_eq]
    exact .same { h with } rfl rfl rfl rfl
  have hrun : expr ctx enter Endless.use s =
      note ⟨1, 21, 22⟩ (ident ctx ⟨1, 21, 22⟩ "f" s).1 (ident ctx ⟨1, 21, 22⟩ "f" s).2 := by
    rw [Endless.use, expr]
    rfl
  rw [hrun, hident, note_run]
  exact ⟨rfl, hread.trans (hread.circles.record (by decide) _ _)⟩

/-- An empty array literal gives a new shape. -/
theorem array (ctx : Context) (enter : Enter) :
    (expr ctx enter Endless.array s).1 = s.arena.shapes.size ∧
      Adds 0 s (expr ctx enter Endless.array s).2 ∧
      ∃ element origins, (expr ctx enter Endless.array s).2.arena.shapes =
        s.arena.shapes.push (.array element origins) := by
  let s₁ := (checkLiterals ctx .arraysDisallowed ⟨23, 25⟩ s).2
  have hcheck : Circles s₁ ∧ s₁.arena = s.arena ∧ Adds 0 s s₁ := by
    simp only [s₁, checkLiterals]
    split
    · exact ⟨{ h with }, rfl, .same { h with } rfl rfl rfl rfl⟩
    · exact ⟨h, rfl, .same h rfl rfl rfl rfl⟩
  obtain ⟨hs₁, harena, hadds⟩ := hcheck
  let element := if s₁.arena.widening.elements.contains 2 then Arena.unknown else Arena.undetermined
  have hpush : Adds 0 s₁ { s₁ with arena := (s₁.arena.push (.array element [2])).2 } :=
    ⟨hs₁.push (fun _ hl => by cases hl), rfl, Nat.le_refl _, Nat.le_refl _, keepsArrays_push _ _⟩
  have hrun : expr ctx enter Endless.array s =
      note ⟨2, 23, 25⟩ s₁.arena.shapes.size
        { s₁ with arena := (s₁.arena.push (.array element [2])).2 } := by
    rw [Endless.array, expr]
    simp only [elements]
    rfl
  rw [hrun, note_run]
  refine ⟨by rw [harena], hadds.trans (hpush.trans (hpush.circles.record (by decide) _ _)), element,
    [2], ?_⟩
  rw [arena_record]
  show s₁.arena.shapes.push _ = _
  rw [harena]

/-- The body of the inner lambda calls the outer one with a new array. -/
theorem inner_body (hscript : ctx.script = script) (hactive : outer.node.id ∉ s.active) :
    Adds 1 s (bodyShape ctx (enterLambda ctx 1) inner.body s).2 := by
  let s₀ : State := { s with returns := [] :: s.returns }
  have hs₀ : Circles s₀ := { h with }
  have hrun : (bodyShape ctx (enterLambda ctx 1) inner.body s).2 =
      let callee := expr ctx (enterLambda ctx 1) Endless.use s₀
      let array := expr ctx (enterLambda ctx 1) Endless.array callee.2
      let result := callShape (enterLambda ctx 1) callee.1 [array.1] ⟨21, 26⟩ array.2
      (popReturns (Analysis.record 3 result.1 ⟨21, 26⟩ result.2).2).2 := by
    have hcall : expr ctx (enterLambda ctx 1) (.call ⟨3, 21, 26⟩ Endless.use [Endless.array]) = (do
          let callee ← expr ctx (enterLambda ctx 1) Endless.use
          let args ← exprs ctx (enterLambda ctx 1) [Endless.array]
          note ⟨3, 21, 26⟩ (← callShape (enterLambda ctx 1) callee args ⟨21, 26⟩)) := by
      conv => lhs; rw [expr.eq_def]
      rfl
    simp only [Endless.inner, bodyShape, hcall, exprs]
    rfl
  obtain ⟨hcallee, huse⟩ := hs₀.use ctx (enterLambda ctx 1)
  rw [hrun]
  dsimp only
  rw [hcallee]
  generalize (expr ctx (enterLambda ctx 1) Endless.use s₀).2 = s₁ at huse
  obtain ⟨hid, harray, element, origins, hshapes⟩ := huse.circles.array ctx (enterLambda ctx 1)
  rw [hid]
  generalize (expr ctx (enterLambda ctx 1) Endless.array s₁).2 = s₂ at harray hshapes
  have hpush (id : ShapeId) : s₂.arena.get id = (s₁.arena.push (.array element origins)).2.get id :=
    Arena.get_of_shapes hshapes id
  -- the array is newer than the arguments of all signatures
  have hnew : ∀ l, s₂.arena.get method = .lambda l → ∀ g ∈ l.signatures,
      g.args ≠ [s₁.arena.shapes.size] := by
    obtain ⟨l, hl⟩ := huse.circles.shape
    intro l' hl' g hg hargs
    rw [hpush, get_push_of_ne (by rw [hl]; exact nofun), hl] at hl'
    cases hl'
    obtain ⟨y, _, _, hargs', hy⟩ := (huse.circles.lambdas method l hl).signatures g hg
    rw [hargs, List.singleton_inj] at hargs'
    rw [← hargs', Arena.get_of_ge (Nat.le_refl _)] at hy
    cases hy
  have hcall := harray.circles.call hscript (by rw [harray.active, huse.active]; exact hactive)
    ((hpush _).trans Arena.get_push_self) hnew ⟨21, 26⟩
  have hall :=
    huse.trans (harray.trans (hcall.trans (hcall.circles.record (show 3 ≠ declaration by decide)
    (callShape (enterLambda ctx 1) method [s₁.arena.shapes.size] ⟨21, 26⟩ s₂).1 ⟨21, 26⟩)))
  exact { hall with circles := { hall.circles with } }

/-! ### One lambda of the queue after the other -/

theorem enter (hscript : ctx.script = script) (hactive : s.active = [])
    (hl : s.arena.get m = .lambda l) : Adds 1 s (Analysis.enter ctx m none s).2 := by
  have hfound : s.arena.lambda? m = some l := by
    rw [lambda?_eq_some, Arena.resolved, Arena.resolve_of_data (by rw [hl]; rfl), hl]
  have hnode := (h.lambdas m l hl).node
  have hnot : ¬ s.active.contains l.node := by simp [hactive]
  rw [Analysis.enter, hscript, show script.lambdas.length = 2 from rfl]
  split at hnode
  · have hlambda : ctx.script.lambda? l.node = some outer := by
      rw [hscript, hnode]
      rfl
    rw [enterLambda_of_lambda 1 none hfound hlambda hnot]
    dsimp only [Option.getD_none]
    exact h.analyzeBody hl ctx _ outer (by decide) (fun _ hs _ => hs.outer_body ctx _) []
  · have hlambda : ctx.script.lambda? l.node = some Endless.inner := by
      rw [hscript, hnode]
      rfl
    rw [enterLambda_of_lambda 1 none hfound hlambda hnot]
    have hbody (s' : State) (hs : Circles s') (hactive' : s'.active = l.node :: s.active) :
        Adds 1 s' (bodyShape ctx (enterLambda ctx 1) inner.body s').2 := by
      refine hs.inner_body hscript ?_
      rw [hactive', hnode, hactive]
      decide
    dsimp only [Option.getD_none]
    exact h.analyzeBody hl ctx _ inner (fun _ hp => absurd hp List.not_mem_nil) hbody []

/-- Each analysis of the queue brings the next one. -/
theorem analyzeGeneric (hscript : ctx.script = script) (hactive : s.active = [])
    (hl : s.arena.get m = .lambda l) : Adds 1 s (analyzeGeneric ctx m s).2 := by
  let s₁ : State := { s with arena := s.arena.freeze.2, layers := s.layers.freeze.2 }
  have hs₁ : Circles s₁ := { h with
    lambdas := fun id l hl => (h.lambdas id l hl).mono (Nat.le_refl _) fun _ _ _ hy => hy }
  have hentered : Adds 1 s₁ (Analysis.enter ctx m none s₁).2 := hs₁.enter hscript hactive hl
  have hrun : (Analysis.analyzeGeneric ctx m s).2 =
      let entered := Analysis.enter ctx m none s₁
      { entered.2 with
        arena := (entered.2.arena.thaw s.arena.frozenBelow).modifyLambda m
          fun l => { l with generic := entered.1 }
        layers := entered.2.layers.thaw s.layers.frozenBelow } := rfl
  rw [hrun]
  generalize Analysis.enter ctx m none s₁ = entered at hentered
  let s₂ : State := { entered.2 with
    arena := entered.2.arena.thaw s.arena.frozenBelow
    layers := entered.2.layers.thaw s.layers.frozenBelow }
  have hs₂ : Circles s₂ := { hentered.circles with
    lambdas := fun id l hl =>
      (hentered.circles.lambdas id l hl).mono (Nat.le_refl _) fun _ _ _ hy => hy }
  exact { hentered with
    circles := hs₂.modifyLambda m fun id l hc => { hc with }
    arrays := fun y element origins hy => keepsArrays_modifyLambda _ _ _ y element origins
      (hentered.arrays y element origins hy) }

theorem drain (hscript : ctx.script = script) (hactive : s.active = [])
    (hpending : s.pending ≠ []) (budget : Nat) : (drain ctx budget s).1 = false := by
  induction budget generalizing s with
  | zero =>
    rw [drain_zero]
    exact List.isEmpty_eq_false_iff.mpr hpending
  | succ budget ih =>
    obtain ⟨m, rest, hqueue⟩ := List.exists_cons_of_ne_nil hpending
    obtain ⟨l, hl⟩ := h.pending m (hqueue ▸ List.mem_cons_self)
    have hs : Circles { s with pending := rest } :=
      { h with pending := fun m' hm' => h.pending m' (hqueue ▸ List.mem_cons_of_mem _ hm') }
    have hnext := hs.analyzeGeneric hscript hactive hl
    rw [drain_of_cons hqueue]
    refine ih hnext.circles (hnext.active.trans hactive) fun hnil => ?_
    have hlength := hnext.pending
    rw [hnil] at hlength
    exact absurd hlength (by simp)

end Circles

theorem circles_walked (hscript : ctx.script = script) :
    Circles (.walked ctx {}) ∧ (State.walked ctx {}).active = [] ∧
      (State.walked ctx {}).pending = [5] := by
  let l := (State.start {}).lambdaShape outer.node outer.params
  have harena : (State.walked ctx {}).arena = (Arena.push {} (.lambda l)).2 := by
    rw [State.walked, hscript]
    rfl
  have hlayers : (State.walked ctx {}).layers = { layers := #[.insert (.insert {} 5 5) 6 5] } := by
    rw [State.walked, hscript]
    rfl
  have hscopes : (State.walked ctx {}).scopes = { scopes := #[
      { kind := .root, parent := none, names := ⟨[("f", ⟨.var declaration, 4⟩)]⟩ }] } := by
    rw [State.walked, hscript]
    rfl
  have hrest : (State.walked ctx {}).stack = [Layers.root] ∧ (State.walked ctx {}).active = [] ∧
      (State.walked ctx {}).pending = [method] := by
    rw [State.walked, hscript]
    exact ⟨rfl, rfl, rfl⟩
  obtain ⟨hstack, hactive, hpending⟩ := hrest
  have hget : (State.walked ctx {}).arena.get method = .lambda l := by
    rw [harena]
    rfl
  refine ⟨⟨by simp [hstack], fun layer => ?_, fun id scope hscope => ?_, by simp [hscopes],
    ⟨l, hget⟩, fun id l' hl' => ?_, fun m hm => ?_⟩, hactive, hpending⟩
  · rw [hlayers]
    cases layer with
    | zero => rfl
    | succ layer => exact Layers.get?_of_ge (Nat.succ_le_succ (Nat.zero_le layer))
  · rw [hscopes] at hscope
    cases id with
    | zero =>
      cases hscope
      exact ⟨rfl, rfl⟩
    | succ id => cases hscope
  · rw [harena, Arena.get_push] at hl'
    split at hl'
    next hid =>
      cases hl'
      exact hid ▸ ⟨rfl, fun _ => rfl, List.mem_cons_self, by rw [hscopes]; exact Nat.zero_lt_one,
        nofun, nofun⟩
    next =>
      rcases Nat.lt_or_ge id 5 with hlt | hge
      · exact absurd hl' (Arena.isLambda_first id hlt l')
      · rw [Arena.get_of_ge hge] at hl'
        cases hl'
  · rw [hpending, List.mem_singleton] at hm
    exact ⟨l, hm ▸ hget⟩

end Analysis

/-- The analysis of this script does not come to an end, with whatever types and options. -/
theorem Script.analyze_endless : ∃ script, Engine.parse "var f = (h) => () => f([]);" = .ok script ∧
    ∀ (types : Registry) (options : Options) (input : Option HostTypeId) (budget : Nat),
      script.analyze types options input budget = none := by
  obtain ⟨script, hparse, hcheck⟩ := Engine.exists_parsed "var f = (h) => () => f([]);"
    Endless.isScript (by decide +kernel)
  cases Endless.eq_of_isScript hcheck
  refine ⟨_, hparse, fun types options input budget => ?_⟩
  let ctx : Analysis.Context := { types, options, input, script := Endless.script }
  obtain ⟨hcircles, hactive, hpending⟩ :=
    Analysis.circles_walked (show ctx.script = Endless.script from rfl)
  have hdrain : (Analysis.drain ctx budget (.walked ctx {})).1 = false :=
    hcircles.drain rfl hactive (by rw [hpending]; exact List.cons_ne_nil _ _) budget
  rw [Script.analyze, Analysis.settle_run, Analysis.pass_run, hdrain]
  rfl

end HostScript
