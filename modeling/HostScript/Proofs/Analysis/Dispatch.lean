import HostScript.Proofs.Analysis.Changes

/-!
# Calls and their signatures

A call of a lambda has the result of one of its signatures as its shape. The signature has the
argument shapes of the call, up to what is merged. It came from an analysis of the body, which was
started when no signature of the lambda had these argument shapes. All this is kept by actions that
record no call and add no signature.
-/

namespace HostScript.Analysis

variable {ctx : Context} {bound : Nat} {s s' : State} {x : ShapeId} {layer : LayerId} {method : ShapeId}
  {k : Nat} {args : List Expr} {xs ps : List ShapeId} {signature : Signature} {i : ShapeId}

/-! ### Later states -/

/-- The same state with other bounds below which shapes and layers are frozen. -/
def State.bounded (s : State) (n m : Nat) : State :=
  { s with
    arena := { s.arena with frozenBelow := n }
    layers := { s.layers with frozenBelow := m } }

theorem shapes_bounded (s : State) (n m : Nat) : (s.bounded n m).arena.shapes = s.arena.shapes :=
  rfl

theorem resolve_bounded (s : State) (n m : Nat) (x : ShapeId) :
    (s.bounded n m).arena.resolve x = s.arena.resolve x :=
  Arena.resolve_of_shapes (shapes_bounded s n m) x

theorem lambda?_bounded (s : State) (n m : Nat) (method : ShapeId) :
    (s.bounded n m).arena.lambda? method = s.arena.lambda? method := by
  rw [Arena.lambda?, Arena.resolved, resolve_bounded]
  rfl

/-- A later state of a pass: there were changes, and bounds were set. -/
def Proceeds (ctx : Context) : State → State → Prop :=
  Relation.ReflTransGen fun s s' => Change ctx 0 s s' ∨ ∃ n m, s' = s.bounded n m

theorem Chain.proceeds (h : Chain ctx bound s s') : Proceeds ctx s s' :=
  (h.mono (Nat.zero_le bound)).lift id fun _ _ hc => .inl hc

theorem Proceeds.problems (h : Proceeds ctx s s') (hp : s'.problems = []) : s.problems = [] := by
  induction h with
  | refl => exact hp
  | tail _ hstep ih =>
    rcases hstep with hc | ⟨n, m, rfl⟩
    · exact ih (hc.problems hp)
    · exact ih hp

/-! ### Calls -/

/-- A call with these arguments is dispatched to a signature: the shapes recorded for the arguments
resolve to those of the signature, one by one. -/
def Dispatches (script : Script) (a : Arena) (t : Layers) (layer : LayerId) (args : List Expr)
    (method : ShapeId) (k : Nat) : Prop :=
  ∃ l signature, a.lambda? method = some l ∧ l.signatures[k]? = some signature ∧
    l.paramCount = args.length ∧ List.Forall₂ (fun e p => .expr e ∈ script.pieces ∧
      ∃ x, t.get? layer e.id = some x ∧ a.resolve x = a.resolve p) args signature.args

theorem Dispatches.change (h : Dispatches ctx.script s.arena s.layers layer args method k)
    (hids : ctx.script.ids.Nodup) (ht : s.Tidy) (hc : Change ctx bound s s') :
    Dispatches ctx.script s'.arena s'.layers layer args method k := by
  obtain ⟨l, signature, hl, hsig, hcount, hargs⟩ := h
  obtain ⟨l', hl', hsame⟩ := hc.lambda? ht.tied hl
  have hafter := (hc.preserves ht.tied).follows
  refine ⟨l', signature, hl', hsame.signature hsig, hsame.paramCount.trans hcount,
    hargs.imp fun e p he => ?_⟩
  obtain ⟨hmem, x, hx, heq⟩ := he
  refine ⟨hmem, x, hc.entry hx (Script.not_stored hids hmem), ?_⟩
  rw [hafter x, hafter p, heq]

theorem Dispatches.bounded (h : Dispatches ctx.script s.arena s.layers layer args method k) (n m : Nat) :
    Dispatches ctx.script (s.bounded n m).arena (s.bounded n m).layers layer args method k := by
  obtain ⟨l, signature, hl, hsig, hcount, hargs⟩ := h
  refine ⟨l, signature, (lambda?_bounded s n m method).trans hl, hsig, hcount, hargs.imp fun e p he => ?_⟩
  obtain ⟨hmem, x, hx, heq⟩ := he
  exact ⟨hmem, x, hx, by rw [resolve_bounded, resolve_bounded, heq]⟩

/-- If the shape is the result of a call of a lambda, the signature has the argument shapes `xs`. -/
def State.Answers (ctx : Context) (s : State) (xs : List ShapeId) (x : ShapeId) : Prop :=
  ∀ method k, s.arena.get x = .callResult method k → ∃ l signature,
    s.arena.lambda? method = some l ∧ l.signatures[k]? = some signature ∧ l.paramCount = xs.length ∧
      (ctx.script.ids.Nodup → signature.args.map s.arena.resolve = xs.map s.arena.resolve)

theorem State.Answers.resultOf (h : s.Answers ctx xs x) : s.ResultOf xs.length x := by
  intro method k hget
  obtain ⟨l, _, hl, _, hcount, _⟩ := h method k hget
  exact ⟨l, hl, hcount⟩

theorem State.Answers.dispatches (h : s.Answers ctx xs x) (hids : ctx.script.ids.Nodup)
    (hnotes : List.Forall₂ (s.Notes ctx layer) args xs) (hget : s.arena.get x = .callResult method k) :
    Dispatches ctx.script s.arena s.layers layer args method k := by
  obtain ⟨l, signature, hl, hsig, hcount, hargs⟩ := h method k hget
  refine ⟨l, signature, hl, hsig, hcount.trans hnotes.length_eq.symm, ?_⟩
  have hboth := hargs hids
  generalize signature.args = ps at hboth
  clear hcount hargs hsig h
  induction hnotes generalizing ps with
  | nil =>
    rw [List.map_nil, List.map_eq_nil_iff] at hboth
    rw [hboth]
    exact .nil
  | cons hnote _ ih =>
    obtain ⟨p, rest, rfl, hp, hrest⟩ := List.map_eq_cons_iff.mp hboth
    exact .cons ⟨hnote.piece, _, hnote.entry, hp.symm⟩ (ih rest hrest)

/-- Shapes that are the same up to what is merged stay so. -/
theorem map_resolve_later {a b : Arena} (h : a.Preserves b) (heq : ps.map a.resolve = xs.map a.resolve) :
    ps.map b.resolve = xs.map b.resolve := by
  have hsplit (zs : List ShapeId) : zs.map b.resolve = (zs.map a.resolve).map b.resolve := by
    rw [List.map_map]
    exact List.map_congr_left fun z _ => h.follows z
  rw [hsplit, heq, ← hsplit]

/-! ### Signatures -/

/-- An analysis of the body of the lambda `i`, which started in a state of the pass and gave the
signature. No signature that the lambda had then has the same arguments. -/
structure Birth (ctx : Context) (s : State) (i : ShapeId) (signature : Signature) (start : State)
    (method : ShapeId) (l : LambdaShape) (lambda : Lambda) : Prop where
  reached : ∃ widening, Proceeds ctx (.start widening) start
  resolve : start.arena.resolve method = i
  lambda? : start.arena.lambda? method = some l
  literal : ctx.script.lambda? l.node = some lambda
  new : ∀ other ∈ l.signatures,
    other.args.map start.arena.resolve ≠ signature.args.map start.arena.resolve
  found : ∃ depth,
    (analyzeBody ctx (enterLambda ctx depth) method l lambda signature.args start).1 = signature
  later : Proceeds ctx (startBody method l lambda signature.args start).2 s

/-- The signature of the lambda `i` comes from an analysis of its body. -/
def State.Born (ctx : Context) (s : State) (i : ShapeId) (signature : Signature) : Prop :=
  ∃ start method l lambda, Birth ctx s i signature start method l lambda

theorem State.Born.later (h : s.Born ctx i signature) (hs : Proceeds ctx s s') :
    s'.Born ctx i signature := by
  obtain ⟨start, method, l, lambda, hbirth⟩ := h
  exact ⟨start, method, l, lambda, { hbirth with later := hbirth.later.trans hs }⟩

/-- A signature that was found in the body of a lambda, which was entered in the state `s`. -/
def Found (ctx : Context) (s : State) (method : ShapeId) (xs : List ShapeId) (signature : Signature)
    (s' : State) : Prop :=
  ∃ l lambda, s.arena.lambda? method = some l ∧ ctx.script.lambda? l.node = some lambda ∧
    (∃ depth, (analyzeBody ctx (enterLambda ctx depth) method l lambda xs s).1 = signature) ∧
    Proceeds ctx (startBody method l lambda xs s).2 s'

/-- The parameters get the arguments, if there are as many. -/
theorem declareParams_fst (node : NodeId) (params : List Param) (index : Nat)
    (hcount : xs.length = index + params.length) (s : State) :
    (declareParams node xs index params s).1 = xs.drop index := by
  induction params generalizing index s with
  | nil => exact (List.drop_eq_nil_of_le (Nat.le_of_eq hcount)).symm
  | cons p rest ih =>
    rw [List.length_cons] at hcount
    have hindex : index < xs.length := by omega
    rw [List.drop_eq_getElem_cons hindex, ← ih (index + 1) (by omega)
      (declare p.name (.parameter node index p.node.id) (xs[index]?.getD Arena.unknown) p.node.span s).2]
    show xs[index]?.getD Arena.unknown :: _ = _
    rw [List.getElem?_eq_getElem hindex]
    rfl

/-- The literal of a lambda is known by its node. -/
theorem params_of_lambda? (hids : ctx.script.ids.Nodup) (ht : s.Traced ctx) {l : LambdaShape}
    (hl : s.arena.lambda? method = some l) {lambda : Lambda}
    (hlambda : ctx.script.lambda? l.node = some lambda) : lambda.params.length = l.paramCount := by
  obtain ⟨literal, hmem, hnode, hcount⟩ := ht.literal (lambda?_eq_some.mp hl)
  obtain ⟨hmem', hnode'⟩ := Script.mem_of_lambda? hlambda
  have heq := Script.eq_of_id hids ((ctx.script.lists.lambda _).mp hmem)
    ((ctx.script.lists.lambda _).mp hmem') (hnode.trans hnode'.symm)
  cases literal
  cases lambda
  cases heq
  exact hcount

/-- A signature that was found for new arguments was born. -/
theorem Found.born (h : Found ctx s method xs signature s') (hids : ctx.script.ids.Nodup)
    (ht : s.Traced ctx) (hs : ∃ widening, Proceeds ctx (.start widening) s) {l : LambdaShape}
    (hl : s.arena.lambda? method = some l) (hcount : l.paramCount = xs.length)
    (hnew : existingSignature? s.arena l xs = none) :
    s'.Born ctx (s.arena.resolve method) signature ∧ signature.args = xs := by
  obtain ⟨l', lambda, hl', hlambda, ⟨depth, hfound⟩, hlater⟩ := h
  cases hl.symm.trans hl'
  have hargs : signature.args = xs := by
    rw [← hfound, analyzeBody]
    exact declareParams_fst l.node lambda.params 0
      (by rw [params_of_lambda? hids ht hl hlambda, hcount, Nat.zero_add]) _
  subst hargs
  exact ⟨⟨s, method, l, lambda, hs, rfl, hl, hlambda, ne_of_existingSignature? hnew,
    ⟨depth, hfound⟩, hlater⟩, rfl⟩

/-! ### What is kept -/

/-- All calls of lambdas on record are dispatched to a signature, and all signatures were born. -/
structure State.Accounted (ctx : Context) (s : State) : Prop where
  reached : ∃ widening, Proceeds ctx (.start widening) s
  calls : s.problems = [] → ∀ {layer n callee args x method k},
    .expr (.call n callee args) ∈ ctx.script.pieces → s.layers.get? layer n.id = some x →
    s.arena.get x = .callResult method k → Dispatches ctx.script s.arena s.layers layer args method k
  signatures : ∀ {i l signature}, s.arena.get i = .lambda l → signature ∈ l.signatures →
    s.Born ctx i signature

/-- The changes may record calls that are dispatched, and add signatures that were born. -/
theorem State.Accounted.chain (h : s.Accounted ctx) (hids : ctx.script.ids.Nodup) (ht : s.Tidy)
    (hc : Chain ctx bound s s')
    (hcalls : s'.problems = [] → ∀ {layer n callee args x method k},
      .expr (.call n callee args) ∈ ctx.script.pieces → s'.layers.get? layer n.id = some x →
      s'.arena.get x = .callResult method k → s.layers.get? layer n.id = some x ∨
        Dispatches ctx.script s.arena s.layers layer args method k)
    (hsignatures : ∀ {i l' signature}, s'.arena.get i = .lambda l' → signature ∈ l'.signatures →
      (∃ l, s.arena.get i = .lambda l ∧ signature ∈ l.signatures) ∨ s.Born ctx i signature) :
    s'.Accounted ctx where
  reached := h.reached.imp fun _ hs => hs.trans hc.proceeds
  calls hproblems layer n callee args x method k hmem hentry hget := by
    have hold : Dispatches ctx.script s.arena s.layers layer args method k := by
      rcases hcalls hproblems hmem hentry hget with hbefore | hnew
      · exact h.calls (hc.proceeds.problems hproblems) hmem hbefore
          (hc.callResult_before ht (ht.entries hbefore) hget)
      · exact hnew
    exact hc.keeps (P := fun t => Dispatches ctx.script t.arena t.layers layer args method k) ht
      (fun ht hc h => h.change hids ht hc) hold
  signatures hl hsig := by
    rcases hsignatures hl hsig with ⟨l, hl, hold⟩ | hnew
    · exact (h.signatures hl hold).later hc.proceeds
    · exact hnew.later hc.proceeds

theorem State.Accounted.bounded (h : s.Accounted ctx) (n m : Nat) : (s.bounded n m).Accounted ctx where
  reached := h.reached.imp fun _ hs => hs.tail (.inr ⟨n, m, rfl⟩)
  calls hproblems _ _ _ _ _ _ _ hmem hentry hget := (h.calls hproblems hmem hentry hget).bounded n m
  signatures hl hsig := (h.signatures hl hsig).later (.single (.inr ⟨n, m, rfl⟩))

/-- No call was recorded, and no signature was added. -/
structure State.Calm (ctx : Context) (s s' : State) : Prop where
  calls : ctx.script.ids.Nodup → ∀ {layer n callee args x},
    .expr (.call n callee args) ∈ ctx.script.pieces → s'.layers.get? layer n.id = some x →
    s.layers.get? layer n.id = some x
  signatures : ∀ {i l' signature}, s'.arena.get i = .lambda l' → signature ∈ l'.signatures →
    ∃ l, s.arena.get i = .lambda l ∧ signature ∈ l.signatures

namespace State.Calm

theorem trans {s'' : State} (h : s.Calm ctx s') (h' : s'.Calm ctx s'') : s.Calm ctx s'' where
  calls hids _ _ _ _ _ hmem hentry := h.calls hids hmem (h'.calls hids hmem hentry)
  signatures hl hsig := by
    obtain ⟨l, hl, hold⟩ := h'.signatures hl hsig
    exact h.signatures hl hold

/-- Layers change at the nodes of variables only. -/
theorem of_layers (hshapes : s'.arena.shapes = s.arena.shapes)
    (hentries : ∀ {layer node p}, s'.layers.get? layer node = some p →
      s.layers.get? layer node = some p ∨ ctx.Keeps node) : s.Calm ctx s' where
  calls hids _ _ _ _ _ hmem hentry := (hentries hentry).resolve_right
    (Script.not_stored hids (e := .call ..) hmem)
  signatures {i l' _} hl hsig := ⟨l', (Arena.get_of_shapes hshapes i).symm.trans hl, hsig⟩

theorem of_same (hshapes : s'.arena.shapes = s.arena.shapes) (hlayers : s'.layers = s.layers) :
    s.Calm ctx s' :=
  of_layers hshapes fun hp => .inl (hlayers ▸ hp)

/-- The lambdas of the arena have the signatures that they had. -/
theorem of_lambdas {b : Arena} (hlambdas : ∀ {i l'}, b.get i = .lambda l' →
      l'.signatures = [] ∨ ∃ l, s.arena.get i = .lambda l ∧ l'.signatures = l.signatures) :
    s.Calm ctx { s with arena := b } where
  calls _ _ _ _ _ _ _ hentry := hentry
  signatures hl hsig := by
    rcases hlambdas hl with hnone | ⟨l, hl, heq⟩
    · rw [hnone] at hsig
      cases hsig
    · exact ⟨l, hl, heq ▸ hsig⟩

theorem push {shape : Shape} (hshape : ∀ l, shape = .lambda l → l.signatures = []) :
    s.Calm ctx { s with arena := (s.arena.push shape).2 } :=
  of_lambdas fun {i l'} hl => by
    rw [Arena.get_push] at hl
    split at hl
    · exact .inl (hshape l' hl)
    · exact .inr ⟨l', hl, rfl⟩

theorem host (id : HostTypeId) : s.Calm ctx { s with arena := (s.arena.host id).2 } :=
  of_lambdas fun {i l'} hl => by
    rcases get_host s.arena id i with heq | ⟨_, hnew⟩
    · exact .inr ⟨l', heq.symm.trans hl, rfl⟩
    · cases hl.symm.trans hnew

theorem edited {a : Arena} (h : s.arena.Edited ctx.Names a) : s.Calm ctx { s with arena := a } := by
  induction h with
  | refl => exact of_same rfl rfl
  | tail _ he ih =>
    exact ih.trans (of_lambdas fun {i l'} hl => .inr ⟨l', he.evolves.lambda_before hl, rfl⟩)

theorem modifyLambda (x : ShapeId) {f : LambdaShape → LambdaShape}
    (hf : ∀ l, (f l).signatures = l.signatures) :
    s.Calm ctx { s with arena := s.arena.modifyLambda x f } :=
  of_lambdas fun {i l'} hl => by
    rcases get_modifyLambda_cases s.arena x i f with heq | ⟨l, _, hold, hnew⟩
    · exact .inr ⟨l', heq.symm.trans hl, rfl⟩
    · cases hl.symm.trans hnew
      exact .inr ⟨l, hold, hf l⟩

end State.Calm

/-- A signature that was born is added. -/
theorem State.Accounted.addSignature (h : s.Accounted ctx) (hids : ctx.script.ids.Nodup) (ht : s.Tidy)
    (ho : s.Offers ctx bound method signature)
    (hborn : s.Born ctx (s.arena.resolve method) signature) :
    ({ s with arena := s.arena.modifyLambda method fun l =>
      { l with signatures := l.signatures ++ [signature] } } : State).Accounted ctx := by
  refine h.chain hids ht (.single (.alters (.signature ho))) (fun _ _ _ _ _ _ _ _ _ hentry _ => .inl hentry)
    fun {i l' other} hl' hsig => ?_
  rcases get_modifyLambda_cases s.arena method i
    fun l => { l with signatures := l.signatures ++ [signature] } with heq | ⟨l, hi, hl, hnew⟩
  · exact .inl ⟨l', heq.symm.trans hl', hsig⟩
  · cases hl'.symm.trans hnew
    rcases List.mem_append.mp hsig with hold | hlast
    · exact .inl ⟨l, hl, hold⟩
    · cases List.mem_singleton.mp hlast
      exact .inr (hi ▸ hborn)

theorem State.Accounted.calm (h : s.Accounted ctx) (hids : ctx.script.ids.Nodup) (ht : s.Tidy)
    (hc : Chain ctx bound s s') (hcalm : s.Calm ctx s') : s'.Accounted ctx :=
  h.chain hids ht hc (fun _ _ _ _ _ _ _ _ hmem hentry _ => .inl (hcalm.calls hids hmem hentry))
    fun hl hsig => .inl (hcalm.signatures hl hsig)

end HostScript.Analysis
