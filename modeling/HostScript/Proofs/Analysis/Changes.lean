import HostScript.Proofs.Analysis.Standing
import HostScript.Proofs.Shape.Permanence

/-!
# Changes of an analysis

Whatever an analysis does, it does by changes of a few kinds: a shape is new, a record or array is
edited, a lambda gets an analysis, a layer is new, the shape of a node is recorded or widened. A
change tells what it comes from: an expression or declaration of the script. What every change
keeps, an analysis keeps.
-/

namespace HostScript

variable {method p r element : ShapeId} {l : LambdaShape} {origins : List NodeId} {layer : LayerId}

/-- The analysis of a lambda for a signature, or for arguments of which nothing is known. -/
def LambdaShape.analysis? (l : LambdaShape) : Option Nat → Option Signature
  | some k => l.signatures[k]?
  | none => l.generic

namespace Analysis

variable {ctx : Context} {bound : Nat} {s s' : State} {b : Arena} {i x : ShapeId}

/-- The names of the fields that the script writes. -/
abbrev Context.Names (ctx : Context) (name : String) : Prop :=
  name ∈ ctx.script.fieldNames

/-- The layer belongs to an analysis of a lambda. -/
def State.Uses (s : State) (layer : LayerId) : Prop :=
  ∃ i l e signature, s.arena.get i = .lambda l ∧ l.analysis? e = some signature ∧
    signature.layer = layer

/-! ### Notes -/

/-- If the shape is the result of a call of a lambda, the lambda takes `n` arguments. -/
def State.ResultOf (s : State) (n : Nat) (x : ShapeId) : Prop :=
  ∀ method k, s.arena.get x = .callResult method k →
    ∃ l, s.arena.lambda? method = some l ∧ l.paramCount = n

/-- What is known of the shape that was recorded for a call or a lambda in a layer. -/
def State.Details (ctx : Context) (s : State) (layer : LayerId) : Expr → ShapeId → Prop
  | .call _ callee args, x =>
    s.ResultOf args.length x ∧ ∀ c object name span, callee = .member c object name span →
      .expr object ∈ ctx.script.pieces ∧ ∃ r, s.layers.get? layer object.id = some r ∧
        (MemberTarget.resolve s.arena ctx.types r name = .arrayAdd → args.length = 1)
  | .lambda n _ _, x =>
    ∃ l, s.arena.get x = .lambda l ∧ l.node = n.id ∧ l.env.getLast? = some layer
  | _, _ => True

/-- A shape was recorded for an expression in a layer. -/
structure State.Notes (ctx : Context) (s : State) (layer : LayerId) (e : Expr) (x : ShapeId) :
    Prop where
  piece : .expr e ∈ ctx.script.pieces
  entry : s.layers.get? layer e.id = some x
  details : s.Details ctx layer e x

/-- A layer has shapes for all expressions of a body, unless there are problems. -/
def State.Covers (ctx : Context) (s : State) (es : List Expr) (layer : LayerId) : Prop :=
  ctx.script.ids.Nodup → s.problems = [] → ∀ e ∈ es, ∃ x, s.Notes ctx layer e x

/-- A signature that a lambda may get. Its layer came after the first `bound` ones and belongs to no
other analysis. -/
structure State.Offers (ctx : Context) (bound : Nat) (s : State) (method : ShapeId)
    (signature : Signature) : Prop where
  has : s.Has signature
  fresh : bound ≤ signature.layer
  there : signature.layer < s.layers.layers.size
  unused : ¬ s.Uses signature.layer
  covers : ∀ l lambda, s.arena.lambda? method = some l → ctx.script.lambda? l.node = some lambda →
    s.Covers ctx lambda.body.valued signature.layer

/-! ### Changes -/

/-- One change of the arena. Analyses that lambdas get are in layers that come after the first
`bound` ones. -/
inductive State.Alters (ctx : Context) (bound : Nat) (s : State) : Arena → Prop where
  | edits {b : Arena} : s.arena.Edits ctx.Names b → s.Alters ctx bound b
  | host (id : HostTypeId) : s.Alters ctx bound (s.arena.host id).2
  | hostMethod (m : Member) : s.Alters ctx bound (s.arena.push (.hostMethod m)).2
  | newRecord {n : Node} {props : List Property} {fields : OrderedMap String ShapeId} :
      .expr (.object n props) ∈ ctx.script.pieces → fields.keys ⊆ props.map Property.name →
      s.Alters ctx bound (s.arena.newRecord n.id fields).2
  | newArray {n : Node} {items : List Expr} (x : ShapeId) :
      .expr (.array n items) ∈ ctx.script.pieces → s.Alters ctx bound (s.arena.newArray n.id x).2
  | newLambda {lambda : Lambda} {l : LambdaShape} : lambda ∈ ctx.script.lambdas →
      l.node = lambda.node.id → l.paramCount = lambda.params.length → l.signatures = [] →
      l.generic = none → s.Alters ctx bound (s.arena.push (.lambda l)).2
  | newCall {method : ShapeId} {k : Nat} {signature : Signature} :
      s.arena.signature? method k = some signature → s.Alters ctx bound (s.arena.newCall method k).2
  | scope (method : ShapeId) (scope : ScopeId) :
      s.Alters ctx bound (s.arena.modifyLambda method fun l => { l with bodyScope := some scope })
  | signature {method : ShapeId} {signature : Signature} : s.Offers ctx bound method signature →
      s.Alters ctx bound (s.arena.modifyLambda method fun l =>
        { l with signatures := l.signatures ++ [signature] })
  | generic {method : ShapeId} {found : Option Signature} :
      (∀ signature ∈ found, s.Offers ctx bound method signature) →
      s.Alters ctx bound (s.arena.modifyLambda method fun l => { l with generic := found })

/-- One change. -/
inductive Change (ctx : Context) (bound : Nat) (s : State) : State → Prop where
  /-- Neither shapes nor layers change. -/
  | aside {s' : State} : s'.arena.shapes = s.arena.shapes → s'.arena.hosts = s.arena.hosts →
      s'.arena.frozenBelow = s.arena.frozenBelow → s'.arena.widening = s.arena.widening →
      s'.arena.unstable = s.arena.unstable → s'.layers = s.layers →
      (s'.problems = [] → s.problems = []) → Change ctx bound s s'
  | alters {b : Arena} : s.Alters ctx bound b → Change ctx bound s { s with arena := b }
  /-- An expression gets its shape. -/
  | record {e : Expr} {x : ShapeId} {found : Option LayerId × Layers} :
      .expr e ∈ ctx.script.pieces → x < s.arena.shapes.size →
      s.layers.set? s.stack e.id x = some found → Change ctx bound s { s with layers := found.2 }
  /-- A variable gets its first shape. -/
  | declare {node : NodeId} {x : ShapeId} {found : Option LayerId × Layers} : ctx.Keeps node →
      x < s.arena.shapes.size → s.layers.set? s.stack node (s.declaredShape node x) = some found →
      Change ctx bound s { s with layers := found.2 }
  /-- A variable gets a wider shape. -/
  | widen {symbol : Symbol} {x old : ShapeId} : ctx.Keeps symbol.node → x < s.arena.shapes.size →
      s.layers.shape? s.stack symbol.node = some old → old ≠ Arena.unknown →
      Change ctx bound s (s.widen symbol x)
  | newLayer : Change ctx bound s { s with layers := s.layers.newLayer.2 }

/-- Changes one after the other. -/
abbrev Chain (ctx : Context) (bound : Nat) : State → State → Prop :=
  Relation.ReflTransGen (Change ctx bound)

theorem State.Offers.mono {bound' : Nat} (hle : bound ≤ bound') {signature : Signature}
    (h : s.Offers ctx bound' method signature) :
    s.Offers ctx bound method signature :=
  ⟨h.has, hle.trans h.fresh, h.there, h.unused, h.covers⟩

theorem State.Alters.mono {bound' : Nat} (hle : bound ≤ bound') (h : s.Alters ctx bound' b) :
    s.Alters ctx bound b := by
  cases h with
  | edits he => exact .edits he
  | host id => exact .host id
  | hostMethod m => exact .hostMethod m
  | newRecord hmem hkeys => exact .newRecord hmem hkeys
  | newArray x hmem => exact .newArray x hmem
  | newLambda hmem hnode hcount hsigs hgeneric => exact .newLambda hmem hnode hcount hsigs hgeneric
  | newCall hsig => exact .newCall hsig
  | scope method scope => exact .scope method scope
  | signature ho => exact .signature (ho.mono hle)
  | generic ho => exact .generic fun signature hs => (ho signature hs).mono hle

theorem Change.mono {bound' : Nat} (hle : bound ≤ bound') (h : Change ctx bound' s s') :
    Change ctx bound s s' := by
  cases h with
  | aside hs hh hf hw hu hl hp => exact .aside hs hh hf hw hu hl hp
  | alters ha => exact .alters (ha.mono hle)
  | record hmem hx hset => exact .record hmem hx hset
  | declare hkeeps hx hset => exact .declare hkeeps hx hset
  | widen hkeeps hx hold hne => exact .widen hkeeps hx hold hne
  | newLayer => exact .newLayer

theorem Chain.mono {bound' : Nat} (hle : bound ≤ bound') (h : Chain ctx bound' s s') :
    Chain ctx bound s s' :=
  h.lift id fun _ _ hc => hc.mono hle

/-! ### What a change does to a shape -/

theorem get_modifyLambda_cases (a : Arena) (x i : ShapeId) (f : LambdaShape → LambdaShape) :
    (a.modifyLambda x f).get i = a.get i ∨
      ∃ l, i = a.resolve x ∧ a.get i = .lambda l ∧ (a.modifyLambda x f).get i = .lambda (f l) := by
  rw [Arena.modifyLambda]
  split
  next l hl =>
    rw [Arena.get_set]
    split
    next hi => exact .inr ⟨l, hi.1, hi.1 ▸ hl, rfl⟩
    next => exact .inl rfl
  next => exact .inl rfl

/-- Two shapes of one lambda, of which one may have more analyses. -/
structure LambdaShape.Same (l l' : LambdaShape) : Prop where
  node : l'.node = l.node
  paramCount : l'.paramCount = l.paramCount
  env : l'.env = l.env
  signatures : l.signatures <+: l'.signatures

theorem LambdaShape.Same.refl (l : LambdaShape) : Same l l :=
  ⟨rfl, rfl, rfl, List.prefix_refl _⟩

theorem LambdaShape.Same.trans {l l' l'' : LambdaShape} (h : Same l l') (h' : Same l' l'') :
    Same l l'' :=
  ⟨h'.node.trans h.node, h'.paramCount.trans h.paramCount, h'.env.trans h.env,
    h.signatures.trans h'.signatures⟩

theorem LambdaShape.Same.signature {l l' : LambdaShape} (h : Same l l') {k : Nat}
    {signature : Signature} (hsig : l.signatures[k]? = some signature) :
    l'.signatures[k]? = some signature := by
  obtain ⟨rest, hrest⟩ := h.signatures
  rw [← hrest, List.getElem?_append_left (List.getElem?_eq_some_iff.mp hsig).1, hsig]

theorem get_host (a : Arena) (id : HostTypeId) (i : ShapeId) :
    (a.host id).2.get i = a.get i ∨ i = a.shapes.size ∧ (a.host id).2.get i = .concrete (.host id) := by
  rw [Arena.host]
  split
  · exact .inl rfl
  · show (a.push _).2.get i = _ ∨ _ ∧ (a.push _).2.get i = _
    rw [Arena.get_push]
    split
    next hi => exact .inr ⟨hi, rfl⟩
    next => exact .inl rfl

/-- A shape that came with a change. -/
inductive IsNew (ctx : Context) : Shape → Prop where
  | concrete (c : Concrete) : IsNew ctx (.concrete c)
  | hostMethod (m : Member) : IsNew ctx (.hostMethod m)
  | record {n : Node} {props : List Property} {fields : OrderedMap String ShapeId} :
      .expr (.object n props) ∈ ctx.script.pieces → fields.keys ⊆ props.map Property.name →
      IsNew ctx (.record fields [n.id])
  | array {n : Node} {items : List Expr} (x : ShapeId) : .expr (.array n items) ∈ ctx.script.pieces →
      IsNew ctx (.array x [n.id])
  | lambda {lambda : Lambda} {l : LambdaShape} : lambda ∈ ctx.script.lambdas →
      l.node = lambda.node.id → l.paramCount = lambda.params.length →
      (∀ e, l.analysis? e = none) → IsNew ctx (.lambda l)
  | callResult (method : ShapeId) (k : Nat) : IsNew ctx (.callResult method k)

/-- What a change may do to the shape `i`. -/
inductive SlotChange (ctx : Context) (a b : Arena) (i : ShapeId) : Prop where
  | same : b.get i = a.get i → SlotChange ctx a b i
  | edits : a.Edits ctx.Names b → SlotChange ctx a b i
  | new : i = a.shapes.size → IsNew ctx (b.get i) → SlotChange ctx a b i
  | lambda {l l' : LambdaShape} : a.get i = .lambda l → b.get i = .lambda l' →
      LambdaShape.Same l l' → SlotChange ctx a b i

theorem slotChange_push {a : Arena} {shape : Shape} (hnew : IsNew ctx shape) (i : ShapeId) :
    SlotChange ctx a (a.push shape).2 i := by
  by_cases hi : i = a.shapes.size
  · refine .new hi ?_
    rw [hi, Arena.get_push_self]
    exact hnew
  · refine .same ?_
    rw [Arena.get_push, if_neg hi]

theorem slotChange_modifyLambda (a : Arena) (x i : ShapeId) {f : LambdaShape → LambdaShape}
    (hf : ∀ l, LambdaShape.Same l (f l)) : SlotChange ctx a (a.modifyLambda x f) i := by
  rcases get_modifyLambda_cases a x i f with heq | ⟨l, _, hl, hl'⟩
  · exact .same heq
  · exact .lambda hl hl' (hf l)

theorem State.Alters.slot (h : s.Alters ctx bound b) (i : ShapeId) : SlotChange ctx s.arena b i := by
  cases h with
  | edits he => exact .edits he
  | host id =>
    rcases get_host s.arena id i with heq | ⟨hi, hnew⟩
    · exact .same heq
    · exact .new hi (hnew ▸ .concrete _)
  | hostMethod m => exact slotChange_push (.hostMethod m) i
  | newRecord hmem hkeys =>
    refine slotChange_push (.record hmem ?_) i
    rwa [OrderedMap.keys_mapValues]
  | newArray x hmem => exact slotChange_push (.array _ hmem) i
  | newLambda hmem hnode hcount hsigs hgeneric =>
    refine slotChange_push (.lambda hmem hnode hcount fun e => ?_) i
    cases e with
    | none => exact hgeneric
    | some k =>
      rw [LambdaShape.analysis?, hsigs]
      rfl
  | newCall hsig => exact slotChange_push (.callResult _ _) i
  | scope method scope | generic ho =>
    exact slotChange_modifyLambda _ _ _ fun _ => ⟨rfl, rfl, rfl, List.prefix_refl _⟩
  | signature ho =>
    exact slotChange_modifyLambda _ _ _ fun _ => ⟨rfl, rfl, rfl, List.prefix_append ..⟩

namespace SlotChange

variable {a : Arena}

/-- Only records, arrays and lambdas change. -/
theorem get_eq (h : SlotChange ctx a b i) (hi : i < a.shapes.size)
    (hcompound : (a.get i).isCompound = false) (hlambda : ∀ l, a.get i ≠ .lambda l) :
    b.get i = a.get i := by
  cases h with
  | same heq => exact heq
  | edits he => exact he.evolves.other hcompound
  | new heq _ => exact absurd heq (Nat.ne_of_lt hi)
  | lambda hl _ _ => exact absurd hl (hlambda _)

theorem lambda_after (h : SlotChange ctx a b i) (hl : a.get i = .lambda l) :
    ∃ l', b.get i = .lambda l' ∧ LambdaShape.Same l l' := by
  cases h with
  | same heq => exact ⟨l, heq.trans hl, .refl l⟩
  | edits he => exact ⟨l, (he.evolves.other (by rw [hl]; rfl)).trans hl, .refl l⟩
  | new heq _ =>
    rw [heq, Arena.get_of_ge (Nat.le_refl _)] at hl
    cases hl
  | lambda hold hnew hsame =>
    cases hl.symm.trans hold
    exact ⟨_, hnew, hsame⟩

theorem lambda_before (h : SlotChange ctx a b i) {l' : LambdaShape} (hl : b.get i = .lambda l') :
    (∃ l, a.get i = .lambda l ∧ LambdaShape.Same l l') ∨ i = a.shapes.size ∧ IsNew ctx (.lambda l') := by
  cases h with
  | same heq => exact .inl ⟨l', heq.symm.trans hl, .refl l'⟩
  | edits he => exact .inl ⟨l', he.evolves.lambda_before hl, .refl l'⟩
  | new heq hnew => exact .inr ⟨heq, hl ▸ hnew⟩
  | lambda hold hnew hsame =>
    cases hl.symm.trans hnew
    exact .inl ⟨_, hold, hsame⟩

theorem named (h : SlotChange ctx a b i)
    (hnamed : ∀ {i fields origins}, a.get i = .record fields origins →
      ∀ name ∈ fields.keys, ctx.Names name)
    {fields : OrderedMap String ShapeId}
    (hb : b.get i = .record fields origins) : ∀ name ∈ fields.keys, ctx.Names name := by
  cases h with
  | same heq => exact hnamed (heq.symm.trans hb)
  | edits he =>
    obtain ⟨_, _, hbefore, _, hkeys⟩ := he.record_before hb
    exact fun name hname => (hkeys name hname).elim (hnamed hbefore name) id
  | new _ hnew =>
    rw [hb] at hnew
    cases hnew with
    | record hmem hkeys =>
      exact fun name hname => List.mem_flatMap.mpr ⟨_, hmem, hkeys hname⟩
  | lambda _ hl _ => cases hl.symm.trans hb

end SlotChange

namespace State

/-- The lambdas of `b` have no analyses but those of `s`, and at most one that was offered. -/
def Gains (ctx : Context) (bound : Nat) (s : State) (b : Arena) : Prop :=
  ∃ j d, ∀ {i l' e signature}, b.get i = .lambda l' → l'.analysis? e = some signature →
    (∃ l, s.arena.get i = .lambda l ∧ LambdaShape.Same l l' ∧ l.analysis? e = some signature) ∨
      i = j ∧ e = d ∧ ∃ method l, i = s.arena.resolve method ∧ s.arena.get i = .lambda l ∧
        LambdaShape.Same l l' ∧ s.Offers ctx bound method signature

theorem Alters.gains (h : s.Alters ctx bound b) : s.Gains ctx bound b := by
  -- Where no lambda is modified, a lambda has the analyses that it had.
  have hold (hsame : ∀ i l l', s.arena.get i = .lambda l → b.get i = .lambda l' → l = l') :
      s.Gains ctx bound b := by
    refine ⟨0, none, fun {i l' e signature} hl' hsig => .inl ?_⟩
    rcases (h.slot i).lambda_before hl' with ⟨l, hl, hsame'⟩ | ⟨_, hnew⟩
    · obtain rfl := hsame i l l' hl hl'
      exact ⟨_, hl, hsame', hsig⟩
    · cases hnew with
      | lambda _ _ _ hnone => rw [hnone e] at hsig; cases hsig
  have hpush {shape : Shape} (i : ShapeId) (l l' : LambdaShape) (hl : s.arena.get i = .lambda l)
      (hl' : (s.arena.push shape).2.get i = .lambda l') : l = l' := by
    rw [Arena.get_push_of_lt (Arena.lt_size_of_get (by rw [hl]; exact Shape.noConfusion)), hl] at hl'
    cases hl'
    rfl
  cases h with
  | edits he =>
    refine hold fun i l l' hl hl' => ?_
    have hbefore := he.evolves.lambda_before hl'
    rw [hl] at hbefore
    cases hbefore
    rfl
  | host id =>
    refine hold fun i l l' hl hl' => ?_
    rcases get_host s.arena id i with heq | ⟨_, hnew⟩
    · cases hl.symm.trans (heq.symm.trans hl')
      rfl
    · cases hl'.symm.trans hnew
  | scope method scope =>
    refine ⟨0, none, fun {i l' e signature} hl' hsig => .inl ?_⟩
    rcases get_modifyLambda_cases s.arena method i fun l => { l with bodyScope := some scope } with
      heq | ⟨l, _, hl, hnew⟩
    · exact ⟨l', heq.symm.trans hl', .refl l', hsig⟩
    · cases hl'.symm.trans hnew
      exact ⟨l, hl, ⟨rfl, rfl, rfl, List.prefix_refl _⟩, by cases e <;> exact hsig⟩
  | @signature method signature ho =>
    refine ⟨s.arena.resolve method,
      (s.arena.lambda? method).map fun l => l.signatures.length, fun {i l' e found} hl' hsig => ?_⟩
    rcases get_modifyLambda_cases s.arena method i
      fun l => { l with signatures := l.signatures ++ [signature] } with
      heq | ⟨l, hi, hl, hnew⟩
    · exact .inl ⟨l', heq.symm.trans hl', .refl l', hsig⟩
    · cases hl'.symm.trans hnew
      have hsame : LambdaShape.Same l { l with signatures := l.signatures ++ [signature] } :=
        ⟨rfl, rfl, rfl, List.prefix_append ..⟩
      cases e with
      | none => exact .inl ⟨l, hl, hsame, hsig⟩
      | some k =>
        simp only [LambdaShape.analysis?, List.getElem?_append] at hsig
        split at hsig
        · exact .inl ⟨l, hl, hsame, hsig⟩
        · have hlambda : s.arena.lambda? method = some l := lambda?_eq_some.mpr (by rw [← hl, hi]; rfl)
          obtain ⟨hk, rfl⟩ : k = l.signatures.length ∧ signature = found := by
            rw [List.getElem?_singleton] at hsig
            split at hsig
            · exact ⟨by omega, Option.some.inj hsig⟩
            · cases hsig
          exact .inr ⟨hi, by rw [hlambda, hk]; rfl, method, l, hi, hl, hsame, ho⟩
  | @generic method found ho =>
    refine ⟨s.arena.resolve method, none, fun {i l' e signature} hl' hsig => ?_⟩
    rcases get_modifyLambda_cases s.arena method i fun l => { l with generic := found } with
      heq | ⟨l, hi, hl, hnew⟩
    · exact .inl ⟨l', heq.symm.trans hl', .refl l', hsig⟩
    · cases hl'.symm.trans hnew
      have hsame : LambdaShape.Same l { l with generic := found } :=
        ⟨rfl, rfl, rfl, List.prefix_refl _⟩
      cases e with
      | some k => exact .inl ⟨l, hl, hsame, hsig⟩
      | none => exact .inr ⟨hi, rfl, method, l, hi, hl, hsame, ho signature hsig⟩
  | _ => exact hold hpush

theorem Alters.size_le (h : s.Alters ctx bound b) : s.arena.shapes.size ≤ b.shapes.size := by
  have hpush (shape : Shape) : s.arena.shapes.size ≤ (s.arena.push shape).2.shapes.size := by
    rw [Arena.size_push]
    exact Nat.le_succ _
  have hmodify (method : ShapeId) (f : LambdaShape → LambdaShape) :
      s.arena.shapes.size ≤ (s.arena.modifyLambda method f).shapes.size := by
    rw [Arena.modifyLambda]
    split <;> simp
  cases h with
  | edits he => exact Nat.le_of_eq he.evolves.size.symm
  | host id =>
    rw [Arena.host]
    split
    · exact Nat.le_refl _
    · exact hpush _
  | scope _ _ | signature _ | generic _ => exact hmodify _ _
  | _ => exact hpush _

theorem Alters.frozenBelow_eq (h : s.Alters ctx bound b) : b.frozenBelow = s.arena.frozenBelow := by
  have hmodify (method : ShapeId) (f : LambdaShape → LambdaShape) :
      (s.arena.modifyLambda method f).frozenBelow = s.arena.frozenBelow := by
    rw [Arena.modifyLambda]
    split <;> rfl
  cases h with
  | edits he => exact he.evolves.frozen
  | host id =>
    rw [Arena.host]
    split <;> rfl
  | scope _ _ | signature _ | generic _ => exact hmodify _ _
  | _ => rfl

/-- Shapes of host types are new or were there. -/
theorem Alters.hosts (h : s.Alters ctx bound b) (hp : p ∈ b.hosts.values) :
    p ∈ s.arena.hosts.values ∨ ∃ c, b.get p = .concrete c := by
  have hmodify {method : ShapeId} {f : LambdaShape → LambdaShape}
      (hp : p ∈ (s.arena.modifyLambda method f).hosts.values) : p ∈ s.arena.hosts.values := by
    rw [Arena.modifyLambda] at hp
    split at hp <;> exact hp
  cases h with
  | edits he => exact .inl (he.evolves.hosts ▸ hp)
  | host id =>
    rw [Arena.host] at hp ⊢
    split at hp
    · exact .inl hp
    · rcases OrderedMap.mem_values_insert hp with rfl | hp
      · exact .inr ⟨.host id, Arena.get_push_self⟩
      · exact .inl hp
  | scope _ _ | signature _ | generic _ => exact .inl (hmodify hp)
  | _ => exact .inl hp

theorem Alters.preserves (h : s.Alters ctx bound b) (ht : s.arena.Tied) : s.arena.Preserves b := by
  have hold {method : ShapeId} {l : LambdaShape} (hl : s.arena.resolved method = .lambda l)
      {t : ShapeId} (hmem : t ∈ (Shape.lambda l).ties) : t < s.arena.shapes.size :=
    ht.enclosed (s.arena.resolve method) t (by rwa [show s.arena.get _ = _ from hl])
  cases h with
  | edits he => exact ht.edits (he.mono fun _ _ => trivial)
  | host id => exact ht.operates (.host id)
  | hostMethod m => exact ht.operates (.hostMethod m)
  | newRecord _ _ => exact ht.operates (.newRecord _ _)
  | newArray _ _ => exact ht.operates (.newArray _ _)
  | newLambda _ _ _ hsigs _ =>
    refine ht.operates (.lambda fun signature hsig => ?_)
    rw [hsigs] at hsig
    cases hsig
  | newCall hsig => exact ht.operates (.newCall hsig)
  | scope method scope => exact ht.modifyLambda method (fun _ => List.prefix_refl _) fun l hl t => hold hl
  | signature ho =>
    refine ht.operates (.signature _ fun p hp => ?_)
    rcases List.mem_cons.mp hp with rfl | hp
    · exact ho.has.1
    · exact ho.has.2 p hp
  | generic _ => exact ht.modifyLambda _ (fun _ => List.prefix_refl _) fun l hl t => hold hl

end State

/-! ### What every change keeps -/

namespace Change

section

variable (h : Change ctx bound s s')

include h

/-- A change alters the arena, or leaves its shapes as they are. -/
theorem arena : s.Alters ctx bound s'.arena ∨
    s'.arena.shapes = s.arena.shapes ∧ s'.arena.hosts = s.arena.hosts ∧
      s'.arena.frozenBelow = s.arena.frozenBelow := by
  cases h with
  | aside hs hh hf _ _ _ _ => exact .inr ⟨hs, hh, hf⟩
  | alters ha => exact .inl ha
  | record _ _ _ | declare _ _ _ | newLayer => exact .inr ⟨rfl, rfl, rfl⟩
  | widen _ _ _ _ =>
    refine .inr ?_
    rw [State.widen]
    dsimp only
    split
    · split <;> exact ⟨rfl, rfl, rfl⟩
    · exact ⟨rfl, rfl, rfl⟩

theorem slot (i : ShapeId) : SlotChange ctx s.arena s'.arena i := by
  rcases h.arena with ha | ⟨hs, _⟩
  · exact ha.slot i
  · exact .same (Arena.get_of_shapes hs i)

theorem size_le : s.arena.shapes.size ≤ s'.arena.shapes.size := by
  rcases h.arena with ha | ⟨hs, _⟩
  · exact ha.size_le
  · rw [hs]

theorem preserves (ht : s.arena.Tied) : s.arena.Preserves s'.arena := by
  rcases h.arena with ha | ⟨hs, _⟩
  · exact ha.preserves ht
  · exact ht.of_shapes hs

theorem gains : s.Gains ctx bound s'.arena := by
  rcases h.arena with ha | ⟨hs, _⟩
  · exact ha.gains
  · exact ⟨0, none, fun {i l'} _ _ hl' hsig =>
      .inl ⟨l', (Arena.get_of_shapes hs i).symm.trans hl', .refl l', hsig⟩⟩

theorem hosts (hp : p ∈ s'.arena.hosts.values) :
    p ∈ s.arena.hosts.values ∨ ∃ c, s'.arena.get p = .concrete c := by
  rcases h.arena with ha | ⟨_, hh, _⟩
  · exact ha.hosts hp
  · exact .inl (hh ▸ hp)

theorem frozenBelow_eq :
    s'.arena.frozenBelow = s.arena.frozenBelow := by
  rcases h.arena with ha | ⟨_, _, hf⟩
  · exact ha.frozenBelow_eq
  · exact hf

theorem problems (hp : s'.problems = []) : s.problems = [] := by
  cases h with
  | aside _ _ _ _ _ _ hproblems => exact hproblems hp
  | _ => exact hp

omit h in
theorem widen_layers {symbol : Symbol} {old : ShapeId}
    (hold : s.layers.shape? s.stack symbol.node = some old) :
    (s.widen symbol x).layers = s.layers ∨ ∃ layer, s.layers.find? s.stack symbol.node = some layer ∧
      s.layers.get? layer symbol.node = some old ∧ s.layers.frozenBelow ≤ layer ∧
      (s.widen symbol x).layers = (s.layers.put layer symbol.node x).2 := by
  obtain ⟨layer, hfind, hget⟩ := shape?_eq_some hold
  rw [State.widen, Layers.replace]
  dsimp only
  split
  · exact .inl rfl
  · simp only [hfind, Option.getD_some]
    split
    · exact .inl rfl
    · exact .inr ⟨layer, rfl, hget, Nat.le_of_not_lt ‹_›, rfl⟩

theorem count_le : s.layers.layers.size ≤ s'.layers.layers.size := by
  cases h with
  | aside _ _ _ _ _ hl _ => rw [hl]
  | alters _ => exact Nat.le_refl _
  | record _ _ hset | declare _ _ hset => exact Nat.le_of_eq (size_set? hset).symm
  | widen _ _ hold _ =>
    rcases widen_layers hold with heq | ⟨_, _, _, _, heq⟩
    · rw [heq]
    · rw [heq, Layers.size_put]
  | newLayer => exact Nat.le_trans (Nat.le_succ _) (Nat.le_of_eq (Array.size_push ..).symm)

theorem entry {node : NodeId} (hp : s.layers.get? layer node = some p) (hn : ¬ ctx.Keeps node) :
    s'.layers.get? layer node = some p := by
  cases h with
  | aside _ _ _ _ _ hl _ => rwa [hl]
  | alters _ => exact hp
  | record _ _ hset | declare _ _ hset => exact get?_of_set? hset hp
  | widen hkeeps _ hold _ =>
    rcases widen_layers hold with heq | ⟨_, _, _, _, heq⟩
    · rwa [heq]
    · rw [heq, Layers.get?_put, if_neg, hp]
      rintro ⟨_, _, rfl⟩
      exact hn hkeeps
  | newLayer => exact (Layers.get?_newLayer ..).trans hp

/-- All shapes in layers are there. -/
theorem entries (hunknown : Arena.unknown < s.arena.shapes.size)
    (hin : ∀ {layer node p}, s.layers.get? layer node = some p → p < s.arena.shapes.size)
    {node : NodeId} (hp : s'.layers.get? layer node = some p) :
    p < s'.arena.shapes.size := by
  refine Nat.lt_of_lt_of_le ?_ h.size_le
  cases h with
  | aside _ _ _ _ _ hl _ => exact hin (hl ▸ hp)
  | alters _ => exact hin hp
  | record _ hx hset =>
    rcases get?_before_set? hset hp with hold | ⟨_, _, rfl⟩
    · exact hin hold
    · exact hx
  | declare _ hx hset =>
    rcases get?_before_set? hset hp with hold | ⟨_, _, rfl⟩
    · exact hin hold
    · rw [State.declaredShape]
      split
      · exact hunknown
      · exact hx
  | widen _ hx hold _ =>
    rcases widen_layers hold with heq | ⟨_, _, _, _, heq⟩
    · exact hin (heq ▸ hp)
    · rw [heq, Layers.get?_put] at hp
      split at hp
      · cases hp
        exact hx
      · exact hin hp
  | newLayer => exact hin ((Layers.get?_newLayer ..).symm.trans hp)

/-- The layers of analyses are those that were used and a new one. -/
theorem uses (hu : s'.Uses layer) :
    s.Uses layer ∨ bound ≤ layer ∧ layer < s'.layers.layers.size := by
  obtain ⟨j, d, hgains⟩ := h.gains
  obtain ⟨i, l', e, signature, hl', hsig, rfl⟩ := hu
  rcases hgains hl' hsig with ⟨l, hl, _, hold⟩ | ⟨_, _, _, _, _, _, _, ho⟩
  · exact .inl ⟨i, l, e, signature, hl, hold, rfl⟩
  · exact .inr ⟨ho.fresh, Nat.lt_of_lt_of_le ho.there h.count_le⟩

/-- A lambda stays where it is. -/
theorem resolve_lambda (ht : s.arena.Tied) (hl : s.arena.lambda? method = some l) :
    s'.arena.resolve method = s.arena.resolve method := by
  obtain ⟨l', hl', _⟩ := (h.slot (s.arena.resolve method)).lambda_after (lambda?_eq_some.mp hl)
  rw [(h.preserves ht).follows method, Arena.resolve_of_data (by rw [hl']; rfl)]

/-- A shape that leads to a lambda does so ever after. -/
theorem lambda? (ht : s.arena.Tied) (hl : s.arena.lambda? method = some l) :
    ∃ l', s'.arena.lambda? method = some l' ∧ LambdaShape.Same l l' := by
  obtain ⟨l', hl', hsame⟩ := (h.slot (s.arena.resolve method)).lambda_after (lambda?_eq_some.mp hl)
  refine ⟨l', lambda?_eq_some.mpr ?_, hsame⟩
  rw [Arena.resolved, h.resolve_lambda ht hl, hl']

end

end Change

/-- Shapes of one kind. Records, arrays and lambdas may differ in what they hold. -/
inductive Akin : Shape → Shape → Prop where
  | same (shape : Shape) : Akin shape shape
  | record {fields fields' : OrderedMap String ShapeId} {origins origins' : List NodeId} :
      Akin (.record fields origins) (.record fields' origins')
  | array {element element' : ShapeId} {origins origins' : List NodeId} :
      Akin (.array element origins) (.array element' origins')
  | lambda {l l' : LambdaShape} : Akin (.lambda l) (.lambda l')

theorem Akin.of_sameKind {p q : Shape} (h : p.SameKind q) : Akin p q := by
  cases h
  · exact .record
  · exact .array

theorem Akin.trans {p q r : Shape} (h : Akin p q) (h' : Akin q r) : Akin p r := by
  cases h with
  | same => exact h'
  | record => cases h' <;> exact .record
  | array => cases h' <;> exact .array
  | lambda => cases h' <;> exact .lambda

/-- What a shape leads to stays of the same kind. -/
theorem Change.akin (h : Change ctx bound s s') (ht : s.arena.Tied) (hi : i < s.arena.shapes.size) :
    Akin (s.arena.resolved i) (s'.arena.resolved i) := by
  have hresolves := ht.grounded.resolves i
  have hlt := ht.enclosed.lt_size_of_resolves hresolves hi
  have hafter := h.preserves ht
  have hslot := h.slot (s.arena.resolve i)
  have hdata := hresolves.isLink
  -- A shape that did not become a link is found where it was.
  have hthere (hstays : (s'.arena.get (s.arena.resolve i)).isLink = false) :
      s'.arena.resolved i = s'.arena.get (s.arena.resolve i) := by
    rw [Arena.resolved, hafter.follows i, Arena.resolve_of_data hstays]
  have hother (hc : (s.arena.get (s.arena.resolve i)).isCompound = false)
      (hl : ∀ l, s.arena.get (s.arena.resolve i) ≠ .lambda l) :
      Akin (s.arena.resolved i) (s'.arena.resolved i) := by
    have heq := hslot.get_eq hlt hc hl
    rw [hthere (by rw [heq]; exact hdata), heq]
    exact .same _
  have hsame (heq : s'.arena.get (s.arena.resolve i) = s.arena.get (s.arena.resolve i)) :
      Akin (s.arena.resolved i) (s'.arena.resolved i) := by
    rw [hthere (by rw [heq]; exact hdata), heq]
    exact .same _
  cases hget : s.arena.get (s.arena.resolve i) with
  | record _ _ | array _ _ =>
    cases hslot with
    | same heq => exact hsame heq
    | edits he =>
      rw [Arena.resolved, Arena.resolved, hafter.follows i]
      exact .of_sameKind (he.evolves.resolves (hafter.tied.grounded.resolves _) (by rw [hget]; rfl))
    | new heq _ => exact absurd heq (Nat.ne_of_lt hlt)
    | lambda hl _ _ => cases hget.symm.trans hl
  | lambda l =>
    obtain ⟨l', hl', _⟩ := hslot.lambda_after hget
    rw [hthere (by rw [hl']; rfl), hl', Arena.resolved, hget]
    exact .lambda
  | forward target | callResult method k => rw [hget] at hdata; cases hdata
  | _ =>
    exact hother (by rw [hget]; rfl) (by rw [hget]; exact fun _ => Shape.noConfusion)

/-- What leads to an array did so before. -/
theorem Change.array_before (h : Change ctx bound s s') (ht : s.arena.Tied)
    (hi : i < s.arena.shapes.size) (harray : s'.arena.resolved i = .array element origins) :
    ∃ element' origins', s.arena.resolved i = .array element' origins' := by
  have hakin := h.akin ht hi
  rw [harray] at hakin
  generalize s.arena.resolved i = before at hakin
  cases hakin <;> exact ⟨_, _, rfl⟩

theorem resolve_eq_arrayAdd {a : Arena} {types : Registry} {name : String} :
    MemberTarget.resolve a types r name = .arrayAdd ↔
      (∃ element origins, a.resolved r = .array element origins) ∧
        Builtin.lookup? .array name = some .arrayAdd := by
  rw [MemberTarget.resolve]
  dsimp only
  cases hr : a.resolved r with
  | array element origins =>
    simp only [Shape.array.injEq, exists_eq', exists_and_left]
    grind
  | concrete c => cases c <;> simp only [reduceCtorEq, exists_false, false_and, iff_false] <;> grind
  | record fields origins =>
    simp only [reduceCtorEq, exists_false, false_and, iff_false]
    grind
  | _ =>
    simp only [reduceCtorEq, exists_false, false_and]

/-- What all states of an analysis have in common. -/
structure State.Tidy (s : State) : Prop where
  tied : s.arena.Tied
  entries : ∀ {layer node p}, s.layers.get? layer node = some p → p < s.arena.shapes.size

theorem State.Sane.tidy (h : s.Sane) : s.Tidy where
  tied :=
    { unknown := h.sound.get_unknown
      rooted := h.rooted
      grounded := h.sound.grounded
      named := fun _ _ _ => trivial
      nonempty := h.sound.unknown_lt_size
      enclosed := h.sound.enclosed }
  entries := h.layers

theorem State.Tidy.change (h : s.Tidy) (hc : Change ctx bound s s') : s'.Tidy where
  tied := (hc.preserves h.tied).tied
  entries := hc.entries h.tied.nonempty h.entries

/-! ### Notes stay -/

theorem SlotChange.callResult_before {a : Arena} (h : SlotChange ctx a b i) (hi : i < a.shapes.size)
    {k : Nat} (hb : b.get i = .callResult method k) :
    a.get i = .callResult method k := by
  cases h with
  | same heq => exact heq.symm.trans hb
  | edits he =>
    exact (he.evolves.get_eq (by rw [hb]; rfl) (by rw [hb]; exact fun _ => Shape.noConfusion)).symm.trans hb
  | new heq _ => exact absurd heq (Nat.ne_of_lt hi)
  | lambda _ hl _ => cases hb.symm.trans hl

theorem State.Details.change {e : Expr} (h : s.Details ctx layer e x) (hx : x < s.arena.shapes.size)
    (ht : s.Tidy) (hids : ctx.script.ids.Nodup) (hc : Change ctx bound s s') :
    s'.Details ctx layer e x := by
  cases e with
  | call n callee args =>
    refine ⟨fun method k hget => ?_, fun c object name span hcallee => ?_⟩
    · obtain ⟨l, hl, hcount⟩ := h.1 method k ((hc.slot x).callResult_before hx hget)
      obtain ⟨l', hl', hsame⟩ := hc.lambda? ht.tied hl
      exact ⟨l', hl', hsame.paramCount.trans hcount⟩
    · obtain ⟨hmem, r, hr, hadd⟩ := h.2 c object name span hcallee
      refine ⟨hmem, r, hc.entry hr (Script.not_stored hids hmem), fun htarget => ?_⟩
      obtain ⟨⟨_, _, harray⟩, hname⟩ := resolve_eq_arrayAdd.mp htarget
      exact hadd (resolve_eq_arrayAdd.mpr ⟨hc.array_before ht.tied (ht.entries hr) harray, hname⟩)
  | lambda n params body =>
    obtain ⟨l, hl, hnode, hlast⟩ := h
    obtain ⟨l', hl', hsame⟩ := (hc.slot x).lambda_after hl
    exact ⟨l', hl', hsame.node.trans hnode, hsame.env ▸ hlast⟩
  | _ => trivial

theorem State.Notes.change {e : Expr} (h : s.Notes ctx layer e x) (ht : s.Tidy)
    (hids : ctx.script.ids.Nodup) (hc : Change ctx bound s s') : s'.Notes ctx layer e x :=
  ⟨h.piece, hc.entry h.entry (Script.not_stored hids h.piece),
    h.details.change (ht.entries h.entry) ht hids hc⟩

theorem State.Covers.change {es : List Expr} (h : s.Covers ctx es layer) (ht : s.Tidy)
    (hc : Change ctx bound s s') : s'.Covers ctx es layer := by
  intro hids hproblems e he
  obtain ⟨x, hx⟩ := h hids (hc.problems hproblems) e he
  exact ⟨x, hx.change ht hids hc⟩

/-! ### What a chain keeps -/

section

variable (hc : Chain ctx bound s s')

include hc

/-- What every change keeps of tidy states, a chain keeps. -/
theorem Chain.keeps {P : State → Prop} (ht : s.Tidy)
    (hP : ∀ {s s'}, s.Tidy → Change ctx bound s s' → P s → P s') (h : P s) : P s' := by
  have hboth : s'.Tidy ∧ P s' := by
    induction hc with
    | refl => exact ⟨ht, h⟩
    | tail _ hc ih => exact ⟨ih.1.change hc, hP ih.1 hc ih.2⟩
  exact hboth.2

theorem Chain.count_le : s.layers.layers.size ≤ s'.layers.layers.size := by
  induction hc with
  | refl => exact Nat.le_refl _
  | tail _ hc ih => exact ih.trans hc.count_le

theorem Chain.uses (hu : s'.Uses layer) :
    s.Uses layer ∨ bound ≤ layer := by
  induction hc with
  | refl => exact .inl hu
  | tail _ hc ih =>
    rcases hc.uses hu with hold | ⟨hle, _⟩
    · exact ih hold
    · exact .inr hle

theorem Chain.lambda? (ht : s.Tidy) (hl : s.arena.lambda? method = some l) :
    ∃ l', s'.arena.lambda? method = some l' ∧ LambdaShape.Same l l' := by
  refine hc.keeps (P := fun s' => ∃ l', s'.arena.lambda? method = some l' ∧ LambdaShape.Same l l') ht
    (fun ht' hc' hlater => ?_) ⟨l, hl, .refl l⟩
  obtain ⟨l', hl', hsame⟩ := hlater
  obtain ⟨l'', hl'', hsame'⟩ := hc'.lambda? ht'.tied hl'
  exact ⟨l'', hl'', hsame.trans hsame'⟩

theorem Chain.resolve_lambda (ht : s.Tidy) (hl : s.arena.lambda? method = some l) :
    s'.arena.resolve method = s.arena.resolve method :=
  (hc.keeps (P := fun t => t.arena.resolve method = s.arena.resolve method ∧
    ∃ l, t.arena.lambda? method = some l) ht (fun ht' hc' ⟨heq, _, hl'⟩ =>
      ⟨(hc'.resolve_lambda ht'.tied hl').trans heq, (hc'.lambda? ht'.tied hl').imp fun _ h => h.1⟩)
    ⟨rfl, l, hl⟩).1

theorem Chain.callResult_before (ht : s.Tidy) (hx : x < s.arena.shapes.size) {k : Nat}
    (hget : s'.arena.get x = .callResult method k) :
    s.arena.get x = .callResult method k :=
  (hc.keeps (P := fun t => x < t.arena.shapes.size ∧
    (t.arena.get x = .callResult method k → s.arena.get x = .callResult method k)) ht
    (fun _ hc' hP => ⟨Nat.lt_of_lt_of_le hP.1 hc'.size_le, fun hget' =>
      hP.2 ((hc'.slot x).callResult_before hP.1 hget')⟩) ⟨hx, id⟩).2 hget

/-- What has the method `add` of arrays had it before. -/
theorem Chain.arrayAdd_before (ht : s.Tidy) (hr : r < s.arena.shapes.size) {name : String}
    (htarget : MemberTarget.resolve s'.arena ctx.types r name = .arrayAdd) :
    MemberTarget.resolve s.arena ctx.types r name = .arrayAdd := by
  refine (hc.keeps (P := fun t => r < t.arena.shapes.size ∧
    (MemberTarget.resolve t.arena ctx.types r name = .arrayAdd →
      MemberTarget.resolve s.arena ctx.types r name = .arrayAdd)) ht
    (fun ht' hc' hP => ⟨Nat.lt_of_lt_of_le hP.1 hc'.size_le, fun hadd => hP.2 ?_⟩) ⟨hr, id⟩).2 htarget
  obtain ⟨⟨_, _, harray⟩, hname⟩ := resolve_eq_arrayAdd.mp hadd
  exact resolve_eq_arrayAdd.mpr ⟨hc'.array_before ht'.tied hP.1 harray, hname⟩

end

theorem Chain.edited {a : Arena} (h : s.arena.Edited ctx.Names a) :
    Chain ctx bound s { s with arena := a } := by
  induction h with
  | refl => exact .refl
  | tail _ he ih => exact ih.tail (.alters (.edits he))

/-- What the changes of an analysis rely on. -/
structure State.Traced (ctx : Context) (s : State) : Prop where
  named : ∀ {i fields origins}, s.arena.get i = .record fields origins →
    ∀ name ∈ fields.keys, ctx.Names name
  hosts : ∀ p ∈ s.arena.hosts.values, ∃ c, s.arena.get p = .concrete c
  uses : ∀ {layer}, s.Uses layer → layer < s.layers.layers.size
  literal : ∀ {i l}, s.arena.get i = .lambda l → ∃ lambda ∈ ctx.script.lambdas,
    lambda.node.id = l.node ∧ lambda.params.length = l.paramCount

theorem State.Traced.change (h : s.Traced ctx) (hc : Change ctx bound s s') : s'.Traced ctx where
  named := (hc.slot _).named h.named
  hosts p hp := by
    rcases hc.hosts hp with hold | hnew
    · obtain ⟨c, hget⟩ := h.hosts p hold
      refine ⟨c, ((hc.slot p).get_eq (Arena.lt_size_of_get ?_) ?_ ?_).trans hget⟩
      · rw [hget]
        exact Shape.noConfusion
      · rw [hget]
        rfl
      · rw [hget]
        exact fun _ => Shape.noConfusion
    · exact hnew
  uses hu := (hc.uses hu).elim (fun hold => Nat.lt_of_lt_of_le (h.uses hold) hc.count_le) And.right
  literal {i l'} hl' := by
    rcases (hc.slot i).lambda_before hl' with ⟨l, hl, hsame⟩ | ⟨_, hnew⟩
    · rw [hsame.node, hsame.paramCount]
      exact h.literal hl
    · cases hnew with
      | lambda hmem hnode hcount _ => exact ⟨_, hmem, hnode.symm, hcount.symm⟩

theorem State.Traced.chain (h : s.Traced ctx) (hc : Chain ctx bound s s') : s'.Traced ctx := by
  induction hc with
  | refl => exact h
  | tail _ hc ih => exact ih.change hc

theorem State.Traced.based (h : s.Traced ctx) (hs : s.Sane) : s.arena.Based ctx.Names :=
  ⟨hs.sound.get_unknown, hs.rooted, hs.sound.grounded, h.named⟩

end Analysis

end HostScript
