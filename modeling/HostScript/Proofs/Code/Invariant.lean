import HostScript.Proofs.Code.Queue
import HostScript.Proofs.Host.Registry

/-!
# Invariants of code generation

An invariant speaks of the tables and of the operations generated so far. Generating code keeps it
if the few actions do that change the tables; all other parts of the generator only put operations
together. Operations count as a set here: an invariant does not see their order.

Where analysis knows the body, code is also checked. Operands are judged by the code that there is
in the end: the tables only grow until then, and a number that was given out stays in range. So an
action is described by what holds of its result if the final code covers the tables that it leaves
behind. -/

namespace HostScript

variable {problem : CompilerProblem} {m : Member}

/-- How an operation uses a member of the host. -/
inductive MemberUse where
  /-- As a field or property, read or stored to. -/
  | value
  /-- As an indexer, read or stored to. -/
  | entry
  | call
  /-- As a value that may be called later. -/
  | bound
deriving DecidableEq, Repr

/-- The type of the entries of an indexer. -/
def Member.entryType? (m : Member) : Option TypeRef :=
  match m.kind with
  | .indexer _ ty _ => some ty
  | _ => none

/-- The representation in which a use needs what the member gives. -/
def MemberUse.rep (m : Member) : MemberUse → Rep
  | value => Generate.memberRep m
  | entry => (m.entryType?.map TypeRef.rep).getD .any
  | call => (m.ret?.map TypeRef.rep).getD .any
  | bound => .any

namespace Op

/-- The member that an operation uses, by its number, and how. -/
@[simp]
def memberUse? : Op → Option (Nat × MemberUse)
  | .getHost i | .setHost i => some (i, .value)
  | .getHostIndex i | .setHostIndex i => some (i, .entry)
  | .callHost i _ | .callStatic i _ => some (i, .call)
  | .bindMethod i => some (i, .bound)
  | _ => none

/-- An operation that uses no member and calls no entry. -/
@[simp]
def Plain : Op → Prop
  | .callEntry .. => False
  | op => op.memberUse? = none

/-- The second list has the operations of the first, and plain ones. -/
def Extends (ops more : List Op) : Prop :=
  ops ⊆ more ∧ ∀ op ∈ more, op ∈ ops ∨ op.Plain

namespace Extends

variable {ops ops' more more' : List Op}

theorem refl (ops : List Op) : Extends ops ops :=
  ⟨fun _ h => h, fun _ h => .inl h⟩

theorem append (h : Extends ops more) (h' : Extends ops' more') :
    Extends (ops ++ ops') (more ++ more') := by
  refine ⟨List.append_subset.mpr ⟨?_, ?_⟩, ?_⟩
  · exact List.Subset.trans h.1 (List.subset_append_left more more')
  · exact List.Subset.trans h'.1 (List.subset_append_right more more')
  · intro op hop
    rcases List.mem_append.mp hop with hop | hop
    · exact (h.2 op hop).imp_left (List.mem_append_left ops')
    · exact (h'.2 op hop).imp_left (List.mem_append_right ops)

theorem nil (h : ∀ op ∈ more, op.Plain) : Extends [] more :=
  ⟨List.nil_subset more, fun op hop => .inr (h op hop)⟩

theorem appendPlain (h : Extends ops more) (h' : ∀ op ∈ more', op.Plain) :
    Extends ops (more ++ more') := by
  simpa using h.append (nil h')

theorem snocPlain {op : Op} (h : Extends ops more) (hop : op.Plain) :
    Extends ops (more ++ [op]) :=
  h.appendPlain (by simpa using hop)

theorem consPlain {op : Op} (h : Extends ops more) (hop : op.Plain) :
    Extends ops (op :: more) := by
  have hone : ∀ op' ∈ [op], op'.Plain := by simpa using hop
  simpa using (nil hone).append h

theorem snoc {op : Op} (hop : op.Plain) : Extends ops (ops ++ [op]) :=
  (refl ops).snocPlain hop

theorem cons {op : Op} (hop : op.Plain) : Extends ops (op :: ops) :=
  (refl ops).consPlain hop

end Extends

end Op

/-- The code has whatever is in the tables. Functions may get their operations later. -/
structure Code.Covers (c : Code) (t : Tables) : Prop where
  numbers : t.numbers.length ≤ c.numbers.size
  strings : t.strings.length ≤ c.strings.size
  names : t.names.length ≤ c.names.size
  members : t.members.length ≤ c.members.size
  templates : ∀ {k : Nat} {template}, t.templates[k]? = some template →
    c.templates[k]? = some template
  functions : ∀ {f : Nat} {function}, t.functions[f]? = some function →
    ∃ final, c.functions[f]? = some final ∧ final.arity = function.arity

/-- The slots that were given out are slots of the function too. -/
structure Bounds.Covers (v : Bounds) (t : Tables) : Prop where
  code : v.code.Covers t
  locals : t.localCount ≤ v.locals

namespace Body

/-- The members that can be reached by name. -/
def Names (b : Body) (m : Member) : Prop :=
  b.types.Offers m ∨ ∃ node, b.analysis.resolutions.get? node = some (.input m)

/-- Types lend extensions only. -/
def LendsExtensions (b : Body) : Prop :=
  ∀ {m}, b.types.Lends m → m.isExtension = true

/-- The members that code may use so. -/
def Offers (b : Body) (m : Member) : MemberUse → Prop
  | .value => b.Names m
  | .entry => b.types.Indexes m
  | .call | .bound => b.Names m ∧ (b.LendsExtensions → m.isCallable = true)

/-- What analysis knows of a call or a lambda literal in a body. -/
def Knows (b : Body) : Expr → Prop
  | .call n callee args =>
    (∀ method k, b.analysis.arena.get (b.shape n.id) = .callResult method k →
      ∃ l, b.analysis.arena.lambda? method = some l ∧ l.paramCount = args.length) ∧
    ∀ c object memberName span, callee = .member c object memberName span →
      Generate.target b object.id memberName = .arrayAdd → args.length = 1
  | .lambda n params _ =>
    ∃ l, b.analysis.arena.get (b.shape n.id) = .lambda l ∧ l.node = n.id ∧
      l.paramCount = params.length ∧ ∃ layer, l.env.getLast? = some layer ∧
        b.stack.getLast? = some layer
  | _ => True

/-- The layouts of the body are those of the code, and its captures are those of the function. -/
structure Suits (b : Body) (v : Bounds) : Prop where
  closed : b.layouts.Closed
  records : v.code.records = b.layouts.recordLayouts
  arrays : v.code.arrays = b.layouts.arrayLayouts
  captures : v.captures = b.captures.length
  ret : b.layouts.Holds b.ret

variable {b : Body} {v : Bounds}

theorem Suits.inRange (h : b.Suits v) {rep : Rep} (hrep : b.layouts.Holds rep) :
    rep.InRange v.code.records.size v.code.arrays.size := by
  rw [h.records, h.arrays, Layouts.recordLayouts, Layouts.arrayLayouts, Array.size_mapIdx,
    Array.size_mapIdx]
  exact hrep

theorem Suits.holds_rep (h : b.Suits v) (node : NodeId) : b.layouts.Holds (b.rep node) :=
  h.closed.rep _ _

/-- A field that is found has its place in a record of the code. -/
theorem Suits.field (h : b.Suits v) {layout : Nat} {name : String} {found : Nat × Rep}
    (hfound : b.layouts.field? layout name = some found) :
    b.layouts.Holds found.2 ∧ ∃ record ∈ v.code.records, found.1 < record.fields.length := by
  obtain ⟨hrep, fields, hfields, hlt⟩ := h.closed.field hfound
  refine ⟨hrep, ⟨layout, fields⟩, ?_, hlt⟩
  rw [h.records, Layouts.recordLayouts]
  refine Array.mem_of_getElem? (i := layout) ?_
  rw [Array.getElem?_mapIdx, hfields]
  rfl

end Body

/-- The tables differ in constants and members that were added. -/
structure Tables.Adds (t t' : Tables) : Prop where
  same : t' = { t with
    numbers := t'.numbers
    strings := t'.strings
    names := t'.names
    members := t'.members }
  numbers : t.numbers.length ≤ t'.numbers.length
  strings : t.strings.length ≤ t'.strings.length
  names : t.names.length ≤ t'.names.length
  members : t.members.length ≤ t'.members.length

namespace Tables

variable {v : Bounds} {t t' : Tables}

theorem Adds.refl (t : Tables) : t.Adds t :=
  ⟨rfl, Nat.le_refl _, Nat.le_refl _, Nat.le_refl _, Nat.le_refl _⟩

theorem Adds.code_covers (h : t.Adds t') {c : Code} (hc : c.Covers t') : c.Covers t where
  numbers := Nat.le_trans h.numbers hc.numbers
  strings := Nat.le_trans h.strings hc.strings
  names := Nat.le_trans h.names hc.names
  members := Nat.le_trans h.members hc.members
  templates hget := hc.templates (by rw [h.same]; exact hget)
  functions hget := hc.functions (by rw [h.same]; exact hget)

theorem Adds.covers (h : t.Adds t') (hv : v.Covers t') : v.Covers t := by
  have hlocals := hv.locals
  rw [h.same] at hlocals
  exact ⟨h.code_covers hv.code, hlocals⟩

theorem covers_escape {layouts : Layouts} {rep : Rep} (h : v.Covers (t.escape layouts rep)) :
    v.Covers t := by
  refine escape_keeps (P := fun t' => v.Covers t' → v.Covers t) (fun {t'} lambda ht' hc => ?_)
    (fun _ ht' hc => ht' ⟨{ hc.code with }, hc.locals⟩) layouts rep id h
  refine ht' ?_
  unfold escapeLambda at hc
  split at hc
  · exact hc
  · dsimp only at hc
    split at hc <;> exact ⟨{ hc.code with }, hc.locals⟩

end Tables

namespace Generate

open Op (Extends)

theorem suits_of_lax {b : Body} : False → b.Suits ⟨Tables.code {} b.layouts none, 0, 0⟩ :=
  False.elim

/-- A property of the tables and the operations generated so far that generation keeps. If it is
strict, analysis knows the body, and code is checked. -/
structure Invariant (b : Body) (v : Bounds) where
  strict : Prop
  suits : strict → b.Suits v
  holds : List Op → Tables → Prop
  slots : ∀ {ops t symbol storage}, strict → holds ops t → t.locals.get? symbol = some storage →
    storage.slot < t.localCount ∧ b.layouts.Holds storage.rep
  extend : ∀ {ops more t}, holds ops t → Extends ops more → holds more t
  adds : ∀ {ops t t'}, holds ops t → t.Adds t' → t'.members = t.members → holds ops t'
  /-- The variables that may be declared. -/
  allows : Symbol → Prop
  declares : ∀ {ops t} symbol inCell, allows symbol → t.locals.get? symbol = none → holds ops t →
    holds ops { t with
    locals := t.locals.insert symbol ⟨slotNumber t.localCount, b.rep symbol.node, inCell⟩
    localCount := t.localCount + 1 }
  escapes : ∀ {ops t} rep, holds ops t → holds ops (t.escape b.layouts rep)
  uses : ∀ {ops t t' m use i op}, holds ops t → b.Offers m use →
    member m (use.rep m) t = .ok (i, t') → op.memberUse? = some (i, use) → holds (ops ++ [op]) t'
  signatures : ∀ {ops t t' lambda index arity function}, holds ops t →
    (b.analysis.arena.signature? lambda index).isSome →
    (strict → ∃ l, b.analysis.arena.get lambda = .lambda l ∧ l.paramCount = arity) →
    signatureFunction lambda index arity t = .ok (function, t') →
    holds (ops ++ [.callEntry function arity]) t' ∧
      (strict → v.Covers t' → v.Covers t ∧ (Op.callEntry function arity).InRange v)
  templates : ∀ {ops t t' node params body index}, holds ops t →
    (strict → b.Knows (.lambda node params body)) →
    template b node params.length (b.analysis.arena.resolve (b.shape node.id)) t = .ok (index, t') →
    holds ops t' ∧ (strict → v.Covers t' → v.Covers t ∧ (Op.makeClosure index).InRange v)

variable {b : Body} {v : Bounds} {I : Invariant b v} {α β : Type}

/-- An action turns the operations `pre` into those of its result, whatever was there before. What
it gives is as `Q` says if code is checked and covers the tables. -/
def Emits (I : Invariant b v) (pre : List Op) (act : Generate α) (post : α → List Op)
    (Q : α → Prop) : Prop :=
  ∀ ⦃base t a t'⦄, I.holds (base ++ pre) t → act t = .ok (a, t') →
    I.holds (base ++ post a) t' ∧ (I.strict → v.Covers t' → v.Covers t ∧ Q a)

/-- What an action gives is as `Q` says. -/
def Gives (act : Generate α) (Q : α → Prop) : Prop :=
  ∀ ⦃t a t'⦄, act t = .ok (a, t') → Q a

namespace Gives

variable {act : Generate α} {f : α → Generate β} {P : α → Prop} {Q : β → Prop}

theorem trivial (act : Generate α) : Gives act fun _ => True :=
  fun _ _ _ _ => True.intro

theorem pure {a : α} (h : P a) : Gives (Pure.pure a) P := by
  intro t a' t' hrun
  cases pure_ok.mp hrun
  exact h

theorem bind (h : Gives act P) (hf : ∀ a, P a → Gives (f a) Q) : Gives (act >>= f) Q := by
  intro t r t' hrun
  obtain ⟨a, t₁, hact, hrest⟩ := bind_ok.mp hrun
  exact hf a (h hact) hrest

theorem fail {span : Span} :
    Gives (Generate.fail problem span : Generate α) P := by
  intro t a t' hrun
  cases hrun

end Gives

theorem Reads.gives {act : Generate α} {P : α → Prop} (h : Reads act fun _ => P) : Gives act P :=
  fun _ _ _ hrun => (h hrun).2

namespace Emits

variable {pre : List Op} {act : Generate α} {post : α → List Op} {f : α → Generate β}
  {after : β → List Op} {P Q : α → Prop} {R : β → Prop}

theorem pure {a : α} (h : Extends pre (post a)) (ha : I.strict → Q a) :
    Emits I pre (Pure.pure a) post Q := by
  intro base t a' t' ht hrun
  cases pure_ok.mp hrun
  exact ⟨I.extend ht ((Extends.refl base).append h), fun hs hcovers => ⟨hcovers, ha hs⟩⟩

/-- What is known of the first result may be used for the second one. What it is whatever the tables
are may be used to run the rest. -/
theorem bindGives (h : Emits I pre act post Q) (hgives : Gives act P)
    (hf : ∀ a, P a → Emits I (post a) (f a) after fun r => Q a → R r) :
    Emits I pre (act >>= f) after R := by
  intro base t r t' ht hrun
  obtain ⟨a, t₁, hact, hrest⟩ := bind_ok.mp hrun
  obtain ⟨ht₁, hfirst⟩ := h ht hact
  obtain ⟨ht', hsecond⟩ := hf a (hgives hact) ht₁ hrest
  refine ⟨ht', fun hs hcovers => ?_⟩
  obtain ⟨hcovers₁, hr⟩ := hsecond hs hcovers
  obtain ⟨hcovers₀, ha⟩ := hfirst hs hcovers₁
  exact ⟨hcovers₀, hr ha⟩

theorem bind (h : Emits I pre act post Q)
    (hf : ∀ a, Emits I (post a) (f a) after fun r => Q a → R r) : Emits I pre (act >>= f) after R :=
  h.bindGives (Gives.trivial act) fun a _ => hf a

theorem bindReads (h : Reads act fun _ => P) (hf : ∀ a, P a → Emits I pre (f a) after R) :
    Emits I pre (act >>= f) after R := by
  intro base t r t' ht hrun
  obtain ⟨a, t₁, hact, hrest⟩ := bind_ok.mp hrun
  obtain ⟨rfl, ha⟩ := h hact
  exact hf a ha ht hrest

theorem mono (h : Emits I pre act post P) (hQ : ∀ a, P a → I.strict → Q a) :
    Emits I pre act post Q := by
  intro base t a t' ht hrun
  obtain ⟨ht', ha⟩ := h ht hrun
  exact ⟨ht', fun hs hcovers => (ha hs hcovers).imp_right fun ha => hQ a ha hs⟩

/-- Operations that are there already stay. -/
theorem frameOn {inner : List Op} (h : Emits I inner act post Q) (pre : List Op) :
    Emits I (pre ++ inner) act (fun a => pre ++ post a) Q := by
  intro base t a t' ht hrun
  rw [← List.append_assoc] at ht ⊢
  exact h ht hrun

theorem frame (h : Emits I [] act post Q) (pre : List Op) :
    Emits I pre act (fun a => pre ++ post a) Q := by
  have hframe := h.frameOn pre
  rwa [List.append_nil] at hframe

/-- The tables as they are may be used to run the rest. -/
theorem get {f : Tables → Generate β}
    (h : ∀ t ops, I.holds ops t → Emits I pre (f t) after fun r => v.Covers t → R r) :
    Emits I pre (MonadState.get >>= f) after R := by
  intro base t r t' ht hrun
  obtain ⟨ht', hr⟩ := h t _ ht ht hrun
  exact ⟨ht', fun hs hcovers => ⟨(hr hs hcovers).1, (hr hs hcovers).2 (hr hs hcovers).1⟩⟩

theorem fail {span : Span} :
    Emits I pre (Generate.fail problem span : Generate α) post Q := by
  intro base t a t' ht hrun
  cases hrun

end Emits

end Generate

end HostScript
