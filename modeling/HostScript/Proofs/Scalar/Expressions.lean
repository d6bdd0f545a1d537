import HostScript.Proofs.OrderedMap
import HostScript.Proofs.Code.Tables
import HostScript.Proofs.Scalar.Operations
import Mathlib.Data.List.Forall2
import Mathlib.Data.List.Induction

/-!
# Code for scalar expressions

The code of a scalar expression leaves its value on the operand stack, in the representation that
is known before the run, or fails as the evaluation fails. Local slots agree with the variables of
the evaluation, and code for expressions does not change them.
-/

namespace HostScript

/-! ### Tables, variables and constants -/

/-- Every variable has a slot in the representation of its declaration, of its own if there are as
many slots. -/
structure Tables.Sound (b : Body) (t : Tables) : Prop where
  rep : ∀ {s storage}, t.locals.get? s = some storage → storage.rep = b.rep s.node
  inCell : ∀ {s storage}, t.locals.get? s = some storage → storage.inCell = false
  scalar : ∀ {s storage}, t.locals.get? s = some storage → storage.rep.isScalar = true
  slot_lt : ∀ {s storage}, t.locals.get? s = some storage → storage.slot < t.localCount
  slot_inj : t.localCount ≤ 65536 → ∀ {s s' storage storage'}, t.locals.get? s = some storage →
    t.locals.get? s' = some storage' → storage.slot = storage'.slot → s = s'

/-- The variables in scope have slots. -/
def Tables.Holds (t : Tables) (vs : Visible) : Prop :=
  ∀ v ∈ vs, ∃ storage, t.locals.get? v.2 = some storage

theorem Tables.Holds.grows {t t' : Tables} {vs : Visible} (h : t.Holds vs) (hg : t.Grows t') :
    t'.Holds vs :=
  fun v hv => (h v hv).imp fun storage => hg.locals v.2 storage

/-- The code has the constants of the tables. -/
structure Machine.Setting.Uses {σ : Type} (m : Machine.Setting σ) (t : Tables) : Prop where
  numbers : m.code.numbers = t.numbers.toArray
  strings : m.code.strings = t.strings.toArray
  names : m.code.names = t.names.toArray

/-- A local slot of the frame holds the value of the variable. -/
def Frame.Keeps (f : Frame) (t : Tables) (v : String × Symbol) (x : String × Value) : Prop :=
  v.1 = x.1 ∧ ∃ storage content, t.locals.get? v.2 = some storage ∧
    f.locals[storage.slot]? = some (.slot content) ∧ content.Holds storage.rep x.2

/-- The local slots of the frame hold the variables in scope. -/
def Frame.Agrees (f : Frame) (t : Tables) : Visible → Variables → Prop :=
  List.Forall₂ (f.Keeps t)

theorem Frame.Agrees.get {f : Frame} {t : Tables} {vs : Visible} {vars : Variables} {name : String}
    {s : Symbol} (h : f.Agrees t vs vars) (hs : OrderedMap.lookup name vs = some s) :
    ∃ storage content, t.locals.get? s = some storage ∧
      f.locals[storage.slot]? = some (.slot content) ∧
      content.Holds storage.rep (vars.get name) := by
  induction h with
  | nil => simp [OrderedMap.lookup] at hs
  | @cons v x vs vars hvx _ ih =>
    obtain ⟨hname, hkept⟩ := hvx
    by_cases hn : v.1 = name
    · have hv : v.2 = s := by simpa [OrderedMap.lookup, hn] using hs
      have hx : Variables.get (x :: vars) name = x.2 := by
        simp [Variables.get, OrderedMap.lookup, ← hname, hn]
      rw [hx, ← hv]
      exact hkept
    · have hx : Variables.get (x :: vars) name = Variables.get vars name := by
        simp [Variables.get, OrderedMap.lookup, ← hname, hn]
      rw [hx]
      exact ih (by simpa [OrderedMap.lookup, hn] using hs)

namespace Machine

variable {σ : Type}

/-- From one position and stack, the run comes to another position with the result on top of the
stack, or it ends in the failure. -/
def Delivers (m : Setting σ) (f : Frame) (w : World σ) (ip : Nat) (st : List Slot) (target : Nat)
    (base : List Slot) (rep : Rep) : Except RuntimeError Value → Prop
  | .ok v => ∃ n s, s.Holds rep v ∧
      Reaches m n (f.at ip st) w (f.at target (s :: base)) w
  | .error e => ∃ n, Ends m n (f.at ip st) w (.error e w)

/-- The run comes to another position with a number of texts on top of the stack, the last on
top, or it ends in the failure. -/
def DeliversTexts (m : Setting σ) (f : Frame) (w : World σ) (ip : Nat) (st : List Slot)
    (target count : Nat) : Except RuntimeError String → Prop
  | .ok joined => ∃ (n : Nat) (texts : List String), texts.length = count ∧ texts.foldr (· ++ ·) "" = joined ∧
      Reaches m n (f.at ip st) w
        (f.at target ((texts.map fun s => Slot.ref (.str s)).reverse ++ st)) w
  | .error e => ∃ n, Ends m n (f.at ip st) w (.error e w)

variable {m : Setting σ} {f : Frame} {w : World σ} {ip mid target : Nat} {st base base' : List Slot}
  {rep rep' : Rep} {r : Except RuntimeError Value} {g : Value → Except RuntimeError Value}

theorem Delivers.bind (h : Delivers m f w ip st mid base rep r)
    (hg : ∀ v s, s.Holds rep v → Delivers m f w mid (s :: base) target base' rep' (g v)) :
    Delivers m f w ip st target base' rep' (r >>= g) := by
  cases r with
  | error e => exact h
  | ok v =>
    obtain ⟨n, s, hs, hreach⟩ := h
    have hnext := hg v s hs
    show Delivers m f w ip st target base' rep' (g v)
    cases hv : g v with
    | error e =>
      rw [hv] at hnext
      obtain ⟨k, hend⟩ := hnext
      exact ⟨n + k, hreach.ends hend⟩
    | ok u =>
      rw [hv] at hnext
      obtain ⟨k, s', hs', hreach'⟩ := hnext
      exact ⟨n + k, s', hs', hreach.trans hreach'⟩

theorem delivers_of_performs {op : Op} {before : List Slot} (hop : f.function.ops[ip]? = some op)
    (h : Performs m w op before rep r) :
    Delivers m f w ip (before ++ st) (ip + 1) st rep r := by
  cases r with
  | ok v =>
    obtain ⟨s, hs, hrun⟩ := h
    exact ⟨1, s, hs, reaches_of_next hop (hrun f (ip + 1) st)⟩
  | error e => exact ⟨1, ends_of_error hop (h f (ip + 1) st)⟩

theorem Delivers.of_reaches {n : Nat} (h : Reaches m n (f.at ip st) w (f.at mid base) w)
    (hd : Delivers m f w mid base target base' rep r) :
    Delivers m f w ip st target base' rep r := by
  cases r with
  | ok v =>
    obtain ⟨k, s, hs, hreach⟩ := hd
    exact ⟨n + k, s, hs, h.trans hreach⟩
  | error e =>
    obtain ⟨k, hend⟩ := hd
    exact ⟨n + k, h.ends hend⟩

theorem reaches_loadLocal {slot : Nat} {content : Slot}
    (hop : f.function.ops[ip]? = some (.loadLocal slot))
    (hl : f.locals[slot]? = some (.slot content)) :
    Reaches m 1 (f.at ip st) w (f.at (ip + 1) (content :: st)) w := by
  refine reaches_of_next hop ?_
  have hl' : (f.at (ip + 1) st).locals[slot]? = some (.slot content) := hl
  have hread : Exec.readLocal slot (f.at (ip + 1) st) w = .ok (content, f.at (ip + 1) st) w := by
    have hget (k : Frame → Exec σ Slot) (f : Frame) : (get >>= k) f w = k f f w := rfl
    rw [Exec.readLocal, hget, hl']
    rfl
  show ((Exec.readLocal slot >>= Exec.push) >>= fun _ => pure Flow.next : Exec σ Flow)
    (f.at (ip + 1) st) w = _
  simp only [bind, StateT.bind, EStateM.bind, hread]
  rfl

theorem reaches_dup {s : Slot} (hop : f.function.ops[ip]? = some .dup) :
    Reaches m 1 (f.at ip (s :: st)) w (f.at (ip + 1) (s :: s :: st)) w :=
  reaches_of_next hop rfl

theorem reaches_pop {s : Slot} (hop : f.function.ops[ip]? = some .pop) :
    Reaches m 1 (f.at ip (s :: st)) w (f.at (ip + 1) st) w :=
  reaches_of_next hop rfl

theorem reaches_jump (hop : f.function.ops[ip]? = some (.jump target)) :
    Reaches m 1 (f.at ip st) w (f.at target st) w :=
  reaches_of_next hop rfl

theorem reaches_jumpIf {s : Slot} {c stop : Bool} (hop : f.function.ops[ip]? = some (.jumpIf stop target))
    (hs : s.value = .bool c) :
    Reaches m 1 (f.at ip (s :: st)) w (f.at (if c = stop then target else ip + 1) st) w := by
  refine reaches_of_next hop ?_
  rcases Slot.eq_of_value_bool hs with rfl | rfl <;> cases c <;> cases stop <;> rfl

theorem reaches_concat {x y : String} (hop : f.function.ops[ip]? = some .concat) :
    Reaches m 1 (f.at ip (.ref (.str y) :: .ref (.str x) :: st)) w
      (f.at (ip + 1) (.ref (.str (x ++ y)) :: st)) w :=
  reaches_of_next hop rfl

/-- A row of concatenations joins the texts below the last one with it. -/
theorem reaches_concats {texts : List String} {last : String}
    (hf : f.Has ip (List.replicate texts.length .concat)) :
    Reaches m texts.length
      (f.at ip (.ref (.str last) :: (texts.map fun s => Slot.ref (.str s)).reverse ++ st)) w
      (f.at (ip + texts.length) (.ref (.str (texts.foldr (· ++ ·) last)) :: st)) w := by
  induction texts using List.reverseRecOn generalizing ip last with
  | nil => exact Reaches.refl
  | append_singleton texts text ih =>
    rw [List.length_append, List.length_singleton, List.replicate_succ] at hf
    have hstep : Reaches m 1
        (f.at ip (.ref (.str last) :: .ref (.str text) ::
          ((texts.map fun s => Slot.ref (.str s)).reverse ++ st))) w _ w :=
      reaches_concat hf.head
    simpa [Nat.add_comm, Nat.add_left_comm, Nat.add_assoc] using hstep.trans (ih hf.tail)

theorem Delivers.consText {count : Nat} {texts : Except RuntimeError String}
    (h : Delivers m f w ip st mid st .str r)
    (ht : ∀ s, DeliversTexts m f w mid (.ref (.str s) :: st) target count texts) :
    DeliversTexts m f w ip st target (count + 1) (do
      let v ← r
      let rest ← texts
      return v.display w.heap ++ rest) := by
  cases r with
  | error e => exact h
  | ok v =>
    obtain ⟨n, s, hs, hreach⟩ := h
    obtain ⟨text, rfl⟩ := hs.fits
    rw [Slot.eq_of_value_str hs.value] at hreach
    have hrest := ht text
    cases texts with
    | error e =>
      obtain ⟨k, hend⟩ := hrest
      exact ⟨n + k, hreach.ends hend⟩
    | ok joined =>
      obtain ⟨k, texts, hcount, hjoin, hreach'⟩ := hrest
      refine ⟨n + k, text :: texts, by simp [hcount], ?_, ?_⟩
      · rw [← hjoin]
        rfl
      · simpa using hreach.trans hreach'

theorem DeliversTexts.concat {count : Nat} {texts : Except RuntimeError String}
    (h : DeliversTexts m f w ip st mid (count + 1) texts)
    (hf : f.Has mid (List.replicate count .concat)) :
    Delivers m f w ip st (mid + count) st .str (texts.map .str) := by
  cases texts with
  | error e => exact h
  | ok joined =>
    obtain ⟨n, texts, hcount, rfl, hreach⟩ := h
    rcases List.eq_nil_or_concat texts with rfl | ⟨init, last, rfl⟩
    · simp at hcount
    · obtain rfl : count = init.length := by simpa using hcount.symm
      have hall : Reaches m n (f.at ip st) w
          (f.at mid (.ref (.str last) :: (init.map fun s => Slot.ref (.str s)).reverse ++ st))
          w := by simpa using hreach
      refine ⟨_, _, ?_, hall.trans (reaches_concats hf)⟩
      simpa using Slot.holds_str _

end Machine

/-! ### What code computes -/

/-- The code leaves what the evaluation gives, in a representation. -/
def Computes (t : Tables) (vs : Visible) (start : Nat) (ops : List Op) (rep : Rep)
    (eval : Heap → Variables → Except RuntimeError Value) : Prop :=
  ∀ (σ : Type) (m : Machine.Setting σ) (f : Frame) (w : World σ) (st : List Slot)
    (vars : Variables), m.Uses t → f.Agrees t vs vars → f.Has start ops →
      Machine.Delivers m f w start st (start + ops.length) st rep (eval w.heap vars)

namespace Computes

variable {t : Tables} {vs : Visible} {start : Nat} {ops ops' : List Op} {op : Op} {rep rep' : Rep}
  {eval : Heap → Variables → Except RuntimeError Value}
  {result : Heap → Value → Except RuntimeError Value}
  {right : Heap → Variables → Except RuntimeError Value}

theorem of_performs {r : Except RuntimeError Value}
    (h : ∀ {σ : Type} (m : Machine.Setting σ) (w : World σ), m.Uses t →
      Machine.Performs m w op [] rep r) :
    Computes t vs start [op] rep fun _ _ => r :=
  fun _ m _ w _ _ hm _ hf => Machine.delivers_of_performs hf.head (h m w hm)

theorem snoc
    (h : Computes t vs start ops rep eval)
    (hop : ∀ {σ : Type} (m : Machine.Setting σ) (w : World σ) (s : Slot) (v : Value), m.Uses t →
      s.Holds rep v → Machine.Performs m w op [s] rep' (result w.heap v)) :
    Computes t vs start (ops ++ [op]) rep' fun heap vars => eval heap vars >>= result heap := by
  intro σ m f w st vars hm hvars hf
  refine (h σ m f w st vars hm hvars hf.left).bind fun v s hs => ?_
  rw [List.length_append, ← Nat.add_assoc]
  exact Machine.delivers_of_performs hf.right.head (hop m w s v hm hs)

theorem operate {r : Rep}
    (result : Heap → Value → Value → Except RuntimeError Value)
    (hl : Computes t vs start ops rep eval)
    (hr : Computes t vs (start + ops.length) ops' r right)
    (hop : ∀ {σ : Type} (m : Machine.Setting σ) (w : World σ) (sa sb : Slot) (a b : Value),
      sa.Holds rep a → sb.Holds r b →
        Machine.Performs m w op [sb, sa] rep' (result w.heap a b)) :
    Computes t vs start (ops ++ ops' ++ [op]) rep'
      (fun heap vars => do
        let a ← eval heap vars
        let b ← right heap vars
        result heap a b) := by
  intro σ m f w st vars hm hvars hf
  refine (hl σ m f w st vars hm hvars hf.left.left).bind fun a sa ha => ?_
  refine (hr σ m f w (sa :: st) vars hm hvars hf.left.right).bind fun b sb hb => ?_
  have hhead := hf.right.head
  simp only [List.length_append, ← Nat.add_assoc] at hhead ⊢
  exact Machine.delivers_of_performs hhead (hop m w sa sb a b ha hb)

/-- A change of the value that does nothing to values in the representation. -/
theorem bind_of_fits (h : Computes t vs start ops rep eval)
    (hr : ∀ heap v, rep.Fits v → result heap v = .ok v) :
    Computes t vs start ops rep fun heap vars => eval heap vars >>= result heap := by
  intro σ m f w st vars hm hvars hf
  refine (h σ m f w st vars hm hvars hf).bind fun v s hs => ?_
  rw [hr w.heap v hs.fits]
  exact ⟨0, s, hs, Machine.Reaches.refl⟩

theorem bind_ok_eq (eval : Heap → Variables → Except RuntimeError Value) :
    (fun heap vars => eval heap vars >>= .ok) = eval := by
  funext heap vars
  cases eval heap vars <;> rfl

theorem wrap (h : Computes t vs start ops rep eval) :
    Computes t vs start (ops ++ [.wrap]) .any eval := by
  have hw : Computes t vs start (ops ++ [.wrap]) .any fun heap vars => eval heap vars >>= .ok :=
    h.snoc fun _ _ _ _ _ hs => Machine.performs_wrap hs.value
  rwa [bind_ok_eq] at hw

/-- A value of a known representation is one of any kind. -/
theorem erase (h : Computes t vs start ops rep eval) :
    Computes t vs start (ops ++ if rep.isUnboxed then [.wrap] else []) .any eval := by
  by_cases hu : rep.isUnboxed
  · simpa [hu] using h.wrap
  · have hany : Computes t vs start ops .any fun heap vars => eval heap vars >>= .ok := by
      intro σ m f w st vars hm hvars hf
      exact (h σ m f w st vars hm hvars hf).bind fun v s hs =>
        ⟨0, s, ⟨hs.value, trivial⟩, Machine.Reaches.refl⟩
    rw [bind_ok_eq] at hany
    simpa [hu] using hany

/-- The evaluation of a condition. -/
def condition (eval : Heap → Variables → Except RuntimeError Value) (heap : Heap)
    (vars : Variables) : Except RuntimeError Value :=
  eval heap vars >>= fun v => v.asCondition.map .bool

theorem check {label : Nat} (hl : t.names[label]? = some "condition")
    (h : Computes t vs start ops rep eval) :
    Computes t vs start (ops ++ [.check .bool label]) .bool (condition eval) := by
  refine h.snoc fun m w s v hm hs => Machine.performs_checkBool ?_ hs.value
  simp [Code.name, hm.names, hl]

/-- Code that skips the right side when the left side decides. -/
theorem logical {stop : Bool} (hl : Computes t vs start ops .bool eval)
    (hr : Computes t vs (start + ops.length + 3) ops' .bool right) :
    Computes t vs start (Generate.shortCircuit start stop ops ops') .bool
      (fun heap vars => eval heap vars >>= fun v =>
        if v = .bool stop then .ok v else right heap vars) := by
  intro σ m f w st vars hm hvars hf
  have hlen : start + (Generate.shortCircuit start stop ops ops').length =
      start + ops.length + 3 + ops'.length := by
    simp only [Generate.shortCircuit, List.length_append, List.length_cons, List.length_nil]
    omega
  have hcontrol := hf.left.right
  refine (hl σ m f w st vars hm hvars hf.left.left).bind fun v s hs => ?_
  obtain ⟨c, rfl⟩ := hs.fits
  have hjump : Machine.Reaches m 2 (f.at (start + ops.length) (s :: st)) w
      (f.at (if c = stop then _ else _) (s :: st)) w :=
    (Machine.reaches_dup hcontrol.head).trans
      (Machine.reaches_jumpIf hcontrol.tail.head hs.value)
  rw [hlen]
  by_cases hc : c = stop
  · rw [if_pos (by rw [hc])]
    rw [if_pos hc] at hjump
    exact ⟨_, s, hs, hjump⟩
  · rw [if_neg (by simpa using hc)]
    rw [if_neg hc] at hjump
    refine Machine.Delivers.of_reaches
      (hjump.trans (Machine.reaches_pop hcontrol.tail.tail.head)) ?_
    have hright := hf.right
    rw [List.length_append, ← Nat.add_assoc] at hright
    exact hr σ m f w st vars hm hvars hright

end Computes

theorem Expr.eval_logical (n : Node) (op : LogicOp) (left right : Expr) :
    (Expr.logical n op left right).eval = fun heap vars =>
      Computes.condition left.eval heap vars >>= fun v =>
        if v = .bool (decide (op = .or)) then .ok v
        else Computes.condition right.eval heap vars := by
  funext heap vars
  simp only [Expr.eval, Computes.condition]
  cases left.eval heap vars with
  | error e => rfl
  | ok v =>
    simp only [bind, Except.bind]
    cases v.asCondition with
    | error e => rfl
    | ok c =>
      by_cases hc : c = decide (op = .or)
      · simp [hc, Except.map, pure, Except.pure]
      · simp only [Except.map, hc, if_false, Value.bool.injEq]
        cases right.eval heap vars with
        | error e => rfl
        | ok u => cases u.asCondition <;> rfl

theorem Expr.eval_not (n : Node) (operand : Expr) :
    (Expr.unary n .not operand).eval = fun heap vars =>
      Computes.condition operand.eval heap vars >>= fun v =>
        v.asCondition.map fun c => .bool !c := by
  funext heap vars
  simp only [Expr.eval, Computes.condition]
  cases operand.eval heap vars with
  | error e => rfl
  | ok v =>
    simp only [bind, Except.bind]
    cases v.asCondition <;> rfl

/-- The code leaves what the evaluation gives. If the kinds are `known`, no operation decides on
them at run time. -/
structure Leaves (t : Tables) (vs : Visible) (start : Nat) (rep : Rep)
    (eval : Heap → Variables → Except RuntimeError Value) (known : Prop) (ops : List Op) : Prop where
  computes : Computes t vs start ops rep eval
  direct : known → ops.any Op.isDynamic = false

/-! ### Generation that succeeds -/

namespace Generate

variable {α β : Type} {b : Body} {vs vs' : Visible} {start : Nat} {given wanted : Rep}
  {code : Fragment} {e : Expr} {known known' : Prop} {ops : List Op} {t T : Tables}
  {eval : Heap → Variables → Except RuntimeError Value}

/-- Generation goes through where the variables in scope have slots. It keeps what is known of
variables, and what `Q` says of the result holds in all later tables. -/
def Succeeds (b : Body) (vs : Visible) (x : Generate α) (Q : Tables → α → Prop) : Prop :=
  ∀ t : Tables, t.Sound b → t.Holds vs → ∃ a t', x t = .ok (a, t') ∧ t'.Sound b ∧ t.Grows t' ∧
    ∀ T : Tables, t'.Grows T → T.Sound b → Q T a

namespace Succeeds

variable {x : Generate α} {f : α → Generate β} {Q Q' : Tables → α → Prop} {R : Tables → β → Prop}

theorem pure {a : α} (h : ∀ T : Tables, T.Sound b → T.Holds vs → Q T a) :
    Succeeds b vs (Pure.pure a) Q :=
  fun t ht hvs => ⟨a, t, rfl, ht, .refl t, fun T hg hT => h T hT (hvs.grows hg)⟩

/-- The second part is generated where the first one leaves `vs'` in scope. -/
theorem andThen (hx : Succeeds b vs x Q) (hvs : ∀ T a, Q T a → T.Holds vs → T.Holds vs')
    (hf : ∀ a (T : Tables), T.Sound b → Q T a → Succeeds b vs' (f a) fun T r => Q T a → R T r) :
    Succeeds b vs (x >>= f) R := by
  intro t ht ht'
  obtain ⟨a, t₁, hrun, ht₁, hg, ha⟩ := hx t ht ht'
  have ha₁ := ha t₁ (.refl t₁) ht₁
  obtain ⟨c, t₂, hrun', ht₂, hg', hc⟩ := hf a t₁ ht₁ ha₁ t₁ ht₁ (hvs t₁ a ha₁ (ht'.grows hg))
  exact ⟨c, t₂, bind_ok.mpr ⟨a, t₁, hrun, hrun'⟩, ht₂, hg.trans hg',
    fun T hT hsound => hc T hT hsound (ha T (hg'.trans hT) hsound)⟩

theorem bind (hx : Succeeds b vs x Q)
    (hf : ∀ a (T : Tables), T.Sound b → Q T a → Succeeds b vs (f a) fun T r => Q T a → R T r) :
    Succeeds b vs (x >>= f) R :=
  hx.andThen (fun _ _ _ h => h) hf

theorem mono (hx : Succeeds b vs x Q) (hQ : ∀ T a, Q T a → Q' T a) : Succeeds b vs x Q' := by
  intro t ht hvs
  obtain ⟨a, t', hrun, ht', hg, ha⟩ := hx t ht hvs
  exact ⟨a, t', hrun, ht', hg, fun T hT hsound => hQ T a (ha T hT hsound)⟩

/-- What is in scope before is in scope afterwards. -/
theorem frame (hx : Succeeds b vs x Q) : Succeeds b vs x fun T a => T.Holds vs ∧ Q T a := by
  intro t ht hvs
  obtain ⟨a, t', hrun, ht', hg, ha⟩ := hx t ht hvs
  exact ⟨a, t', hrun, ht', hg, fun T hT hsound => ⟨hvs.grows (hg.trans hT), ha T hT hsound⟩⟩

end Succeeds

/-! ### Constants and conversions -/

theorem succeeds_pushNumber (x : Float) : Succeeds b vs (pushNumber x) fun T op =>
    ∀ start known, Leaves T vs start .num (fun _ _ => .ok (.number x)) known [op] := by
  intro t ht _
  refine ⟨_, _, rfl, { ht with }, { Tables.Grows.refl t with numbers := prefix_intern }, ?_⟩
  intro T hT _ start known
  refine ⟨Computes.of_performs fun m w hm => Machine.performs_pushNum ?_, fun _ => rfl⟩
  rw [hm.numbers, List.getElem?_toArray]
  exact getElem?_mono hT.numbers (intern_getElem? fun _ => eq_of_toBits_beq)

theorem succeeds_pushString (s : String) : Succeeds b vs (pushString s) fun T op =>
    ∀ start known, Leaves T vs start .str (fun _ _ => .ok (.str s)) known [op] := by
  intro t ht _
  refine ⟨_, _, rfl, { ht with }, { Tables.Grows.refl t with strings := prefix_intern }, ?_⟩
  intro T hT _ start known
  refine ⟨Computes.of_performs fun m w hm => Machine.performs_pushStr ?_, fun _ => rfl⟩
  rw [hm.strings, List.getElem?_toArray]
  exact getElem?_mono hT.strings (intern_getElem? fun _ => eq_of_beq)

theorem succeeds_name (s : String) : Succeeds b vs (name s) fun T i => T.names[i]? = some s :=
  fun t ht _ => ⟨_, _, rfl, { ht with }, { Tables.Grows.refl t with names := prefix_intern },
    fun _ hT _ => getElem?_mono hT.names (intern_getElem? fun _ => eq_of_beq)⟩

/-- A value that enters a representation is converted without a check. -/
theorem succeeds_convert (hs : given.isScalar) (he : given.Enters wanted) (label : String) :
    Succeeds b vs (convert b given wanted label) fun T conversion =>
      ∀ {start ops eval known}, Leaves T vs start given eval known ops →
        Leaves T vs start wanted eval known (ops ++ conversion) := by
  by_cases heq : given = wanted
  · have hrun : convert b given wanted label = pure [] := by simp only [convert, if_pos heq]
    subst heq
    rw [hrun]
    exact .pure fun _ _ _ _ _ _ _ h => by rwa [List.append_nil]
  · obtain rfl : wanted = .any := he.resolve_left heq
    have hrun : convert b given .any label = pure (if given.isUnboxed then [.wrap] else []) := by
      simp only [convert, if_neg heq]
      cases given with
      | num | bool | str | any => rfl
      | _ => cases hs
    rw [hrun]
    refine .pure fun _ _ _ _ _ _ _ h => ⟨h.computes.erase, fun hk => ?_⟩
    simp only [List.any_append, h.direct hk]
    split <;> rfl

theorem succeeds_as (hs : code.rep.isScalar) (he : code.rep.Enters wanted) (label : String) :
    Succeeds b vs (as b code wanted label) fun T ops =>
      ∀ {start eval known}, Leaves T vs start code.rep eval known code.ops →
        Leaves T vs start wanted eval known ops :=
  (succeeds_convert hs he label).bind fun _ _ _ _ => .pure fun _ _ _ h => h

/-- A value of another kind is checked where a condition is needed. -/
theorem succeeds_condition (hs : code.rep.isScalar) :
    Succeeds b vs (as b code .bool "condition") fun T ops =>
      ∀ {start eval known}, Leaves T vs start code.rep eval known code.ops →
        Leaves T vs start .bool (Computes.condition eval) (known ∧ code.rep = .bool) ops := by
  by_cases hbool : code.rep = .bool
  · refine (succeeds_as hs (.inl hbool) "condition").mono fun T ops h start eval known hc => ?_
    refine ⟨(h hc).computes.bind_of_fits fun heap v hv => ?_, fun hk => (h hc).direct hk.1⟩
    obtain ⟨c, rfl⟩ := hv
    rfl
  · have hrun : convert b code.rep .bool "condition" = (do
        let label ← name "condition"
        return (if code.rep.isUnboxed then [Op.wrap] else []) ++ [.check .bool label]) := by
      cases hrep : code.rep with
      | num | str | any => rfl
      | bool => exact absurd hrep hbool
      | _ => simp [hrep, Rep.isScalar] at hs
    have hconv : Succeeds b vs (convert b code.rep .bool "condition") fun T ops =>
        ∃ label, T.names[label]? = some "condition" ∧
          ops = (if code.rep.isUnboxed then [Op.wrap] else []) ++ [.check .bool label] := by
      rw [hrun]
      exact (succeeds_name _).bind fun label _ _ _ => .pure fun _ _ _ h => ⟨label, h, rfl⟩
    refine hconv.bind fun ops _ _ _ => .pure fun T _ _ h start eval known hc => ?_
    obtain ⟨label, hlabel, rfl⟩ := h
    refine ⟨?_, fun hk => absurd hk.2 hbool⟩
    rw [← List.append_assoc]
    exact hc.computes.erase.check hlabel

/-! ### Parts of expressions -/

/-- What is known of the code of a scalar expression. -/
structure ExprCode (b : Body) (vs : Visible) (e : Expr) (start : Nat) (known : Prop) (T : Tables)
    (code : Fragment) : Prop where
  rep : code.rep = b.scalarRep e
  scalar : code.rep.isScalar
  leaves : Leaves T vs start code.rep e.eval known code.ops

theorem ExprCode.mono (h : ExprCode b vs e start known T code) (hk : known' → known) :
    ExprCode b vs e start known' T code :=
  ⟨h.rep, h.scalar, h.leaves.computes, fun hk' => h.leaves.direct (hk hk')⟩

/-- What is known of the code of the parts of an interpolated string. -/
structure PartsCode (vs : Visible) (ps : List Part) (start : Nat) (known : Prop) (T : Tables)
    (ops : List Op) : Prop where
  delivers : ∀ (σ : Type) (m : Machine.Setting σ) (f : Frame) (w : World σ) (st : List Slot)
    (vars : Variables), m.Uses T → f.Agrees T vs vars → f.Has start ops →
      Machine.DeliversTexts m f w start st (start + ops.length) ps.length
        (Part.evalAll w.heap vars ps)
  direct : known → ops.any Op.isDynamic = false

theorem isScalar_binaryOp (op : BinOp) (l r : Rep) : (binaryOp op l r).2.isScalar := by
  have harith : ∀ op : ArithOp, (arithOp op l r).2.isScalar := by
    intro op
    unfold arithOp
    split <;> rfl
  cases op with
  | add =>
    simp only [binaryOp, addOp]
    split
    · rfl
    · exact harith .add
  | sub | mul | div | mod => exact harith _
  | lt | gt | le | ge | eq | ne => rfl

theorem succeeds_literal (n : Node) (value : Literal) :
    Succeeds b vs (literal value) (ExprCode b vs (.literal n value) start known) := by
  cases value with
  | number x => exact (succeeds_pushNumber x).bind fun _ _ _ _ => .pure fun _ _ _ h => ⟨rfl, rfl, h _ _⟩
  | str s => exact (succeeds_pushString s).bind fun _ _ _ _ => .pure fun _ _ _ h => ⟨rfl, rfl, h _ _⟩
  | bool c =>
    exact .pure fun _ _ _ =>
      ⟨rfl, rfl, .of_performs fun _ _ _ => Machine.performs_pushBool c, fun _ => rfl⟩
  | null =>
    exact .pure fun _ _ _ =>
      ⟨rfl, rfl, .of_performs fun _ _ _ => Machine.performs_pushNull, fun _ => rfl⟩

theorem computes_load {name : String} {s : Symbol} {storage : Storage}
    (hs : OrderedMap.lookup name vs = some s) (hl : T.locals.get? s = some storage) :
    Computes T vs start [.loadLocal storage.slot] storage.rep
      fun _ vars => .ok (vars.get name) := by
  intro σ m f w st vars _ hvars hf
  obtain ⟨storage', content, hl', hc, hholds⟩ := hvars.get hs
  rw [hl] at hl'
  cases hl'
  exact ⟨1, content, hholds, Machine.reaches_loadLocal hf.head hc⟩

/-- A variable in scope is loaded from its slot. -/
theorem succeeds_loadSymbol {s : Symbol} {name : String} (h : OrderedMap.lookup name vs = some s)
    (span : Span) : Succeeds b vs (loadSymbol b s span) fun T code =>
      code.rep = b.rep s.node ∧ code.rep.isScalar ∧ ∀ start known,
        Leaves T vs start code.rep (fun _ vars => .ok (vars.get name)) known code.ops := by
  intro t ht hvs
  obtain ⟨storage, hl⟩ := hvs _ (OrderedMap.mem_of_lookup h)
  have hrun : loadSymbol b s span t = .ok (⟨[.loadLocal storage.slot], storage.rep⟩, t) := by
    rw [loadSymbol, get_bind_run, hl]
    simp only [ht.inCell hl]
    rfl
  exact ⟨_, t, hrun, ht, .refl t, fun T hT _ => ⟨ht.rep hl, ht.scalar hl, fun _ _ =>
    ⟨computes_load h (hT.locals s storage hl), fun _ => rfl⟩⟩⟩

theorem succeeds_ident {n : Node} {name : String} (h : (Expr.ident n name).Resolved b.analysis vs) :
    Succeeds b vs (ident b n) (ExprCode b vs (.ident n name) start known) := by
  obtain ⟨s, hlookup, hres⟩ := h
  simp only [ident, hres]
  refine (succeeds_loadSymbol hlookup _).mono fun T code hload => ?_
  obtain ⟨hrep, hscalar, hleaves⟩ := hload
  exact ⟨by simp [Body.scalarRep, hres, hrep], hscalar, hleaves _ _⟩

theorem binary_code {n : Node} {op : BinOp} {left right : Expr} {l r : Fragment}
    (hl : ExprCode b vs left start (left.Direct b) T l)
    (hr : ExprCode b vs right (start + l.ops.length) (right.Direct b) T r) :
    ExprCode b vs (.binary n op left right) start ((Expr.binary n op left right).Direct b) T
      ⟨l.ops ++ r.ops ++ [(binaryOp op l.rep r.rep).1], (binaryOp op l.rep r.rep).2⟩ where
  rep := by simp only [Body.scalarRep, hl.rep, hr.rep]
  scalar := isScalar_binaryOp ..
  leaves := {
    computes := by
      simpa only [Expr.eval] using Computes.operate op.eval hl.leaves.computes hr.leaves.computes
        fun _ _ _ _ _ _ ha hb => Machine.performs_binaryOp op ha.carries hb.carries
    direct := fun hd => by
      simp [hl.leaves.direct hd.1, hr.leaves.direct hd.2.1, hl.rep, hr.rep, hd.2.2] }

theorem not_code {n : Node} {operand : Expr}
    (h : Leaves T vs start .bool (Computes.condition operand.eval) known ops) :
    ExprCode b vs (.unary n .not operand) start known T ⟨ops ++ [.notBool], .bool⟩ := by
  refine ⟨rfl, rfl, ?_, fun hk => by simp [h.direct hk, Op.isDynamic]⟩
  rw [Expr.eval_not]
  refine h.computes.snoc fun m w s v _ hs => ?_
  obtain ⟨c, rfl⟩ := hs.fits
  exact Machine.performs_notBool hs.value

theorem neg_code {n : Node} {operand : Expr} {o : Fragment}
    (ho : ExprCode b vs operand start (operand.Direct b) T o) :
    ExprCode b vs (.unary n .neg operand) start ((Expr.unary n .neg operand).Direct b) T
      (if o.rep = .num then ⟨o.ops ++ [.negate], .num⟩ else ⟨o.ops ++ [.dynNegate], .any⟩) := by
  have heval : (Expr.unary n .neg operand).eval =
      fun heap vars => operand.eval heap vars >>= Operator.negate := by
    funext heap vars
    rw [Expr.eval]
  by_cases hnum : o.rep = .num
  · rw [if_pos hnum]
    refine ⟨by simp [Body.scalarRep, ← ho.rep, hnum], rfl, ?_, fun hd => ?_⟩
    · rw [heval]
      exact ho.leaves.computes.snoc fun m w s v _ hs => Machine.performs_negate (hnum ▸ hs)
    · simp [ho.leaves.direct hd.1, Op.isDynamic]
  · rw [if_neg hnum]
    refine ⟨by simp [Body.scalarRep, ← ho.rep, hnum], rfl, ?_, fun hd =>
      absurd (ho.rep.trans hd.2) hnum⟩
    rw [heval]
    exact ho.leaves.computes.snoc fun m w s v _ hs => Machine.performs_dynNegate hs.value

theorem interpolated_code {n : Node} {p : Part} {ps : List Part}
    (hp : PartsCode vs (p :: ps) start known T ops) :
    ExprCode b vs (.interpolated n (p :: ps)) start known T
      ⟨ops ++ List.replicate ((p :: ps).length - 1) .concat, .str⟩ := by
  refine ⟨rfl, rfl, ?_, fun hk => by simp [hp.direct hk, Op.isDynamic]⟩
  intro σ m f w st vars hm hvars hf
  have htexts := (hp.delivers σ m f w st vars hm hvars hf.left).concat hf.right
  have heval : (Expr.interpolated n (p :: ps)).eval w.heap vars =
      (Part.evalAll w.heap vars (p :: ps)).map .str := by
    rw [Expr.eval]
    cases Part.evalAll w.heap vars (p :: ps) <;> rfl
  show Machine.Delivers m f w start st
    (start + (ops ++ List.replicate ps.length Op.concat).length) st .str
    ((Expr.interpolated n (p :: ps)).eval w.heap vars)
  rw [heval, List.length_append, List.length_replicate, ← Nat.add_assoc]
  exact htexts

theorem text_code {s : String} {ps : List Part} {op : Op}
    (h : Leaves T vs start .str (fun _ _ => .ok (.str s)) known [op])
    (hp : PartsCode vs ps (start + 1) known T ops) :
    PartsCode vs (.text s :: ps) start known T (op :: ops) := by
  refine ⟨?_, fun hk => ?_⟩
  · intro σ m f w st vars hm hvars hf
    have hfirst : f.Has start ([op] ++ ops) := hf
    have hall := (h.computes σ m f w st vars hm hvars hfirst.left).consText fun _ =>
      hp.delivers σ m f w _ vars hm hvars hf.tail
    rw [List.length_cons, Nat.add_comm ops.length, ← Nat.add_assoc, Part.evalAll]
    exact hall
  · rw [← List.singleton_append, List.any_append, h.direct hk, hp.direct hk]
    rfl

theorem leaves_display (h : Leaves T vs start code.rep eval known code.ops) :
    Leaves T vs start .str (fun heap vars => eval heap vars >>= fun v => .ok (.str (v.display heap)))
      known (if code.rep = .str then code.ops else code.ops ++ [.toStr]) := by
  by_cases hstr : code.rep = .str
  · rw [if_pos hstr]
    rw [hstr] at h
    refine ⟨h.computes.bind_of_fits fun heap v hv => ?_, h.direct⟩
    obtain ⟨s, rfl⟩ := hv
    rfl
  · rw [if_neg hstr]
    exact ⟨h.computes.snoc fun m w s v _ hs => Machine.performs_toStr hs.value, fun hk => by
      simp [h.direct hk, Op.isDynamic]⟩

theorem part_code {ps : List Part} {first : List Op}
    (he : Leaves T vs start .str
      (fun heap vars => e.eval heap vars >>= fun v => .ok (.str (v.display heap))) known first)
    (hp : PartsCode vs ps (start + first.length) known T ops) :
    PartsCode vs (.expr e :: ps) start known T (first ++ ops) := by
  refine ⟨?_, fun hk => by simp [he.direct hk, hp.direct hk]⟩
  intro σ m f w st vars hm hvars hf
  have hall := (he.computes σ m f w st vars hm hvars hf.left).consText fun _ =>
    hp.delivers σ m f w _ vars hm hvars hf.right
  have heval : Part.evalAll w.heap vars (.expr e :: ps) = (do
      let v ← e.eval w.heap vars >>= fun v => .ok (Value.str (v.display w.heap))
      let rest ← Part.evalAll w.heap vars ps
      return v.display w.heap ++ rest) := by
    rw [Part.evalAll]
    cases e.eval w.heap vars <;> rfl
  rw [List.length_append, ← Nat.add_assoc, heval]
  exact hall

/-! ### Expressions -/

/-- The code of a condition, and what comes after it. -/
theorem Succeeds.test {f : List Op → Generate α} {R : Tables → α → Prop}
    (he : Succeeds b vs (expr b start e) (ExprCode b vs e start known))
    (hf : ∀ ops, Succeeds b vs (f ops) fun T r => Leaves T vs start .bool
      (Computes.condition e.eval) (known ∧ b.scalarRep e = .bool) ops → R T r) :
    Succeeds b vs (do f (← as b (← expr b start e) .bool "condition")) R := by
  refine he.bind fun code _ _ hcode => (succeeds_condition hcode.scalar).bind fun ops _ _ _ => ?_
  exact (hf ops).mono fun T r h hops hcode => h (hcode.rep ▸ hops hcode.leaves)

mutual

theorem succeeds_expr : ∀ (e : Expr) {start : Nat}, e.isScalar = true → e.Resolved b.analysis vs →
    Succeeds b vs (expr b start e) (ExprCode b vs e start (e.Direct b))
  | .literal n value, _, _, _ => succeeds_literal n value
  | .ident .., _, _, hr => succeeds_ident hr
  | .grouping _ inner, _, hs, hr =>
    (succeeds_expr inner hs hr).mono fun _ _ h => ⟨h.rep, h.scalar, h.leaves⟩
  | .binary _ op left right, _, hs, hr => by
    rw [Expr.isScalar, Bool.and_eq_true] at hs
    rw [expr]
    refine (succeeds_expr left hs.1 hr.1).bind fun l _ _ _ => ?_
    refine (succeeds_expr right hs.2 hr.2).bind fun r _ _ _ => ?_
    exact Succeeds.pure (a := (⟨_, _⟩ : Fragment)) fun _ _ _ hr hl => binary_code hl hr
  | .logical _ op left right, start, hs, hr => by
    rw [Expr.isScalar, Bool.and_eq_true] at hs
    rw [expr]
    refine (succeeds_expr left hs.1 hr.1).test fun lops => (succeeds_expr right hs.2 hr.2).test fun rops => ?_
    refine .pure fun _ _ _ hr hl => ⟨rfl, rfl, ?_, fun hd => ?_⟩
    · rw [Expr.eval_logical]
      exact hl.computes.logical hr.computes
    · simp [shortCircuit, hl.direct hd.1, hr.direct hd.2, Op.isDynamic]
  | .unary _ .not operand, _, hs, hr => by
    rw [expr]
    exact (succeeds_expr operand hs hr).test fun ops => .pure fun _ _ _ h => not_code h
  | .unary _ .neg operand, _, hs, hr => by
    rw [expr]
    exact (succeeds_expr operand hs hr).bind fun o _ _ _ => .pure fun _ _ _ ho => neg_code ho
  | .interpolated _ [], _, _, _ =>
    (succeeds_pushString "").bind fun op _ _ _ => .pure fun _ _ _ h => ⟨rfl, rfl, h _ _⟩
  | .interpolated _ (p :: ps), _, hs, hr => by
    rw [expr]
    · exact (succeeds_parts (p :: ps) hs hr).bind fun ops _ _ _ => .pure fun _ _ _ h =>
        interpolated_code h
    · exact List.cons_ne_nil p ps

theorem succeeds_parts : ∀ (ps : List Part) {start : Nat}, Part.areScalar ps = true →
    Part.AllResolved b.analysis vs ps →
      Succeeds b vs (parts b start ps) (PartsCode vs ps start (Part.AllDirect b ps))
  | [], _, _, _ => .pure fun _ _ _ =>
    ⟨fun _ _ _ _ _ _ _ _ _ => ⟨0, [], rfl, rfl, Machine.Reaches.refl⟩, fun _ => rfl⟩
  | .text s :: rest, _, hs, hr => by
    rw [parts]
    refine (succeeds_pushString s).bind fun op _ _ _ => ?_
    exact (succeeds_parts rest hs hr).bind fun ops _ _ _ => .pure fun _ _ _ hp h => text_code (h _ _) hp
  | .expr value :: rest, _, hs, hr => by
    rw [Part.areScalar, Bool.and_eq_true] at hs
    rw [parts]
    refine (succeeds_expr value hs.1 hr.1).bind fun v _ _ _ => ?_
    refine (succeeds_parts rest hs.2 hr.2).bind fun ops _ _ _ => .pure fun _ _ _ hp hv => ?_
    have hfirst := leaves_display hv.leaves
    exact part_code ⟨hfirst.computes, fun hd => hfirst.direct hd.1⟩
      ⟨hp.delivers, fun hd => hp.direct hd.2⟩

end

end Generate

end HostScript
