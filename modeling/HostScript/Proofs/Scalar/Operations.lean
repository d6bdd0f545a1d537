import HostScript.Proofs.Machine.Runs
import HostScript.Proofs.Scalar.Settled

/-!
# Operations on scalars

The operation that code generation selects for an operator does what the operator does on values of
any kind, if its operands have the representations for which it was selected.
-/

namespace HostScript

/-- The slot holds a value in a representation. -/
structure Slot.Holds (s : Slot) (rep : Rep) (v : Value) : Prop where
  value : s.value = v
  fits : rep.Fits v

/-- The slot holds a value. It is of the kind that the representation names, if that is a scalar
one; the other representations are references, on which operators do not depend. -/
structure Slot.Carries (s : Slot) (rep : Rep) (v : Value) : Prop where
  value : s.value = v
  fits : rep.isScalar = true → rep.Fits v

theorem Slot.Holds.carries {s : Slot} {rep : Rep} {v : Value} (h : s.Holds rep v) :
    s.Carries rep v :=
  ⟨h.value, fun _ => h.fits⟩

namespace Slot

variable {s : Slot} {v : Value}

theorem holds_ref (v : Value) : (ref v).Holds .any v :=
  ⟨rfl, trivial⟩

theorem holds_num (x : Float) : (num x).Holds .num (.number x) :=
  ⟨rfl, x, rfl⟩

theorem holds_bool (b : Bool) : (bool b).Holds .bool (.bool b) :=
  ⟨rfl, b, rfl⟩

theorem holds_str (t : String) : (ref (.str t)).Holds .str (.str t) :=
  ⟨rfl, t, rfl⟩

theorem eq_of_value_number {x : Float} (h : s.value = .number x) :
    s = num x ∨ s = ref (.number x) := by
  cases s with
  | num y => exact .inl (by cases h; rfl)
  | bool b => cases h
  | ref u => exact .inr (by cases h; rfl)

theorem eq_of_value_bool {b : Bool} (h : s.value = .bool b) :
    s = bool b ∨ s = ref (.bool b) := by
  cases s with
  | num y => cases h
  | bool c => exact .inl (by cases h; rfl)
  | ref u => exact .inr (by cases h; rfl)

theorem eq_of_value_str {t : String} (h : s.value = .str t) : s = ref (.str t) := by
  cases s with
  | num y | bool c => cases h
  | ref u => cases h; rfl

end Slot

namespace Machine

variable {σ : Type}

/-- The operation takes `before` on top of the stack to a result in a representation. -/
def Performs (m : Setting σ) (w : World σ) (op : Op) (before : List Slot) (rep : Rep) :
    Except RuntimeError Value → Prop
  | .ok v => ∃ s : Slot, s.Holds rep v ∧ ∀ f ip st,
      execute m op (Frame.at f ip (before ++ st)) w = .ok (.next, f.at ip (s :: st)) w
  | .error e => ∀ f ip st, execute m op (Frame.at f ip (before ++ st)) w = .error e w

variable {m : Setting σ} {w : World σ} {l r : Rep} {a b : Value} {sa sb : Slot}

/-- An operation that leaves the result of a computation on the operands as a value. -/
theorem performs_ofExcept {op : Op} {before : List Slot} {result : Except RuntimeError Value}
    (h : ∀ f ip st, execute m op (Frame.at f ip (before ++ st)) w =
      ((ofExcept result >>= Exec.pushValue) >>= fun _ => pure Flow.next : Exec σ Flow)
        (f.at ip st) w) :
    Performs m w op before .any result := by
  cases result with
  | ok v => exact ⟨.ref v, Slot.holds_ref v, fun f ip st => by rw [h]; rfl⟩
  | error e => exact fun f ip st => by rw [h]; rfl

theorem performs_ofExcept_bool {op : Op} {before : List Slot} {result : Except RuntimeError Bool}
    (h : ∀ f ip st, execute m op (Frame.at f ip (before ++ st)) w =
      ((ofExcept result >>= fun c => Exec.push (.bool c)) >>= fun _ => pure Flow.next :
        Exec σ Flow) (f.at ip st) w) :
    Performs m w op before .bool (result.map .bool) := by
  cases result with
  | ok c => exact ⟨.bool c, Slot.holds_bool c, fun f ip st => by rw [h]; rfl⟩
  | error e => exact fun f ip st => by rw [h]; rfl

/-! ### Constants -/

theorem performs_pushNum {i : Nat} {x : Float} (h : m.code.numbers[i]? = some x) :
    Performs m w (.pushNum i) [] .num (.ok (.number x)) := by
  refine ⟨.num x, Slot.holds_num x, fun f ip st => ?_⟩
  show EStateM.Result.ok (Flow.next, f.at ip (.num (m.code.numbers[i]?.getD 0.0) :: st)) w = _
  rw [h]
  rfl

theorem performs_pushStr {i : Nat} {s : String} (h : m.code.strings[i]? = some s) :
    Performs m w (.pushStr i) [] .str (.ok (.str s)) := by
  refine ⟨.ref (.str s), Slot.holds_str s, fun f ip st => ?_⟩
  show EStateM.Result.ok
    (Flow.next, f.at ip (.ref (.str (m.code.strings[i]?.getD "")) :: st)) w = _
  rw [h]
  rfl

theorem performs_pushBool (c : Bool) : Performs m w (.pushBool c) [] .bool (.ok (.bool c)) :=
  ⟨.bool c, Slot.holds_bool c, fun _ _ _ => rfl⟩

theorem performs_pushNull : Performs m w .pushNull [] .any (.ok .null) :=
  ⟨.ref .null, Slot.holds_ref .null, fun _ _ _ => rfl⟩

/-! ### Arithmetic -/

theorem arith_numbers (h : Heap) (op : ArithOp) (x y : Float) :
    Operator.arith h op.binOp (.number x) (.number y) = .ok (.number (op.apply x y)) := by
  cases op <;> rfl

theorem performs_arithOp (op : ArithOp) (ha : sa.Carries l a) (hb : sb.Carries r b) :
    Performs m w (Generate.arithOp op l r).1 [sb, sa] (Generate.arithOp op l r).2
      (Operator.arith w.heap op.binOp a b) := by
  by_cases hnum : l = .num ∧ r = .num
  · obtain ⟨rfl, rfl⟩ := hnum
    obtain ⟨x, rfl⟩ := ha.fits rfl
    obtain ⟨y, rfl⟩ := hb.fits rfl
    rw [arith_numbers]
    refine ⟨.num (op.apply x y), Slot.holds_num _, fun f ip st => ?_⟩
    rcases Slot.eq_of_value_number ha.value with rfl | rfl <;>
      rcases Slot.eq_of_value_number hb.value with rfl | rfl <;> rfl
  · have hop : Generate.arithOp op l r = (.dynArith op, .any) := by
      simp [Generate.arithOp, hnum]
    rw [hop, ← ha.value, ← hb.value]
    exact performs_ofExcept fun _ _ _ => rfl

theorem performs_negate (ha : sa.Holds .num a) :
    Performs m w .negate [sa] .num (Operator.negate a) := by
  obtain ⟨x, rfl⟩ := ha.fits
  refine ⟨.num (-x), Slot.holds_num _, fun f ip st => ?_⟩
  rcases Slot.eq_of_value_number ha.value with rfl | rfl <;> rfl

theorem performs_dynNegate (ha : sa.value = a) :
    Performs m w .dynNegate [sa] .any (Operator.negate a) := by
  subst ha
  exact performs_ofExcept fun _ _ _ => rfl

/-! ### Sums with a string -/

theorem arith_add_of_str {h : Heap} (hs : Operator.isString a = true ∨ Operator.isString b = true) :
    Operator.arith h .add a b = .ok (.str (a.display h ++ b.display h)) := by
  have hand : (Operator.isString a || Operator.isString b) = true := by simpa using hs
  cases a <;> cases b <;> simp_all [Operator.arith, Operator.isString]

theorem performs_concat (ha : sa.value = a) (hb : sb.value = b) :
    Performs m w .concat [sb, sa] .str (.ok (.str (a.display w.heap ++ b.display w.heap))) := by
  subst ha hb
  exact ⟨_, Slot.holds_str _, fun _ _ _ => rfl⟩

theorem performs_addOp (ha : sa.Carries l a) (hb : sb.Carries r b) :
    Performs m w (Generate.addOp l r).1 [sb, sa] (Generate.addOp l r).2
      (Operator.arith w.heap .add a b) := by
  by_cases hc : l ≠ .any ∧ r ≠ .any ∧ (l = .str ∨ r = .str)
  · have hop : Generate.addOp l r = (.concat, .str) := by
      simp [Generate.addOp, hc]
    have hs : Operator.isString a = true ∨ Operator.isString b = true := by
      rcases hc.2.2 with rfl | rfl
      · obtain ⟨t, rfl⟩ := ha.fits rfl
        exact .inl rfl
      · obtain ⟨t, rfl⟩ := hb.fits rfl
        exact .inr rfl
    rw [hop, arith_add_of_str hs]
    exact performs_concat ha.value hb.value
  · have hop : Generate.addOp l r = Generate.arithOp .add l r := by
      simp only [Generate.addOp]
      rw [if_neg (by simpa using hc)]
    rw [hop]
    exact performs_arithOp .add ha hb

/-! ### Comparison -/

theorem performs_orderOp (op : CmpOp) (ha : sa.Carries l a) (hb : sb.Carries r b) :
    Performs m w (Generate.orderOp op l r) [sb, sa] .bool
      ((Operator.compare op a b).map .bool) := by
  by_cases hnum : l = .num ∧ r = .num
  · obtain ⟨rfl, rfl⟩ := hnum
    obtain ⟨x, rfl⟩ := ha.fits rfl
    obtain ⟨y, rfl⟩ := hb.fits rfl
    refine ⟨.bool (op.testNumbers x y), Slot.holds_bool _, fun f ip st => ?_⟩
    rcases Slot.eq_of_value_number ha.value with rfl | rfl <;>
      rcases Slot.eq_of_value_number hb.value with rfl | rfl <;> rfl
  · by_cases hstr : l = .str ∧ r = .str
    · obtain ⟨rfl, rfl⟩ := hstr
      obtain ⟨x, rfl⟩ := ha.fits rfl
      obtain ⟨y, rfl⟩ := hb.fits rfl
      refine ⟨.bool (op.testStrings x y), Slot.holds_bool _, fun f ip st => ?_⟩
      rw [Slot.eq_of_value_str ha.value, Slot.eq_of_value_str hb.value]
      rfl
    · have hop : Generate.orderOp op l r = .dynCompare op := by
        simp [Generate.orderOp, hnum, hstr]
      rw [hop, ← ha.value, ← hb.value]
      exact performs_ofExcept_bool fun _ _ _ => rfl

theorem performs_equalOp (negated : Bool) (ha : sa.Carries l a) (hb : sb.Carries r b) :
    Performs m w (Generate.equalOp negated l r) [sb, sa] .bool
      (.ok (.bool (a.same b != negated))) := by
  refine ⟨.bool (a.same b != negated), Slot.holds_bool _, fun f ip st => ?_⟩
  have hsame : execute m (.dynEqual negated) (f.at ip ([sb, sa] ++ st)) w =
      .ok (.next, f.at ip (.bool (a.same b != negated) :: st)) w := by
    rw [← ha.value, ← hb.value]
    rfl
  unfold Generate.equalOp
  split
  · exact hsame
  · split
    · obtain ⟨x, rfl⟩ := ha.fits rfl
      obtain ⟨y, rfl⟩ := hb.fits rfl
      rcases Slot.eq_of_value_number ha.value with rfl | rfl <;>
        rcases Slot.eq_of_value_number hb.value with rfl | rfl <;> rfl
    · obtain ⟨x, rfl⟩ := ha.fits rfl
      obtain ⟨y, rfl⟩ := hb.fits rfl
      rcases Slot.eq_of_value_bool ha.value with rfl | rfl <;>
        rcases Slot.eq_of_value_bool hb.value with rfl | rfl <;> rfl
    · exact hsame
    · exact hsame

theorem performs_binaryOp (op : BinOp) (ha : sa.Carries l a) (hb : sb.Carries r b) :
    Performs m w (Generate.binaryOp op l r).1 [sb, sa] (Generate.binaryOp op l r).2
      (op.eval w.heap a b) := by
  cases op with
  | add => exact performs_addOp ha hb
  | sub => exact performs_arithOp .sub ha hb
  | mul => exact performs_arithOp .mul ha hb
  | div => exact performs_arithOp .div ha hb
  | mod => exact performs_arithOp .mod ha hb
  | lt => exact performs_orderOp .lt ha hb
  | gt => exact performs_orderOp .gt ha hb
  | le => exact performs_orderOp .le ha hb
  | ge => exact performs_orderOp .ge ha hb
  | eq => simpa [BinOp.eval, Generate.binaryOp] using performs_equalOp false ha hb
  | ne => simpa [BinOp.eval, Generate.binaryOp] using performs_equalOp true ha hb

/-! ### Conditions and text -/

theorem performs_notBool {c : Bool} (ha : sa.value = .bool c) :
    Performs m w .notBool [sa] .bool (.ok (.bool !c)) := by
  refine ⟨.bool !c, Slot.holds_bool _, fun f ip st => ?_⟩
  rcases Slot.eq_of_value_bool ha with rfl | rfl <;> rfl

theorem performs_wrap (ha : sa.value = a) : Performs m w .wrap [sa] .any (.ok a) := by
  subst ha
  exact ⟨_, Slot.holds_ref _, fun _ _ _ => rfl⟩

theorem performs_toStr (ha : sa.value = a) :
    Performs m w .toStr [sa] .str (.ok (.str (a.display w.heap))) := by
  subst ha
  exact ⟨_, Slot.holds_str _, fun _ _ _ => rfl⟩

/-- A check for a boolean fails as a condition of another kind does. -/
theorem performs_checkBool {label : Nat} (hl : m.code.name label = "condition")
    (ha : sa.value = a) :
    Performs m w (.check .bool label) [sa] .bool (a.asCondition.map .bool) := by
  subst ha
  have hrun : ∀ f ip st, execute m (.check .bool label) (Frame.at f ip ([sa] ++ st)) w =
      ((checked .bool "Bool" (m.code.name label) sa.value >>= Exec.push) >>=
        fun _ => pure Flow.next : Exec σ Flow) (f.at ip st) w := fun _ _ _ => rfl
  simp only [hl] at hrun
  cases hv : sa.value with
  | bool c =>
    refine ⟨.bool c, Slot.holds_bool c, fun f ip st => ?_⟩
    rw [hrun, hv]
    rfl
  | _ =>
    intro f ip st
    rw [hrun, hv]
    rfl

end Machine

end HostScript
