import HostScript.Proofs.Machine.Changes

/-!
# The depth of calls

A run loop with a counter of the calls under way, which goes up with a call, down with a return, and
is set back when the loop fails. Other loops may be under way around it. The counter tells the
number of live frames before each operation, and a run fails for its depth exactly where one call
too many is made.
-/

namespace HostScript.Machine

open Exec

variable {σ α β : Type} {m : Setting σ} {base depth n : Nat} {frames callers : List Frame}
  {entry f f' callee : Frame} {w w' : World σ}

/-! ### A loop that counts calls -/

/-- Where a loop is: under way, with the counter and the frames, or over. -/
inductive Progress (σ : Type) where
  | live (depth : Nat) (frames : List Frame) (w : World σ)
  | ended (depth : Nat) (result : EStateM.Result RuntimeError (World σ) Slot)

/-- One operation of a loop around which `base` calls are under way. -/
def turn (m : Setting σ) (base depth : Nat) : List Frame → World σ → Progress σ
  | [], w => .ended base (.error (.internal .underflow) w)
  | f :: callers, w =>
    match stepFrame m f w with
    | .error e w => .ended base (.error e w)
    | .ok (.next, f) w => .live depth (f :: callers) w
    | .ok (.call callee, f) w =>
      if m.maxDepth ≤ depth then .ended base (.error (.stackOverflow m.maxDepth) w)
      else .live (depth + 1) (callee :: f :: callers) w
    | .ok (.return result, f) w =>
      match giveBack f result callers with
      | .finished result => .ended (depth - 1) (.ok result w)
      | .running frames => .live (depth - 1) frames w

/-- At most `n` operations of a loop. -/
def turns (m : Setting σ) (base : Nat) : Nat → Nat → List Frame → World σ → Progress σ
  | 0, depth, frames, w => .live depth frames w
  | n + 1, depth, frames, w =>
    match turn m base depth frames w with
    | .live depth frames w => turns m base n depth frames w
    | ended => ended

/-- The first `n` operations of the loop for the call of a frame. -/
def counted (m : Setting σ) (base : Nat) (entry : Frame) (n : Nat) (w : World σ) : Progress σ :=
  if m.maxDepth ≤ base then .ended base (.error (.stackOverflow m.maxDepth) w)
  else turns m base n (base + 1) [entry] w

/-- What a run tells of a loop. -/
def Progress.outcome : Progress σ → EStateM.Result RuntimeError (World σ) (Option Value)
  | live _ _ w => .ok none w
  | ended _ (.ok result w) => .ok (some result.value) w
  | ended _ (.error e w) => .error e w

/-! ### Script calls -/

/-- How an operation that calls a value takes the callee and the arguments from the stack. -/
def callOperands? (m : Setting σ) : Op → Option (Exec σ (Value × List Slot))
  | .callEntry _ count => some do
    let args ← popMany count
    return (← popValue, args)
  | .dynCall count => some do
    let args ← popValues count
    return (← popValue, args.map .ref)
  | .dynCallMember index count => some do
    let args ← popValues count
    let callee ← inWorld (Dynamic.memberCallee m.env (← popValue) (m.code.name index))
    return (callee, args.map .ref)
  | _ => none

/-- The callee is a closure, and has an entry for so many arguments. -/
def Admits (m : Setting σ) (h : Heap) (callee : Value) (count : Nat) (op : Op) : Prop :=
  ∃ c closure, callee = .closure c ∧ h.closures[c]? = some closure ∧
    match op with
    | .callEntry function _ => ∃ fn, m.code.functions[function]? = some fn
    | _ => ∃ template fn, m.code.templates[closure.template]? = some template ∧
      count = template.arity ∧ m.code.functions[template.generic]? = some fn

/-- The next operation of a frame is a call of the script that passes its checks. -/
def Calls (m : Setting σ) (f : Frame) (w w' : World σ) : Prop :=
  ∃ op operands callee args f', f.function.ops[f.ip]? = some op ∧
    callOperands? m op = some operands ∧
    operands { f with ip := f.ip + 1 } w = .ok ((callee, args), f') w' ∧
    Admits m w'.heap callee args.length op

theorem bind_eq_ok {x : Exec σ α} {k : α → Exec σ β} {r : β × Frame} :
    (x >>= k) f w = .ok r w' ↔ ∃ a f₁ w₁, x f w = .ok (a, f₁) w₁ ∧ k a f₁ w₁ = .ok r w' := by
  show EStateM.bind (x f) _ w = _ ↔ _
  cases hx : x f w with
  | ok a w₁ =>
    simp only [EStateM.bind, hx]
    refine ⟨fun h => ⟨a.1, a.2, w₁, rfl, h⟩, ?_⟩
    rintro ⟨a', f', w₁', heq, h⟩
    cases heq
    exact h
  | error e w₁ =>
    simp only [EStateM.bind, hx, reduceCtorEq, false_and, exists_false]

theorem pure_eq_ok {a b : α} :
    (pure a : Exec σ α) f w = .ok (b, f') w' ↔ b = a ∧ f' = f ∧ w' = w := by
  show EStateM.Result.ok (a, f) w = .ok (b, f') w' ↔ _
  grind

theorem orFault_eq_ok {x : Option α} {e : Fault} {a : α} :
    (orFault x e : Exec σ α) f w = .ok (a, f') w' ↔ x = some a ∧ f' = f ∧ w' = w := by
  cases x with
  | none =>
    show EStateM.Result.error _ _ = _ ↔ _
    simp only [reduceCtorEq, false_and]
  | some b => exact pure_eq_ok.trans (by grind)

theorem check_eq_ok {c : Prop} [Decidable c] {e : RuntimeError} {x : Exec σ α} {r : α × Frame} :
    (if c then do throw e; x else x : Exec σ α) f w = .ok r w' ↔ ¬ c ∧ x f w = .ok r w' := by
  split
  next h =>
    refine ⟨fun hx => ?_, fun hx => absurd h hx.1⟩
    cases hx
  next h => exact ⟨fun hx => ⟨h, hx⟩, fun hx => hx.2⟩

theorem closureOf_eq_ok {c : ClosureRef} {closure : Closure} :
    (closureOf c : Exec σ Closure) f w = .ok (closure, f') w' ↔
      w.heap.closures[c]? = some closure ∧ f' = f ∧ w' = w :=
  orFault_eq_ok

theorem entryFrame_eq_ok {function : Nat} {args : List Slot} {captures : List CellRef} {erases : Bool} :
    entryFrame m function args captures erases f w = .ok (callee, f') w' ↔ ∃ fn,
      m.code.functions[function]? = some fn ∧ callee = .enter fn args captures erases ∧
        f' = f ∧ w' = w := by
  simp only [entryFrame, bind_eq_ok, orFault_eq_ok, pure_eq_ok]
  grind

/-- What a call does after it took its operands. -/
def enterCall (m : Setting σ) (callee : Value) (args : List Slot) : Op → Exec σ Flow
  | .callEntry function _ =>
    match callee with
    | .closure c => do
      return .call (← entryFrame m function args (← closureOf c).captures false)
    | other => throw (.notCallable other.typeName)
  | _ => callValue m callee (args.map Slot.value)

theorem execute_eq {op : Op} {operands : Exec σ (Value × List Slot)}
    (h : callOperands? m op = some operands) :
    execute m op = operands >>= fun r => enterCall m r.1 r.2 op := by
  have hvalues (args : List Value) : (args.map Slot.ref).map Slot.value = args := by
    rw [List.map_map]
    exact List.map_id args
  cases op with
  | callEntry function count =>
    cases h
    simp only [execute, callEntry, bind_assoc, pure_bind]
    rfl
  | dynCall count | dynCallMember index count =>
    cases h
    simp only [execute, enterCall, bind_assoc, pure_bind, hvalues]
  | _ => cases h

theorem callValue_isCall {v : Value} {args : List Value} :
    (∃ callee f', callValue m v args f w = .ok (.call callee, f') w') ↔
      w' = w ∧ Admits m w.heap v args.length (.dynCall 0) := by
  unfold callValue
  split
  next c =>
    simp only [genericFrame, bind_eq_ok, closureOf_eq_ok, orFault_eq_ok, pure_eq_ok, check_eq_ok,
      entryFrame_eq_ok]
    constructor
    · rintro ⟨_, _, _, _, _, ⟨closure, _, _, ⟨hc, rfl, rfl⟩, template, _, _, ⟨ht, rfl, rfl⟩, hcount,
        fn, hfn, rfl, rfl, rfl⟩, _, _, rfl⟩
      exact ⟨rfl, c, closure, rfl, hc, template, fn, ht, Decidable.not_not.mp hcount, hfn⟩
    · rintro ⟨rfl, c', closure, heq, hc, template, fn, ht, hcount, hfn⟩
      cases heq
      exact ⟨_, _, _, _, _, ⟨closure, _, _, ⟨hc, rfl, rfl⟩, template, _, _, ⟨ht, rfl, rfl⟩,
        not_not_intro hcount, fn, hfn, rfl, rfl, rfl⟩, rfl, rfl, rfl⟩
  next hv =>
    simp only [bind_eq_ok, pure_eq_ok, reduceCtorEq, false_and, and_false, exists_false, false_iff]
    rintro ⟨_, c, _, heq, _⟩
    exact hv c heq

theorem enterCall_isCall {op : Op} {v : Value} {args : List Slot} :
    (∃ callee f', enterCall m v args op f w = .ok (.call callee, f') w') ↔
      w' = w ∧ Admits m w.heap v args.length op := by
  have hvalue : (∃ callee f', callValue m v (args.map Slot.value) f w = .ok (.call callee, f') w') ↔
      w' = w ∧ Admits m w.heap v args.length (.dynCall 0) := by
    rw [callValue_isCall, List.length_map]
  cases op with
  | callEntry function count =>
    unfold enterCall
    split
    next c =>
      simp only [bind_eq_ok, closureOf_eq_ok, pure_eq_ok, entryFrame_eq_ok]
      constructor
      · rintro ⟨_, _, closure, _, _, ⟨hc, rfl, rfl⟩, _, _, _, ⟨fn, hfn, rfl, rfl, rfl⟩, _, _, rfl⟩
        exact ⟨rfl, c, closure, rfl, hc, fn, hfn⟩
      · rintro ⟨rfl, c', closure, heq, hc, fn, hfn⟩
        cases heq
        exact ⟨_, _, closure, _, _, ⟨hc, rfl, rfl⟩, _, _, _, ⟨fn, hfn, rfl, rfl, rfl⟩, rfl, rfl, rfl⟩
    next hv =>
      constructor
      · rintro ⟨_, _, h⟩
        cases h
      · rintro ⟨_, c, _, heq, _⟩
        exact absurd heq (hv c)
  | _ => exact hvalue

/-- The operations that are no calls go on in the frame or return. -/
theorem execute_of_none {op : Op} (h : callOperands? m op = none) :
    execute m op = (do compute m op; return .next) ∨ execute m op = (do return .return (← pop)) := by
  cases op with
  | callEntry function count | dynCall count | dynCallMember index count => cases h
  | ret => exact .inr rfl
  | _ => exact .inl rfl

theorem stepFrame_isCall :
    (∃ callee f', stepFrame m f w = .ok (.call callee, f') w') ↔ Calls m f w w' := by
  unfold stepFrame Calls
  cases hop : f.function.ops[f.ip]? with
  | none =>
    constructor
    · rintro ⟨_, _, h⟩
      cases h
    · rintro ⟨_, _, _, _, _, h, _⟩
      cases h
  | some op =>
    show (∃ callee f', execute m op { f with ip := f.ip + 1 } w = _) ↔ _
    cases hoperands : callOperands? m op with
    | none =>
      constructor
      · rintro ⟨callee, f', h⟩
        rcases execute_of_none hoperands with heq | heq
        all_goals
          rw [heq, bind_eq_ok] at h
          obtain ⟨_, _, _, _, hflow⟩ := h
          cases (pure_eq_ok.mp hflow).1
      · rintro ⟨_, _, _, _, _, h, hsome, _⟩
        cases h
        cases hoperands.symm.trans hsome
    | some operands =>
      rw [execute_eq hoperands]
      constructor
      · rintro ⟨callee, f', h⟩
        obtain ⟨⟨v, args⟩, f₁, w₁, hrun, hcall⟩ := bind_eq_ok.mp h
        obtain ⟨rfl, hadmits⟩ := enterCall_isCall.mp ⟨callee, f', hcall⟩
        exact ⟨op, operands, v, args, f₁, rfl, hoperands, hrun, hadmits⟩
      · rintro ⟨_, _, v, args, f₁, heq, hsome, hrun, hadmits⟩
        cases heq
        cases hoperands.symm.trans hsome
        obtain ⟨callee, f', hcall⟩ := enterCall_isCall.mpr ⟨rfl, hadmits⟩
        exact ⟨callee, f', bind_eq_ok.mpr ⟨(v, args), f₁, w', hrun, hcall⟩⟩

/-! ### The counter -/

/-- The counter tells the frames under way, and is back when the loop is over. -/
def Progress.Tells (m : Setting σ) (base : Nat) : Progress σ → Prop
  | live depth frames _ => frames ≠ [] ∧ depth = base + frames.length ∧ depth ≤ m.maxDepth
  | ended depth _ => depth = base

theorem turn_tells (hne : frames ≠ []) (hdepth : depth = base + frames.length)
    (hmax : depth ≤ m.maxDepth) : (turn m base depth frames w).Tells m base := by
  cases frames with
  | nil => exact absurd rfl hne
  | cons f callers =>
    rw [List.length_cons] at hdepth
    rw [turn]
    cases stepFrame m f w with
    | error e w₁ => rfl
    | ok r w₁ =>
      obtain ⟨flow, f₁⟩ := r
      cases flow with
      | next => exact ⟨List.cons_ne_nil _ _, hdepth, hmax⟩
      | call callee =>
        dsimp only
        split
        next => rfl
        next => exact ⟨List.cons_ne_nil _ _, congrArg (· + 1) hdepth, by omega⟩
      | «return» result =>
        -- with no caller left the counter is back at the calls around the loop
        cases callers with
        | nil => exact congrArg (· - 1) hdepth
        | cons caller rest =>
          exact ⟨List.cons_ne_nil _ _, congrArg (· - 1) hdepth, Nat.le_trans (Nat.sub_le ..) hmax⟩

theorem turns_tell (hne : frames ≠ []) (hdepth : depth = base + frames.length)
    (hmax : depth ≤ m.maxDepth) : (turns m base n depth frames w).Tells m base := by
  induction n generalizing depth frames w with
  | zero => exact ⟨hne, hdepth, hmax⟩
  | succ n ih =>
    have hturn := turn_tells (w := w) hne hdepth hmax
    unfold turns
    split
    next heq =>
      rw [heq] at hturn
      exact ih hturn.1 hturn.2.1 hturn.2.2
    next => exact hturn

theorem counted_tells : (counted m base entry n w).Tells m base := by
  unfold counted
  split
  next => rfl
  next h => exact turns_tell (List.cons_ne_nil _ _) rfl (by omega)

/-! ### Overflow -/

theorem turn_overflows {d limit : Nat} :
    turn m base depth (f :: callers) w = .ended d (.error (.stackOverflow limit) w') ↔
      d = base ∧ limit = m.maxDepth ∧ m.maxDepth ≤ depth ∧ Calls m f w w' := by
  rw [← stepFrame_isCall, turn]
  constructor
  · intro h
    split at h
    next hstep =>
      -- no operation overflows by itself
      cases h
      have hshallow := (stepFrame_evolves m f w).2
      rw [hstep] at hshallow
      cases hshallow
    next => cases h
    next callee f₁ _ hstep =>
      split at h
      next hle =>
        cases h
        exact ⟨rfl, rfl, hle, callee, f₁, hstep⟩
      next => cases h
    next => split at h <;> cases h
  · rintro ⟨rfl, rfl, hle, callee, f₁, hstep⟩
    rw [hstep]
    exact if_pos hle

theorem turns_succ :
    turns m base (n + 1) depth frames w = match turns m base n depth frames w with
      | .live depth frames w => turn m base depth frames w
      | ended => ended := by
  induction n generalizing depth frames w with
  | zero =>
    show _ = turn m base depth frames w
    rw [turns]
    cases turn m base depth frames w with
    | live depth frames w => rfl
    | ended depth result => rfl
  | succ n ih =>
    rw [turns, turns]
    cases turn m base depth frames w with
    | live depth frames w => exact ih
    | ended depth result => rfl

/-- A loop is over after the turn that ends it. -/
theorem turns_over {d : Nat} {r : EStateM.Result RuntimeError (World σ) Slot} :
    (∃ n, turns m base n depth frames w = .ended d r) ↔ ∃ n depth' frames' w₁,
      turns m base n depth frames w = .live depth' frames' w₁ ∧
        turn m base depth' frames' w₁ = .ended d r := by
  constructor
  · rintro ⟨n, h⟩
    induction n with
    | zero => cases h
    | succ n ih =>
      rw [turns_succ] at h
      split at h
      next depth' frames' w₁ heq => exact ⟨n, depth', frames', w₁, heq, h⟩
      next => exact ih h
  · rintro ⟨n, depth', frames', w₁, hlive, h⟩
    refine ⟨n + 1, ?_⟩
    rw [turns_succ, hlive]
    exact h

theorem counted_overflows {limit : Nat} :
    (∃ n depth, counted m base entry n w = .ended depth (.error (.stackOverflow limit) w')) ↔
      limit = m.maxDepth ∧ (m.maxDepth ≤ base ∧ w' = w ∨ ∃ n f callers w₁,
        counted m base entry n w = .live m.maxDepth (f :: callers) w₁ ∧ Calls m f w₁ w') := by
  by_cases hbase : m.maxDepth ≤ base
  · simp only [counted, if_pos hbase]
    constructor
    · rintro ⟨_, _, h⟩
      cases h
      exact ⟨rfl, .inl ⟨hbase, rfl⟩⟩
    · rintro ⟨rfl, ⟨_, rfl⟩ | ⟨_, _, _, _, h, _⟩⟩
      · exact ⟨0, base, rfl⟩
      · cases h
  · simp only [counted, if_neg hbase]
    constructor
    · rintro ⟨n, d, h⟩
      obtain ⟨k, depth, frames, w₁, hlive, hover⟩ := turns_over.mp ⟨n, h⟩
      have htells : (turns m base k (base + 1) [entry] w).Tells m base :=
        turns_tell (List.cons_ne_nil _ _) rfl (by omega)
      rw [hlive] at htells
      obtain ⟨hne, _, hmax⟩ := htells
      obtain ⟨f, callers, rfl⟩ := List.exists_cons_of_ne_nil hne
      obtain ⟨_, hlimit, hle, hcalls⟩ := turn_overflows.mp hover
      cases Nat.le_antisymm hmax hle
      exact ⟨hlimit, .inr ⟨k, f, callers, w₁, hlive, hcalls⟩⟩
    · rintro ⟨rfl, ⟨h, _⟩ | ⟨n, f, callers, w₁, hlive, hcalls⟩⟩
      · exact absurd h hbase
      · have hover : turn m base m.maxDepth (f :: callers) w₁ =
            .ended base (.error (.stackOverflow m.maxDepth) w') :=
          turn_overflows.mpr ⟨rfl, rfl, Nat.le_refl _, hcalls⟩
        obtain ⟨n, h⟩ := turns_over.mpr ⟨n, _, _, _, hlive, hover⟩
        exact ⟨n, base, h⟩

/-! ### Runs -/

theorem runFrames_eq_outcome :
    (Option.map Slot.value <$> runFrames m n frames) w =
      (turns m 0 n frames.length frames w).outcome := by
  induction n generalizing frames w with
  | zero => rfl
  | succ n ih =>
    cases frames with
    | nil => rfl
    | cons f callers =>
      show EStateM.map _ (EStateM.bind (EStateM.bind (stepFrame m f) _) _) w = _
      simp only [EStateM.map, EStateM.bind, turns, turn]
      cases stepFrame m f w with
      | error e w₁ => rfl
      | ok r w₁ =>
        obtain ⟨flow, f₁⟩ := r
        cases flow with
        | next => exact ih
        | «return» result =>
          cases callers with
          | nil => rfl
          | cons caller rest => exact ih
        | call callee =>
          by_cases hmax : m.maxDepth ≤ callers.length + 1
          · simp only [hmax, List.length_cons, if_true]
            rfl
          · simp only [hmax, List.length_cons, if_false]
            exact ih

/-- **Exact depth.** While a loop is under way its counter is the number of calls under way, those
around the loop included, and never more than the limit; when it is over, by a value or by an error,
the counter is back. The loop fails for its depth exactly if the limit is reached at its start, or a
call that passes its checks is made when the limit is reached. A run is such a loop with no other
around it. -/
theorem depth_exact (m : Setting σ) (base : Nat) (entry : Frame) (w : World σ) :
    (∀ n depth frames w', counted m base entry n w = .live depth frames w' →
      depth = base + frames.length ∧ depth ≤ m.maxDepth) ∧
    (∀ n depth result, counted m base entry n w = .ended depth result → depth = base) ∧
    (∀ limit w',
      (∃ n depth, counted m base entry n w = .ended depth (.error (.stackOverflow limit) w')) ↔
        limit = m.maxDepth ∧ (m.maxDepth ≤ base ∧ w' = w ∨ ∃ n f callers w₁,
          counted m base entry n w = .live m.maxDepth (f :: callers) w₁ ∧ Calls m f w₁ w')) ∧
    (∀ main budget, m.code.functions[0]? = some main →
      run m budget w = (counted m 0 (.enter main [] [] true) budget w).outcome) := by
  refine ⟨?_, ?_, fun limit w' => counted_overflows, ?_⟩
  · intro n depth frames w' hlive
    have htells : (counted m base entry n w).Tells m base := counted_tells
    rw [hlive] at htells
    exact htells.2
  · intro n depth result hover
    have htells : (counted m base entry n w).Tells m base := counted_tells
    rw [hover] at htells
    exact htells
  · intro main budget hmain
    unfold run counted
    simp only [hmain, Nat.le_zero]
    split
    next => rfl
    next => exact runFrames_eq_outcome

end HostScript.Machine
