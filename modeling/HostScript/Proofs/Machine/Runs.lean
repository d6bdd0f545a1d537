import HostScript.Machine

/-!
# Runs of one frame

`Reaches` and `Ends` say what a number of operations of a frame without callers does, whatever the
budget of the run. The second part gives the effect of single operations on the operand stack, the
third the effect of the actions that operations are made of.
-/

namespace HostScript

/-- The frame at another position and with another operand stack. -/
def Frame.at (f : Frame) (ip : Nat) (stack : List Slot) : Frame :=
  { f with ip, stack }

/-- The frame with a local slot set. -/
def Frame.store (f : Frame) (slot : Nat) (content : Slot) : Frame :=
  { f with locals := f.locals.setIfInBounds slot (.slot content) }

/-- The code of the frame has the operations from position `start` on. -/
def Frame.Has (f : Frame) (start : Nat) (ops : List Op) : Prop :=
  ∀ i < ops.length, f.function.ops[start + i]? = ops[i]?

namespace Frame

variable {f : Frame} {start : Nat} {op : Op} {ops more : List Op}

theorem Has.head (h : f.Has start (op :: ops)) : f.function.ops[start]? = some op := by
  simpa using h 0 (by simp)

theorem Has.left (h : f.Has start (ops ++ more)) : f.Has start ops := by
  intro i hi
  rw [h i (by simp only [List.length_append]; omega), List.getElem?_append_left hi]

theorem Has.right (h : f.Has start (ops ++ more)) : f.Has (start + ops.length) more := by
  intro i hi
  rw [Nat.add_assoc, h (ops.length + i) (by simp only [List.length_append]; omega),
    List.getElem?_append_right (by omega), Nat.add_sub_cancel_left]

theorem Has.tail (h : f.Has start (op :: ops)) : f.Has (start + 1) ops := by
  have h' : f.Has start ([op] ++ ops) := h
  exact h'.right

end Frame

namespace Machine

variable {σ : Type}

/-- After `n` operations, a run of the first frame goes on as one of the second. -/
def Reaches (m : Setting σ) (n : Nat) (f : Frame) (w : World σ) (f' : Frame) (w' : World σ) :
    Prop :=
  ∀ budget, runFrames m (budget + n) [f] w = runFrames m budget [f'] w'

/-- After `n` operations, a run of the frame is over. -/
def Ends (m : Setting σ) (n : Nat) (f : Frame) (w : World σ)
    (r : EStateM.Result RuntimeError (World σ) (Option Slot)) : Prop :=
  ∀ budget, runFrames m (budget + n) [f] w = r

variable {m : Setting σ} {n k : Nat} {f f' f'' : Frame} {w w' w'' : World σ}
  {r : EStateM.Result RuntimeError (World σ) (Option Slot)}

theorem Reaches.refl : Reaches m 0 f w f w :=
  fun _ => rfl

theorem Reaches.trans (h : Reaches m n f w f' w') (h' : Reaches m k f' w' f'' w'') :
    Reaches m (n + k) f w f'' w'' := by
  intro budget
  rw [Nat.add_comm n k, ← Nat.add_assoc, h, h']

theorem Reaches.ends (h : Reaches m n f w f' w') (h' : Ends m k f' w' r) :
    Ends m (n + k) f w r := by
  intro budget
  rw [Nat.add_comm n k, ← Nat.add_assoc, h, h']

/-! ### Single operations -/

section Operations

variable {ip : Nat} {st : List Slot} {op : Op} {e : RuntimeError} {result : Slot}

theorem stepFrame_at (hop : f.function.ops[ip]? = some op) :
    stepFrame m (f.at ip st) w = execute m op (f.at (ip + 1) st) w := by
  have hop' : (f.at ip st).function.ops[(f.at ip st).ip]? = some op := hop
  simp only [stepFrame, hop']
  rfl

theorem reaches_of_next (hop : f.function.ops[ip]? = some op)
    (h : execute m op (f.at (ip + 1) st) w = .ok (.next, f') w') :
    Reaches m 1 (f.at ip st) w f' w' := by
  intro budget
  have hs : step m [f.at ip st] w = .ok (.running [f']) w' := by
    simp only [step, bind, EStateM.bind, stepFrame_at hop, h]
    rfl
  simp only [runFrames, bind, EStateM.bind, hs]

theorem ends_of_error (hop : f.function.ops[ip]? = some op)
    (h : execute m op (f.at (ip + 1) st) w = .error e w') :
    Ends m 1 (f.at ip st) w (.error e w') := by
  intro budget
  have hs : step m [f.at ip st] w = .error e w' := by
    simp only [step, bind, EStateM.bind, stepFrame_at hop, h]
  simp only [runFrames, bind, EStateM.bind, hs]

theorem ends_ret (hop : f.function.ops[ip]? = some .ret) (he : f.erases = true) :
    Ends m 1 (f.at ip (result :: st)) w (.ok (some (.ref result.value)) w) := by
  intro budget
  have hs : step m [f.at ip (result :: st)] w = .ok (.finished (.ref result.value)) w := by
    have hr : execute m .ret (f.at (ip + 1) (result :: st)) w =
        .ok (.return result, f.at (ip + 1) st) w := rfl
    have he' : (f.at (ip + 1) st).erases = true := he
    simp only [step, bind, EStateM.bind, stepFrame_at hop, hr, giveBack, he', if_true]
    rfl
  simp only [runFrames, bind, EStateM.bind, hs]
  rfl

end Operations

/-! ### Actions -/

section Actions

open Exec

variable {α β : Type} {x : Exec σ α} {k : α → Exec σ β} {a : α} {e : RuntimeError} {ip : Nat}
  {st : List Slot}

theorem exec_bind_ok (h : x f w = .ok (a, f') w') : (x >>= k) f w = k a f' w' := by
  show EStateM.bind (x f) _ w = _
  simp only [EStateM.bind, h]

theorem exec_bind_error (h : x f w = .error e w') : (x >>= k) f w = .error e w' := by
  show EStateM.bind (x f) _ w = _
  simp only [EStateM.bind, h]

theorem inWorld_ok {action : Run σ α} (h : action w = .ok a w') :
    inWorld action f w = .ok (a, f) w' := by
  simp only [inWorld, h]

theorem inWorld_error {action : Run σ α} (h : action w = .error e w') :
    inWorld action f w = .error e w' := by
  simp only [inWorld, h]

theorem popValue_at (slot : Slot) :
    popValue (f.at ip (slot :: st)) w = .ok (slot.value, f.at ip st) w :=
  rfl

theorem popValues_at (args : List Slot) :
    popValues args.length (f.at ip (args.reverse ++ st)) w =
      .ok (args.map Slot.value, f.at ip st) w := by
  have hlen : ¬ (args.reverse ++ st).length < args.length := by
    simp only [List.length_append, List.length_reverse]
    omega
  have htake : ((args.reverse ++ st).take args.length).reverse = args := by
    rw [List.take_left' List.length_reverse, List.reverse_reverse]
  have hdrop : (args.reverse ++ st).drop args.length = st :=
    List.drop_left' List.length_reverse
  have hmany : popMany args.length (f.at ip (args.reverse ++ st)) w = .ok (args, f.at ip st) w := by
    refine (exec_bind_ok rfl).trans ((congrFun (congrFun (if_neg hlen) _) w).trans ?_)
    refine (exec_bind_ok rfl).trans ?_
    simp only [Frame.at, htake, hdrop]
    rfl
  exact (exec_bind_ok hmany).trans rfl

end Actions

end Machine

end HostScript
