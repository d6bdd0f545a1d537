import HostScript.Code
import Mathlib.Data.List.Basic

/-!
# Depths of the operand stack

Code is checked without running it: every position gets a depth of the operand stack such that each
operation finds what it takes, and the depth after it is the depth at every position that may come
next. A piece of code is judged at the position where it starts, because the targets of jumps are
positions. Pieces are put together as the generator does it: one after the other, skipped, chosen
between, repeated. -/

namespace HostScript

namespace Op

/-- How many slots of the operand stack an operation takes. -/
def pops : Op → Nat
  | pushNum _ | pushStr _ | pushBool _ | pushNull | loadLocal _ | loadCell _ | loadCapture _
  | loadInput | newRecord _ | makeClosure _ | jump _ | unreachable => 0
  | storeLocal _ | makeCell _ | storeCell _ | storeCapture _ | pop | dup | negate | notBool | toStr
  | strLength | wrap | check .. | narrow _ | dynNegate | dynGetMember _ | getField _ | arrayLength
  | getHost _ | bindMethod _ | bindArrayAdd | jumpIf .. | ret | print => 1
  | dup2 | arith _ | compareNum _ | equalNum _ | equalBool _ | concat | compareStr _ | equalStr _
  | equalRef _ | dynArith _ | dynCompare _ | dynEqual _ | dynSetMember _ | dynGetIndex | setField _
  | getIndex | arrayAdd | setHost _ | getHostIndex _ => 2
  | dynSetIndex | setIndex | setHostIndex _ => 3
  | newArray _ count => count
  | callStatic _ args => args
  | dynCall args | dynCallMember _ args | callHost _ args | callEntry _ args => args + 1

/-- How many slots it leaves in their place. -/
def pushes : Op → Nat
  | storeLocal _ | makeCell _ | storeCell _ | storeCapture _ | pop | dynSetMember _ | dynSetIndex
  | setField _ | setIndex | setHost _ | setHostIndex _ | jump _ | jumpIf .. | ret | print
  | unreachable => 0
  | dup => 2
  | dup2 => 4
  | _ => 1

/-- The depth after an operation. -/
def after (op : Op) (depth : Nat) : Nat :=
  depth - op.pops + op.pushes

/-- The positions that may come next. -/
def next (pc : Nat) : Op → List Nat
  | jump target => [target]
  | jumpIf _ target => [target, pc + 1]
  | ret | unreachable => []
  | _ => [pc + 1]

/-- The depths fit an operation at a position, and what comes next is between two bounds. A return
gives back the only slot. -/
structure Fits (depth : Nat → Nat) (lo hi pc : Nat) (op : Op) : Prop where
  enough : op.pops ≤ depth pc
  returns : op = .ret → depth pc = 1
  edges : ∀ n ∈ op.next pc, lo ≤ n ∧ n < hi ∧ depth n = op.after (depth pc)

end Op

/-- The depths fit operations that start at a position. -/
def Flows (depth : Nat → Nat) (lo hi : Nat) : Nat → List Op → Prop
  | _, [] => True
  | pc, op :: rest => op.Fits depth lo hi pc ∧ Flows depth lo hi (pc + 1) rest

/-- From depth `d`, the code leads to its end with depth `e`, if it gets there. -/
def Moves (start : Nat) (ops : List Op) (d e : Nat) : Prop :=
  ∃ depth : Nat → Nat, depth start = d ∧ depth (start + ops.length) = e ∧
    Flows depth start (start + ops.length + 1) start ops

/-- From depth `d`, the code never gets to its end. -/
def Closes (start : Nat) (ops : List Op) (d : Nat) : Prop :=
  ∃ depth : Nat → Nat, depth start = d ∧ Flows depth start (start + ops.length) start ops

/-- Depths that fit the code of a function. It starts with an empty stack. -/
structure Function.Balanced (function : Function) (depth : Nat → Nat) : Prop where
  nonempty : 0 < function.ops.size
  start : depth 0 = 0
  fits : ∀ {pc : Nat} {op}, function.ops[pc]? = some op → op.Fits depth 0 function.ops.size pc

variable {depth other : Nat → Nat} {lo hi lo' hi' pc start d e f : Nat} {op : Op}
  {ops xs ys : List Op}

/-! ### Depths that fit -/

theorem flows_append :
    Flows depth lo hi pc (xs ++ ys) ↔
      Flows depth lo hi pc xs ∧ Flows depth lo hi (pc + xs.length) ys := by
  induction xs generalizing pc with
  | nil => simp [Flows]
  | cons op rest ih =>
    simp only [List.cons_append, Flows, ih, List.length_cons, and_assoc]
    rw [Nat.add_assoc, Nat.add_comm 1]

theorem Flows.get (h : Flows depth lo hi pc ops) {i : Nat} (hi' : ops[i]? = some op) :
    op.Fits depth lo hi (pc + i) := by
  induction ops generalizing pc i with
  | nil => simp at hi'
  | cons first rest ih =>
    cases i with
    | zero =>
      cases hi'
      exact h.1
    | succ i =>
      rw [Nat.add_comm i 1, ← Nat.add_assoc]
      exact ih h.2 hi'

/-- Only the depths between the bounds count, and they may be seen in a larger piece of code. -/
theorem Flows.lift (h : Flows depth lo hi pc ops) (hle : lo ≤ pc) (hend : pc + ops.length ≤ hi)
    (hlo : lo' ≤ lo) (hhi : hi ≤ hi') (hsame : ∀ p, lo ≤ p → p < hi → other p = depth p) :
    Flows other lo' hi' pc ops := by
  induction ops generalizing pc with
  | nil => trivial
  | cons op rest ih =>
    simp only [List.length_cons] at hend
    have hpc : other pc = depth pc := hsame pc hle (by omega)
    refine ⟨⟨hpc ▸ h.1.enough, hpc ▸ h.1.returns, fun n hn => ?_⟩, ih h.2 (by omega) (by omega)⟩
    obtain ⟨hn₁, hn₂, hdepth⟩ := h.1.edges n hn
    exact ⟨by omega, by omega, by rw [hsame n hn₁ hn₂, hpc, hdepth]⟩

/-! ### Straight code -/

theorem moves_nil (start d : Nat) : Moves start [] d d :=
  ⟨fun _ => d, rfl, rfl, trivial⟩

theorem moves_op (hnext : op.next start = [start + 1]) (hd : op.pops ≤ d) :
    Moves start [op] d (op.after d) := by
  refine ⟨fun p => if p = start then d else op.after d, by simp, by simp, ⟨?_, ?_, ?_⟩, trivial⟩
  · simpa using hd
  · rintro rfl
    cases hnext
  · intro n hn
    rw [hnext, List.mem_singleton] at hn
    subst hn
    simp

theorem moves_ret (start e : Nat) : Moves start [.ret] 1 e := by
  refine ⟨fun p => if p = start then 1 else e, by simp, by simp, ⟨?_, ?_, ?_⟩, trivial⟩
  · simp [Op.pops]
  · simp
  · intro n hn
    cases hn

/-- The depths of two pieces of code, put together, if they agree where the pieces meet. -/
theorem Flows.append (hx : Flows depth start (start + xs.length + 1) start xs)
    (hy : Flows other (start + xs.length) hi (start + xs.length) ys)
    (hmeet : depth (start + xs.length) = other (start + xs.length))
    (hhi : start + xs.length + 1 ≤ hi) (hend : start + xs.length + ys.length ≤ hi) :
    ∃ both : Nat → Nat, both start = depth start ∧ (∀ p, start + xs.length ≤ p → both p = other p) ∧
      Flows both start hi start (xs ++ ys) := by
  refine ⟨fun p => if p < start + xs.length then depth p else other p, ?_, fun p hp => ?_,
    flows_append.mpr ⟨?_, ?_⟩⟩
  · dsimp only
    split
    · rfl
    next hge =>
      have hnil : xs.length = 0 := by omega
      rw [hnil, Nat.add_zero] at hmeet
      exact hmeet.symm
  · exact if_neg (Nat.not_lt.mpr hp)
  · refine hx.lift (Nat.le_refl _) (by omega) (Nat.le_refl _) hhi fun p _ hp => ?_
    split
    · rfl
    · have hmid : p = start + xs.length := by omega
      rw [hmid, hmeet]
  · exact hy.lift (Nat.le_refl _) hend (by omega) (Nat.le_refl _)
      fun p hp _ => if_neg (Nat.not_lt.mpr hp)

theorem Moves.append (hx : Moves start xs d e) (hy : Moves (start + xs.length) ys e f) :
    Moves start (xs ++ ys) d f := by
  obtain ⟨fx, hx₁, hx₂, hx⟩ := hx
  obtain ⟨fy, hy₁, hy₂, hy⟩ := hy
  obtain ⟨both, hstart, hlater, hflows⟩ :=
    hx.append hy (hx₂.trans hy₁.symm) (by omega) (Nat.le_succ _)
  rw [Moves, List.length_append, ← Nat.add_assoc]
  exact ⟨both, hstart.trans hx₁, (hlater _ (Nat.le_add_right ..)).trans hy₂, hflows⟩

/-! ### Jumps -/

theorem Moves.skip (condition : Bool) (h : Moves (start + 1) ops d d) :
    Moves start (.jumpIf condition (start + 1 + ops.length) :: ops) (d + 1) d := by
  obtain ⟨inner, h₁, h₂, h⟩ := h
  refine ⟨fun p => if p = start then d + 1 else inner p, if_pos rfl, ?_, ⟨?_, ?_, ?_⟩, ?_⟩
  · dsimp only [List.length_cons]
    rw [if_neg (by omega), ← h₂]
    congr 1
    omega
  · simp [Op.pops]
  · nofun
  · intro n hn
    simp only [Op.next, List.mem_cons, List.not_mem_nil, or_false] at hn
    simp only [if_true, Op.after, Op.pops, Op.pushes, List.length_cons]
    rcases hn with rfl | rfl
    · rw [if_neg (by omega), h₂]
      omega
    · rw [if_neg (by omega), h₁]
      omega
  · refine h.lift (Nat.le_refl _) (by omega) (by omega) (by simp; omega) fun p hp _ => ?_
    rw [if_neg (by omega)]

theorem Moves.choose (condition : Bool) (hx : Moves (start + 1) xs d e)
    (hy : Moves (start + 1 + xs.length + 1) ys d e) :
    Moves start (.jumpIf condition (start + 1 + xs.length + 1) :: xs ++
      .jump (start + 1 + xs.length + 1 + ys.length) :: ys) (d + 1) e := by
  obtain ⟨fx, hx₁, hx₂, hx⟩ := hx
  obtain ⟨fy, hy₁, hy₂, hy⟩ := hy
  have hlen : (.jumpIf condition (start + 1 + xs.length + 1) :: xs ++
      .jump (start + 1 + xs.length + 1 + ys.length) :: ys).length = xs.length + ys.length + 2 := by
    simp
    omega
  refine ⟨fun p => if p = start then d + 1 else if p ≤ start + 1 + xs.length then fx p else fy p,
    if_pos rfl, ?_, flows_append.mpr ⟨⟨⟨?_, ?_, ?_⟩, ?_⟩, ⟨?_, ?_, ?_⟩, ?_⟩⟩
  · dsimp only
    rw [if_neg (by omega), if_neg (by omega), hlen, ← hy₂]
    congr 1
    omega
  · simp [Op.pops]
  · nofun
  · intro n hn
    simp only [Op.next, List.mem_cons, List.not_mem_nil, or_false] at hn
    simp only [if_true, Op.after, Op.pops, Op.pushes, hlen]
    rcases hn with rfl | rfl
    · rw [if_neg (by omega), if_neg (by omega), hy₁]
      omega
    · rw [if_neg (by omega), if_pos (by omega), hx₁]
      omega
  · refine hx.lift (Nat.le_refl _) (by omega) (by omega) (by omega) fun p hp hp' => ?_
    rw [if_neg (by omega), if_pos (by omega)]
  · exact Nat.zero_le _
  · nofun
  · intro n hn
    simp only [Op.next, List.mem_singleton] at hn
    simp only [List.length_cons, Op.after, Op.pops, Op.pushes, hlen]
    subst hn
    rw [if_neg (by omega), if_neg (by omega), if_neg (by omega), if_pos (by omega), hy₂,
      show start + (xs.length + 1) = start + 1 + xs.length by omega, hx₂]
    omega
  · have hpos : start + (.jumpIf condition (start + 1 + xs.length + 1) :: xs).length + 1 =
        start + 1 + xs.length + 1 := by
      simp
      omega
    rw [hpos]
    refine hy.lift (Nat.le_refl _) (by omega) (by omega) (by omega) fun p hp hp' => ?_
    rw [if_neg (by omega), if_neg (by omega)]

theorem Moves.loop (hx : Moves start xs d (d + 1)) (hy : Moves (start + xs.length + 1) ys d d) :
    Moves start (xs ++ .jumpIf false (start + xs.length + 1 + ys.length + 1) :: ys ++ [.jump start])
      d d := by
  obtain ⟨fx, hx₁, hx₂, hx⟩ := hx
  obtain ⟨fy, hy₁, hy₂, hy⟩ := hy
  have hlen : (xs ++ Op.jumpIf false (start + xs.length + 1 + ys.length + 1) :: ys ++
      [Op.jump start]).length = xs.length + ys.length + 2 := by
    simp
    omega
  refine ⟨fun p => if p ≤ start + xs.length then fx p
    else if p ≤ start + xs.length + 1 + ys.length then fy p else d, ?_, ?_,
    flows_append.mpr ⟨flows_append.mpr ⟨?_, ⟨?_, ?_, ?_⟩, ?_⟩, ⟨?_, ?_, ?_⟩, trivial⟩⟩
  · dsimp only
    rw [if_pos (by omega), hx₁]
  · dsimp only
    rw [if_neg (by omega), if_neg (by omega)]
  · refine hx.lift (Nat.le_refl _) (by omega) (Nat.le_refl _) (by omega) fun p hp hp' => ?_
    rw [if_pos (by omega)]
  · rw [if_pos (Nat.le_refl _), hx₂]
    exact Nat.le_add_left _ _
  · nofun
  · intro n hn
    simp only [Op.next, List.mem_cons, List.not_mem_nil, or_false] at hn
    simp only [Nat.le_refl, if_true, hx₂, Op.after, Op.pops, Op.pushes, hlen]
    rcases hn with rfl | rfl
    · rw [if_neg (by omega), if_neg (by omega)]
      omega
    · rw [if_neg (by omega), if_pos (by omega), hy₁]
      omega
  · refine hy.lift (Nat.le_refl _) (by omega) (by omega) (by omega) fun p hp hp' => ?_
    rw [if_neg (by omega), if_pos (by omega)]
  · exact Nat.zero_le _
  · nofun
  · intro n hn
    simp only [Op.next, List.mem_singleton] at hn
    have hpos : start + (xs ++ Op.jumpIf false (start + xs.length + 1 + ys.length + 1) :: ys).length =
        start + xs.length + 1 + ys.length := by
      simp
      omega
    rw [hn, hpos, hlen]
    simp only [Op.after, Op.pops, Op.pushes]
    rw [if_pos (by omega), hx₁, if_neg (by omega), if_pos (by omega), hy₂]
    omega

theorem Moves.forever (h : Moves start ops d d) : Moves start (ops ++ [.jump start]) d e := by
  obtain ⟨inner, h₁, h₂, h⟩ := h
  have hlen : (ops ++ [Op.jump start]).length = ops.length + 1 := by simp
  refine ⟨fun p => if p ≤ start + ops.length then inner p else e, ?_, ?_,
    flows_append.mpr ⟨?_, ⟨?_, ?_, ?_⟩, trivial⟩⟩
  · dsimp only
    rw [if_pos (by omega), h₁]
  · dsimp only
    rw [if_neg (by omega)]
  · refine h.lift (Nat.le_refl _) (by omega) (Nat.le_refl _) (by omega) fun p hp hp' => ?_
    rw [if_pos (by omega)]
  · exact Nat.zero_le _
  · nofun
  · intro n hn
    simp only [Op.next, List.mem_singleton] at hn
    rw [hn, hlen]
    simp only [Op.after, Op.pops, Op.pushes]
    rw [if_pos (by omega), if_pos (by omega), h₁, h₂]
    omega

/-! ### Code without an end -/

theorem closes_ret (start : Nat) : Closes start [.ret] 1 := by
  refine ⟨fun _ => 1, rfl, ⟨Nat.le_refl _, fun _ => rfl, ?_⟩, trivial⟩
  intro n hn
  cases hn

theorem closes_unreachable (start d : Nat) : Closes start [.unreachable] d := by
  refine ⟨fun _ => d, rfl, ⟨Nat.zero_le _, nofun, ?_⟩, trivial⟩
  intro n hn
  cases hn

theorem Moves.closes (hx : Moves start xs d e) (hy : Closes (start + xs.length) ys e)
    (hne : ys ≠ []) : Closes start (xs ++ ys) d := by
  obtain ⟨fx, hx₁, hx₂, hx⟩ := hx
  obtain ⟨fy, hy₁, hy⟩ := hy
  have hpos : 0 < ys.length := List.length_pos_iff.mpr hne
  obtain ⟨both, hstart, _, hflows⟩ :=
    hx.append hy (hx₂.trans hy₁.symm) (by omega) (Nat.le_refl _)
  rw [Closes, List.length_append, ← Nat.add_assoc]
  exact ⟨both, hstart.trans hx₁, hflows⟩

end HostScript
