import HostScript.Proofs.Scalar.Expressions

/-!
# Control flow of scalar scripts

`Carries` compares a run of the machine with the outcome of statements: the run comes to the end of
their code, or ends as they end, or is still under way after as many operations as there is fuel.
-/

namespace HostScript

/-- The world after more lines were printed. -/
def World.print {σ : Type} (w : World σ) (lines : Array String) : World σ :=
  { w with printed := w.printed ++ lines }

/-- The frames run the same function. -/
structure Frame.Like (f f' : Frame) : Prop where
  function : f.function = f'.function
  erases : f.erases = f'.erases
  size : f.locals.size = f'.locals.size

namespace Frame

variable {f f' f'' : Frame} {start : Nat} {ops : List Op}

theorem Like.refl (f : Frame) : f.Like f :=
  ⟨rfl, rfl, rfl⟩

theorem Like.trans (h : f.Like f') (h' : f'.Like f'') : f.Like f'' :=
  ⟨h.function.trans h'.function, h.erases.trans h'.erases, h.size.trans h'.size⟩

theorem Like.has (h : f.Like f') (hf : f'.Has start ops) : f.Has start ops := by
  intro i hi
  rw [h.function]
  exact hf i hi

theorem like_store (slot : Nat) (content : Slot) : (f.store slot content).Like f :=
  ⟨rfl, rfl, by simp [Frame.store]⟩

end Frame

namespace Machine

open Outcome (ofEval andThen loop)

variable {σ : Type}

/-- A run from one position carries out what ends as the outcome says. The variables `vs` are in
scope at the target. Without an outcome, the run goes on for at least `bound` operations. -/
def Carries (m : Setting σ) (T : Tables) (f : Frame) (w : World σ) (ip : Nat) (st : List Slot)
    (target : Nat) (vs : Visible) (bound : Nat) (printed : Array String) : Option Outcome → Prop
  | none => ∃ (n : Nat) (f' : Frame) (w' : World σ), bound ≤ n ∧ Reaches m n (f.at ip st) (w.print printed) f' w'
  | some (.next mem) => ∃ (n : Nat) (f' : Frame), f'.Like f ∧ f'.Agrees T vs mem.vars ∧
      Reaches m n (f.at ip st) (w.print printed) (f'.at target []) (w.print mem.printed)
  | some (.returned v lines) => ∃ n,
      Ends m n (f.at ip st) (w.print printed) (.ok (some (.ref v)) (w.print lines))
  | some (.failed e lines) => ∃ n,
      Ends m n (f.at ip st) (w.print printed) (.error e (w.print lines))

/-- A run from one position comes to one of two others, as the test says. -/
def Branches (m : Setting σ) (f : Frame) (w : World σ) (ip yes no : Nat) :
    Except RuntimeError Bool → Prop
  | .ok c => ∃ n, Reaches m n (f.at ip []) w (f.at (if c then yes else no) []) w
  | .error e => ∃ n, Ends m n (f.at ip []) w (.error e w)

variable {m : Setting σ} {T : Tables} {f f' : Frame} {w : World σ} {ip mid target n : Nat}
  {st st' : List Slot} {vs vs' : Visible} {bound bound' : Nat} {lines : Array String}
  {mem : Memory} {rep : Rep} {o : Option Outcome}

theorem Carries.mono (h : Carries m T f w ip st target vs bound lines o) (hb : bound' ≤ bound) :
    Carries m T f w ip st target vs bound' lines o := by
  match o, h with
  | none, ⟨n, f', w', hn, hreach⟩ => exact ⟨n, f', w', Nat.le_trans hb hn, hreach⟩
  | some (.next _), h | some (.returned ..), h | some (.failed ..), h => exact h

theorem Carries.of_reaches
    (h : Reaches m n (f.at ip st) (w.print lines) (f.at mid st') (w.print lines))
    (hc : Carries m T f w mid st' target vs bound lines o) :
    Carries m T f w ip st target vs (bound + n) lines o := by
  match o, hc with
  | none, ⟨k, f', w', hk, hreach⟩ => exact ⟨n + k, f', w', by omega, h.trans hreach⟩
  | some (.next _), ⟨k, f', hlike, hagree, hreach⟩ =>
    exact ⟨n + k, f', hlike, hagree, h.trans hreach⟩
  | some (.returned ..), ⟨k, hend⟩ | some (.failed ..), ⟨k, hend⟩ => exact ⟨n + k, h.ends hend⟩

theorem Delivers.carries {r : Except RuntimeError Value} {k : Value → Option Outcome}
    (h : Delivers m f (w.print mem.printed) ip st mid st' rep r)
    (hk : ∀ v s, s.Holds rep v →
      Carries m T f w mid (s :: st') target vs bound mem.printed (k v)) :
    Carries m T f w ip st target vs bound mem.printed (ofEval mem r k) := by
  cases r with
  | error e => exact h
  | ok v =>
    obtain ⟨n, s, hs, hreach⟩ := h
    exact (Carries.of_reaches hreach (hk v s hs)).mono (Nat.le_add_right ..)

theorem Carries.andThen {k : Memory → Option Outcome}
    (h : Carries m T f w ip st mid vs bound lines o)
    (hk : ∀ (f' : Frame) mem, f'.Like f → f'.Agrees T vs mem.vars →
      Carries m T f' w mid [] target vs' bound mem.printed (k mem)) :
    Carries m T f w ip st target vs' bound lines (andThen o k) := by
  match o, h with
  | none, h | some (.returned ..), h | some (.failed ..), h => exact h
  | some (.next mem), ⟨n, f', hlike, hagree, hreach⟩ =>
    show Carries m T f w ip st target vs' bound lines (k mem)
    have hnext := hk f' mem hlike hagree
    match hkm : k mem, hnext with
    | none, ⟨j, f'', w', hj, hreach'⟩ =>
      exact ⟨n + j, f'', w', by omega, hreach.trans hreach'⟩
    | some (.next _), ⟨j, f'', hlike', hagree', hreach'⟩ =>
      exact ⟨n + j, f'', hlike'.trans hlike, hagree', hreach.trans hreach'⟩
    | some (.returned ..), ⟨j, hend⟩ | some (.failed ..), ⟨j, hend⟩ =>
      exact ⟨n + j, hreach.ends hend⟩

theorem Carries.jump (h : Carries m T f w ip st mid vs bound lines o)
    (hop : f.function.ops[mid]? = some (.jump target)) :
    Carries m T f w ip st target vs bound lines o := by
  match o, h with
  | none, h | some (.returned ..), h | some (.failed ..), h => exact h
  | some (.next mem), ⟨n, f', hlike, hagree, hreach⟩ =>
    have hop' : f'.function.ops[mid]? = some (.jump target) := by rw [hlike.function, hop]
    exact ⟨n + 1, f', hlike, hagree, hreach.trans (reaches_jump hop')⟩

/-! ### Conditions -/

theorem Delivers.branches {stop : Nat} {r : Except RuntimeError Value}
    (h : Delivers m f w ip [] mid [] .bool (r >>= fun v => v.asCondition.map .bool))
    (hop : f.function.ops[mid]? = some (.jumpIf false stop)) :
    Branches m f w ip (mid + 1) stop (r >>= Value.asCondition) := by
  have hbool : ∀ {q : Except RuntimeError Bool},
      Delivers m f w ip [] mid [] .bool (q.map .bool) → Branches m f w ip (mid + 1) stop q := by
    intro q hq
    cases q with
    | error e => exact hq
    | ok c =>
      obtain ⟨n, s, hs, hreach⟩ := hq
      have hjump : Reaches m 1 (f.at mid [s]) w (f.at (if c = false then stop else mid + 1) []) w :=
        reaches_jumpIf hop hs.value
      refine ⟨n + 1, ?_⟩
      cases c <;> exact hreach.trans hjump
  cases r with
  | error e => exact h
  | ok v => exact hbool h

theorem Branches.carries {yes no : Nat} {r : Except RuntimeError Bool} {k : Bool → Option Outcome}
    (h : Branches m f (w.print mem.printed) ip yes no r)
    (hyes : Carries m T f w yes [] target vs bound mem.printed (k true))
    (hno : Carries m T f w no [] target vs bound mem.printed (k false)) :
    Carries m T f w ip [] target vs bound mem.printed (ofEval mem r k) := by
  cases r with
  | error e => exact h
  | ok c =>
    obtain ⟨n, hreach⟩ := h
    cases c with
    | false => exact (Carries.of_reaches hreach hno).mono (Nat.le_add_right ..)
    | true => exact (Carries.of_reaches hreach hyes).mono (Nat.le_add_right ..)

/-! ### Loops -/

/-- A loop whose test and body are carried out is carried out. Every round jumps back, so a loop
that runs out of fuel took more operations than it had fuel. -/
theorem carries_loop {test : Memory → Except RuntimeError Bool} {body : Memory → Option Outcome}
    {again inside back stop fuel : Nat} (hback : f.function.ops[back]? = some (.jump again))
    (htest : ∀ (f' : Frame) mem, f'.Like f → f'.Agrees T vs mem.vars →
      Branches m f' (w.print mem.printed) again inside stop (test mem))
    (hbody : ∀ (f' : Frame) mem, f'.Like f → f'.Agrees T vs mem.vars →
      Carries m T f' w inside [] back vs fuel mem.printed (body mem)) :
    ∀ (rounds : Nat) (f' : Frame) (mem : Memory), rounds ≤ fuel → f'.Like f →
      f'.Agrees T vs mem.vars →
      Carries m T f' w again [] stop vs rounds mem.printed (loop test body rounds mem) := by
  intro rounds
  induction rounds with
  | zero => exact fun f' mem _ _ _ => ⟨0, f'.at again [], _, Nat.le_refl 0, Reaches.refl⟩
  | succ rounds ih =>
    intro f' mem hle hlike hagree
    refine (htest f' mem hlike hagree).carries ?_ ⟨0, f', Frame.Like.refl f', hagree, Reaches.refl⟩
    refine ((hbody f' mem hlike hagree).mono hle).andThen fun f'' mem' hlike' hagree' => ?_
    have hlike'' := hlike'.trans hlike
    have hjump : f''.function.ops[back]? = some (.jump again) := by
      rw [hlike''.function, hback]
    exact Carries.of_reaches (reaches_jump hjump) (ih f'' mem' (by omega) hlike'' hagree')

end Machine

end HostScript
