import HostScript.Proofs.Analysis.Runs

/-!
# Passes

A pass walks the script and then empties the queue of lambda shapes. The answer of an analysis is
what its last pass found.
-/

namespace HostScript.Analysis

variable {ctx : Context} {s : State} {budget : Nat}

/-! ### The queue -/

theorem drain_of_empty (h : s.pending = []) : drain ctx budget s = (true, s) := by
  cases budget with
  | zero =>
    show (s.pending.isEmpty, s) = _
    rw [h]
    rfl
  | succ budget =>
    rw [drain, get_bind_run, h]
    rfl

theorem drain_of_cons {method : ShapeId} {rest : List ShapeId} (h : s.pending = method :: rest) :
    drain ctx (budget + 1) s =
      drain ctx budget (analyzeGeneric ctx method { s with pending := rest }).2 := by
  rw [drain, get_bind_run, h]
  rfl

theorem drain_zero : drain ctx 0 s = (s.pending.isEmpty, s) :=
  rfl

/-- A queue that was emptied within a budget is emptied in the same way within a larger one. -/
theorem drain_add (h : (drain ctx budget s).1 = true) (more : Nat) :
    drain ctx (budget + more) s = drain ctx budget s := by
  induction budget generalizing s with
  | zero =>
    have hp : s.pending = [] := List.isEmpty_iff.mp h
    rw [drain_of_empty hp, drain_of_empty hp]
  | succ budget ih =>
    cases hp : s.pending with
    | nil => rw [drain_of_empty hp, drain_of_empty hp]
    | cons method rest =>
      rw [drain_of_cons hp] at h
      rw [Nat.add_right_comm, drain_of_cons hp, drain_of_cons hp, ih h]

/-- The state in which all shapes and layers that are there are frozen. -/
def State.frozen (s : State) : State :=
  { s with arena := s.arena.freeze.2, layers := s.layers.freeze.2 }

/-! ### From the first pass to the answer -/

/-- The state in which a pass starts. -/
abbrev State.start (widening : Widening) : State :=
  { arena := { widening } }

/-- The state of a pass after the script itself was walked. -/
def State.walked (ctx : Context) (widening : Widening) : State :=
  (popReturns (stmts ctx (enter ctx) false false ctx.script.body
    { State.start widening with returns := [[]] }).2).2

theorem pass_run (ctx : Context) (budget : Nat) (widening : Widening) :
    pass ctx budget (.start widening) =
      ((drain ctx budget (.walked ctx widening)).1,
        (warnUnread (drain ctx budget (.walked ctx widening)).2).2) :=
  rfl

theorem settle_run (ctx : Context) (budget more number : Nat) (widening : Widening) :
    settle ctx budget more number widening =
      if !(pass ctx budget (.start widening)).1 then none
      else
        match more with
        | 0 => some (ofState ctx number (pass ctx budget (.start widening)).2)
        | more + 1 =>
          if (pass ctx budget (.start widening)).2.arena.unstable then
            settle ctx budget more (number + 1)
              (pass ctx budget (.start widening)).2.arena.widening
          else some (ofState ctx number (pass ctx budget (.start widening)).2) := by
  cases more <;> rfl

/-- The answer of an analysis is what its last pass found. -/
theorem settle_eq_ok {a : Analysis} {more number : Nat} {widening : Widening}
    (h : settle ctx budget more number widening = some (.ok a)) :
    ∃ number widening, (pass ctx budget (.start widening)).1 = true ∧
      ofState ctx number (pass ctx budget (.start widening)).2 = .ok a := by
  induction more generalizing number widening with
  | zero =>
    rw [settle_run] at h
    split at h
    · cases h
    · next hdrained => exact ⟨number, widening, by simpa using hdrained, Option.some.inj h⟩
  | succ more ih =>
    rw [settle_run] at h
    split at h
    · cases h
    · next hdrained =>
        simp only at h
        split at h
        · exact ih h
        · exact ⟨number, widening, by simpa using hdrained, Option.some.inj h⟩

theorem problems_of_dedup {problems : List Problem} (h : Problem.dedup problems = []) :
    problems = [] := by
  cases problems with
  | nil => rfl
  | cons p ps => exact absurd h (List.cons_ne_nil _ _)

theorem ofState_eq_ok {a : Analysis} {number : Nat} (h : ofState ctx number s = .ok a) :
    s.problems = [] ∧ a.arena = s.arena ∧ a.layers = s.layers ∧ a.resolutions = s.resolutions ∧
      a.captured = s.captured := by
  unfold ofState at h
  split at h
  · next hdedup =>
      cases h
      exact ⟨problems_of_dedup hdedup, rfl, rfl, rfl, rfl⟩
  · cases h

end HostScript.Analysis
