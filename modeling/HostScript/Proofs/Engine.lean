import HostScript.Engine

/-!
# Scripts that pass a test

A test that is passed after the stages of the engine tells that all of them succeed.
-/

namespace HostScript.Engine

def parses (source : String) (test : Script → Bool) : Bool :=
  match parse source with
  | .ok script => test script
  | .error _ => false

def analyzes (source : String) (types : Registry) (budget : Nat) (test : Script → Analysis → Bool) :
    Bool :=
  parses source fun script =>
    match script.analyze types {} none budget with
    | some (.ok a) => test script a
    | _ => false

def compiles (source : String) (input : Option HostTypeId) (budget : Nat) (e : Engine)
    (test : Program → Bool) : Bool :=
  match (compile source input budget e).1 with
  | some (.ok p) => test p
  | _ => false

theorem exists_parsed (source : String) (test : Script → Bool) (h : parses source test = true) :
    ∃ script, parse source = .ok script ∧ test script = true := by
  rw [parses] at h
  split at h
  next script hparse => exact ⟨script, hparse, h⟩
  next => cases h

theorem exists_analyzed (source : String) (types : Registry) (budget : Nat)
    (test : Script → Analysis → Bool) (h : analyzes source types budget test = true) :
    ∃ script a, parse source = .ok script ∧ script.analyze types {} none budget = some (.ok a) ∧
      test script a = true := by
  obtain ⟨script, hparse, htest⟩ := exists_parsed source _ h
  split at htest
  next a hanalyze => exact ⟨script, a, hparse, hanalyze, htest⟩
  next => cases htest

theorem exists_compiled (source : String) (input : Option HostTypeId) (budget : Nat) (e : Engine)
    (test : Program → Bool) (h : compiles source input budget e test = true) :
    ∃ p, (compile source input budget e).1 = some (.ok p) ∧ test p = true := by
  rw [compiles] at h
  split at h
  next p hp => exact ⟨p, hp, h⟩
  next => cases h

end HostScript.Engine
