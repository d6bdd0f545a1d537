import HostScript.Proofs.Analysis.Tracing
import HostScript.Proofs.Analysis.Visits

/-!
# Member accesses of an analysis

The moments at which an analysis looks a member up, in the order in which it does: for a member that
is read, called or stepped, in the script and in every analysis of a lambda. What is kept of an
access from the moment on is known of it at the end of the walk.
-/

namespace HostScript.Analysis

/-- A member is looked up: the object and the shape that it got, the name, and the state at that
moment. -/
structure Access where
  object : Expr
  receiver : ShapeId
  name : String
  state : State

/-- The accesses are events. A place that is only stored to is not looked up. -/
def accesses : Lookout Access where
  member _ object name o s := [⟨object, o, name, s⟩]
  callee _ object name o s := [⟨object, o, name, s⟩]
  stepped
    | .member _ object _ _, .member o name, s => [⟨object, o, name, s⟩]
    | _, _, _ => []

/-- The accesses of a pass. -/
def passAccesses (ctx : Context) (budget : Nat) (widening : Widening) : List Access :=
  accesses.passed ctx budget widening

end HostScript.Analysis
