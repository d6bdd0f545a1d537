import HostScript.Proofs.Analysis.Events

/-!
# The visits of an analysis

An analysis resolves names and reads places, each in some state. The visits of an analysis are
listed here in the order in which it makes them. A node inside a lambda is visited once for each
analysis of the lambda. What holds after each visit, and as long as the analysis goes on, holds of
all visits at its end. -/

namespace HostScript.Analysis

inductive Visit where
  /-- A name is resolved. -/
  | name (node : Node) (name : String) (s : State)
  /-- A place is read, and the shape recorded for a node. -/
  | read (node : NodeId) (place : Place) (s : State)

def identVisits (ctx : Context) (n : Node) (name : String) (s : State) : List Visit :=
  [.name n name s, .read n.id (placeOf (resolve? ctx n name s).1) (resolve? ctx n name s).2]

/-- The shape of a place is read and recorded for a node. -/
def readInto (ctx : Context) (node : NodeId) (place : Place) (span recorded : Span) : Analyze Unit := do
  record node (← placeShape ctx place span) recorded

/-- A member that is called is read if it is a value. -/
def calleeVisits (ctx : Context) (callee : Node) (receiver : ShapeId) (name : String) (s : State) :
    List Visit :=
  match MemberTarget.resolve s.arena ctx.types receiver name with
  | .host m | .extension m =>
    if m.isCallable then [] else [.read callee.id (.member receiver name) s]
  | .arrayAdd | .dynamic => []
  | _ => [.read callee.id (.member receiver name) s]

/-- The visits are events. -/
def visits (ctx : Context) : Lookout Visit where
  ident := identVisits ctx
  named n name s := [.name n name s]
  member n _ name o s := [.read n.id (.member o name) s]
  index n o k s := [.read n.id (.index o k) s]
  callee c _ name o s := calleeVisits ctx c o name s
  stepped target p s := [.read target.id p s]

/-- The visits of a pass before the lambdas are analyzed for unknown arguments. -/
def walkVisits (ctx : Context) (widening : Widening) : List Visit :=
  (visits ctx).walked ctx widening

/-- A name is read at the place that it stands for. -/
theorem ident_eq (ctx : Context) (n : Node) (name : String) :
    ident ctx n name = (do placeShape ctx (placeOf (← resolve? ctx n name)) n.span) := by
  funext s
  show _ = placeShape ctx (placeOf (resolve? ctx n name s).1) n.span (resolve? ctx n name s).2
  rw [ident_run]
  have hres : (resolve? ctx n name s).1 = s.meaning? ctx n name := by
    rw [resolve?_run]
    cases s.meaning? ctx n name <;> rfl
  rw [hres]
  match s.meaning? ctx n name with
  | some (.local symbol) | some (.input m) | none => rfl

/-- A member that is called is visited only when it is read. -/
theorem memberCall_of_visit {ctx : Context} {c : Node} {receiver : ShapeId} {name : String} {s : State}
    {v : Visit} (hv : v ∈ calleeVisits ctx c receiver name s) :
    v = .read c.id (.member receiver name) s ∧ (memberCall ctx c receiver name s).2 =
      (readInto ctx c.id (.member receiver name) c.span c.span s).2 := by
  have hread : (readInto ctx c.id (.member receiver name) c.span c.span s).2 =
      ((do
        return MemberCall.value (← note c (← memberShape receiver name
          (MemberTarget.resolve s.arena ctx.types receiver name) c.span)) :
        Analyze MemberCall) s).2 := rfl
  rw [memberCall, get_bind_run, hread]
  rw [calleeVisits] at hv
  generalize MemberTarget.resolve s.arena ctx.types receiver name = target at hv ⊢
  cases target with
  | host m | extension m =>
    dsimp only at hv ⊢
    split at hv
    · cases hv
    next hcall =>
      rw [memberCallTo, if_neg hcall]
      exact ⟨List.mem_singleton.mp hv, rfl⟩
  | arrayAdd | dynamic => cases hv
  | _ =>
    exact ⟨List.mem_singleton.mp hv, rfl⟩

end HostScript.Analysis
