import HostScript.Analysis.Lambda

/-!
# Analysis

Analysis finds a shape for every expression of a script and what every name refers to. A pass
walks the script and then analyzes each lambda once more for unknown arguments, while all that was
found before is frozen. Storage that was widened after it was read makes earlier reads wrong: the
pass is repeated with that storage unknown from the start.
-/

namespace HostScript

structure Analysis where
  arena : Arena
  layers : Layers
  resolutions : OrderedMap NodeId Resolution
  /-- Symbols that a lambda uses and does not declare. -/
  captured : List Symbol
  /-- The outer symbols that each lambda uses. -/
  captures : OrderedMap NodeId (List Symbol)
  input : Option HostTypeId
  warnings : List Problem
  passes : Nat

namespace Analysis

def shape (a : Analysis) (stack : List LayerId) (node : NodeId) : ShapeId :=
  (a.layers.shape? stack node).getD Arena.unknown

/-- Analyze a lambda for unknown arguments, without a change to what is there. -/
def analyzeGeneric (ctx : Context) (method : ShapeId) : Analyze Unit := do
  let arenaBound ← inArena (·.freeze)
  let layerBound ← modifyGet fun s =>
    let (bound, layers) := s.layers.freeze
    (bound, { s with layers })
  let generic ← enter ctx method none
  modifyArena (·.thaw arenaBound)
  modify fun s => { s with layers := s.layers.thaw layerBound }
  modifyArena (·.modifyLambda method fun l => { l with generic })

/-- Analyze the pending lambdas for unknown arguments. Each may bring further ones; `false` if the
budget is used up before none is left. -/
def drain (ctx : Context) : Nat → Analyze Bool
  | 0 => return (← get).pending.isEmpty
  | budget + 1 => do
    match (← get).pending with
    | [] => return true
    | method :: rest =>
      modify fun s => { s with pending := rest }
      analyzeGeneric ctx method
      drain ctx budget

/-- Warn of variables that are never read. -/
def warnUnread : Analyze Unit := do
  let s ← get
  let unread := s.declared.reverse.filter fun (symbol, _, _) => !s.readSymbols.contains symbol
  let found := unread.map fun (_, name, span) => Problem.mk (.warning (.neverRead name)) span
  set { s with declared := [], warnings := s.warnings ++ found }

/-- One pass over the script. -/
def pass (ctx : Context) (budget : Nat) : Analyze Bool := do
  modify fun s => { s with returns := [] :: s.returns }
  stmts ctx (enter ctx) false false ctx.script.body
  let _ ← popReturns
  let drained ← drain ctx budget
  warnUnread
  return drained

/-- The result of the last pass. -/
def ofState (ctx : Context) (passes : Nat) (s : State) : Except (List Problem) Analysis :=
  match Problem.dedup s.problems with
  | [] => .ok {
      arena := s.arena
      layers := s.layers
      resolutions := s.resolutions
      captured := s.captured
      captures := s.captures
      input := ctx.input
      warnings := Problem.dedup s.warnings
      passes }
  | problems => .error problems

/-- Pass number `number`, and more while storage is widened after a read, `more` at most. -/
def settle (ctx : Context) (budget : Nat) :
    Nat → Nat → Widening → Option (Except (List Problem) Analysis)
  | more, number, widening =>
    let (drained, s) := (pass ctx budget).run { arena := { widening } }
    if !drained then none
    else
      match more with
      | 0 => some (ofState ctx number s)
      | more + 1 =>
        if s.arena.unstable then settle ctx budget more (number + 1) s.arena.widening
        else some (ofState ctx number s)

end Analysis

/-- Analyze a script that runs on an input of a given type. The budget is for lambdas that are
analyzed for unknown arguments in one pass; `none` if it is used up. -/
def Script.analyze (script : Script) (types : Registry) (options : Options)
    (input : Option HostTypeId) (budget : Nat) : Option (Except (List Problem) Analysis) :=
  Analysis.settle { types, options, input, script } budget (options.maxPasses - 1) 1 {}

end HostScript
