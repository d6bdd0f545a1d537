import HostScript.Analysis.Walk

/-!
# Analyses of lambdas

A lambda is analyzed in the scope and the layers where its literal stands, wherever it is called
from. No lambda is entered while it is under analysis, so the number of lambdas bounds how deep
analyses nest.
-/

namespace HostScript.Analysis

/-- Make the scope of the body current, empty. -/
def openBody (method : ShapeId) (l : LambdaShape) : Analyze ScopeId := do
  modify fun s => { s with scopes := { s.scopes with current := l.defScope } }
  match l.bodyScope with
  | some scope =>
    modify fun s => { s with scopes := s.scopes.reopen scope }
    return scope
  | none =>
    openScope .lambda
    let scope := (← get).scopes.current
    modifyArena (·.modifyLambda method fun l => { l with bodyScope := some scope })
    return scope

/-- Declare the parameters of a lambda from position `index` on. An argument that is not given is
unknown. -/
def declareParams (lambda : NodeId) (args : List ShapeId) :
    Nat → List Param → Analyze (List ShapeId)
  | _, [] => return []
  | index, p :: rest => do
    let arg := args[index]?.getD Arena.unknown
    declare p.name (.parameter lambda index p.node.id) arg p.node.span
    return arg :: (← declareParams lambda args (index + 1) rest)

def foldShapes (first : ShapeId) : List ShapeId → Analyze ShapeId
  | [] => return first
  | shape :: rest => do
    let merged ← inArena (·.derive first shape)
    foldShapes merged rest

/-- Take the shapes returned by the innermost body. -/
def popReturns : Analyze (List ShapeId) :=
  modifyGet fun s => (s.returns.headD [], { s with returns := s.returns.tail })

/-- The shape of the result of a body. A body that may end without a return gives null. -/
def bodyShape (ctx : Context) (enter : Enter) (body : LambdaBody) : Analyze ShapeId := do
  modify fun s => { s with returns := [] :: s.returns }
  match body with
  | .expr value =>
    let shape ← expr ctx enter value
    let _ ← popReturns
    return shape
  | .block body =>
    stmts ctx enter false false body
    let returns ← popReturns
    let ending := if Stmt.anyReturns body then [] else [Arena.unknown]
    foldShapes Arena.undetermined (returns ++ ending)

/-- Turn to the body of a lambda: its parameters are declared in a scope and a layer of its own. -/
def startBody (method : ShapeId) (l : LambdaShape) (lambda : Lambda) (args : List ShapeId) :
    Analyze (ScopeId × LayerId × List ShapeId) := do
  modify fun s => { s with active := l.node :: s.active, stack := l.env, enclosing := l.enclosing }
  let body ← openBody method l
  let layer ← modifyGet fun s =>
    let (layer, layers) := s.layers.newLayer
    (layer, { s with
      layers
      stack := s.stack ++ [layer]
      enclosing := s.enclosing ++ [l.node] })
  return (body, layer, ← declareParams l.node args 0 lambda.params)

/-- Turn back to where the analysis was before it came to the body of a lambda. -/
def endBody (before : State) (l : LambdaShape) (body : ScopeId) : Analyze Unit :=
  modify fun s => { s with
    scopes := { ({ s.scopes with current := body }).close with current := before.scopes.current }
    stack := before.stack
    enclosing := before.enclosing
    active := s.active.erase l.node }

/-- Analyze a lambda where its literal stands, and come back to where the analysis was. -/
def analyzeBody (ctx : Context) (enter : Enter) (method : ShapeId) (l : LambdaShape)
    (lambda : Lambda) (args : List ShapeId) : Analyze Signature := do
  let before ← get
  let (body, layer, args) ← startBody method l lambda args
  let ret ← bodyShape ctx enter lambda.body
  endBody before l body
  return { args, ret, layer }

/-- Analyze a lambda that is not under analysis. Fewer than `depth` analyses may be nested below
it. -/
def enterLambda (ctx : Context) : Nat → Enter
  | 0, _, _ => return none
  | depth + 1, method, args => do
    let s ← get
    match s.arena.lambda? method with
    | none => return none
    | some l =>
      match ctx.script.lambda? l.node with
      | none => return none
      | some lambda =>
        if s.active.contains l.node then
          return none
        return some (← analyzeBody ctx (enterLambda ctx depth) method l lambda (args.getD []))

def enter (ctx : Context) : Enter :=
  enterLambda ctx ctx.script.lambdas.length

end HostScript.Analysis
