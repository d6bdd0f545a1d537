import HostScript.Host.Registry
import HostScript.Script
import HostScript.Shape.Arena
import HostScript.Shape.Layers

/-!
# The state of an analysis

One pass of analysis walks a script and keeps here what it finds. The first part is the context in
which the walk stands: the current scope, the stack of layers and the lambdas around it.
-/

namespace HostScript

/-- What a name in a script refers to. -/
inductive Resolution where
  | local (symbol : Symbol)
  /-- A member of the input object. -/
  | input (member : Member)

namespace Analysis

/-- What an analysis does not change. -/
structure Context where
  types : Registry
  options : Options
  /-- The type of the input object. -/
  input : Option HostTypeId
  script : Script

structure State where
  arena : Arena
  layers : Layers := {}
  scopes : Scopes := {}
  /-- The layers that are visible, from the outside in. -/
  stack : List LayerId := [Layers.root]
  /-- The lambdas around, from the outside in. -/
  enclosing : List NodeId := []
  /-- The shapes returned so far, for each body under analysis; the innermost body comes first. -/
  returns : List (List ShapeId) := []
  /-- Lambdas under analysis. -/
  active : List NodeId := []
  /-- Lambdas whose generic analysis is still to come. -/
  pending : List ShapeId := []
  /-- Variables that were read, with the layer in which their shape was found. -/
  declarationReads : List (LayerId × NodeId) := []
  readSymbols : List Symbol := []
  /-- Declared variables, with the place of their names; the latest comes first. -/
  declared : List (Symbol × String × Span) := []
  resolutions : OrderedMap NodeId Resolution := {}
  /-- The lambda that declares each symbol, if one does. -/
  owners : NumberedMap Symbol (Option NodeId) := {}
  /-- Symbols that are used in a lambda which does not declare them. -/
  captured : List Symbol := []
  /-- The outer symbols that each lambda uses, itself or in lambdas inside it. -/
  captures : OrderedMap NodeId (List Symbol) := {}
  problems : List Problem := []
  warnings : List Problem := []

abbrev Analyze := StateM State

def inArena {α : Type} (f : Arena → α × Arena) : Analyze α :=
  modifyGet fun s =>
    let (a, arena) := f s.arena
    (a, { s with arena })

def modifyArena (f : Arena → Arena) : Analyze Unit :=
  modify fun s => { s with arena := f s.arena }

def report (cause : Cause) (span : Span) : Analyze Unit :=
  modify fun s => { s with problems := s.problems ++ [⟨cause, span⟩] }

def warn (warning : Warning) (span : Span) : Analyze Unit :=
  modify fun s => { s with warnings := s.warnings ++ [⟨.warning warning, span⟩] }

def describe (shape : ShapeId) : Analyze String := do
  return (← get).arena.describe shape

/-- Record the shape of a node in the innermost layer. -/
def record (node : NodeId) (shape : ShapeId) (span : Span) : Analyze Unit := do
  let s ← get
  match s.layers.set? s.stack node shape with
  | some (_, layers) => set { s with layers }
  | none => report (.compiler (.shapeAlreadySet node)) span

/-- Record the shape of a node and give it back. -/
def note (node : Node) (shape : ShapeId) : Analyze ShapeId := do
  record node.id shape node.span
  return shape

/-! ### Symbols -/

/-- Add an item to the end of a list that does not have it. -/
def addNew {α : Type} [DecidableEq α] (items : List α) (item : α) : List α :=
  if item ∈ items then items else items ++ [item]

/-- Declare a name with the shape of its first value. -/
def declare (name : String) (symbol : Symbol) (shape : ShapeId) (span : Span) : Analyze Unit := do
  let forced := (← get).arena.isDeclarationForced symbol.node
  record symbol.node (if forced then Arena.unknown else shape) span
  match (← get).scopes.declare name symbol span.start with
  | .ok scopes => modify fun s => { s with scopes }
  | .error problem => report (.scope problem) span
  modify fun s => { s with owners := s.owners.insert symbol s.enclosing.getLast? }
  match symbol with
  | .var _ => modify fun s => { s with declared := (symbol, name, span) :: s.declared }
  | .parameter .. => return

/-- The lambdas between the owner of a symbol and its use. `none` if the owner is not around. -/
def lambdasInside (owner : Option NodeId) (enclosing : List NodeId) : Option (List NodeId) :=
  match owner with
  | none => some enclosing
  | some o => (enclosing.findIdx? (· = o)).map fun i => enclosing.drop (i + 1)

/-- Note that a symbol is used. If a lambda around does not declare it, it captures it. -/
def noteUse (symbol : Symbol) : Analyze Unit := do
  let s ← get
  let owner := (s.owners.get? symbol).join
  if owner ≠ s.enclosing.getLast? then
    let captures := ((lambdasInside owner s.enclosing).getD []).foldl
      (fun cs lambda => cs.insert lambda (addNew ((cs.get? lambda).getD []) symbol)) s.captures
    set { s with captured := addNew s.captured symbol, captures }

def inputMember? (ctx : Context) (name : String) : Option Member :=
  ctx.input.bind fun id => (ctx.types.info? id).bind fun info => info.members.get? name

/-- Read a variable or parameter. -/
def readSymbol (symbol : Symbol) : Analyze ShapeId := do
  noteUse symbol
  modify fun s =>
    let reads := match s.layers.find? s.stack symbol.node with
      | some layer => s.declarationReads.insert (layer, symbol.node)
      | none => s.declarationReads
    { s with readSymbols := s.readSymbols.insert symbol, declarationReads := reads }
  let s ← get
  return (s.layers.shape? s.stack symbol.node).getD Arena.unknown

def resolveNode (node : NodeId) (resolution : Resolution) : Analyze Unit :=
  modify fun s => { s with resolutions := s.resolutions.insert node resolution }

end Analysis

end HostScript
