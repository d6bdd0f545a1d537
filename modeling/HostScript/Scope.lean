import HostScript.Problem

/-!
# Scopes

Scopes form a tree, each with the names declared in it. A name is looked up from the current scope
outwards and only sees declarations that stand before its use. A scope that was left stays
in the tree, because a lambda inside it may be analyzed later.
-/

namespace HostScript

inductive ScopeKind where
  | root
  | block
  | lambda
deriving DecidableEq, Repr

/-- A declared name. -/
inductive Symbol where
  /-- Declared by a statement. -/
  | var (declaration : NodeId)
  /-- The parameter at a position of a lambda. -/
  | parameter (lambda : NodeId) (index : Nat) (param : NodeId)
deriving DecidableEq, Repr

/-- The node under which the shape of a symbol is kept. -/
def Symbol.node : Symbol → NodeId
  | .var declaration => declaration
  | .parameter _ _ param => param

instance : Numbered Symbol := ⟨Symbol.node⟩

abbrev ScopeId := Nat

/-- A symbol and the byte offset of its declaration. -/
structure Declaration where
  symbol : Symbol
  offset : Nat
deriving DecidableEq, Repr

structure Scope where
  kind : ScopeKind
  parent : Option ScopeId
  names : OrderedMap String Declaration := {}
  children : List ScopeId := []
  alive : Bool := true

/-- All scopes, by number, and the one in which names are declared. -/
structure Scopes where
  scopes : Array Scope := #[{ kind := .root, parent := none }]
  current : ScopeId := 0

namespace Scopes

def modifyScope (s : Scopes) (id : ScopeId) (f : Scope → Scope) : Scopes :=
  { s with scopes := s.scopes.modify id f }

/-- A new child of the current scope becomes current. -/
def enter (s : Scopes) (kind : ScopeKind) : Scopes :=
  let id := s.scopes.size
  let grown := s.modifyScope s.current fun p => { p with children := p.children ++ [id] }
  { scopes := grown.scopes.push { kind, parent := some s.current }, current := id }

/-- Leave the current scope for the one around it. -/
def close (s : Scopes) : Scopes :=
  match s.scopes[s.current]? with
  | none => s
  | some scope =>
    { s.modifyScope s.current (fun c => { c with alive := false }) with
      current := scope.parent.getD s.current }

/-- The scope `id` and those around it, from the inside out. -/
def outwards (s : Scopes) : Nat → ScopeId → List (ScopeId × Scope)
  | 0, _ => []
  | budget + 1, id =>
    match s.scopes[id]? with
    | none => []
    | some scope =>
      match scope.parent with
      | none => [(id, scope)]
      | some parent => (id, scope) :: outwards s budget parent

/-- The nearest declaration of a name that stands at or before `offset`. -/
def findFrom? (s : Scopes) (start : ScopeId) (name : String) (offset : Nat) :
    Option (Symbol × ScopeId) :=
  (s.outwards s.scopes.size start).findSome? fun (id, scope) =>
    match scope.names.get? name with
    | some d => if d.offset ≤ offset then some (d.symbol, id) else none
    | none => none

def find? (s : Scopes) (name : String) (offset : Nat) : Option (Symbol × ScopeId) :=
  s.findFrom? s.current name offset

/-- Declare a name in the current scope. A name may not be declared twice there, nor hide one of an
enclosing scope. -/
def declare (s : Scopes) (name : String) (symbol : Symbol) (offset : Nat) :
    Except ScopeProblem Scopes :=
  match s.scopes[s.current]? with
  | none => .ok s
  | some scope =>
    if scope.names.contains name then .error (.duplicate name)
    else if (scope.parent.bind fun p => s.findFrom? p name offset).isSome then
      .error (.shadows name)
    else
      .ok <| s.modifyScope s.current fun c =>
        { c with names := c.names.insert name ⟨symbol, offset⟩ }

/-- Forget the names declared directly in a scope. -/
def clear (s : Scopes) (id : ScopeId) : Scopes :=
  s.modifyScope id fun c => { c with names := {} }

/-- Retire the pending scopes and all scopes inside them. Each scope has one parent, so a budget of
the number of scopes is enough. -/
def retire : Nat → List ScopeId → Scopes → Scopes
  | 0, _, s => s
  | _ + 1, [], s => s
  | budget + 1, id :: pending, s =>
    match s.scopes[id]? with
    | none => retire budget pending s
    | some scope =>
      retire budget (scope.children ++ pending)
        (s.modifyScope id fun c => { c with alive := false })

/-- Detach and retire the scopes inside a scope. -/
def dropChildren (s : Scopes) (id : ScopeId) : Scopes :=
  match s.scopes[id]? with
  | none => s
  | some scope =>
    retire s.scopes.size scope.children (s.modifyScope id fun c => { c with children := [] })

/-- Empty a scope for a new analysis and make it current. -/
def reopen (s : Scopes) (id : ScopeId) : Scopes :=
  { ((s.clear id).dropChildren id).modifyScope id (fun c => { c with alive := true }) with
    current := id }

end Scopes

end HostScript
