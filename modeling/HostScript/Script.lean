import HostScript.Source

/-!
# Scripts

The tree of a script. Every statement, expression and parameter is a node with a number of its own.
Later stages keep what they learn in tables by node number and leave the tree as it is.
-/

namespace HostScript

/-- The number of a node and its place in the script. -/
structure Node where
  id : NodeId
  span : Span
deriving DecidableEq, Repr, Inhabited

inductive BinOp where
  | add
  | sub
  | mul
  | div
  | mod
  | lt
  | gt
  | le
  | ge
  | eq
  | ne
deriving DecidableEq, Repr

namespace BinOp

def symbol : BinOp → String
  | add => "+"
  | sub => "-"
  | mul => "*"
  | div => "/"
  | mod => "%"
  | lt => "<"
  | gt => ">"
  | le => "<="
  | ge => ">="
  | eq => "=="
  | ne => "!="

def isOrdering : BinOp → Bool
  | lt | gt | le | ge => true
  | _ => false

end BinOp

inductive LogicOp where
  | and
  | or
deriving DecidableEq, Repr

def LogicOp.symbol : LogicOp → String
  | and => "&&"
  | or => "||"

inductive UnaryOp where
  | neg
  | not
deriving DecidableEq, Repr

def UnaryOp.symbol : UnaryOp → String
  | neg => "-"
  | not => "!"

inductive StepOp where
  | increment
  | decrement
deriving DecidableEq, Repr

def StepOp.symbol : StepOp → String
  | increment => "++"
  | decrement => "--"

inductive Literal where
  | number (value : Float)
  | str (value : String)
  | bool (value : Bool)
  | null
deriving DecidableEq, Repr

/-- A parameter of a lambda. -/
structure Param where
  node : Node
  name : String
deriving DecidableEq, Repr

mutual

inductive Expr where
  | literal (node : Node) (value : Literal)
  | binary (node : Node) (op : BinOp) (left right : Expr)
  | logical (node : Node) (op : LogicOp) (left right : Expr)
  | unary (node : Node) (op : UnaryOp) (operand : Expr)
  | grouping (node : Node) (inner : Expr)
  /-- A variable, a parameter or a member of the input object. -/
  | ident (node : Node) (name : String)
  | member (node : Node) (object : Expr) (name : String) (nameSpan : Span)
  | index (node : Node) (object key : Expr)
  | call (node : Node) (callee : Expr) (args : List Expr)
  | lambda (node : Node) (params : List Param) (body : LambdaBody)
  | object (node : Node) (properties : List Property)
  | array (node : Node) (items : List Expr)
  | interpolated (node : Node) (parts : List Part)

inductive LambdaBody where
  | expr (value : Expr)
  | block (body : List Stmt)

inductive Property where
  | mk (name : String) (span : Span) (value : Expr)

/-- A part of an interpolated string. -/
inductive Part where
  | text (value : String)
  | expr (value : Expr)

inductive Stmt where
  | block (node : Node) (body : List Stmt)
  | declare (node : Node) (name : String) (nameSpan : Span) (init : Option Expr)
  | branch (node : Node) (condition : Expr) (thenBranch : Stmt) (elseBranch : Option Stmt)
  | while (node : Node) (condition : Expr) (body : Stmt)
  | for (node : Node) (init : Option Stmt) (condition : Option Expr) (step : Option Stmt)
      (body : Stmt)
  | return (node : Node) (value : Option Expr)
  | print (node : Node) (value : Expr)
  | expr (node : Node) (value : Expr)
  | assign (node : Node) (target value : Expr)
  | step (node : Node) (target : Expr) (op : StepOp)

end

structure Script where
  body : List Stmt
  nodeCount : Nat

namespace Expr

def node : Expr → Node
  | literal n _ | binary n .. | logical n .. | unary n .. | grouping n _ | ident n _ | member n ..
  | index n .. | call n .. | lambda n .. | object n _ | array n _ | interpolated n _ => n

def id (e : Expr) : NodeId :=
  e.node.id

def span (e : Expr) : Span :=
  e.node.span

/-- Whether a value can be stored there: a name, a member or an index. -/
def isTarget : Expr → Bool
  | ident .. | member .. | index .. => true
  | _ => false

end Expr

namespace Stmt

def node : Stmt → Node
  | block n _ | declare n .. | branch n .. | .while n .. | .for n .. | .return n _ | print n _
  | expr n _ | assign n .. | step n .. => n

def id (s : Stmt) : NodeId :=
  s.node.id

def span (s : Stmt) : Span :=
  s.node.span

/-- The statement with its span stretched over `more`. -/
def stretch (more : Span) : Stmt → Stmt
  | block n body => block { n with span := n.span.merge more } body
  | declare n name nameSpan init => declare { n with span := n.span.merge more } name nameSpan init
  | branch n c t e => branch { n with span := n.span.merge more } c t e
  | .while n c body => .while { n with span := n.span.merge more } c body
  | .for n init c next body => .for { n with span := n.span.merge more } init c next body
  | .return n value => .return { n with span := n.span.merge more } value
  | print n value => print { n with span := n.span.merge more } value
  | expr n value => expr { n with span := n.span.merge more } value
  | assign n target value => assign { n with span := n.span.merge more } target value
  | step n target op => step { n with span := n.span.merge more } target op

mutual

/-- Whether running the statement always reaches a `return`. -/
def alwaysReturns : Stmt → Bool
  | .return .. => true
  | block _ body => anyReturns body
  | branch _ _ t (some e) => alwaysReturns t && alwaysReturns e
  | _ => false

/-- Whether running the statements in order always reaches a `return`. -/
def anyReturns : List Stmt → Bool
  | [] => false
  | s :: rest => alwaysReturns s || anyReturns rest

end

end Stmt

/-- A lambda literal of a script. -/
structure Lambda where
  node : Node
  params : List Param
  body : LambdaBody

mutual

def Expr.lambdas : Expr → List Lambda
  | .literal .. | .ident .. => []
  | .binary _ _ left right => left.lambdas ++ right.lambdas
  | .logical _ _ left right => left.lambdas ++ right.lambdas
  | .unary _ _ operand => operand.lambdas
  | .grouping _ inner => inner.lambdas
  | .member _ object _ _ => object.lambdas
  | .index _ object key => object.lambdas ++ key.lambdas
  | .call _ callee args => callee.lambdas ++ Expr.lambdasOfAll args
  | .lambda node params body => ⟨node, params, body⟩ :: body.lambdas
  | .object _ properties => Property.lambdasOfAll properties
  | .array _ items => Expr.lambdasOfAll items
  | .interpolated _ parts => Part.lambdasOfAll parts

def Expr.lambdasOfAll : List Expr → List Lambda
  | [] => []
  | e :: rest => e.lambdas ++ Expr.lambdasOfAll rest

def LambdaBody.lambdas : LambdaBody → List Lambda
  | .expr value => value.lambdas
  | .block body => Stmt.lambdasOfAll body

def Property.lambdasOfAll : List Property → List Lambda
  | [] => []
  | .mk _ _ value :: rest => value.lambdas ++ Property.lambdasOfAll rest

def Part.lambdasOfAll : List Part → List Lambda
  | [] => []
  | .text _ :: rest => Part.lambdasOfAll rest
  | .expr value :: rest => value.lambdas ++ Part.lambdasOfAll rest

def Stmt.lambdas : Stmt → List Lambda
  | .block _ body => Stmt.lambdasOfAll body
  | .declare _ _ _ init => Expr.lambdasOfOption init
  | .branch _ condition t e => condition.lambdas ++ t.lambdas ++ Stmt.lambdasOfOption e
  | .while _ condition body => condition.lambdas ++ body.lambdas
  | .for _ init condition step body =>
    Stmt.lambdasOfOption init ++ Expr.lambdasOfOption condition ++ Stmt.lambdasOfOption step ++
      body.lambdas
  | .return _ value => Expr.lambdasOfOption value
  | .print _ value => value.lambdas
  | .expr _ value => value.lambdas
  | .assign _ target value => target.lambdas ++ value.lambdas
  | .step _ target _ => target.lambdas

def Stmt.lambdasOfAll : List Stmt → List Lambda
  | [] => []
  | s :: rest => s.lambdas ++ Stmt.lambdasOfAll rest

def Expr.lambdasOfOption : Option Expr → List Lambda
  | none => []
  | some e => e.lambdas

def Stmt.lambdasOfOption : Option Stmt → List Lambda
  | none => []
  | some s => s.lambdas

end

/-- The lambda literals of a script, in the order in which they start. -/
def Script.lambdas (script : Script) : List Lambda :=
  Stmt.lambdasOfAll script.body

/-- The lambda literal with the given node. -/
def Script.lambda? (script : Script) (id : NodeId) : Option Lambda :=
  script.lambdas.find? (·.node.id == id)

end HostScript
