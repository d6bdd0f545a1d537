import HostScript.Script

/-!
# Nodes that keep variables

The shape of a variable is kept at the node of its declaration, that of a parameter at the node of
the parameter.
-/

namespace HostScript

mutual

/-- The nodes of the variables and parameters that are declared in a tree. -/
def Expr.stored : Expr → List NodeId
  | .literal .. | .ident .. => []
  | .binary _ _ left right => left.stored ++ right.stored
  | .logical _ _ left right => left.stored ++ right.stored
  | .unary _ _ operand => operand.stored
  | .grouping _ inner => inner.stored
  | .member _ object _ _ => object.stored
  | .index _ object key => object.stored ++ key.stored
  | .call _ callee args => callee.stored ++ Expr.storedOfAll args
  | .lambda _ params body => params.map (·.node.id) ++ body.stored
  | .object _ properties => Property.storedOfAll properties
  | .array _ items => Expr.storedOfAll items
  | .interpolated _ parts => Part.storedOfAll parts

def Expr.storedOfAll : List Expr → List NodeId
  | [] => []
  | e :: rest => e.stored ++ Expr.storedOfAll rest

def LambdaBody.stored : LambdaBody → List NodeId
  | .expr value => value.stored
  | .block body => Stmt.storedOfAll body

def Property.storedOfAll : List Property → List NodeId
  | [] => []
  | .mk _ _ value :: rest => value.stored ++ Property.storedOfAll rest

def Part.storedOfAll : List Part → List NodeId
  | [] => []
  | .text _ :: rest => Part.storedOfAll rest
  | .expr value :: rest => value.stored ++ Part.storedOfAll rest

def Stmt.stored : Stmt → List NodeId
  | .block _ body => Stmt.storedOfAll body
  | .declare n _ _ init => Expr.storedOfOption init ++ [n.id]
  | .branch _ condition t e => condition.stored ++ t.stored ++ Stmt.storedOfOption e
  | .while _ condition body => condition.stored ++ body.stored
  | .for _ init condition step body =>
    Stmt.storedOfOption init ++ Expr.storedOfOption condition ++ Stmt.storedOfOption step ++ body.stored
  | .return _ value => Expr.storedOfOption value
  | .print _ value => value.stored
  | .expr _ value => value.stored
  | .assign _ target value => target.stored ++ value.stored
  | .step _ target _ => target.stored

def Stmt.storedOfAll : List Stmt → List NodeId
  | [] => []
  | s :: rest => s.stored ++ Stmt.storedOfAll rest

def Expr.storedOfOption : Option Expr → List NodeId
  | none => []
  | some e => e.stored

def Stmt.storedOfOption : Option Stmt → List NodeId
  | none => []
  | some s => s.stored

end

def Script.stored (script : Script) : List NodeId :=
  Stmt.storedOfAll script.body

end HostScript
