import HostScript.Script

/-!
# The nodes of a script

The numbers of all nodes of a tree, those of parameters included.
-/

namespace HostScript

mutual

def Expr.ids : Expr → List NodeId
  | .literal n _ => [n.id]
  | .ident n _ => [n.id]
  | .binary n _ left right => left.ids ++ right.ids ++ [n.id]
  | .logical n _ left right => left.ids ++ right.ids ++ [n.id]
  | .unary n _ operand => operand.ids ++ [n.id]
  | .grouping n inner => inner.ids ++ [n.id]
  | .member n object _ _ => object.ids ++ [n.id]
  | .index n object key => object.ids ++ key.ids ++ [n.id]
  | .call n callee args => callee.ids ++ Expr.idsOfAll args ++ [n.id]
  | .lambda n params body => params.map (·.node.id) ++ body.ids ++ [n.id]
  | .object n properties => Property.idsOfAll properties ++ [n.id]
  | .array n items => Expr.idsOfAll items ++ [n.id]
  | .interpolated n parts => Part.idsOfAll parts ++ [n.id]

def Expr.idsOfAll : List Expr → List NodeId
  | [] => []
  | e :: rest => e.ids ++ Expr.idsOfAll rest

def LambdaBody.ids : LambdaBody → List NodeId
  | .expr value => value.ids
  | .block body => Stmt.idsOfAll body

def Property.idsOfAll : List Property → List NodeId
  | [] => []
  | .mk _ _ value :: rest => value.ids ++ Property.idsOfAll rest

def Part.idsOfAll : List Part → List NodeId
  | [] => []
  | .text _ :: rest => Part.idsOfAll rest
  | .expr value :: rest => value.ids ++ Part.idsOfAll rest

def Stmt.ids : Stmt → List NodeId
  | .block n body => Stmt.idsOfAll body ++ [n.id]
  | .declare n _ _ init => Expr.idsOfOption init ++ [n.id]
  | .branch n condition t e => condition.ids ++ t.ids ++ Stmt.idsOfOption e ++ [n.id]
  | .while n condition body => condition.ids ++ body.ids ++ [n.id]
  | .for n init condition step body =>
    Stmt.idsOfOption init ++ Expr.idsOfOption condition ++ Stmt.idsOfOption step ++ body.ids ++ [n.id]
  | .return n value => Expr.idsOfOption value ++ [n.id]
  | .print n value => value.ids ++ [n.id]
  | .expr n value => value.ids ++ [n.id]
  | .assign n target value => target.ids ++ value.ids ++ [n.id]
  | .step n target _ => target.ids ++ [n.id]

def Stmt.idsOfAll : List Stmt → List NodeId
  | [] => []
  | s :: rest => s.ids ++ Stmt.idsOfAll rest

def Expr.idsOfOption : Option Expr → List NodeId
  | none => []
  | some e => e.ids

def Stmt.idsOfOption : Option Stmt → List NodeId
  | none => []
  | some s => s.ids

end

def Property.ids : Property → List NodeId
  | .mk _ _ value => value.ids

theorem Expr.idsOfAll_eq (es : List Expr) : Expr.idsOfAll es = es.flatMap Expr.ids := by
  induction es with
  | nil => rw [Expr.idsOfAll, List.flatMap_nil]
  | cons e rest ih => rw [Expr.idsOfAll, List.flatMap_cons, ih]

theorem Property.idsOfAll_eq (ps : List Property) :
    Property.idsOfAll ps = ps.flatMap Property.ids := by
  induction ps with
  | nil => rw [Property.idsOfAll, List.flatMap_nil]
  | cons p rest ih =>
    obtain ⟨_, _, value⟩ := p
    rw [Property.idsOfAll, List.flatMap_cons, ih, Property.ids]

theorem Stmt.ids_stretch (more : Span) (s : Stmt) : (s.stretch more).ids = s.ids := by
  cases s <;> rfl

def Script.ids (script : Script) : List NodeId :=
  Stmt.idsOfAll script.body

end HostScript
