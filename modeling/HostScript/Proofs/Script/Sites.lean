import HostScript.Script

/-!
# The sites of a body

What the analysis of a body meets in the body itself: declarations, lambda literals and calls.
The sites inside a lambda literal belong to the literal, not to the body in which it stands.
-/

namespace HostScript

/-- A place in a body at which its analysis does more than record a shape. -/
inductive Site where
  | name (node : Node)
  /-- A declared variable and where its name stands. -/
  | declaration (id : NodeId) (offset : Nat)
  | literal (lambda : Lambda)
  | call (args : Nat)

mutual

def Expr.sites : Expr → List Site
  | .literal .. => []
  | .binary _ _ left right => left.sites ++ right.sites
  | .logical _ _ left right => left.sites ++ right.sites
  | .unary _ _ operand => operand.sites
  | .grouping _ inner => inner.sites
  | .ident n _ => [.name n]
  | .member _ object _ _ => object.sites
  | .index _ object key => object.sites ++ key.sites
  | .call _ callee args => callee.sites ++ Expr.sitesOfAll args ++ [.call args.length]
  | .lambda n params body => [.literal ⟨n, params, body⟩]
  | .object _ properties => Property.sitesOfAll properties
  | .array _ items => Expr.sitesOfAll items
  | .interpolated _ parts => Part.sitesOfAll parts

def Expr.sitesOfAll : List Expr → List Site
  | [] => []
  | e :: rest => e.sites ++ Expr.sitesOfAll rest

def Property.sitesOfAll : List Property → List Site
  | [] => []
  | .mk _ _ value :: rest => value.sites ++ Property.sitesOfAll rest

def Part.sitesOfAll : List Part → List Site
  | [] => []
  | .text _ :: rest => Part.sitesOfAll rest
  | .expr value :: rest => value.sites ++ Part.sitesOfAll rest

end

def Expr.sitesOfOption (e : Option Expr) : List Site :=
  (e.map Expr.sites).getD []

mutual

def Stmt.sites : Stmt → List Site
  | .block _ body => Stmt.sitesOfAll body
  | .declare n _ nameSpan init => Expr.sitesOfOption init ++ [.declaration n.id nameSpan.start]
  | .branch _ condition t e => condition.sites ++ t.sites ++ Stmt.sitesOfOption e
  | .while _ condition body => condition.sites ++ body.sites
  | .for _ init condition update body =>
    Stmt.sitesOfOption init ++ Expr.sitesOfOption condition ++ body.sites ++
      Stmt.sitesOfOption update
  | .return _ value => Expr.sitesOfOption value
  | .print _ value => value.sites
  | .expr _ value => value.sites
  | .assign _ target value => target.sites ++ value.sites
  | .step _ target _ => target.sites

def Stmt.sitesOfAll : List Stmt → List Site
  | [] => []
  | s :: rest => s.sites ++ Stmt.sitesOfAll rest

def Stmt.sitesOfOption : Option Stmt → List Site
  | none => []
  | some s => s.sites

end

def LambdaBody.sites : LambdaBody → List Site
  | .expr value => value.sites
  | .block body => Stmt.sitesOfAll body

def Script.sites (script : Script) : List Site :=
  Stmt.sitesOfAll script.body

/-- The variable that is declared at a site. -/
def Site.variable? : Site → Option NodeId
  | .declaration id _ => some id
  | _ => none

/-- How many variables a body has, its parameters among them. -/
def slotsOf (params : List Param) (sites : List Site) : Nat :=
  params.length + (sites.filterMap Site.variable?).length

/-- No body has more variables than there are numbers for slots. -/
def Script.FewSlots (script : Script) : Prop :=
  slotsOf [] script.sites < 65536 ∧ ∀ l ∈ script.lambdas, slotsOf l.params l.body.sites < 65536

instance (script : Script) : Decidable script.FewSlots :=
  inferInstanceAs (Decidable (_ ∧ _))

theorem Script.mem_of_lambda? {script : Script} {id : NodeId} {l : Lambda}
    (h : script.lambda? id = some l) : l ∈ script.lambdas ∧ l.node.id = id :=
  ⟨List.mem_of_find?_eq_some h, by simpa using List.find?_some h⟩

end HostScript
