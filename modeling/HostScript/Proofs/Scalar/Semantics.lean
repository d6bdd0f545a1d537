import HostScript.Operator

/-!
# Scalar scripts

A scalar script has variables, operators and control flow, but no members, calls, lambdas, records
or arrays. Its meaning is given here by evaluation of the tree: every variable is a value of any
kind, and operators decide on kinds when they are applied. Fuel bounds the rounds of every loop.
-/

namespace HostScript

/-! ### The fragment -/

mutual

def Expr.isScalar : Expr → Bool
  | .literal .. | .ident .. => true
  | .binary _ _ left right => left.isScalar && right.isScalar
  | .logical _ _ left right => left.isScalar && right.isScalar
  | .unary _ _ operand => operand.isScalar
  | .grouping _ inner => inner.isScalar
  | .interpolated _ parts => Part.areScalar parts
  | _ => false

def Part.areScalar : List Part → Bool
  | [] => true
  | .text _ :: rest => Part.areScalar rest
  | .expr value :: rest => value.isScalar && Part.areScalar rest

end

def Expr.isName : Expr → Bool
  | .ident .. => true
  | _ => false

mutual

/-- Whether a statement is scalar. A declaration has a value and stands where declarations may
stand, which is not alone as a branch or as the body or step of a loop. -/
def Stmt.isScalar (declares : Bool) : Stmt → Bool
  | .block _ body => Stmt.areScalar body
  | .declare _ _ _ init => declares && init.any Expr.isScalar
  | .branch _ condition t e =>
    condition.isScalar && t.isScalar false && Stmt.isScalarOption false e
  | .while _ condition body => condition.isScalar && body.isScalar false
  | .for _ init condition advance body =>
    Stmt.isScalarOption true init && condition.all Expr.isScalar &&
      Stmt.isScalarOption false advance && body.isScalar false
  | .return _ value => value.all Expr.isScalar
  | .print _ value | .expr _ value => value.isScalar
  | .assign _ target value => target.isName && value.isScalar
  | .step _ target _ => target.isName

def Stmt.areScalar : List Stmt → Bool
  | [] => true
  | s :: rest => s.isScalar true && Stmt.areScalar rest

def Stmt.isScalarOption (declares : Bool) : Option Stmt → Bool
  | none => true
  | some s => s.isScalar declares

end

def Script.isScalar (script : Script) : Bool :=
  Stmt.areScalar script.body

/-! ### Expressions -/

/-- Variables and their values, the innermost first. -/
abbrev Variables := List (String × Value)

namespace Variables

def get (vars : Variables) (name : String) : Value :=
  (OrderedMap.lookup name vars).getD .null

/-- Change the innermost variable of a name. -/
def set (name : String) (value : Value) : Variables → Variables
  | [] => []
  | (other, old) :: rest =>
    if other = name then (other, value) :: rest else (other, old) :: set name value rest

end Variables

def Literal.value : Literal → Value
  | .number x => .number x
  | .str s => .str s
  | .bool b => .bool b
  | .null => .null

def StepOp.binOp : StepOp → BinOp
  | increment => .add
  | decrement => .sub

def Value.asCondition : Value → Except RuntimeError Bool
  | .bool b => .ok b
  | v => .error (.typeMismatch "condition" "Bool" v.typeName)

def BinOp.eval (h : Heap) (op : BinOp) (l r : Value) : Except RuntimeError Value :=
  match op with
  | .eq => .ok (.bool (l.same r))
  | .ne => .ok (.bool !(l.same r))
  | .lt => (Operator.compare .lt l r).map .bool
  | .gt => (Operator.compare .gt l r).map .bool
  | .le => (Operator.compare .le l r).map .bool
  | .ge => (Operator.compare .ge l r).map .bool
  | .add | .sub | .mul | .div | .mod => Operator.arith h op l r

mutual

/-- The value of a scalar expression. -/
def Expr.eval (h : Heap) (vars : Variables) : Expr → Except RuntimeError Value
  | .literal _ value => .ok value.value
  | .binary _ op left right => do
    let l ← left.eval h vars
    let r ← right.eval h vars
    op.eval h l r
  | .logical _ op left right => do
    let l ← (← left.eval h vars).asCondition
    if l = decide (op = .or) then
      return .bool l
    return .bool (← (← right.eval h vars).asCondition)
  | .unary _ .not operand => do
    return .bool !(← (← operand.eval h vars).asCondition)
  | .unary _ .neg operand => do
    Operator.negate (← operand.eval h vars)
  | .grouping _ inner => inner.eval h vars
  | .ident _ name => .ok (vars.get name)
  | .interpolated _ parts => do
    return .str (← Part.evalAll h vars parts)
  | _ => .ok .null

/-- The text of the parts of an interpolated string. -/
def Part.evalAll (h : Heap) (vars : Variables) : List Part → Except RuntimeError String
  | [] => .ok ""
  | .text s :: rest => do
    return s ++ (← Part.evalAll h vars rest)
  | .expr value :: rest => do
    let v ← value.eval h vars
    return v.display h ++ (← Part.evalAll h vars rest)

end

/-! ### Statements -/

/-- What the statements of a script work on. -/
structure Memory where
  vars : Variables := []
  printed : Array String := #[]

namespace Memory

def declare (m : Memory) (name : String) (value : Value) : Memory :=
  { m with vars := (name, value) :: m.vars }

def assign (m : Memory) (name : String) (value : Value) : Memory :=
  { m with vars := m.vars.set name value }

def print (m : Memory) (line : String) : Memory :=
  { m with printed := m.printed.push line }

/-- Forget the variables that were declared since `outer`. -/
def leave (outer m : Memory) : Memory :=
  { m with vars := m.vars.drop (m.vars.length - outer.vars.length) }

end Memory

/-- How statements end. -/
inductive Outcome where
  /-- The next statement follows. -/
  | next (m : Memory)
  | returned (value : Value) (printed : Array String)
  | failed (e : RuntimeError) (printed : Array String)

namespace Outcome

/-- Go on with the result of an evaluation. -/
def ofEval {α : Type} (m : Memory) (result : Except RuntimeError α) (f : α → Option Outcome) :
    Option Outcome :=
  match result with
  | .ok a => f a
  | .error e => some (.failed e m.printed)

/-- Go on where the statements before ended. -/
def andThen (first : Option Outcome) (f : Memory → Option Outcome) : Option Outcome :=
  match first with
  | some (.next m) => f m
  | other => other

/-- Repeat a body while the test holds, for fewer than `fuel` rounds. -/
def loop (test : Memory → Except RuntimeError Bool) (body : Memory → Option Outcome) :
    Nat → Memory → Option Outcome
  | 0, _ => none
  | fuel + 1, m =>
    ofEval m (test m) fun
      | true => andThen (body m) (loop test body fuel)
      | false => some (.next m)

end Outcome

namespace Memory

def eval (h : Heap) (m : Memory) (e : Expr) : Except RuntimeError Value :=
  e.eval h m.vars

def test (h : Heap) (m : Memory) (e : Expr) : Except RuntimeError Bool := do
  (← m.eval h e).asCondition

/-- A loop without a condition goes on. -/
def testOption (h : Heap) (m : Memory) : Option Expr → Except RuntimeError Bool
  | none => .ok true
  | some e => m.test h e

end Memory

open Outcome in
mutual

/-- Run a scalar statement. `none` if some loop runs out of fuel. -/
def Stmt.exec (h : Heap) (fuel : Nat) : Stmt → Memory → Option Outcome
  | .block _ body, m => andThen (Stmt.execAll h fuel body m) fun m' => some (.next (m.leave m'))
  | .declare _ name _ init, m =>
    match init with
    | some e => ofEval m (m.eval h e) fun v => some (.next (m.declare name v))
    | none => some (.next (m.declare name .null))
  | .branch _ condition t e, m =>
    ofEval m (m.test h condition) fun
      | true => t.exec h fuel m
      | false => Stmt.execOption h fuel e m
  | .while _ condition body, m => loop (·.test h condition) (body.exec h fuel) fuel m
  | .for _ init condition advance body, m =>
    andThen
      (andThen (Stmt.execOption h fuel init m)
        (loop (·.testOption h condition)
          (fun m => andThen (body.exec h fuel m) (Stmt.execOption h fuel advance)) fuel))
      fun m' => some (.next (m.leave m'))
  | .return _ value, m =>
    match value with
    | some e => ofEval m (m.eval h e) fun v => some (.returned v m.printed)
    | none => some (.returned .null m.printed)
  | .print _ value, m => ofEval m (m.eval h value) fun v => some (.next (m.print (v.display h)))
  | .expr _ value, m => ofEval m (m.eval h value) fun _ => some (.next m)
  | .assign _ (.ident _ name) value, m =>
    ofEval m (m.eval h value) fun v => some (.next (m.assign name v))
  | .step _ (.ident _ name) op, m =>
    ofEval m (Operator.arith h op.binOp (m.vars.get name) (.number 1.0)) fun v =>
      some (.next (m.assign name v))
  | .assign .., m | .step .., m => some (.next m)

def Stmt.execAll (h : Heap) (fuel : Nat) : List Stmt → Memory → Option Outcome
  | [], m => some (.next m)
  | s :: rest, m => andThen (s.exec h fuel m) (Stmt.execAll h fuel rest)

def Stmt.execOption (h : Heap) (fuel : Nat) : Option Stmt → Memory → Option Outcome
  | none, m => some (.next m)
  | some s, m => s.exec h fuel m

end

/-- Run a scalar script from its start. -/
def Script.exec (script : Script) (h : Heap) (fuel : Nat) : Option Outcome :=
  Stmt.execAll h fuel script.body {}

end HostScript
