import HostScript.Code.Entry
import HostScript.Proofs.Scalar.Semantics

/-!
# Settled scalar scripts

What code generation relies on in a scalar script: every name means the nearest variable of that
name, and what is stored in a variable has the representation of the variable, unless that one takes
any value. Both are stated for the results of an analysis, whichever way they were found.
-/

namespace HostScript

/-! ### Representations of scalars -/

namespace Rep

def isScalar : Rep → Bool
  | num | bool | str | any => true
  | _ => false

/-- Whether code keeps a value in a representation. -/
def Fits : Rep → Value → Prop
  | num, v => ∃ x, v = .number x
  | bool, v => ∃ b, v = .bool b
  | str, v => ∃ s, v = .str s
  | any, _ => True
  | _, _ => False

/-- A value of the first representation is stored in the second one without a check. -/
def Enters (given wanted : Rep) : Prop :=
  given = wanted ∨ wanted = any

end Rep

/-! ### Names -/

/-- The variables in scope, the innermost first. -/
abbrev Visible := List (String × Symbol)

mutual

/-- Every name in the expression means the nearest variable of that name. -/
def Expr.Resolved (a : Analysis) (vs : Visible) : Expr → Prop
  | .ident n name =>
    ∃ s, OrderedMap.lookup name vs = some s ∧ a.resolutions.get? n.id = some (.local s)
  | .binary _ _ left right => left.Resolved a vs ∧ right.Resolved a vs
  | .logical _ _ left right => left.Resolved a vs ∧ right.Resolved a vs
  | .unary _ _ operand => operand.Resolved a vs
  | .grouping _ inner => inner.Resolved a vs
  | .interpolated _ parts => Part.AllResolved a vs parts
  | _ => True

def Part.AllResolved (a : Analysis) (vs : Visible) : List Part → Prop
  | [] => True
  | .text _ :: rest => Part.AllResolved a vs rest
  | .expr value :: rest => value.Resolved a vs ∧ Part.AllResolved a vs rest

end

/-! ### Expressions -/

namespace Body

/-- The representation in which code leaves the value of a scalar expression. -/
def scalarRep (b : Body) : Expr → Rep
  | .literal _ (.number _) => .num
  | .literal _ (.str _) => .str
  | .literal _ (.bool _) => .bool
  | .binary _ op left right => (Generate.binaryOp op (b.scalarRep left) (b.scalarRep right)).2
  | .logical .. | .unary _ .not _ => .bool
  | .unary _ .neg operand => if b.scalarRep operand = .num then .num else .any
  | .grouping _ inner => b.scalarRep inner
  | .ident n _ =>
    match b.analysis.resolutions.get? n.id with
    | some (.local s) => b.rep s.node
    | _ => .any
  | .interpolated .. => .str
  | _ => .any

/-- The representation that a step leaves in a variable. -/
def stepRep (rep : Rep) : Rep :=
  if rep = .num then .num else .any

end Body

/-- Every variable that a name refers to has a known representation. -/
def Body.Typed (b : Body) : Prop :=
  ∀ id s, b.analysis.resolutions.get? id = some (.local s) → b.rep s.node ≠ .any

mutual

/-- Whether null is among the literals of a scalar expression. -/
def Expr.hasNull : Expr → Bool
  | .literal _ .null => true
  | .binary _ _ left right => left.hasNull || right.hasNull
  | .logical _ _ left right => left.hasNull || right.hasNull
  | .unary _ _ operand => operand.hasNull
  | .grouping _ inner => inner.hasNull
  | .interpolated _ parts => Part.haveNull parts
  | _ => false

def Part.haveNull : List Part → Bool
  | [] => false
  | .text _ :: rest => Part.haveNull rest
  | .expr value :: rest => value.hasNull || Part.haveNull rest

end

mutual

/-- No operation that is selected for the expression decides at run time. -/
def Expr.Direct (b : Body) : Expr → Prop
  | .binary _ op left right => left.Direct b ∧ right.Direct b ∧
    (Generate.binaryOp op (b.scalarRep left) (b.scalarRep right)).1.isDynamic = false
  | .logical _ _ left right =>
    (left.Direct b ∧ b.scalarRep left = .bool) ∧ right.Direct b ∧ b.scalarRep right = .bool
  | .unary _ .not operand => operand.Direct b ∧ b.scalarRep operand = .bool
  | .unary _ .neg operand => operand.Direct b ∧ b.scalarRep operand = .num
  | .grouping _ inner => inner.Direct b
  | .interpolated _ parts => Part.AllDirect b parts
  | _ => True

def Part.AllDirect (b : Body) : List Part → Prop
  | [] => True
  | .text _ :: rest => Part.AllDirect b rest
  | .expr value :: rest => value.Direct b ∧ Part.AllDirect b rest

end

/-- Names fit in the expression. If all variables have known representations and there is no null,
then the operations are known too. -/
def Expr.Ready (b : Body) (vs : Visible) (e : Expr) : Prop :=
  e.Resolved b.analysis vs ∧ (b.Typed → e.hasNull = false → e.Direct b)

def Expr.ReadyCondition (b : Body) (vs : Visible) (e : Expr) : Prop :=
  e.Ready b vs ∧ (b.Typed → e.hasNull = false → b.scalarRep e = .bool)

/-! ### Statements -/

/-- Only scalar expressions are as `ok` says. -/
def OnlyScalar (ok : Expr → Bool) : Prop :=
  ∀ e, ok e = true → e.isScalar = true

mutual

/-- Whether a statement is a declaration with a value, a store to a name or made of such statements,
and its expressions are as `ok` says. -/
def Stmt.isPlain (ok : Expr → Bool) : Stmt → Bool
  | .block _ body => Stmt.arePlain ok body
  | .declare _ _ _ init => init.any ok
  | .branch _ condition t e => ok condition && t.isPlain ok && Stmt.isPlainOption ok e
  | .while _ condition body => ok condition && body.isPlain ok
  | .for _ init condition advance body =>
    Stmt.isPlainOption ok init && condition.all ok && Stmt.isPlainOption ok advance && body.isPlain ok
  | .return _ value => value.all ok
  | .print _ value | .expr _ value => ok value
  | .assign _ target value => target.isName && ok value
  | .step _ target _ => target.isName

def Stmt.arePlain (ok : Expr → Bool) : List Stmt → Bool
  | [] => true
  | s :: rest => s.isPlain ok && Stmt.arePlain ok rest

def Stmt.isPlainOption (ok : Expr → Bool) : Option Stmt → Bool
  | none => true
  | some s => s.isPlain ok

end

mutual

/-- The variables in scope after a statement. -/
def Stmt.visible (vs : Visible) : Stmt → Visible
  | .declare n name _ _ => (name, .var n.id) :: vs
  | .branch _ _ t e => Stmt.visibleOption (t.visible vs) e
  | .while _ _ body => body.visible vs
  | _ => vs

def Stmt.visibleOption (vs : Visible) : Option Stmt → Visible
  | none => vs
  | some s => s.visible vs

end

def Stmt.visibleAll (vs : Visible) (body : List Stmt) : Visible :=
  body.foldl Stmt.visible vs

/-- The variable that a target names takes values of a representation. -/
def Expr.Takes (b : Body) (vs : Visible) (given : Rep → Rep) : Expr → Prop
  | .ident n name =>
    ∃ s, OrderedMap.lookup name vs = some s ∧
      b.analysis.resolutions.get? n.id = some (.local s) ∧
      (given (b.rep s.node)).Enters (b.rep s.node)
  | _ => False

mutual

/-- Names and representations fit in the statement, where the variables `vs` are in scope. -/
def Stmt.Settled (b : Body) (vs : Visible) : Stmt → Prop
  | .block _ body => Stmt.AllSettled b vs body
  | .declare n _ _ init =>
    (∀ v ∈ vs, v.2 ≠ .var n.id) ∧ (b.rep n.id).isScalar ∧
      ∃ e, init = some e ∧ e.Ready b vs ∧ (b.scalarRep e).Enters (b.rep n.id)
  | .branch _ condition t e =>
    condition.ReadyCondition b vs ∧ t.Settled b vs ∧ Stmt.SettledOption b (t.visible vs) e
  | .while _ condition body => condition.ReadyCondition b vs ∧ body.Settled b vs
  | .for _ init condition advance body =>
    Stmt.SettledOption b vs init ∧
      (∀ e ∈ condition, e.ReadyCondition b (Stmt.visibleOption vs init)) ∧
      body.Settled b (Stmt.visibleOption vs init) ∧
      Stmt.SettledOption b (body.visible (Stmt.visibleOption vs init)) advance
  | .return _ value => ∀ e ∈ value, e.Ready b vs
  | .print _ value | .expr _ value => value.Ready b vs
  | .assign _ target value => value.Ready b vs ∧ target.Takes b vs fun _ => b.scalarRep value
  | .step _ target _ => target.Takes b vs Body.stepRep

def Stmt.AllSettled (b : Body) (vs : Visible) : List Stmt → Prop
  | [] => True
  | s :: rest => s.Settled b vs ∧ Stmt.AllSettled b (s.visible vs) rest

def Stmt.SettledOption (b : Body) (vs : Visible) : Option Stmt → Prop
  | none => True
  | some s => s.Settled b vs

end

mutual

/-- Only declarations change what is in scope. -/
theorem Stmt.visible_of_isScalar (vs : Visible) :
    (s : Stmt) → s.isScalar false = true → s.visible vs = vs
  | .declare .., h => by simp [Stmt.isScalar] at h
  | .branch _ _ t e, h => by
    simp only [Stmt.isScalar, Bool.and_eq_true] at h
    rw [Stmt.visible, Stmt.visible_of_isScalar vs t h.1.2, Stmt.visibleOption_of_isScalar vs e h.2]
  | .while _ _ body, h => by
    simp only [Stmt.isScalar, Bool.and_eq_true] at h
    rw [Stmt.visible, Stmt.visible_of_isScalar vs body h.2]
  | .block .., _ | .for .., _ | .return .., _ | .print .., _ | .expr .., _ | .assign .., _
  | .step .., _ => rfl

theorem Stmt.visibleOption_of_isScalar (vs : Visible) :
    (o : Option Stmt) → Stmt.isScalarOption false o = true → Stmt.visibleOption vs o = vs
  | none, _ => rfl
  | some s, h => Stmt.visible_of_isScalar vs s h

end

mutual

theorem Stmt.isPlain_of_isScalar :
    (s : Stmt) → {declares : Bool} → s.isScalar declares = true → s.isPlain Expr.isScalar = true
  | .block _ body, _, h => Stmt.arePlain_of_areScalar body h
  | .declare .., _, h => (Bool.and_eq_true _ _ ▸ h).2
  | .branch _ _ t e, _, h => by
    simp only [Stmt.isScalar, Bool.and_eq_true] at h
    simp [Stmt.isPlain, h.1.1, Stmt.isPlain_of_isScalar t h.1.2, Stmt.isPlainOption_of_isScalar e h.2]
  | .while _ _ body, _, h => by
    simp only [Stmt.isScalar, Bool.and_eq_true] at h
    simp [Stmt.isPlain, h.1, Stmt.isPlain_of_isScalar body h.2]
  | .for _ init _ advance body, _, h => by
    simp only [Stmt.isScalar, Bool.and_eq_true] at h
    simp [Stmt.isPlain, h.1.1.2, Stmt.isPlainOption_of_isScalar init h.1.1.1,
      Stmt.isPlainOption_of_isScalar advance h.1.2, Stmt.isPlain_of_isScalar body h.2]
  | .return .., _, h | .print .., _, h | .expr .., _, h | .assign .., _, h | .step .., _, h => h

theorem Stmt.arePlain_of_areScalar :
    (body : List Stmt) → Stmt.areScalar body = true → Stmt.arePlain Expr.isScalar body = true
  | [], _ => rfl
  | s :: rest, h => by
    simp only [Stmt.areScalar, Bool.and_eq_true] at h
    simp [Stmt.arePlain, Stmt.isPlain_of_isScalar s h.1, Stmt.arePlain_of_areScalar rest h.2]

theorem Stmt.isPlainOption_of_isScalar :
    (o : Option Stmt) → {declares : Bool} → Stmt.isScalarOption declares o = true →
      Stmt.isPlainOption Expr.isScalar o = true
  | none, _, _ => rfl
  | some s, _, h => Stmt.isPlain_of_isScalar s h

end

end HostScript
