import HostScript.Script
import HostScript.Token.Lexer

/-!
# Parsing

`Script.parse` reads lexemes into a script. Expressions climb six levels of operators down to
unary ones, suffixes and primaries. Nodes are numbered when they are complete, so children come
before parents. After a problem in a statement, reading goes on behind the next semicolon, and the
problems are the answer.

Nesting is an explicit recursion on levels: the rules of one level refer to the level below
through a `Grammar`, and only after a token was taken.
-/

namespace HostScript.Parser

structure State where
  lexemes : List Lexeme
  nextId : NodeId
  /-- Problems that did not end a statement. -/
  problems : List Problem

/-- Readers keep the state they reached when they fail. -/
abbrev Parse := EStateM Problem State

def current : Parse Token := do
  return ((← get).lexemes.head?.map Lexeme.token).getD .eof

def currentSpan : Parse Span := do
  return ((← get).lexemes.head?.map Lexeme.span).getD ⟨0, 0⟩

def advance : Parse Unit :=
  modify fun s => { s with lexemes := s.lexemes.tail }

/-- The lexemes that are left. They are the budget of a loop, which takes one of them each time. -/
def remaining : Parse (List Lexeme) := do
  return (← get).lexemes

def fail {α : Type} (problem : ParseProblem) : Parse α := do
  throw ⟨.parse problem, ← currentSpan⟩

/-- Take the given token. -/
def expect (token : Token) : Parse Span := do
  let span ← currentSpan
  let found ← current
  if found = token then
    advance
    return span
  fail (.expected token found)

def expectName : Parse (String × Span) := do
  let span ← currentSpan
  match ← current with
  | .ident name =>
    advance
    return (name, span)
  | found => fail (.expectedName found)

def expectSemicolon : Parse Span := do
  let span ← currentSpan
  match ← current with
  | .semicolon =>
    advance
    return span
  | found => fail (.expectedSemicolon found)

/-- Take the token if it stands next. -/
def accept (token : Token) : Parse Bool := do
  let found ← current
  if found = token then
    advance
    return true
  return false

/-- A node with the next number. -/
def newNode (span : Span) : Parse Node :=
  modifyGet fun s => (⟨s.nextId, span⟩, { s with nextId := s.nextId + 1 })

/-- The rules of a level. -/
structure Grammar where
  expr : Parse Expr
  unary : Parse Expr
  stmt : Parse Stmt

/-! ### Lists -/

/-- Items up to a closing token, divided by commas. A comma may stand before the closing token. -/
def itemsFrom {α : Type} (close : Token) (item : Parse α) : List Lexeme → Parse (List α)
  | [] => return []
  | _ :: budget => do
    let found ← current
    if found = close then
      return []
    let first ← item
    if ← accept .comma then
      return first :: (← itemsFrom close item budget)
    return [first]

/-- Items divided by commas, where each comma is followed by an item. -/
def separatedFrom {α : Type} (item : Parse α) : List Lexeme → Parse (List α)
  | [] => return []
  | _ :: budget => do
    let first ← item
    if ← accept .comma then
      return first :: (← separatedFrom item budget)
    return [first]

/-- Items in front of a closing token, and the span of that token. A comma may stand behind the last
item. -/
def itemsUntil {α : Type} (close : Token) (item : Parse α) : Parse (List α × Span) := do
  let items ← itemsFrom close item (← remaining)
  return (items, ← expect close)

/-- Items in front of a closing parenthesis, and its span. No comma stands behind the last item. -/
def arguments {α : Type} (item : Parse α) : Parse (List α × Span) := do
  let found ← current
  let items ← if found = .rparen then pure [] else separatedFrom item (← remaining)
  return (items, ← expect .rparen)

/-! ### Blocks -/

def stmtsFrom (stmt : Parse Stmt) : List Lexeme → Parse (List Stmt)
  | [] => return []
  | _ :: budget => do
    let found ← current
    if found = .rbrace ∨ found = .eof then
      return []
    let first ← stmt
    return first :: (← stmtsFrom stmt budget)

/-- Statements between braces. -/
def block (g : Grammar) : Parse (List Stmt × Span) := do
  let start ← expect .lbrace
  let body ← stmtsFrom g.stmt (← remaining)
  let stop ← expect .rbrace
  return (body, start.merge stop)

/-! ### Primary expressions -/

/-- Whether names and commas, a closing parenthesis and an arrow follow. -/
def closesParams : List Lexeme → Bool
  | ⟨.rparen, _⟩ :: ⟨.fatArrow, _⟩ :: _ => true
  | ⟨.ident _, _⟩ :: rest => closesParams rest
  | ⟨.comma, _⟩ :: rest => closesParams rest
  | _ => false

/-- Whether a lambda follows. -/
def startsLambda : List Lexeme → Bool
  | ⟨.ident _, _⟩ :: ⟨.fatArrow, _⟩ :: _ => true
  | ⟨.lparen, _⟩ :: rest => closesParams rest
  | _ => false

def param : Parse Param := do
  let (name, span) ← expectName
  return ⟨← newNode span, name⟩

def params : Parse (List Param) := do
  if ← accept .lparen then
    return (← arguments param).1
  return [← param]

def lambda (g : Grammar) : Parse Expr := do
  let start ← currentSpan
  let params ← params
  let _ ← expect .fatArrow
  match ← current with
  | .lbrace =>
    let (body, span) ← block g
    return .lambda (← newNode (start.merge span)) params (.block body)
  | _ =>
    let value ← g.expr
    return .lambda (← newNode (start.merge value.span)) params (.expr value)

def property (g : Grammar) : Parse Property := do
  let keySpan ← currentSpan
  let name ← match ← current with
    | .ident name => pure name
    | .str name => pure name
    | found => fail (.expectedProperty found)
  advance
  let _ ← expect .colon
  let value ← g.expr
  return .mk name (keySpan.merge value.span) value

def object (g : Grammar) : Parse Expr := do
  let start ← expect .lbrace
  let (properties, stop) ← itemsUntil .rbrace (property g)
  return .object (← newNode (start.merge stop)) properties

def array (g : Grammar) : Parse Expr := do
  let start ← expect .lbracket
  let (items, stop) ← itemsUntil .rbracket g.expr
  return .array (← newNode (start.merge stop)) items

/-- Run a reader on other lexemes. The lexemes before it stand again afterwards, also if it
fails. -/
def onLexemes {α : Type} (lexemes : List Lexeme) (p : Parse α) : Parse α := fun s =>
  match p { s with lexemes := lexemes } with
  | .ok a t => .ok a { t with lexemes := s.lexemes }
  | .error e t => .error e { t with lexemes := s.lexemes }

/-- One expression and nothing behind it. -/
def wholeExpr (g : Grammar) : Parse Expr := do
  let value ← g.expr
  match ← current with
  | .eof => return value
  | found => fail (.unexpectedInCode found)

/-- The first problem of several ends the statement; the others are kept. -/
def failWith {α : Type} (problems : List Problem) : Parse α :=
  match problems with
  | [] => fail .tooDeep
  | first :: others => do
    modify fun s => { s with problems := s.problems ++ others }
    throw first

def parts (g : Grammar) : List Segment → Parse (List Part)
  | [] => return []
  | .text value :: rest => do
    return .text value :: (← parts g rest)
  | .code source offset :: rest => do
    match Lexer.scan source offset with
    | .error problems => failWith problems
    | .ok lexemes =>
      let value ← onLexemes lexemes (wholeExpr g)
      return .expr value :: (← parts g rest)

def literal (value : Literal) (span : Span) : Parse Expr := do
  advance
  return .literal (← newNode span) value

def primary (g : Grammar) : Parse Expr := do
  if startsLambda (← get).lexemes then
    lambda g
  else
    let span ← currentSpan
    match ← current with
    | .number value => literal (.number value) span
    | .str value => literal (.str value) span
    | .trueLit => literal (.bool true) span
    | .falseLit => literal (.bool false) span
    | .nullLit => literal .null span
    | .ident name =>
      advance
      return .ident (← newNode span) name
    | .lparen =>
      advance
      let inner ← g.expr
      let stop ← expect .rparen
      return .grouping (← newNode (span.merge stop)) inner
    | .lbrace => object g
    | .lbracket => array g
    | .interpolated segments =>
      advance
      let parts ← parts g segments
      return .interpolated (← newNode span) parts
    | found => fail (.unexpected found)

/-! ### Suffixes, unary and binary operators -/

/-- One suffix of an expression: a member, an index or arguments. -/
def suffix? (g : Grammar) (e : Expr) : Parse (Option Expr) := do
  match ← current with
  | .dot =>
    advance
    let (name, nameSpan) ← expectName
    return some (.member (← newNode (e.span.merge nameSpan)) e name nameSpan)
  | .lbracket =>
    advance
    let key ← g.expr
    let stop ← expect .rbracket
    return some (.index (← newNode (e.span.merge stop)) e key)
  | .lparen =>
    advance
    let (args, stop) ← arguments g.expr
    return some (.call (← newNode (e.span.merge stop)) e args)
  | _ => return none

def suffixesFrom (g : Grammar) : List Lexeme → Expr → Parse Expr
  | [], e => return e
  | _ :: budget, e => do
    match ← suffix? g e with
    | some longer => suffixesFrom g budget longer
    | none => return e

def suffixed (g : Grammar) : Parse Expr := do
  let e ← primary g
  suffixesFrom g (← remaining) e

def unaryOp? : Token → Option UnaryOp
  | .minus => some .neg
  | .bang => some .not
  | _ => none

def unary (g : Grammar) : Parse Expr := do
  match unaryOp? (← current) with
  | some op =>
    let start ← currentSpan
    advance
    let operand ← g.unary
    return .unary (← newNode (start.merge operand.span)) op operand
  | none => suffixed g

/-- An operator between two expressions. -/
inductive Connective where
  | binary (op : BinOp)
  | logical (op : LogicOp)

def Connective.join (c : Connective) (node : Node) (left right : Expr) : Expr :=
  match c with
  | binary op => .binary node op left right
  | logical op => .logical node op left right

def orLevel : Token → Option Connective
  | .or => some (.logical .or)
  | _ => none

def andLevel : Token → Option Connective
  | .and => some (.logical .and)
  | _ => none

def equalityLevel : Token → Option Connective
  | .eqEq => some (.binary .eq)
  | .ne => some (.binary .ne)
  | _ => none

def orderingLevel : Token → Option Connective
  | .lt => some (.binary .lt)
  | .gt => some (.binary .gt)
  | .le => some (.binary .le)
  | .ge => some (.binary .ge)
  | _ => none

def sumLevel : Token → Option Connective
  | .plus => some (.binary .add)
  | .minus => some (.binary .sub)
  | _ => none

def productLevel : Token → Option Connective
  | .star => some (.binary .mul)
  | .slash => some (.binary .div)
  | .percent => some (.binary .mod)
  | _ => none

/-- More operands of one level, joined to the left. -/
def joinFrom (level : Token → Option Connective) (operand : Parse Expr) :
    List Lexeme → Expr → Parse Expr
  | [], left => return left
  | _ :: budget, left => do
    match level (← current) with
    | none => return left
    | some connective =>
      advance
      let right ← operand
      let node ← newNode (left.span.merge right.span)
      joinFrom level operand budget (connective.join node left right)

/-- Operands of one level, joined to the left. -/
def joined (level : Token → Option Connective) (operand : Parse Expr) : Parse Expr := do
  let first ← operand
  joinFrom level operand (← remaining) first

/-- The levels of operators, the loosest first. -/
def levels : List (Token → Option Connective) :=
  [orLevel, andLevel, equalityLevel, orderingLevel, sumLevel, productLevel]

def expr (g : Grammar) : Parse Expr :=
  levels.foldr joined (unary g)

/-! ### Statements -/

/-- A declaration without its semicolon. -/
def declaration (g : Grammar) : Parse Stmt := do
  let start ← expect .kwVar
  let (name, nameSpan) ← expectName
  if ← accept .eq then
    let init ← expr g
    return .declare (← newNode (start.merge init.span)) name nameSpan (some init)
  return .declare (← newNode (start.merge nameSpan)) name nameSpan none

def checkTarget (target : Expr) : Parse Unit := do
  if !target.isTarget then
    throw ⟨.parse .invalidTarget, target.span⟩

def stepTarget (target : Expr) (op : StepOp) : Parse Stmt := do
  checkTarget target
  let stop ← currentSpan
  advance
  return .step (← newNode (target.span.merge stop)) target op

/-- An assignment, a step or an expression, without the semicolon. -/
def simpleStmt (g : Grammar) : Parse Stmt := do
  let target ← expr g
  match ← current with
  | .eq =>
    checkTarget target
    advance
    let value ← expr g
    return .assign (← newNode (target.span.merge value.span)) target value
  | .plusPlus => stepTarget target .increment
  | .minusMinus => stepTarget target .decrement
  | _ => return .expr (← newNode target.span) target

/-- An expression between parentheses. -/
def condition (g : Grammar) : Parse Expr := do
  let _ ← expect .lparen
  let value ← expr g
  let _ ← expect .rparen
  return value

def branch (g : Grammar) (start : Span) : Parse Stmt := do
  advance
  let condition ← condition g
  let thenBranch ← g.stmt
  if ← accept .kwElse then
    let elseBranch ← g.stmt
    return .branch (← newNode (start.merge elseBranch.span)) condition thenBranch (some elseBranch)
  return .branch (← newNode (start.merge thenBranch.span)) condition thenBranch none

def whileLoop (g : Grammar) (start : Span) : Parse Stmt := do
  advance
  let condition ← condition g
  let body ← g.stmt
  return .while (← newNode (start.merge body.span)) condition body

/-- What stands in front of a token, if anything does. -/
def optionalBefore {α : Type} (close : Token) (item : Parse α) : Parse (Option α) := do
  let found ← current
  if found = close then
    return none
  return some (← item)

def forInit (g : Grammar) : Parse Stmt := do
  match ← current with
  | .kwVar => declaration g
  | _ => simpleStmt g

def forLoop (g : Grammar) (start : Span) : Parse Stmt := do
  advance
  let _ ← expect .lparen
  let init ← optionalBefore .semicolon (forInit g)
  let _ ← expectSemicolon
  let condition ← optionalBefore .semicolon (expr g)
  let _ ← expectSemicolon
  let step ← optionalBefore .rparen (simpleStmt g)
  let _ ← expect .rparen
  let body ← g.stmt
  return .for (← newNode (start.merge body.span)) init condition step body

def stmt (g : Grammar) : Parse Stmt := do
  let start ← currentSpan
  match ← current with
  | .kwVar =>
    let s ← declaration g
    let _ ← expectSemicolon
    return s
  | .lbrace =>
    let (body, span) ← block g
    return .block (← newNode span) body
  | .kwIf => branch g start
  | .kwWhile => whileLoop g start
  | .kwFor => forLoop g start
  | .kwReturn =>
    advance
    let value ← optionalBefore .semicolon (expr g)
    let stop ← expectSemicolon
    return .return (← newNode (start.merge stop)) value
  | .kwPrint =>
    advance
    let value ← expr g
    let stop ← expectSemicolon
    return .print (← newNode (start.merge stop)) value
  | _ =>
    let s ← simpleStmt g
    let stop ← expectSemicolon
    return s.stretch stop

/-! ### Levels of nesting -/

/-- The grammar for scripts nested at most the given number of levels. -/
def grammar : Nat → Grammar
  | 0 => ⟨fail .tooDeep, fail .tooDeep, fail .tooDeep⟩
  | level + 1 =>
    let below := grammar level
    ⟨expr below, unary below, stmt below⟩

def total (weights : List Nat) : Nat :=
  weights.foldr (· + ·) 0

/-- A bound on the tokens of the code in a segment. -/
def segmentWeight : Segment → Nat
  | .text _ => 0
  | .code source _ => source.length + 1

/-- A bound on the tokens that a token stands for. Nesting takes a token for each level, so the
weight of a script bounds its nesting. -/
def tokenWeight : Token → Nat
  | .interpolated segments => 1 + total (segments.map segmentWeight)
  | _ => 1

/-- What is left behind the next semicolon. -/
def afterSemicolon : List Lexeme → List Lexeme
  | [] => []
  | lexeme :: rest =>
    match lexeme.token with
    | .semicolon => rest
    | .eof => lexeme :: rest
    | _ => afterSemicolon rest

/-- Statements up to the end, in the order read. Problems are collected in the state. -/
def scriptFrom (g : Grammar) : Nat → State → List Stmt × State
  | 0, s => ([], s)
  | budget + 1, s =>
    if (s.lexemes.head?.map Lexeme.token).getD .eof = .eof then ([], s)
    else
      match g.stmt s with
      | .ok first t =>
        let (rest, u) := scriptFrom g budget t
        (first :: rest, u)
      | .error problem t =>
        scriptFrom g budget
          { t with problems := t.problems ++ [problem], lexemes := afterSemicolon t.lexemes }

end Parser

/-- Read a script from its lexemes. -/
def Script.parse (lexemes : List Lexeme) : Except (List Problem) Script :=
  let weight := Parser.total (lexemes.map fun l => Parser.tokenWeight l.token)
  let g := Parser.grammar (weight + 1)
  match Parser.scriptFrom g lexemes.length ⟨lexemes, 0, []⟩ with
  | (body, ⟨_, nodeCount, []⟩) => .ok ⟨body, nodeCount⟩
  | (_, ⟨_, _, problems⟩) => .error problems

end HostScript
