import HostScript.Token
import HostScript.Script

/-!
# Printing

The tokens of a tree. Groupings print as parentheses and nothing else does, so a tree can only be
read back if its operands bind tightly enough where they stand; `Expr.wellFormed` and
`Stmt.wellFormed` say which trees these are. Trees are compared by `bare`, which forgets the numbers
and places of nodes.
-/

namespace HostScript

/-! ### Tokens of words and operators -/

def Literal.token : Literal → Token
  | .number value => .number value
  | .str value => .str value
  | .bool true => .trueLit
  | .bool false => .falseLit
  | .null => .nullLit

def BinOp.token : BinOp → Token
  | add => .plus
  | sub => .minus
  | mul => .star
  | div => .slash
  | mod => .percent
  | lt => .lt
  | gt => .gt
  | le => .le
  | ge => .ge
  | eq => .eqEq
  | ne => .ne

def LogicOp.token : LogicOp → Token
  | and => .and
  | or => .or

def UnaryOp.token : UnaryOp → Token
  | neg => .minus
  | not => .bang

def StepOp.token : StepOp → Token
  | increment => .plusPlus
  | decrement => .minusMinus

/-- The texts of items with commas between them. -/
def listed {α : Type} (print : α → List Token) : List α → List Token
  | [] => []
  | first :: rest => print first ++ rest.flatMap fun item => .comma :: print item

def Param.tokens (p : Param) : List Token :=
  [.ident p.name]

/-! ### Tokens of trees -/

mutual

/-- The tokens of an expression. Interpolated strings are not printed. -/
def Expr.tokens : Expr → List Token
  | .literal _ value => [value.token]
  | .binary _ op left right => left.tokens ++ op.token :: right.tokens
  | .logical _ op left right => left.tokens ++ op.token :: right.tokens
  | .unary _ op operand => op.token :: operand.tokens
  | .grouping _ inner => .lparen :: (inner.tokens ++ [.rparen])
  | .ident _ name => [.ident name]
  | .member _ object name _ => object.tokens ++ [.dot, .ident name]
  | .index _ object key => object.tokens ++ .lbracket :: (key.tokens ++ [.rbracket])
  | .call _ callee args => callee.tokens ++ .lparen :: (Expr.tokensOfAll args ++ [.rparen])
  | .lambda _ params body =>
    .lparen :: (listed Param.tokens params ++ .rparen :: .fatArrow :: body.tokens)
  | .object _ properties => .lbrace :: (Property.tokensOfAll properties ++ [.rbrace])
  | .array _ items => .lbracket :: (Expr.tokensOfAll items ++ [.rbracket])
  | .interpolated .. => []

/-- Expressions with commas between them. -/
def Expr.tokensOfAll : List Expr → List Token
  | [] => []
  | e :: rest => e.tokens ++ Expr.tokensOfMore rest

/-- Expressions with a comma before each. -/
def Expr.tokensOfMore : List Expr → List Token
  | [] => []
  | e :: rest => .comma :: (e.tokens ++ Expr.tokensOfMore rest)

def LambdaBody.tokens : LambdaBody → List Token
  | .expr value => value.tokens
  | .block body => .lbrace :: (Stmt.tokensOfAll body ++ [.rbrace])

/-- The name of a property is printed as a string. -/
def Property.tokens : Property → List Token
  | .mk name _ value => .str name :: .colon :: value.tokens

def Property.tokensOfAll : List Property → List Token
  | [] => []
  | p :: rest => p.tokens ++ Property.tokensOfMore rest

def Property.tokensOfMore : List Property → List Token
  | [] => []
  | p :: rest => .comma :: (p.tokens ++ Property.tokensOfMore rest)

/-- A declaration, an assignment, a step or an expression without its semicolon. -/
def Stmt.plainTokens : Stmt → List Token
  | .declare _ name _ init => .kwVar :: .ident name :: Expr.tokensOfInit init
  | .expr _ value => value.tokens
  | .assign _ target value => target.tokens ++ .eq :: value.tokens
  | .step _ target op => target.tokens ++ [op.token]
  | _ => []

def Stmt.tokens : Stmt → List Token
  | .block _ body => .lbrace :: (Stmt.tokensOfAll body ++ [.rbrace])
  | .declare _ name _ init => .kwVar :: .ident name :: (Expr.tokensOfInit init ++ [.semicolon])
  | .branch _ condition thenBranch elseBranch =>
    .kwIf :: .lparen :: (condition.tokens ++ .rparen :: (thenBranch.tokens ++
      Stmt.tokensOfElse elseBranch))
  | .while _ condition body =>
    .kwWhile :: .lparen :: (condition.tokens ++ .rparen :: body.tokens)
  | .for _ init condition step body =>
    .kwFor :: .lparen :: (Stmt.plainTokensOfOption init ++ .semicolon ::
      (Expr.tokensOfOption condition ++ .semicolon :: (Stmt.plainTokensOfOption step ++
        .rparen :: body.tokens)))
  | .return _ value => .kwReturn :: (Expr.tokensOfOption value ++ [.semicolon])
  | .print _ value => .kwPrint :: (value.tokens ++ [.semicolon])
  | .expr _ value => value.tokens ++ [.semicolon]
  | .assign _ target value => target.tokens ++ .eq :: (value.tokens ++ [.semicolon])
  | .step _ target op => target.tokens ++ [op.token, .semicolon]

def Stmt.tokensOfAll : List Stmt → List Token
  | [] => []
  | s :: rest => s.tokens ++ Stmt.tokensOfAll rest

def Expr.tokensOfInit : Option Expr → List Token
  | none => []
  | some e => .eq :: e.tokens

def Expr.tokensOfOption : Option Expr → List Token
  | none => []
  | some e => e.tokens

def Stmt.plainTokensOfOption : Option Stmt → List Token
  | none => []
  | some s => s.plainTokens

def Stmt.tokensOfElse : Option Stmt → List Token
  | none => []
  | some s => .kwElse :: s.tokens

end

theorem Expr.tokensOfMore_eq (es : List Expr) :
    Expr.tokensOfMore es = es.flatMap fun e => .comma :: e.tokens := by
  induction es with
  | nil => rw [Expr.tokensOfMore, List.flatMap_nil]
  | cons e rest ih => rw [Expr.tokensOfMore, List.flatMap_cons, ih, List.cons_append]

theorem Expr.tokensOfAll_eq (es : List Expr) :
    Expr.tokensOfAll es = listed Expr.tokens es := by
  cases es with
  | nil => rw [Expr.tokensOfAll, listed]
  | cons e rest => rw [Expr.tokensOfAll, listed, Expr.tokensOfMore_eq]

theorem Property.tokensOfMore_eq (ps : List Property) :
    Property.tokensOfMore ps = ps.flatMap fun p => .comma :: p.tokens := by
  induction ps with
  | nil => rw [Property.tokensOfMore, List.flatMap_nil]
  | cons p rest ih => rw [Property.tokensOfMore, List.flatMap_cons, ih, List.cons_append]

theorem Property.tokensOfAll_eq (ps : List Property) :
    Property.tokensOfAll ps = listed Property.tokens ps := by
  cases ps with
  | nil => rw [Property.tokensOfAll, listed]
  | cons p rest => rw [Property.tokensOfAll, listed, Property.tokensOfMore_eq]

/-! ### Trees without numbers and places -/

mutual

/-- The expression with every node number and place forgotten. -/
def Expr.bare : Expr → Expr
  | .literal _ value => .literal default value
  | .binary _ op left right => .binary default op left.bare right.bare
  | .logical _ op left right => .logical default op left.bare right.bare
  | .unary _ op operand => .unary default op operand.bare
  | .grouping _ inner => .grouping default inner.bare
  | .ident _ name => .ident default name
  | .member _ object name _ => .member default object.bare name default
  | .index _ object key => .index default object.bare key.bare
  | .call _ callee args => .call default callee.bare (Expr.bareAll args)
  | .lambda _ params body => .lambda default (params.map fun p => ⟨default, p.name⟩) body.bare
  | .object _ properties => .object default (Property.bareAll properties)
  | .array _ items => .array default (Expr.bareAll items)
  | .interpolated _ parts => .interpolated default (Part.bareAll parts)

def Expr.bareAll : List Expr → List Expr
  | [] => []
  | e :: rest => e.bare :: Expr.bareAll rest

def LambdaBody.bare : LambdaBody → LambdaBody
  | .expr value => .expr value.bare
  | .block body => .block (Stmt.bareAll body)

def Property.bare : Property → Property
  | .mk name _ value => .mk name default value.bare

def Property.bareAll : List Property → List Property
  | [] => []
  | p :: rest => p.bare :: Property.bareAll rest

def Part.bareAll : List Part → List Part
  | [] => []
  | .text value :: rest => .text value :: Part.bareAll rest
  | .expr value :: rest => .expr value.bare :: Part.bareAll rest

/-- The statement with every node number and place forgotten. -/
def Stmt.bare : Stmt → Stmt
  | .block _ body => .block default (Stmt.bareAll body)
  | .declare _ name _ init => .declare default name default (Expr.bareOption init)
  | .branch _ condition thenBranch elseBranch =>
    .branch default condition.bare thenBranch.bare (Stmt.bareOption elseBranch)
  | .while _ condition body => .while default condition.bare body.bare
  | .for _ init condition step body =>
    .for default (Stmt.bareOption init) (Expr.bareOption condition) (Stmt.bareOption step) body.bare
  | .return _ value => .return default (Expr.bareOption value)
  | .print _ value => .print default value.bare
  | .expr _ value => .expr default value.bare
  | .assign _ target value => .assign default target.bare value.bare
  | .step _ target op => .step default target.bare op

def Stmt.bareAll : List Stmt → List Stmt
  | [] => []
  | s :: rest => s.bare :: Stmt.bareAll rest

def Expr.bareOption : Option Expr → Option Expr
  | none => none
  | some e => some e.bare

def Stmt.bareOption : Option Stmt → Option Stmt
  | none => none
  | some s => some s.bare

end

theorem Expr.bareAll_eq (es : List Expr) : Expr.bareAll es = es.map Expr.bare := by
  induction es with
  | nil => rw [Expr.bareAll, List.map_nil]
  | cons e rest ih => rw [Expr.bareAll, List.map_cons, ih]

theorem Property.bareAll_eq (ps : List Property) : Property.bareAll ps = ps.map Property.bare := by
  induction ps with
  | nil => rw [Property.bareAll, List.map_nil]
  | cons p rest ih => rw [Property.bareAll, List.map_cons, ih]

@[simp] theorem Stmt.bare_stretch (more : Span) (s : Stmt) : (s.stretch more).bare = s.bare := by
  cases s <;> rfl

theorem Expr.isTarget_bare (e : Expr) : e.bare.isTarget = e.isTarget := by
  cases e <;> rfl

/-! ### Trees that can be read back -/

def BinOp.level : BinOp → Nat
  | eq | ne => 3
  | lt | gt | le | ge => 4
  | add | sub => 5
  | mul | div | mod => 6

def LogicOp.level : LogicOp → Nat
  | or => 1
  | and => 2

theorem BinOp.level_lt (op : BinOp) : op.level < 7 := by
  cases op <;> decide

theorem LogicOp.level_lt (op : LogicOp) : op.level < 7 := by
  cases op <;> decide

/-- How tightly the parts of an expression are held together. The six levels of operators are
followed by unary operators, and these by suffixes and primary expressions. A lambda reaches as far
to the right as it can. -/
def Expr.strength : Expr → Nat
  | .lambda .. => 0
  | .logical _ op _ _ => op.level
  | .binary _ op _ _ => op.level
  | .unary .. => 7
  | _ => 8

/-- Whether a suffix may follow. The braces of its body end a lambda. -/
def Expr.takesSuffix : Expr → Bool
  | .lambda _ _ (.block _) => true
  | e => e.strength == 8

/-- Whether the expression has neither operators nor suffixes around it. -/
def Expr.isPrimary : Expr → Bool
  | .literal .. | .ident .. | .grouping .. | .object .. | .array .. => true
  | _ => false

/-- Whether the statement is an expression, or starts with one. -/
def Stmt.isSimple : Stmt → Bool
  | .expr .. | .assign .. | .step .. => true
  | _ => false

/-- Whether the text would be read as a block where one may stand. -/
def startsWithBrace (tokens : List Token) : Bool :=
  tokens.head? == some .lbrace

/-- Whether an `else` behind the statement would belong to an `if` inside it. -/
def Stmt.endsOpen : Stmt → Bool
  | .branch _ _ _ none => true
  | .branch _ _ _ (some elseBranch) => elseBranch.endsOpen
  | .while _ _ body => body.endsOpen
  | .for _ _ _ _ body => body.endsOpen
  | _ => false

mutual

/-- Whether every operand binds tightly enough where it stands, and no lambda without braces starts
its body with one. -/
def Expr.wellFormed : Expr → Bool
  | .literal .. | .ident .. => true
  | .binary _ op left right | .logical _ op left right =>
    left.wellFormed && right.wellFormed && op.level ≤ left.strength && op.level < right.strength
  | .unary _ _ operand => operand.wellFormed && 7 ≤ operand.strength
  | .grouping _ inner => inner.wellFormed
  | .member _ object _ _ => object.wellFormed && object.takesSuffix
  | .index _ object key => object.wellFormed && object.takesSuffix && key.wellFormed
  | .call _ callee args => callee.wellFormed && callee.takesSuffix && Expr.allWellFormed args
  | .lambda _ _ body => body.wellFormed
  | .object _ properties => Property.allWellFormed properties
  | .array _ items => Expr.allWellFormed items
  | .interpolated .. => false

def Expr.allWellFormed : List Expr → Bool
  | [] => true
  | e :: rest => e.wellFormed && Expr.allWellFormed rest

def LambdaBody.wellFormed : LambdaBody → Bool
  | .expr value => value.wellFormed && !startsWithBrace value.tokens
  | .block body => Stmt.allWellFormed body

def Property.wellFormed : Property → Bool
  | .mk _ _ value => value.wellFormed

def Property.allWellFormed : List Property → Bool
  | [] => true
  | p :: rest => p.wellFormed && Property.allWellFormed rest

/-- Whether the statement may stand in the head of a loop. A declaration may only come first
there. -/
def Stmt.plainWellFormed (first : Bool) : Stmt → Bool
  | .declare _ _ _ init => first && Expr.optionWellFormed init
  | .expr _ value => value.wellFormed
  | .assign _ target value => target.isTarget && target.wellFormed && value.wellFormed
  | .step _ target _ => target.isTarget && target.wellFormed
  | _ => false

/-- Whether a statement that stands on its own is read back. It does not start with a brace unless
it is a block, and the `else` of a branch belongs to that branch. -/
def Stmt.wellFormed : Stmt → Bool
  | .block _ body => Stmt.allWellFormed body
  | .declare _ _ _ init => Expr.optionWellFormed init
  | .branch _ condition thenBranch none => condition.wellFormed && thenBranch.wellFormed
  | .branch _ condition thenBranch (some elseBranch) =>
    condition.wellFormed && thenBranch.wellFormed && elseBranch.wellFormed && !thenBranch.endsOpen
  | .while _ condition body => condition.wellFormed && body.wellFormed
  | .for _ init condition step body =>
    Stmt.plainOptionWellFormed true init && Expr.optionWellFormed condition &&
      Stmt.plainOptionWellFormed false step && body.wellFormed
  | .return _ value => Expr.optionWellFormed value
  | .print _ value => value.wellFormed
  | .expr _ value => value.wellFormed && !startsWithBrace value.tokens
  | .assign _ target value =>
    target.isTarget && target.wellFormed && value.wellFormed && !startsWithBrace target.tokens
  | .step _ target _ => target.isTarget && target.wellFormed && !startsWithBrace target.tokens

def Stmt.allWellFormed : List Stmt → Bool
  | [] => true
  | s :: rest => s.wellFormed && Stmt.allWellFormed rest

def Expr.optionWellFormed : Option Expr → Bool
  | none => true
  | some e => e.wellFormed

def Stmt.plainOptionWellFormed (first : Bool) : Option Stmt → Bool
  | none => true
  | some s => s.plainWellFormed first

end

theorem Expr.allWellFormed_iff (es : List Expr) :
    Expr.allWellFormed es ↔ ∀ e ∈ es, e.wellFormed := by
  induction es with
  | nil => simp [Expr.allWellFormed]
  | cons e rest ih => simp [Expr.allWellFormed, ih]

theorem Property.allWellFormed_iff (ps : List Property) :
    Property.allWellFormed ps ↔ ∀ p ∈ ps, p.wellFormed := by
  induction ps with
  | nil => simp [Property.allWellFormed]
  | cons p rest ih => simp [Property.allWellFormed, ih]

/-! ### How texts start and end -/

/-- How tightly a token holds the expression before it. -/
def Token.grip : Token → Nat
  | .or => 1
  | .and => 2
  | .eqEq | .ne => 3
  | .lt | .gt | .le | .ge => 4
  | .plus | .minus => 5
  | .star | .slash | .percent => 6
  | .dot | .lbracket | .lparen => 8
  | .fatArrow => 9
  | _ => 0

/-- Tokens with which an expression starts. -/
def Token.startsExpr : Token → Bool
  | .number _ | .str _ | .trueLit | .falseLit | .nullLit | .ident _ | .lparen | .lbrace | .lbracket
  | .minus | .bang => true
  | _ => false

/-- Tokens with which a statement starts. -/
def Token.startsStmt : Token → Bool
  | .kwVar | .kwIf | .kwWhile | .kwFor | .kwReturn | .kwPrint => true
  | token => token.startsExpr

theorem Literal.token_startsExpr (value : Literal) : value.token.startsExpr := by
  cases value with
  | bool b => cases b <;> rfl
  | _ => rfl

theorem Expr.tokens_start : ∀ e : Expr, e.wellFormed →
    ∃ first rest, e.tokens = first :: rest ∧ first.startsExpr
  | .literal _ value, _ => ⟨value.token, [], rfl, value.token_startsExpr⟩
  | .ident _ name, _ => ⟨.ident name, [], rfl, rfl⟩
  | .binary _ _ head _, h | .logical _ _ head _, h | .member _ head _ _, h | .index _ head _, h
  | .call _ head _, h => by
    have hhead : head.wellFormed := by simp_all [wellFormed]
    obtain ⟨first, rest, htokens, hfirst⟩ := tokens_start head hhead
    exact ⟨first, _, by rw [tokens, htokens, List.cons_append], hfirst⟩
  | .unary _ op operand, _ => ⟨op.token, _, rfl, by cases op <;> rfl⟩
  | .grouping .., _ => ⟨.lparen, _, rfl, rfl⟩
  | .lambda .., _ => ⟨.lparen, _, rfl, rfl⟩
  | .object .., _ => ⟨.lbrace, _, rfl, rfl⟩
  | .array .., _ => ⟨.lbracket, _, rfl, rfl⟩
  | .interpolated .., h => by simp [wellFormed] at h

theorem Expr.tokens_append_start (e : Expr) (h : e.wellFormed) (more : List Token) :
    ∃ first rest, e.tokens ++ more = first :: rest ∧ first.startsExpr := by
  obtain ⟨first, rest, htokens, hfirst⟩ := e.tokens_start h
  exact ⟨first, rest ++ more, by rw [htokens, List.cons_append], hfirst⟩

theorem Expr.startsWithBrace_append (e : Expr) (h : e.wellFormed) (more : List Token) :
    startsWithBrace (e.tokens ++ more) = startsWithBrace e.tokens := by
  obtain ⟨first, rest, htokens, _⟩ := e.tokens_start h
  rw [htokens, List.cons_append, startsWithBrace, startsWithBrace, List.head?_cons, List.head?_cons]

theorem Token.startsStmt_of_startsExpr {token : Token} (h : token.startsExpr) :
    token.startsStmt := by
  cases token <;> first | rfl | exact h

/-- In the head of a loop stands a declaration or a statement that starts with an expression. -/
theorem Stmt.plain_cases {first : Bool} {s : Stmt} (h : s.plainWellFormed first) :
    (∃ node name span init, s = .declare node name span init ∧ Expr.optionWellFormed init) ∨
      s.plainWellFormed false ∧
        ∃ token rest, s.plainTokens = token :: rest ∧ token.startsExpr := by
  cases s with
  | declare node name span init =>
    simp only [plainWellFormed, Bool.and_eq_true] at h
    exact .inl ⟨node, name, span, init, rfl, h.2⟩
  | expr _ value => exact .inr ⟨h, value.tokens_start h⟩
  | assign _ target _ | step _ target _ =>
    have htarget : target.wellFormed := by simp_all [plainWellFormed]
    exact .inr ⟨h, target.tokens_append_start htarget _⟩
  | _ => simp [plainWellFormed] at h

theorem Stmt.plainTokens_start {first : Bool} {s : Stmt} (h : s.plainWellFormed first) :
    ∃ token rest, s.plainTokens = token :: rest ∧ token.startsStmt := by
  obtain ⟨_, _, _, _, rfl, _⟩ | ⟨_, token, rest, htokens, htoken⟩ := plain_cases h
  · exact ⟨_, _, rfl, rfl⟩
  · exact ⟨token, rest, htokens, Token.startsStmt_of_startsExpr htoken⟩

/-- A statement that starts with an expression may also stand in the head of a loop. -/
theorem Stmt.simple_of_wellFormed {s : Stmt} (hs : s.isSimple) (h : s.wellFormed) :
    s.plainWellFormed false ∧ startsWithBrace s.plainTokens = false ∧
      s.tokens = s.plainTokens ++ [.semicolon] := by
  cases s with
  | expr _ value =>
    simp only [wellFormed, Bool.and_eq_true, Bool.not_eq_true'] at h
    exact ⟨h.1, h.2, by rw [tokens, plainTokens]⟩
  | assign _ target _ | step _ target _ =>
    simp only [wellFormed, Bool.and_eq_true, Bool.not_eq_true'] at h
    have htarget : target.wellFormed := by simp only [h]
    exact ⟨by simp only [plainWellFormed, h, Bool.and_self],
      (target.startsWithBrace_append htarget _).trans h.2, by simp [tokens, plainTokens]⟩
  | _ => cases hs

theorem Stmt.tokens_start (s : Stmt) (h : s.wellFormed) :
    ∃ first rest, s.tokens = first :: rest ∧ first.startsStmt := by
  cases s with
  | block | declare | branch | «while» | «for» | «return» | print => exact ⟨_, _, rfl, rfl⟩
  | expr | assign | step =>
    obtain ⟨hplain, _, htokens⟩ := simple_of_wellFormed rfl h
    obtain ⟨first, rest, hfirst, hstart⟩ := plainTokens_start hplain
    exact ⟨first, rest ++ [.semicolon], by rw [htokens, hfirst, List.cons_append], hstart⟩

end HostScript
