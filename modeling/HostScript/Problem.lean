import HostScript.NumberedMap
import HostScript.Token
import HostScript.Host.Type

/-!
# Problems of a script

A problem is a cause and the span it concerns. The cause decides the kind, the severity and the
wording. A diagnostic is a problem with its span resolved to a line and a column.
-/

namespace HostScript

inductive ProblemKind where
  | lexer
  | parser
  /-- Declarations and names. -/
  | scope
  /-- Shapes, arity, stores that are not allowed, constructs that are switched off. -/
  | type
  /-- Host types that cannot be used. -/
  | host
  /-- Failures of code generation itself. -/
  | compiler
deriving DecidableEq, Repr

def ProblemKind.name : ProblemKind → String
  | lexer => "lexer"
  | parser => "parser"
  | scope => "scope"
  | type => "type"
  | host => "host"
  | compiler => "compiler"

inductive Severity where
  | error
  | warning
deriving DecidableEq, Repr

def Severity.name : Severity → String
  | error => "error"
  | warning => "warning"

inductive LexProblem where
  | openComment
  | loneBar
  | loneAmpersand
  | strayCharacter (c : Char)
  | unknownEscape (c : Char)
  | openString
  | openCode
deriving DecidableEq, Repr

def LexProblem.message : LexProblem → String
  | openComment => "Unterminated block comment"
  | loneBar => "Expected '||' for logical OR"
  | loneAmpersand => "Expected '&&' for logical AND"
  | strayCharacter c => "Unexpected character: '" ++ c.toString ++ "'"
  | unknownEscape c => "Unknown escape sequence '\\" ++ c.toString ++ "'"
  | openString => "Unterminated string literal"
  | openCode => "Unterminated '\x7b' in interpolated string"

inductive ParseProblem where
  | expected (wanted found : Token)
  | expectedName (found : Token)
  | expectedSemicolon (found : Token)
  | expectedProperty (found : Token)
  | unexpected (found : Token)
  | unexpectedInCode (found : Token)
  | invalidTarget
  /-- Never arises: the levels of nesting are chosen to suffice. -/
  | tooDeep
deriving DecidableEq, Repr

def ParseProblem.message : ParseProblem → String
  | expected wanted found => "Expected " ++ wanted.describe ++ ", got " ++ found.describe
  | expectedName found => "Expected identifier, got " ++ found.describe
  | expectedSemicolon found => "Expected ';', got " ++ found.describe
  | expectedProperty found => "Expected property name, got " ++ found.describe
  | unexpected found => "Unexpected token: " ++ found.describe
  | unexpectedInCode found => "Unexpected token in interpolation: " ++ found.describe
  | invalidTarget => "Invalid assignment target"
  | tooDeep => "Script is nested too deeply"

inductive ScopeProblem where
  | duplicate (name : String)
  | shadows (name : String)
  | undeclared (name : String)
deriving DecidableEq, Repr

def ScopeProblem.message : ScopeProblem → String
  | duplicate name => "'" ++ name ++ "' is already declared in this scope"
  | shadows name => "'" ++ name ++ "' is already declared in an enclosing scope"
  | undeclared name => "Undeclared identifier '" ++ name ++ "'"

/-- Problems with shapes. Shapes, members and types are given by the words that describe them. -/
inductive TypeProblem where
  | printDisallowed
  | recordsDisallowed
  | arraysDisallowed
  | operand (op found : String)
  | operands (op left right : String)
  | condition (found : String)
  | readOnly (member : String)
  | writeOnly (member : String)
  | assignToMethod (name : String)
  | noMember (found name : String)
  | noField (name : String)
  | readOnlyIndexer (owner : String)
  | notIndexable (found : String)
  | indexNotNumber (found : String)
  | notAccepted (found use owner : String) (wanted : TypeRef)
  | duplicateProperty (name : String)
  | notCallable (found : String)
  | arity (callee : String) (wanted given : Nat)
  | lambdaArity (wanted given : Nat)
deriving Repr

def TypeProblem.message : TypeProblem → String
  | printDisallowed => "print statements are not allowed"
  | recordsDisallowed => "Object literals are not allowed"
  | arraysDisallowed => "Array literals are not allowed"
  | operand op found => "Operator '" ++ op ++ "' cannot be applied to " ++ found
  | operands op left right =>
    "Operator '" ++ op ++ "' cannot be applied to " ++ left ++ " and " ++ right
  | condition found => "Condition must be Bool, got " ++ found
  | readOnly member => "Member '" ++ member ++ "' is read-only"
  | writeOnly member => "Member '" ++ member ++ "' is write-only"
  | assignToMethod name => "Cannot assign to method '" ++ name ++ "'"
  | noMember found name => found ++ " has no member '" ++ name ++ "'"
  | noField name => "Record has no field '" ++ name ++ "'"
  | readOnlyIndexer owner => "Indexer of '" ++ owner ++ "' is read-only"
  | notIndexable found => "Cannot index " ++ found
  | indexNotNumber found => "Array index must be a Number, got " ++ found
  | notAccepted found use owner wanted =>
    "Cannot use " ++ found ++ " as " ++ use ++ " of '" ++ owner ++ "', expected " ++ wanted.display
  | duplicateProperty name => "Duplicate property '" ++ name ++ "'"
  | notCallable found => found ++ " is not callable"
  | arity callee wanted given =>
    "'" ++ callee ++ "' expects " ++ toString wanted ++ " argument(s), got " ++ toString given
  | lambdaArity wanted given =>
    "Cannot call lambda with " ++ toString given ++ " argument(s), it takes " ++ toString wanted

inductive Warning where
  | neverRead (name : String)
  | unreachable
  | recursiveCall
deriving DecidableEq, Repr

def Warning.message : Warning → String
  | neverRead name => "Variable '" ++ name ++ "' is never read"
  | unreachable => "Unreachable code after return"
  | recursiveCall => "Recursive call resolved dynamically"

/-- Assumptions of analysis and code generation that did not hold. -/
inductive CompilerProblem where
  | shapeAlreadySet (node : NodeId)
  | notALambda
  | entryNotALambda
  | missingSignature
  | lambdaNotFound
  | capturedNotBoxed
  | capturedNotInScope
  | noStorage
  | unresolvedTarget
  | unresolvedName
  | notAssignable (name : String)
  | noMember (name : String)
  | noIndexer
  | invalidTarget
  | noRecordLayout
  | noArrayLayout
  | fieldNotInLayout
deriving DecidableEq, Repr

def CompilerProblem.message : CompilerProblem → String
  | shapeAlreadySet node => "Shape already set for node NodeId(" ++ toString node ++ ")"
  | notALambda => "call target is not a lambda"
  | entryNotALambda => "compiled entry is not a lambda"
  | missingSignature => "missing call signature"
  | lambdaNotFound => "lambda node not found"
  | capturedNotBoxed => "captured local is not boxed"
  | capturedNotInScope => "captured symbol is not in scope"
  | noStorage => "symbol has no storage"
  | unresolvedTarget => "unresolved assignment target"
  | unresolvedName => "unresolved identifier"
  | notAssignable name => "member '" ++ name ++ "' is not assignable"
  | noMember name => "no member '" ++ name ++ "'"
  | noIndexer => "host type has no indexer"
  | invalidTarget => "invalid assignment target"
  | noRecordLayout => "object literal without record layout"
  | noArrayLayout => "array literal without array layout"
  | fieldNotInLayout => "literal field missing from layout"

inductive Cause where
  | lex (problem : LexProblem)
  | parse (problem : ParseProblem)
  | scope (problem : ScopeProblem)
  | type (problem : TypeProblem)
  | warning (problem : Warning)
  /-- The input type of the script cannot be used, for the reason in `detail`. -/
  | unusableInput (typeName detail : String)
  | compiler (problem : CompilerProblem)
deriving Repr

namespace Cause

def message : Cause → String
  | lex p => p.message
  | parse p => p.message
  | scope p => p.message
  | type p => p.message
  | warning p => p.message
  | unusableInput typeName detail => "Input type '" ++ typeName ++ "' cannot be used: " ++ detail
  | compiler p => p.message

def kind : Cause → ProblemKind
  | lex _ => .lexer
  | parse _ => .parser
  | scope _ => .scope
  | type _ => .type
  | warning _ => .type
  | unusableInput .. => .host
  | compiler _ => .compiler

def severity : Cause → Severity
  | warning _ => .warning
  | _ => .error

end Cause

structure Problem where
  cause : Cause
  span : Span
deriving Repr

structure Diagnostic where
  severity : Severity
  kind : ProblemKind
  message : String
  position : Position
deriving DecidableEq, Repr

def Diagnostic.text (d : Diagnostic) : String :=
  toString d.position.line ++ ":" ++ toString d.position.column ++ ": " ++ d.message

namespace Problem

def message (p : Problem) : String :=
  p.cause.message

def isWarning (p : Problem) : Bool :=
  p.cause.severity == .warning

/-- One line of text that names the kind of problem and its place. -/
def format (source : String) (p : Problem) : String :=
  let position := Position.ofOffset source p.span.start
  let label := if p.isWarning then "warning" else p.cause.kind.name
  "[" ++ label ++ "] line " ++ toString position.line ++ ":" ++ toString position.column ++ ": " ++
    p.message

def diagnostic (source : String) (p : Problem) : Diagnostic where
  severity := p.cause.severity
  kind := p.cause.kind
  message := p.message
  position := Position.ofOffset source p.span.start

instance : Numbered (Span × String) := ⟨fun p => p.1.start⟩

/-- Drop problems that repeat the span and the wording of one in `seen`. -/
def dropRepeated (seen : NumberedMap (Span × String) Unit) : List Problem → List Problem
  | [] => []
  | p :: ps =>
    if (seen.get? (p.span, p.message)).isSome then dropRepeated seen ps
    else p :: dropRepeated (seen.insert (p.span, p.message) ()) ps

/-- Keep the first of problems with the same span and wording. A lambda body may be analyzed several
times and then reports the same problem each time. -/
def dedup (problems : List Problem) : List Problem :=
  dropRepeated {} problems

end Problem

end HostScript
