import HostScript.Source
import HostScript.Number.Form
import HostScript.Text.Quoted

/-!
# Tokens

The words of a script. An interpolated string is one token; the code inside its braces is kept as
text with its place in the script.
-/

namespace HostScript

/-- A piece of an interpolated string. -/
inductive Segment where
  | text (value : String)
  /-- Code between braces, and the byte offset at which it stands. -/
  | code (source : String) (offset : Nat)
deriving DecidableEq, Repr

inductive Token where
  | number (value : Float)
  | str (value : String)
  | interpolated (segments : List Segment)
  | trueLit
  | falseLit
  | nullLit
  | ident (name : String)
  | kwVar
  | kwIf
  | kwElse
  | kwWhile
  | kwFor
  | kwReturn
  | kwPrint
  | lparen
  | rparen
  | lbrace
  | rbrace
  | lbracket
  | rbracket
  | comma
  | dot
  | colon
  | semicolon
  | plus
  | minus
  | star
  | slash
  | percent
  | plusPlus
  | minusMinus
  | lt
  | gt
  | le
  | ge
  | eqEq
  | ne
  | and
  | or
  | bang
  | eq
  | fatArrow
  | eof
deriving DecidableEq, Repr

/-- A token and where it stands. -/
structure Lexeme where
  token : Token
  span : Span
deriving DecidableEq, Repr

def Segment.describe : Segment → String
  | text value => "Text(" ++ Text.quoted value ++ ")"
  | code source offset =>
    "Code \x7b source: " ++ Text.quoted source ++ ", offset: " ++ toString offset ++ " \x7d"

namespace Token

/-- The token as messages name it. -/
def describe : Token → String
  | number value => "Number(" ++ Number.Form.literal.write value ++ ")"
  | str value => "Str(" ++ Text.quoted value ++ ")"
  | interpolated segments =>
    "Interpolated([" ++ String.intercalate ", " (segments.map Segment.describe) ++ "])"
  | trueLit => "True"
  | falseLit => "False"
  | nullLit => "Null"
  | ident name => "Ident(" ++ Text.quoted name ++ ")"
  | kwVar => "Var"
  | kwIf => "If"
  | kwElse => "Else"
  | kwWhile => "While"
  | kwFor => "For"
  | kwReturn => "Return"
  | kwPrint => "Print"
  | lparen => "LParen"
  | rparen => "RParen"
  | lbrace => "LBrace"
  | rbrace => "RBrace"
  | lbracket => "LBracket"
  | rbracket => "RBracket"
  | comma => "Comma"
  | dot => "Dot"
  | colon => "Colon"
  | semicolon => "Semicolon"
  | plus => "Plus"
  | minus => "Minus"
  | star => "Star"
  | slash => "Slash"
  | percent => "Percent"
  | plusPlus => "PlusPlus"
  | minusMinus => "MinusMinus"
  | lt => "Lt"
  | gt => "Gt"
  | le => "Le"
  | ge => "Ge"
  | eqEq => "EqEq"
  | ne => "Ne"
  | and => "And"
  | or => "Or"
  | bang => "Bang"
  | eq => "Eq"
  | fatArrow => "FatArrow"
  | eof => "Eof"

/-- The token that a word stands for. -/
def ofWord : String → Token
  | "var" => kwVar
  | "if" => kwIf
  | "else" => kwElse
  | "while" => kwWhile
  | "for" => kwFor
  | "return" => kwReturn
  | "print" => kwPrint
  | "true" => trueLit
  | "false" => falseLit
  | "null" => nullLit
  | word => ident word

end Token

end HostScript
