import HostScript.Script
import HostScript.Token
import HostScript.Text.Json

/-!
# Outlines of scripts

Tokens and trees as JSON documents, for tools that look at scripts without running them. A node is
written as its number, its span and what it is.
-/

namespace HostScript

open Text (Json)

namespace Outline

def span (s : Span) : Json :=
  .array [.nat s.start, .nat s.stop]

def number (x : Float) : Json :=
  .str (Number.Form.display.write x)

def tagged (tag : String) (content : Json) : Json :=
  .object [(tag, content)]

def node (n : Node) (content : Json) : Json :=
  .array [.nat n.id, span n.span, content]

def optional (content : Option Json) : Json :=
  content.getD .null

end Outline

open Outline (span number tagged node)

def Segment.outline : Segment → Json
  | text value => tagged "text" (.str value)
  | code source offset => .object [("code", .str source), ("offset", .nat offset)]

def Token.outline : Token → Json
  | number x => tagged "Number" (Outline.number x)
  | str s => tagged "Str" (.str s)
  | ident name => tagged "Ident" (.str name)
  | interpolated segments => tagged "Interpolated" (.array (segments.map Segment.outline))
  | token => .str token.describe

def Lexeme.outline (l : Lexeme) : Json :=
  .array [l.token.outline, .nat l.span.start, .nat l.span.stop]

def Literal.outline : Literal → Json
  | number x => tagged "Number" (Outline.number x)
  | str s => tagged "Str" (.str s)
  | bool b => tagged "Bool" (.bool b)
  | null => .str "Null"

def Param.outline (p : Param) : Json :=
  .array [.nat p.node.id, .str p.name, span p.node.span]

def LogicOp.name : LogicOp → String
  | and => "And"
  | or => "Or"

def StepOp.name : StepOp → String
  | increment => "Increment"
  | decrement => "Decrement"

mutual

def Expr.outline : Expr → Json
  | .literal n value => node n value.outline
  | .binary n op left right =>
    node n (tagged "Binary" (.array [.str op.symbol, left.outline, right.outline]))
  | .logical n op left right =>
    node n (tagged "Logical" (.array [.str op.name, left.outline, right.outline]))
  | .unary n op operand => node n (tagged "Unary" (.array [.str op.symbol, operand.outline]))
  | .grouping n inner => node n (tagged "Grouping" inner.outline)
  | .ident n name => node n (tagged "Ident" (.str name))
  | .member n object name nameSpan =>
    node n (tagged "Member" (.array [object.outline, .str name, span nameSpan]))
  | .index n object key => node n (tagged "Index" (.array [object.outline, key.outline]))
  | .call n callee args =>
    node n (tagged "Call" (.array [callee.outline, .array (Expr.outlines args)]))
  | .lambda n params body =>
    node n (tagged "Lambda" (.array [.array (params.map Param.outline), body.outline]))
  | .object n properties => node n (tagged "Object" (.array (Property.outlines properties)))
  | .array n items => node n (tagged "Array" (.array (Expr.outlines items)))
  | .interpolated n parts => node n (tagged "Interpolated" (.array (Part.outlines parts)))

def Expr.outlines : List Expr → List Json
  | [] => []
  | e :: rest => e.outline :: Expr.outlines rest

def Expr.outlineOf : Option Expr → Json
  | none => .null
  | some e => e.outline

def LambdaBody.outline : LambdaBody → Json
  | .expr value => tagged "expr" value.outline
  | .block body => tagged "block" (.array (Stmt.outlines body))

def Property.outlines : List Property → List Json
  | [] => []
  | .mk name s value :: rest =>
    .array [.str name, span s, value.outline] :: Property.outlines rest

def Part.outlines : List Part → List Json
  | [] => []
  | .text value :: rest => tagged "text" (.str value) :: Part.outlines rest
  | .expr value :: rest => tagged "expr" value.outline :: Part.outlines rest

def Stmt.outline : Stmt → Json
  | .block n body => node n (tagged "Block" (.array (Stmt.outlines body)))
  | .declare n name nameSpan init =>
    node n (tagged "Var" (.array [.str name, span nameSpan, Expr.outlineOf init]))
  | .branch n condition t e =>
    node n (tagged "If" (.array [condition.outline, t.outline, Stmt.outlineOf e]))
  | .while n condition body => node n (tagged "While" (.array [condition.outline, body.outline]))
  | .for n init condition step body =>
    node n (tagged "For" (.array
      [Stmt.outlineOf init, Expr.outlineOf condition, Stmt.outlineOf step, body.outline]))
  | .return n value => node n (tagged "Return" (Expr.outlineOf value))
  | .print n value => node n (tagged "Print" value.outline)
  | .expr n value => node n (tagged "Expr" value.outline)
  | .assign n target value => node n (tagged "Assign" (.array [target.outline, value.outline]))
  | .step n target op => node n (tagged "Increment" (.array [target.outline, .str op.name]))

def Stmt.outlines : List Stmt → List Json
  | [] => []
  | s :: rest => s.outline :: Stmt.outlines rest

def Stmt.outlineOf : Option Stmt → Json
  | none => .null
  | some s => s.outline

end

def Script.outline (script : Script) : Json :=
  .object [("body", .array (Stmt.outlines script.body)), ("nodes", .nat script.nodeCount)]

end HostScript
