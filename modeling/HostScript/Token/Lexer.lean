import HostScript.Problem

/-!
# Reading tokens

`Lexer.scan` cuts a script into lexemes. Spaces and comments stand between lexemes. Offsets count
bytes from a given base, so that a piece of a script can be read with the offsets of the whole. If
any problem is found, the problems are the answer.
-/

namespace HostScript.Lexer

/-- What is left to read, and the byte offset at which it starts. -/
structure Cursor where
  rest : List Char
  offset : Nat
deriving Repr

def isBlank (c : Char) : Bool :=
  c == ' ' || c == '\t' || c == '\n' || c == '\r'

def isWordStart (c : Char) : Bool :=
  c.isAlpha || c == '_'

def isWordChar (c : Char) : Bool :=
  c.isAlphanum || c == '_'

/-- Where the reader of spaces and comments is. -/
inductive Gap where
  | blank
  | line
  /-- In a block comment that started at the given offset. -/
  | block (start : Nat)

/-- Skip spaces and comments. A comment that is not closed takes the rest of the script. -/
def skipGap : Gap → List Char → Nat → Cursor × Option Problem
  | .blank, '/' :: '/' :: cs, offset => skipGap .line cs (offset + 2)
  | .blank, '/' :: '*' :: cs, offset => skipGap (.block offset) cs (offset + 2)
  | .blank, c :: cs, offset =>
    if isBlank c then skipGap .blank cs (offset + 1) else (⟨c :: cs, offset⟩, none)
  | .line, c :: cs, offset =>
    skipGap (if c == '\n' then .blank else .line) cs (offset + c.utf8Size)
  | .block _, '*' :: '/' :: cs, offset => skipGap .blank cs (offset + 2)
  | .block start, c :: cs, offset => skipGap (.block start) cs (offset + c.utf8Size)
  | .block start, [], offset => (⟨[], offset⟩, some ⟨.lex .openComment, start, offset⟩)
  | _, [], offset => (⟨[], offset⟩, none)

/-- What an escaped character stands for. -/
def escape? : Char → Option Char
  | 'n' => some '\n'
  | 't' => some '\t'
  | 'r' => some '\r'
  | '"' => some '"'
  | '\\' => some '\\'
  | '\x7b' => some '\x7b'
  | '\x7d' => some '\x7d'
  | _ => none

/-- The body of a string and the problems in it. The cursor stops before the closing quote, the end
of the line or the end of the script. -/
structure Body where
  text : List Char
  problems : List Problem
  cursor : Cursor

def Body.push (c : Char) (body : Body) : Body :=
  { body with text := c :: body.text }

def Body.report (problem : Problem) (body : Body) : Body :=
  { body with problems := problem :: body.problems }

/-- An unknown escape is reported and stands for the character itself. -/
def stringBody : List Char → Nat → Body
  | [], offset => ⟨[], [], [], offset⟩
  | ['\\'], offset => ⟨[], [], [], offset + 1⟩
  | '\\' :: c :: cs, offset =>
    let stop := offset + 1 + c.utf8Size
    match escape? c with
    | some e => (stringBody cs stop).push e
    | none => ((stringBody cs stop).push c).report ⟨.lex (.unknownEscape c), offset, stop⟩
  | c :: cs, offset =>
    if c == '"' || c == '\n' then ⟨[], [], c :: cs, offset⟩
    else (stringBody cs (offset + c.utf8Size)).push c

/-- Take the closing quote of a string that started at `start`. -/
def closeString (start : Nat) (cursor : Cursor) : Cursor × List Problem :=
  match cursor.rest with
  | '"' :: cs => (⟨cs, cursor.offset + 1⟩, [])
  | _ => (cursor, [⟨.lex .openString, start, cursor.offset⟩])

/-- Where the reader of an interpolated string is. Characters are collected in reverse. -/
inductive Part where
  | text (collected : List Char)
  /-- In code that started at `start`, inside `depth` further braces. -/
  | code (start depth : Nat) (collected : List Char)

/-- The segments of an interpolated string and the problems in it. -/
structure Segments where
  segments : List Segment
  problems : List Problem
  cursor : Cursor

def Segments.push (segment : Segment) (s : Segments) : Segments :=
  { s with segments := segment :: s.segments }

def Segments.report (problem : Problem) (s : Segments) : Segments :=
  { s with problems := problem :: s.problems }

/-- Collected text in front of further segments. Empty text is no segment. -/
def Segments.pushText (collected : List Char) (s : Segments) : Segments :=
  if collected.isEmpty then s else s.push (.text (String.ofList collected.reverse))

/-- The body of an interpolated string. Code ends at the brace that closes it; a quote or the end of
the line before that leaves it open and ends the string. -/
def interpolatedBody : Part → List Char → Nat → Segments
  | .text collected, [], offset => Segments.pushText collected ⟨[], [], [], offset⟩
  | .text collected, ['\\'], offset => Segments.pushText collected ⟨[], [], [], offset + 1⟩
  | .text collected, '\\' :: c :: cs, offset =>
    let stop := offset + 1 + c.utf8Size
    match escape? c with
    | some e => interpolatedBody (.text (e :: collected)) cs stop
    | none =>
      (interpolatedBody (.text (c :: collected)) cs stop).report
        ⟨.lex (.unknownEscape c), offset, stop⟩
  | .text collected, c :: cs, offset =>
    if c == '\x7b' then
      (interpolatedBody (.code (offset + 1) 0 []) cs (offset + 1)).pushText collected
    else if c == '"' || c == '\n' then Segments.pushText collected ⟨[], [], c :: cs, offset⟩
    else interpolatedBody (.text (c :: collected)) cs (offset + c.utf8Size)
  | .code start _ _, [], offset => ⟨[], [⟨.lex .openCode, start - 1, offset⟩], [], offset⟩
  | .code start depth collected, c :: cs, offset =>
    if c == '\x7d' then
      match depth with
      | 0 =>
        (interpolatedBody (.text []) cs (offset + 1)).push
          (.code (String.ofList collected.reverse) start)
      | depth + 1 => interpolatedBody (.code start depth (c :: collected)) cs (offset + 1)
    else if c == '"' || c == '\n' then
      ⟨[], [⟨.lex .openCode, start - 1, offset⟩], c :: cs, offset⟩
    else
      let depth := if c == '\x7b' then depth + 1 else depth
      interpolatedBody (.code start depth (c :: collected)) cs (offset + c.utf8Size)

/-- One step of the reader: a lexeme or none, the problems met, and what is left. -/
structure Step where
  lexeme : Option Lexeme
  problems : List Problem
  cursor : Cursor

def Step.token (token : Token) (start stop : Nat) (rest : List Char) : Step :=
  ⟨some ⟨token, start, stop⟩, [], rest, stop⟩

def Step.problem (problem : LexProblem) (start stop : Nat) (rest : List Char) : Step :=
  ⟨none, [⟨.lex problem, start, stop⟩], rest, stop⟩

/-- Digits, and more digits behind a point. A point that no digit follows is not part of the
number. -/
def number (cs : List Char) (offset : Nat) : Step :=
  let whole := cs.takeWhile Char.isDigit
  let rest := cs.dropWhile Char.isDigit
  match rest with
  | '.' :: d :: more =>
    if d.isDigit then
      let fraction := (d :: more).takeWhile Char.isDigit
      let stop := offset + whole.length + 1 + fraction.length
      .token (.number (Number.ofDigits whole fraction)) offset stop
        ((d :: more).dropWhile Char.isDigit)
    else .token (.number (Number.ofDigits whole [])) offset (offset + whole.length) rest
  | _ => .token (.number (Number.ofDigits whole [])) offset (offset + whole.length) rest

def word (cs : List Char) (offset : Nat) : Step :=
  let name := cs.takeWhile isWordChar
  .token (.ofWord (String.ofList name)) offset (offset + name.length) (cs.dropWhile isWordChar)

def string (cs : List Char) (start : Nat) : Step :=
  let body := stringBody cs (start + 1)
  let (cursor, unclosed) := closeString start body.cursor
  ⟨some ⟨.str (String.ofList body.text), start, cursor.offset⟩, body.problems ++ unclosed, cursor⟩

def interpolated (cs : List Char) (start : Nat) : Step :=
  let body := interpolatedBody (.text []) cs (start + 2)
  let (cursor, unclosed) := closeString start body.cursor
  ⟨some ⟨.interpolated body.segments, start, cursor.offset⟩, body.problems ++ unclosed, cursor⟩

/-- The token of a character that is a token by itself. -/
def single? : Char → Option Token
  | '(' => some .lparen
  | ')' => some .rparen
  | '\x7b' => some .lbrace
  | '\x7d' => some .rbrace
  | '[' => some .lbracket
  | ']' => some .rbracket
  | ',' => some .comma
  | '.' => some .dot
  | ':' => some .colon
  | ';' => some .semicolon
  | '*' => some .star
  | '/' => some .slash
  | '%' => some .percent
  | '+' => some .plus
  | '-' => some .minus
  | '<' => some .lt
  | '>' => some .gt
  | '!' => some .bang
  | '=' => some .eq
  | _ => none

/-- The token of two characters. It is preferred to the token of the first one. -/
def double? : Char → Char → Option Token
  | '+', '+' => some .plusPlus
  | '-', '-' => some .minusMinus
  | '<', '=' => some .le
  | '>', '=' => some .ge
  | '!', '=' => some .ne
  | '=', '=' => some .eqEq
  | '=', '>' => some .fatArrow
  | '|', '|' => some .or
  | '&', '&' => some .and
  | _, _ => none

/-- One step at the character `c`. -/
def step (c : Char) (cs : List Char) (offset : Nat) : Step :=
  match cs.head?.bind (double? c) with
  | some token => .token token offset (offset + 2) (cs.drop 1)
  | none =>
    match single? c with
    | some token => .token token offset (offset + 1) cs
    | none =>
      if c == '|' then .problem .loneBar offset (offset + 1) cs
      else if c == '&' then .problem .loneAmpersand offset (offset + 1) cs
      else if c == '$' && cs.head? == some '"' then interpolated (cs.drop 1) offset
      else if c == '"' then string cs offset
      else if c.isDigit then number (c :: cs) offset
      else if isWordStart c then word (c :: cs) offset
      else .problem (.strayCharacter c) offset (offset + c.utf8Size) cs

/-- Lexemes and problems from a cursor on. Every step takes a character, so a budget of one more
than the length of the script is never used up. -/
def run : Nat → Cursor → List Lexeme × List Problem
  | 0, _ => ([], [])
  | budget + 1, cursor =>
    let (cursor, open?) := skipGap .blank cursor.rest cursor.offset
    match cursor.rest with
    | [] => ([⟨.eof, cursor.offset, cursor.offset⟩], open?.toList)
    | c :: cs =>
      let step := step c cs cursor.offset
      let (lexemes, problems) := run budget step.cursor
      (step.lexeme.toList ++ lexemes, open?.toList ++ step.problems ++ problems)

/-- The lexemes of a piece of a script that starts at byte `base` of the whole. The last one is the
end of the piece. -/
def scan (source : String) (base : Nat) : Except (List Problem) (List Lexeme) :=
  let chars := source.toList
  match run (chars.length + 1) ⟨chars, base⟩ with
  | (lexemes, []) => .ok lexemes
  | (_, problems) => .error problems

end HostScript.Lexer
