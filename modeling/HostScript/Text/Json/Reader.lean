/-!
# Reading JSON

`Document.read?` accepts exactly the texts of the JSON grammar. Escapes may name half of a surrogate
pair on its own: such a string is well formed but has no text.
-/

namespace HostScript.Text

/-- A document as it was read. Numbers keep their spelling. -/
inductive Document where
  | null
  | bool (value : Bool)
  | number (spelling : List Char)
  | str (text : Option String)
  | array (items : List Document)
  | object (members : List (Option String × Document))

namespace Document

def isBlank (c : Char) : Bool :=
  c == ' ' || c == '\t' || c == '\n' || c == '\r'

def skipBlanks (cs : List Char) : List Char :=
  cs.dropWhile isBlank

def hexValue? (c : Char) : Option Nat :=
  if c.isDigit then some (c.toNat - '0'.toNat)
  else if 'a' ≤ c && c ≤ 'f' then some (c.toNat - 'a'.toNat + 10)
  else if 'A' ≤ c && c ≤ 'F' then some (c.toNat - 'A'.toNat + 10)
  else none

def hexQuad? (a b c d : Char) : Option Nat := do
  let a ← hexValue? a
  let b ← hexValue? b
  let c ← hexValue? c
  let d ← hexValue? d
  return ((a * 16 + b) * 16 + c) * 16 + d

def plainEscape? : Char → Option Char
  | '"' => some '"'
  | '\\' => some '\\'
  | '/' => some '/'
  | 'b' => some '\x08'
  | 'f' => some '\x0c'
  | 'n' => some '\n'
  | 'r' => some '\r'
  | 't' => some '\t'
  | _ => none

/-- The code units of a string up to its closing quote, and what follows. Characters beyond the
first plane count as one unit of their own. -/
def stringUnits? : List Char → Option (List Nat × List Char)
  | '"' :: rest => some ([], rest)
  | '\\' :: 'u' :: a :: b :: c :: d :: rest => do
    let unit ← hexQuad? a b c d
    let (units, rest) ← stringUnits? rest
    return (unit :: units, rest)
  | '\\' :: c :: rest => do
    let c ← plainEscape? c
    let (units, rest) ← stringUnits? rest
    return (c.toNat :: units, rest)
  | c :: rest =>
    if c.toNat < 32 then none
    else do
      let (units, rest) ← stringUnits? rest
      return (c.toNat :: units, rest)
  | [] => none

def isHighHalf (n : Nat) : Bool := 0xD800 ≤ n && n < 0xDC00

def isLowHalf (n : Nat) : Bool := 0xDC00 ≤ n && n < 0xE000

/-- Join surrogate pairs. A half on its own stands for no character. -/
def joinUnits? : List Nat → Option (List Char)
  | high :: low :: units =>
    if isHighHalf high then
      if isLowHalf low then
        let code := 0x10000 + (high - 0xD800) * 0x400 + (low - 0xDC00)
        (joinUnits? units).map (Char.ofNat code :: ·)
      else none
    else if isLowHalf high then none
    else (joinUnits? (low :: units)).map (Char.ofNat high :: ·)
  | [unit] => if isHighHalf unit || isLowHalf unit then none else some [Char.ofNat unit]
  | [] => some []

def string? (cs : List Char) : Option (Option String × List Char) := do
  let (units, rest) ← stringUnits? cs
  return ((joinUnits? units).map String.ofList, rest)

/-- Digits, at least one. -/
def digits? (cs : List Char) : Option (List Char × List Char) :=
  match cs.takeWhile Char.isDigit with
  | [] => none
  | ds => some (ds, cs.dropWhile Char.isDigit)

/-- A zero, or digits that start with none. -/
def whole? : List Char → Option (List Char × List Char)
  | '0' :: rest =>
    match rest with
    | c :: _ => if c.isDigit then none else some (['0'], rest)
    | [] => some (['0'], rest)
  | cs => digits? cs

def fraction? : List Char → Option (List Char × List Char)
  | '.' :: rest => do
    let (ds, rest) ← digits? rest
    return ('.' :: ds, rest)
  | cs => some ([], cs)

def power? : List Char → Option (List Char × List Char)
  | e :: rest =>
    if e == 'e' || e == 'E' then
      match rest with
      | sign :: rest' =>
        if sign == '+' || sign == '-' then do
          let (ds, rest) ← digits? rest'
          return (e :: sign :: ds, rest)
        else do
          let (ds, rest) ← digits? rest
          return (e :: ds, rest)
      | [] => none
    else some ([], e :: rest)
  | [] => some ([], [])

def number? (cs : List Char) : Option (List Char × List Char) := do
  let (sign, cs) := match cs with
    | '-' :: rest => (['-'], rest)
    | _ => ([], cs)
  let (whole, cs) ← whole? cs
  let (fraction, cs) ← fraction? cs
  let (power, cs) ← power? cs
  return (sign ++ whole ++ fraction ++ power, cs)

mutual

/-- One document after optional blanks. Every second step takes a character, so a budget of twice
the length of the text is never used up. -/
def value? : Nat → List Char → Option (Document × List Char)
  | 0, _ => none
  | budget + 1, cs =>
    match skipBlanks cs with
    | 'n' :: 'u' :: 'l' :: 'l' :: rest => some (null, rest)
    | 't' :: 'r' :: 'u' :: 'e' :: rest => some (bool true, rest)
    | 'f' :: 'a' :: 'l' :: 's' :: 'e' :: rest => some (bool false, rest)
    | '"' :: rest => do
      let (text, rest) ← string? rest
      return (str text, rest)
    | '[' :: rest =>
      match skipBlanks rest with
      | ']' :: rest => some (array [], rest)
      | rest => do
        let (items, rest) ← items? budget rest
        return (array items, rest)
    | '\x7b' :: rest =>
      match skipBlanks rest with
      | '\x7d' :: rest => some (object [], rest)
      | rest => do
        let (members, rest) ← members? budget rest
        return (object members, rest)
    | rest => do
      let (spelling, rest) ← number? rest
      return (number spelling, rest)

/-- Items up to the closing bracket. -/
def items? : Nat → List Char → Option (List Document × List Char)
  | 0, _ => none
  | budget + 1, cs => do
    let (item, rest) ← value? budget cs
    match skipBlanks rest with
    | ']' :: rest => return ([item], rest)
    | ',' :: rest => do
      let (items, rest) ← items? budget rest
      return (item :: items, rest)
    | _ => none

/-- Members up to the closing brace. -/
def members? : Nat → List Char → Option (List (Option String × Document) × List Char)
  | 0, _ => none
  | budget + 1, cs =>
    match skipBlanks cs with
    | '"' :: rest => do
      let (name, rest) ← string? rest
      match skipBlanks rest with
      | ':' :: rest => do
        let (value, rest) ← value? budget rest
        match skipBlanks rest with
        | '\x7d' :: rest => return ([(name, value)], rest)
        | ',' :: rest => do
          let (members, rest) ← members? budget rest
          return ((name, value) :: members, rest)
        | _ => none
      | _ => none
    | _ => none

end

/-- The document that a whole text spells. -/
def read? (text : String) : Option Document := do
  let cs := text.toList
  let (document, rest) ← value? (2 * cs.length + 2) cs
  if (skipBlanks rest).isEmpty then return document else none

end Document

end HostScript.Text
