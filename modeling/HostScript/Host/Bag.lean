import HostScript.World

/-!
# A host of bags

A small host whose objects are bags of named fields and indexed entries. The code of a member
reads or writes a field, runs a simple routine, or reads and writes the entries.
-/

namespace HostScript

structure Bag where
  fields : OrderedMap String Value := {}
  entries : OrderedMap String Value := {}

namespace Bag

/-- What a method or function does with its arguments. -/
inductive Routine where
  | fail (message : String)
  /-- Give back an argument, or null if there is none. -/
  | arg (index : Nat)
  /-- The name and the displayed arguments. -/
  | call
  /-- The sum of the arguments that are numbers. -/
  | sum
  /-- The type names of the arguments. -/
  | kinds
  | get (field : String)
  | set (field : String)
  | const (value : Value)

/-- The code of a member. -/
inductive Code where
  /-- A field; a setter that always fails has the message with which it fails. -/
  | field (name : String) (setFails : Option String)
  | routine (name : String) (body : Routine)
  | entries

/-- The objects of the host. An object that is not a bag has no content. -/
abbrev Store := Array (Option Bag)

abbrev Action := HostAction Store

/-- The bag of an object. The host calls its kind of data by the name `dataName`. -/
def bagOf (dataName : String) (object : HostObject) : Action Bag := do
  match (← get)[object.ref]?.join with
  | some bag => return bag
  | none => throw ("receiver is not a " ++ dataName)

def setBag (object : HostObject) (bag : Bag) : Action Unit :=
  modify fun bags => bags.setIfInBounds object.ref (some bag)

def setField (bag : Bag) (object : HostObject) (name : String) (value : Value) : Action Unit :=
  setBag object { bag with fields := bag.fields.insert name value }

def sumOf (args : List Value) : Float :=
  args.foldl (fun total v => (v.number?.map (total + ·)).getD total) 0.0

/-- Run a routine on a receiver. A function has no receiver and so no fields. -/
def runRoutine (receiver : Option (HostObject × Bag)) (name : String) (args : List Value) :
    Routine → Action Value
  | .fail message => throw message
  | .arg index => return args[index]?.getD .null
  | .call => do
    let h ← read
    return .str (name ++ "(" ++ String.intercalate ", " (args.map (·.display h)) ++ ")")
  | .sum => return .number (sumOf args)
  | .kinds => return .str (String.intercalate "," (args.map Value.typeName))
  | .get field => return (receiver.bind fun (_, bag) => bag.fields.get? field).getD .null
  | .set field =>
    match receiver with
    | none => return .null
    | some (object, bag) => do
      setField bag object field (args.head?.getD .null)
      return .null
  | .const value => return value

/-- The code that members name by their place in a table. -/
def hostCode (dataName : String) (table : Array Code) : HostCode Store where
  read code object := do
    let bag ← bagOf dataName object
    match table[code]? with
    | some (.field name _) => return (bag.fields.get? name).getD .null
    | _ => return .null
  write code object value := do
    let bag ← bagOf dataName object
    match table[code]? with
    | some (.field _ (some message)) => throw message
    | some (.field name none) => setField bag object name value
    | _ => return
  invoke code object args := do
    let bag ← bagOf dataName object
    match table[code]? with
    | some (.routine name body) => runRoutine (some (object, bag)) name args body
    | _ => return .null
  call code args :=
    match table[code]? with
    | some (.routine name body) => runRoutine none name args body
    | _ => return .null
  readIndex _ object key := do
    let bag ← bagOf dataName object
    let text := key.display (← read)
    match bag.entries.get? text with
    | some value => return value
    | none => throw ("no entry for " ++ text)
  writeIndex _ object key value := do
    let bag ← bagOf dataName object
    let text := key.display (← read)
    setBag object { bag with entries := bag.entries.insert text value }

end Bag

end HostScript
