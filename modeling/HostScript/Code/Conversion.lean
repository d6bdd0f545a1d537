import HostScript.Code.Tables

/-!
# Conversions between representations

Code that turns the top of the stack from one representation into another. A value that becomes
one of any kind escapes: the closures it can reach may be called with arguments of any kind, so
their generic entries need code.
-/

namespace HostScript

namespace Tables

/-- The closures of a lambda shape escape. -/
def escapeLambda (lambda : ShapeId) (t : Tables) : Tables :=
  if t.escaped.contains lambda then t
  else
    let t := { t with escaped := t.escaped ++ [lambda] }
    match t.functionOf.get? (lambda, .generic) with
    | some function => { t with jobs := t.jobs ++ [{ function, lambda, entry := .generic }] }
    | none => t

/-- Everything that can be reached from a value escapes. Each layout is searched once, so the number
of layouts is budget enough. -/
def escapeWith (layouts : Layouts) : Nat → Rep → Tables → Tables
  | 0, _, t => t
  | budget + 1, rep, t =>
    match rep with
    | .closure lambda => t.escapeLambda lambda
    | .record layout =>
      if t.searched.contains rep then t
      else
        (layouts.fields layout).foldl (fun t (_, field) => escapeWith layouts budget field t)
          { t with searched := rep :: t.searched }
    | .array layout =>
      if t.searched.contains rep then t
      else
        escapeWith layouts budget (layouts.element layout) { t with searched := rep :: t.searched }
    | _ => t

def escape (layouts : Layouts) (rep : Rep) (t : Tables) : Tables :=
  escapeWith layouts (layouts.records.size + layouts.arrays.size + 1) rep t

end Tables

namespace Generate

/-- Turn a value of a known representation into one of any kind. -/
def erase (b : Body) (given : Rep) : Generate (List Op) := do
  modify (Tables.escape b.layouts given)
  return if given.isUnboxed then [.wrap] else []

/-- Check that a value of any kind has a representation. -/
def check (wanted : Rep) (label : String) : Generate (List Op) := do
  return [.check wanted (← name label)]

/-- Turn a value of one representation into another. -/
def convert (b : Body) (given wanted : Rep) (label : String) : Generate (List Op) := do
  if given = wanted then
    return []
  match given, wanted with
  | _, .any => erase b given
  | .any, _ => check wanted label
  | _, _ =>
    let erased ← erase b given
    return erased ++ (← check wanted label)

/-- Turn a value into one that the host takes as a type. -/
def hostValue (b : Body) (ty : TypeRef) (given : Rep) (label : String) : Generate (List Op) := do
  match ty with
  | .number kind =>
    let ops ← convert b given .num label
    return if kind = .f64 then ops else ops ++ [.narrow kind]
  | _ => convert b given ty.rep label

/-- The code of a fragment with its value in the wanted representation. -/
def as (b : Body) (f : Fragment) (wanted : Rep) (label : String) : Generate (List Op) := do
  return f.ops ++ (← convert b f.rep wanted label)

end Generate

end HostScript
