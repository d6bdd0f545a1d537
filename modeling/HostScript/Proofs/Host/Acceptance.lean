import HostScript.Analysis.Access
import HostScript.Operator

/-!
# What the host takes

Analysis decides by shape whether the host takes a value as a type, and a run decides by value when
the shape is not known. The two agree on every type that a member can be registered with, apart from
three that a run does not check: functions, null and void.
-/

namespace HostScript

/-- The values of a shape about which something is known. Null is of no such shape. -/
inductive Value.HasShape : Value → Shape → Prop
  | number (n : Float) : HasShape (.number n) (.concrete .number)
  | bool (b : Bool) : HasShape (.bool b) (.concrete .bool)
  | str (s : String) : HasShape (.str s) (.concrete .string)
  | host (object : HostObject) : HasShape (.host object) (.concrete (.host object.typeId))
  | record (r : RecordRef) (fields : OrderedMap String ShapeId) (origins : List NodeId) :
      HasShape (.record r) (.record fields origins)
  | array (a : ArrayRef) (element : ShapeId) (origins : List NodeId) :
      HasShape (.array a) (.array element origins)
  | closure (c : ClosureRef) (l : LambdaShape) : HasShape (.closure c) (.lambda l)
  | method (m : MethodRef) (member : Member) : HasShape (.method m) (.hostMethod member)

theorem Value.HasShape.ne_null {v : Value} {shape : Shape} (h : v.HasShape shape) : v ≠ .null := by
  cases h <;> exact Value.noConfusion

namespace TypeRef

/-- The types for which a run takes every value. -/
def isUnchecked : TypeRef → Bool
  | function | null | void => true
  | _ => false

/-- The types that are not made from others. -/
def isSimple : TypeRef → Bool
  | generic .. | pointer _ => false
  | _ => true

/-- A run takes the value as a type. -/
def Takes (ty : TypeRef) (target : String) (v : Value) : Prop :=
  ∃ u, ty.coerce target v = .ok u

variable {arena : Arena} {x : ShapeId} {v : Value} {ty : TypeRef}

theorem takes_iff_of_isSimple (hty : ty.isSimple = true) (hv : v.HasShape (arena.resolved x))
    (target : String) :
    ty.Takes target v ↔ ty.accepts arena x = true ∨ ty.isUnchecked = true := by
  generalize hshape : arena.resolved x = shape at hv
  cases ty with
  | generic | pointer => cases hty
  | host id =>
    cases hv with
    | host object =>
      by_cases hid : object.typeId = id <;> simp [Takes, coerce, coerce.mismatch, accepts,
        isUnchecked, Arena.isDynamic, Arena.is, Arena.concrete?, hshape, hid]
    | _ => simp [Takes, coerce, coerce.mismatch, accepts, isUnchecked, Arena.isDynamic, Arena.is,
        Arena.concrete?, hshape]
  | _ =>
    cases hv <;> simp [Takes, coerce, coerce.mismatch, accepts, isUnchecked, Arena.isDynamic,
      Arena.is, Arena.concrete?, hshape]

/-- Lists and iterables take arrays of every kind, at run time as in analysis. -/
theorem takes_iff_of_generic {container : Container} (hc : container = .list ∨ container = .iterable)
    (args : List TypeRef) (hv : v.HasShape (arena.resolved x)) (target : String) :
    (generic container args).Takes target v ↔ (generic container args).accepts arena x = true := by
  generalize hshape : arena.resolved x = shape at hv
  rcases hc with rfl | rfl <;> cases hv <;>
    simp [Takes, coerce, coerce.mismatch, accepts, hshape]

/-- A value that is not null is taken as a nullable type if it is taken as the type itself. -/
theorem takes_nullable_iff (hv : v ≠ .null) (inner : TypeRef) (target : String) :
    (generic .nullable [inner]).Takes target v ↔ inner.Takes target v := by
  have hcoerce : (generic .nullable [inner]).coerce target v = inner.coerce target v := by
    rw [coerce]
    exact hv
  rw [Takes, hcoerce, Takes]

/-- For a type that a member can be registered with, a run takes a value of a known shape if and
only if analysis accepts the shape or the type is one that runs do not check. -/
theorem takes_iff_accepts {validate : HostTypeId → Registry.Register Unit} {owner : String}
    {r r' : Registry} (hty : Registry.checkType validate owner ty r = .ok () r')
    (hv : v.HasShape (arena.resolved x)) (target : String) :
    ty.Takes target v ↔ ty.accepts arena x = true ∨ ty.isUnchecked = true := by
  rw [Registry.checkType.eq_def] at hty
  split at hty
  case h_2 inner | h_3 inner =>
    rw [takes_iff_of_generic (by simp) _ hv]
    simp [isUnchecked]
  case h_4 | h_5 =>
    rw [takes_nullable_iff hv.ne_null, takes_iff_of_isSimple rfl hv]
    simp [accepts, isUnchecked]
  case h_1 | h_6 => cases hty
  case h_7 => exact takes_iff_of_isSimple rfl hv target
  case h_8 =>
    refine takes_iff_of_isSimple ?_ hv target
    cases ty <;> simp_all [isSimple]

theorem takes_iff_accepts_nullable :
    Registry.checkType (fun _ => pure ()) "Order" (generic .nullable [bool]) { naming := .exact } =
        .ok () { naming := .exact } ∧
      (Value.str "yes").HasShape (Arena.resolved {} Arena.string) ∧
      ((generic .nullable [bool]).Takes "Order.Flag" (.str "yes") ↔
        (generic .nullable [bool]).accepts {} Arena.string = true ∨
          (generic .nullable [bool]).isUnchecked = true) :=
  have hty : Registry.checkType (fun _ => pure ()) "Order" (generic .nullable [bool])
      { naming := .exact } = .ok () { naming := .exact } := rfl
  ⟨hty, .str "yes", takes_iff_accepts hty (.str "yes") "Order.Flag"⟩

/-- A value that analysis refuses as a function passes at run time. -/
theorem bool_taken_as_function :
    Registry.checkType (fun _ => pure ()) "Order" .function { naming := .exact } =
        .ok () { naming := .exact } ∧
      (Value.bool true).HasShape (Arena.resolved {} Arena.bool) ∧
      TypeRef.function.accepts {} Arena.bool = false ∧
      TypeRef.function.coerce "Order.Fn" (.bool true) = .ok (.bool true) :=
  ⟨rfl, .bool true, rfl, rfl⟩

end TypeRef

end HostScript
