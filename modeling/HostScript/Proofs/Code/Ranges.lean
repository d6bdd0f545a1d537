import HostScript.Proofs.Code.Depths
import HostScript.Proofs.Code.Tables
import HostScript.Proofs.Layout

/-!
# Operands in range

The operands of operations are places in the tables of the code, slots of the function and captures
of the closure it was entered with. Checked code has depths that fit and operands that are in range.
-/

namespace HostScript

/-- The layout of a representation is one of those there are. -/
def Rep.InRange (records arrays : Nat) : Rep → Prop
  | record layout => layout < records
  | array layout => layout < arrays
  | _ => True

/-- What the operands of a function may refer to. -/
structure Bounds where
  code : Code
  /-- The number of local slots. -/
  locals : Nat
  /-- The number of cells that the closure has. -/
  captures : Nat

def CaptureSource.InRange (locals captures : Nat) : CaptureSource → Prop
  | .local slot => slot < locals
  | .outer index => index < captures

/-- The operands of an operation refer to something. A closure finds its cells where it is made, and
an entry is called with as many arguments as it has parameters. -/
def Op.InRange (v : Bounds) : Op → Prop
  | pushNum index => index < v.code.numbers.size
  | pushStr index => index < v.code.strings.size
  | loadLocal slot | storeLocal slot | makeCell slot | loadCell slot | storeCell slot =>
    slot < v.locals
  | loadCapture index | storeCapture index => index < v.captures
  | check rep label =>
    rep.InRange v.code.records.size v.code.arrays.size ∧ label < v.code.names.size
  | dynGetMember name | dynSetMember name | dynCallMember name _ => name < v.code.names.size
  | newRecord layout => layout < v.code.records.size
  | newArray layout _ => layout < v.code.arrays.size
  | getField index | setField index => ∃ layout ∈ v.code.records, index < layout.fields.length
  | getHost member | setHost member | callHost member _ | callStatic member _ | getHostIndex member
  | setHostIndex member | bindMethod member => member < v.code.members.size
  | makeClosure template =>
    ∃ found, v.code.templates[template]? = some found ∧
      ∀ source ∈ found.captures, source.InRange v.locals v.captures
  | callEntry function args =>
    ∃ found, v.code.functions[function]? = some found ∧ found.arity = args
  | _ => True

theorem CaptureSource.InRange.mono {source : CaptureSource} {locals locals' captures : Nat}
    (h : source.InRange locals captures) (hle : locals ≤ locals') :
    source.InRange locals' captures := by
  cases source with
  | «local» slot => exact Nat.lt_of_lt_of_le h hle
  | outer index => exact h

/-! ### Checked code -/

/-- From depth `d`, the code leads to its end with depth `e`, and its operands are in range. -/
structure Checked (v : Bounds) (start : Nat) (ops : List Op) (d e : Nat) : Prop where
  moves : Moves start ops d e
  ranges : ∀ op ∈ ops, op.InRange v

/-- Wherever the stack ends below them, the code takes `m` slots and leaves `n`. -/
def Takes (v : Bounds) (start : Nat) (ops : List Op) (m n : Nat) : Prop :=
  ∀ d, Checked v start ops (d + m) (d + n)

variable {v : Bounds} {start d e f k m n : Nat} {op : Op} {ops xs ys : List Op}

namespace Checked

theorem append (hx : Checked v start xs d e) (hy : Checked v (start + xs.length) ys e f) :
    Checked v start (xs ++ ys) d f := by
  refine ⟨hx.moves.append hy.moves, fun op hop => ?_⟩
  rcases List.mem_append.mp hop with hop | hop
  · exact hx.ranges op hop
  · exact hy.ranges op hop

theorem nil (v : Bounds) (start d : Nat) : Checked v start [] d d :=
  ⟨moves_nil start d, fun _ hop => absurd hop List.not_mem_nil⟩

theorem ret (v : Bounds) (start e : Nat) : Checked v start [.ret] 1 e := by
  refine ⟨moves_ret start e, fun op hop => ?_⟩
  rw [List.mem_singleton.mp hop]
  trivial

theorem skip (condition : Bool) (h : Checked v (start + 1) ops d d) :
    Checked v start (.jumpIf condition (start + 1 + ops.length) :: ops) (d + 1) d := by
  refine ⟨h.moves.skip condition, fun op hop => ?_⟩
  rcases List.mem_cons.mp hop with rfl | hop
  · trivial
  · exact h.ranges op hop

theorem choose (condition : Bool) (hx : Checked v (start + 1) xs d e)
    (hy : Checked v (start + 1 + xs.length + 1) ys d e) :
    Checked v start (.jumpIf condition (start + 1 + xs.length + 1) :: xs ++
      .jump (start + 1 + xs.length + 1 + ys.length) :: ys) (d + 1) e := by
  refine ⟨hx.moves.choose condition hy.moves, fun op hop => ?_⟩
  simp only [List.cons_append, List.mem_cons, List.mem_append] at hop
  rcases hop with rfl | hop | rfl | hop
  · trivial
  · exact hx.ranges op hop
  · trivial
  · exact hy.ranges op hop

theorem loop (hx : Checked v start xs d (d + 1))
    (hy : Checked v (start + xs.length + 1) ys d d) :
    Checked v start (xs ++ .jumpIf false (start + xs.length + 1 + ys.length + 1) :: ys ++
      [.jump start]) d d := by
  refine ⟨hx.moves.loop hy.moves, fun op hop => ?_⟩
  simp only [List.mem_cons, List.mem_append, List.not_mem_nil, or_false] at hop
  rcases hop with (hop | rfl | hop) | rfl
  · exact hx.ranges op hop
  · trivial
  · exact hy.ranges op hop
  · trivial

theorem forever (h : Checked v start ops d d) : Checked v start (ops ++ [.jump start]) d e := by
  refine ⟨h.moves.forever, fun op hop => ?_⟩
  rcases List.mem_append.mp hop with hop | hop
  · exact h.ranges op hop
  · rw [List.mem_singleton.mp hop]
    trivial

end Checked

theorem takes_op (hnext : op.next start = [start + 1]) (h : op.InRange v) :
    Takes v start [op] op.pops op.pushes := by
  intro d
  have hafter : op.after (d + op.pops) = d + op.pushes := by
    rw [Op.after]
    omega
  refine ⟨hafter ▸ moves_op hnext (Nat.le_add_left _ _), fun op' hop => ?_⟩
  rw [List.mem_singleton.mp hop]
  exact h

namespace Takes

theorem nil (v : Bounds) (start n : Nat) : Takes v start [] n n :=
  fun d => .nil v start (d + n)

theorem append (hx : Takes v start xs m n) (hy : Takes v (start + xs.length) ys n k) :
    Takes v start (xs ++ ys) m k :=
  fun d => (hx d).append (hy d)

/-- Code does the same above more slots. -/
theorem above (h : Takes v start ops m n) (k : Nat) : Takes v start ops (k + m) (k + n) := by
  intro d
  rw [← Nat.add_assoc, ← Nat.add_assoc]
  exact h (d + k)

theorem snoc (h : Takes v start xs m op.pops)
    (hnext : op.next (start + xs.length) = [start + xs.length + 1]) (hop : op.InRange v) :
    Takes v start (xs ++ [op]) m op.pushes :=
  h.append (takes_op hnext hop)

theorem cons (hnext : op.next start = [start + 1]) (hop : op.InRange v)
    (h : Takes v (start + 1) xs op.pushes n) : Takes v start (op :: xs) op.pops n :=
  (takes_op hnext hop).append h

theorem checked (h : Takes v start ops m n) : Checked v start ops m n := by
  have hzero := h 0
  rwa [Nat.zero_add, Nat.zero_add] at hzero

end Takes

/-- From an empty stack, the code never gets to its end, and its operands are in range. -/
structure Ends (v : Bounds) (start : Nat) (ops : List Op) : Prop where
  closes : Closes start ops 0
  ranges : ∀ op ∈ ops, op.InRange v
  nonempty : ops ≠ []

namespace Ends

theorem of_checked (hx : Checked v start xs 0 d) (hy : Closes (start + xs.length) ys d)
    (hranges : ∀ op ∈ ys, op.InRange v) (hne : ys ≠ []) : Ends v start (xs ++ ys) := by
  refine ⟨hx.moves.closes hy hne, fun op hop => ?_, List.append_ne_nil_of_right_ne_nil xs hne⟩
  rcases List.mem_append.mp hop with hop | hop
  · exact hx.ranges op hop
  · exact hranges op hop

theorem ret (h : Checked v start ops 0 1) : Ends v start (ops ++ [.ret]) := by
  refine of_checked h (closes_ret _) (fun op hop => ?_) (List.cons_ne_nil _ _)
  rw [List.mem_singleton.mp hop]
  trivial

theorem unreachable (h : Checked v start ops 0 d) : Ends v start (ops ++ [.unreachable]) := by
  refine of_checked h (closes_unreachable _ _) (fun op hop => ?_) (List.cons_ne_nil _ _)
  rw [List.mem_singleton.mp hop]
  trivial

theorem after (hx : Checked v start xs 0 0) (hy : Ends v (start + xs.length) ys) :
    Ends v start (xs ++ ys) :=
  of_checked hx hy.closes hy.ranges hy.nonempty

end Ends

/-! ### Layouts -/

theorem Shape.directRep_inRange (id : ShapeId) (shape : Shape) (records arrays : Nat) :
    (shape.directRep id).InRange records arrays := by
  cases shape with
  | concrete c => cases c <;> trivial
  | _ => trivial

theorem TypeRef.rep_inRange (ty : TypeRef) (records arrays : Nat) :
    ty.rep.InRange records arrays := by
  cases ty <;> trivial

namespace Layouts

abbrev Holds (l : Layouts) (rep : Rep) : Prop :=
  rep.InRange l.records.size l.arrays.size

/-- All representations in the layouts have layouts themselves. -/
structure Closed (l : Layouts) : Prop where
  reps : ∀ {shape rep}, l.reps.get? shape = some rep → l.Holds rep
  fields : ∀ {i : Nat} {fields}, l.records[i]? = some fields → ∀ field ∈ fields, l.Holds field.2
  elements : ∀ {i : Nat} {rep}, l.arrays[i]? = some rep → l.Holds rep

variable {l : Layouts}

/-- What is said of a shape's entries holds of layouts, as the shape of a layout is known. -/
theorem closed_ofAnalysis (a : Analysis) : (ofAnalysis a).Closed := by
  rw [ofAnalysis_eq]
  generalize a.layers.shapes = xs
  have hsound : (ofRequests a.arena xs).Sound a.arena _ [] := sound_ofRequests
  generalize ofRequests a.arena xs = l at hsound
  have hreps {id : ShapeId} {rep : Rep} (hid : l.reps.get? id = some rep) : l.Holds rep := by
    have hcontent := hsound.content hid
    cases rep <;> simp_all [content?, Holds, Rep.InRange]
  have hrep (x : ShapeId) : l.Holds (l.rep a.arena x) := by
    rw [Layouts.rep]
    split
    next hid => exact hreps hid
    next => exact Shape.directRep_inRange _ _ _ _
  have hcontent {rep : Rep} {fields : List (String × Rep)} (h : l.content? rep = some fields) :
      ∀ field ∈ fields, l.Holds field.2 := by
    obtain ⟨id, -, rfl⟩ := hsound.described_of_content? h
    intro field hmem
    obtain ⟨entry, -, rfl⟩ := List.mem_map.mp hmem
    exact hrep entry.2
  refine ⟨hreps, fun {i fields} hi => hcontent (show l.content? (.record i) = some fields from hi), fun {i rep} hi => ?_⟩
  have harray : l.content? (.array i) = some [("", rep)] := by rw [content?, hi]; rfl
  exact hcontent harray _ (List.mem_singleton_self _)

namespace Closed

theorem rep (h : l.Closed) (arena : Arena) (shape : ShapeId) : l.Holds (l.rep arena shape) := by
  rw [Layouts.rep]
  split
  next hrep => exact h.reps hrep
  next => exact Shape.directRep_inRange _ _ _ _

theorem element (h : l.Closed) (layout : Nat) : l.Holds (l.element layout) := by
  rw [Layouts.element]
  cases hi : l.arrays[layout]? with
  | some rep => exact h.elements hi
  | none => trivial

/-- A field that is found has a place in its record, and its representation has its layout. -/
theorem field (h : l.Closed) {layout : Nat} {name : String} {found : Nat × Rep}
    (hfound : l.field? layout name = some found) :
    l.Holds found.2 ∧ ∃ fields, l.records[layout]? = some fields ∧ found.1 < fields.length := by
  obtain ⟨i, hi, rfl⟩ := Option.map_eq_some_iff.mp hfound
  obtain ⟨hlt, _⟩ := List.findIdx?_eq_some_iff_getElem.mp hi
  rw [Layouts.fields] at hlt ⊢
  cases hrecord : l.records[layout]? with
  | none =>
    rw [hrecord] at hlt
    cases hlt
  | some fields =>
    rw [hrecord] at hlt
    have hlt : i < fields.length := hlt
    refine ⟨?_, fields, rfl, hlt⟩
    show l.Holds ((fields[i]?.map Prod.snd).getD .any)
    rw [List.getElem?_eq_getElem hlt]
    exact h.fields hrecord _ (List.getElem_mem hlt)

end Closed

end Layouts

end HostScript
