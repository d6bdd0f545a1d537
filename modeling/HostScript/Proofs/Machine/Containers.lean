import HostScript.Proofs.Machine.Ownership
import HostScript.Proofs.Scalar.Operations

/-!
# Operators, records and arrays

The operations that code generation selects for operands of known representations do what the
operations on values of any kind do. Operators depend on the kinds of their operands only. A typed
access to a record goes by the place of the field in the layout of the code, so it needs a heap that
the code owns.
-/

namespace HostScript

variable {σ : Type}

theorem Slot.carries_of_conforms {s : Slot} {h : Heap} {rep : Rep}
    (hs : s.value.conforms h rep = true) : s.Carries rep s.value := by
  refine ⟨rfl, fun hscalar => ?_⟩
  generalize s.value = v at hs
  cases rep with
  | num => cases v with
    | number x => exact ⟨x, rfl⟩
    | _ => cases hs
  | bool => cases v with
    | bool b => exact ⟨b, rfl⟩
    | _ => cases hs
  | str => cases v with
    | str t => exact ⟨t, rfl⟩
    | _ => cases hs
  | any => trivial
  | _ => cases hscalar

namespace Dynamic

variable {w : World σ} {v : Value} {rep : Rep} {target : String}

theorem store_ok (hv : v.conforms w.heap rep = true) : store target rep v w = .ok (v.box rep) w := by
  refine (run_heap_bind ..).trans ?_
  simp only [Value.slot?, hv, if_true]
  rfl

theorem getMember_record {env : Env σ} {r : RecordRef} {o : RecordObject} {name : String}
    {index : Nat} {slot : Slot} (ho : w.heap.records[r]? = some o)
    (hindex : o.layout.indexOf? name = some index) (hslot : o.fields[index]? = some slot) :
    getMember env (.record r) name w = .ok slot.value w := by
  have hfield : Value.field? w.heap name (.record r) = some slot.value := by
    rw [Value.field?, ho, Option.bind_some, hindex, Option.bind_some, hslot]
    rfl
  have hown : ownMember? (.record r) name w = .ok (some slot.value) w := by
    rw [← hfield]
    rfl
  exact (run_bind_ok hown).trans rfl

theorem position_cases (x : Float) (length : Nat) (w : World σ) :
    (∃ i, position x length w = .ok i w) ∨
      position x length w = .error (.indexOutOfRange x length) w := by
  unfold position
  cases Number.position? x length with
  | some i => exact .inl ⟨i, rfl⟩
  | none => exact .inr rfl

end Dynamic

namespace Machine

open Exec

variable {m : Setting σ} {w : World σ} {f : Frame} {ip index id : Nat} {st : List Slot}
  {receiver content key : Slot} {name target : String} {r : RecordRef} {a : ArrayRef}

/-! ### Operators -/

/-- The operation for an operator and two representations does what the operator does on values. -/
def OperatorsAgree (m : Setting σ) (w : World σ) : Prop :=
  ∀ ⦃op : BinOp⦄ ⦃l r : Rep⦄ ⦃left right : Slot⦄, left.value.conforms w.heap l = true →
    right.value.conforms w.heap r = true →
    Performs m w (Generate.binaryOp op l r).1 [right, left] (Generate.binaryOp op l r).2
      (op.eval w.heap left.value right.value)

theorem operators_agree (m : Setting σ) (w : World σ) : OperatorsAgree m w :=
  fun op _ _ _ _ hl hr =>
    performs_binaryOp op (Slot.carries_of_conforms hl) (Slot.carries_of_conforms hr)

/-! ### Outcomes -/

theorem agrees_pushed (slot : Slot) :
    Agrees (f.at ip st) st (fun v => [v]) (.ok (.next, f.at ip (slot :: st)) w) (.ok slot.value w) :=
  ⟨rfl, ⟨[slot], rfl, rfl⟩, .refl w⟩

theorem agrees_stored :
    Agrees (f.at ip st) st (fun _ : Unit => []) (.ok (.next, f.at ip st) w) (.ok () w) :=
  ⟨rfl, ⟨[], rfl, rfl⟩, .refl w⟩

theorem agrees_failed {α : Type} {given : α → List Value} {e e' : RuntimeError}
    (he : e'.code = e.code) : Agrees (f.at ip st) st given (.error e w) (.error e' w) :=
  ⟨he, .refl w⟩

/-! ### Taking objects from the stack -/

theorem popRecord_ok (h : receiver.value = .record r) :
    popRecord (f.at ip (receiver :: st)) w = .ok (r, f.at ip st) w := by
  refine (exec_bind_ok (popValue_at receiver)).trans ?_
  rw [h]
  rfl

theorem popRecord_null (h : receiver.value = .null) :
    popRecord (f.at ip (receiver :: st)) w = .error (.nullReference "field") w := by
  refine (exec_bind_ok (popValue_at receiver)).trans ?_
  rw [h]
  rfl

theorem popArray_ok {o : ArrayObject} (h : receiver.value = .array a)
    (ho : w.heap.arrays[a]? = some o) :
    popArray target (f.at ip (receiver :: st)) w = .ok ((a, o), f.at ip st) w := by
  refine (exec_bind_ok (popValue_at receiver)).trans ?_
  rw [h]
  refine (exec_bind_ok (rfl : heap (f.at ip st) w = .ok (w.heap, f.at ip st) w)).trans ?_
  rw [ho]
  rfl

theorem popArray_null (h : receiver.value = .null) :
    popArray target (f.at ip (receiver :: st)) w = .error (.nullReference target) w := by
  refine (exec_bind_ok (popValue_at receiver)).trans ?_
  rw [h]
  rfl

theorem pop_at (slot : Slot) : pop (f.at ip (slot :: st)) w = .ok (slot, f.at ip st) w :=
  rfl

theorem popNum_ok {x : Float} (h : key.value = .number x) :
    popNum (f.at ip (key :: st)) w = .ok (x, f.at ip st) w := by
  rcases Slot.eq_of_value_number h with rfl | rfl <;> rfl

/-! ### Fields -/

theorem getField_null (h : receiver.value = .null) :
    execute m (.getField index) (f.at ip (receiver :: st)) w =
      .error (.nullReference "field") w :=
  exec_bind_error (exec_bind_error (popRecord_null h))

/-- A place that the record does not have is found missing by the read only. -/
theorem getField_run {o : RecordObject} (h : receiver.value = .record r)
    (ho : w.heap.records[r]? = some o) :
    execute m (.getField index) (f.at ip (receiver :: st)) w = match o.fields[index]? with
      | some slot => .ok (.next, f.at ip (slot :: st)) w
      | none => .error (.internal .underflow) w := by
  show (getField index >>= fun _ => pure Flow.next : Exec σ Flow) _ _ = _
  simp only [getField, bind_assoc]
  rw [exec_bind_ok (popRecord_ok h)]
  refine (exec_bind_ok (rfl : heap (f.at ip st) w = .ok (w.heap, f.at ip st) w)).trans ?_
  rw [ho, Option.bind_some]
  cases o.fields[index]? <;> rfl

/-- Reading a field by its place in the layout and by its name. -/
def FieldsAgree (m : Setting σ) (w : World σ) : Prop :=
  ∀ ⦃f : Frame⦄ ⦃ip : Nat⦄ ⦃st : List Slot⦄ ⦃receiver : Slot⦄ ⦃id index : Nat⦄
    ⦃layout : RecordLayout⦄ ⦃name : String⦄ ⦃rep : Rep⦄, m.code.records[id]? = some layout →
    layout.fields[index]? = some (name, rep) →
    receiver.value.conforms w.heap (.record id) = true →
    Agrees (f.at ip st) st (fun v => [v])
      (execute m (.getField index) (f.at ip (receiver :: st)) w)
      (Dynamic.getMember m.env receiver.value name w)

/-- A record of a layout of the code has the field that the layout names at its place. -/
theorem fields_agree (hm : m.code.LaidOut) (hw : w.heap.Owned m.code) : FieldsAgree m w := by
  intro f ip st receiver id index layout name rep hlayout hfield hreceiver
  have hindex : layout.indexOf? name = some index :=
    RecordLayout.lastIndex?_of_nodup (hm.names hlayout) hfield
  obtain hnull | ⟨r, o, hr, ho, rfl, hsize⟩ := hw.record_of_conforms hreceiver hlayout
  · rw [getField_null hnull, hnull]
    exact agrees_failed rfl
  · have hlt : index < o.fields.size := by
      rw [hsize]
      exact (List.getElem?_eq_some_iff.mp hfield).1
    have hslot : o.fields[index]? = some o.fields[index] := Array.getElem?_eq_getElem hlt
    rw [getField_run hr ho, hslot, hr, Dynamic.getMember_record ho hindex hslot]
    exact agrees_pushed _

/-- Storing to a field by its place in the layout and by its name. -/
def FieldStoresAgree (m : Setting σ) (w : World σ) : Prop :=
  ∀ ⦃f : Frame⦄ ⦃ip : Nat⦄ ⦃st : List Slot⦄ ⦃receiver : Slot⦄ ⦃id index : Nat⦄
    ⦃layout : RecordLayout⦄ ⦃name : String⦄ ⦃rep : Rep⦄ ⦃v : Value⦄,
    m.code.records[id]? = some layout → layout.fields[index]? = some (name, rep) →
    receiver.value.conforms w.heap (.record id) = true → v.conforms w.heap rep = true →
    Agrees (f.at ip st) st (fun _ => [])
      (execute m (.setField index) (f.at ip (v.box rep :: receiver :: st)) w)
      (Dynamic.setMember m.env receiver.value name v w)

theorem fieldStores_agree (hm : m.code.LaidOut) (hw : w.heap.Owned m.code) :
    FieldStoresAgree m w := by
  intro f ip st receiver id index layout name rep v hlayout hfield hreceiver hv
  have hindex : layout.indexOf? name = some index :=
    RecordLayout.lastIndex?_of_nodup (hm.names hlayout) hfield
  have hrun : execute m (.setField index) (f.at ip (v.box rep :: receiver :: st)) w =
      ((popRecord >>= fun r => modifyHeap fun h => h.setField r index (v.box rep)) >>= fun _ =>
        pure Flow.next : Exec σ Flow) (f.at ip (receiver :: st)) w := rfl
  obtain hnull | ⟨r, o, hr, ho, rfl, -⟩ := hw.record_of_conforms hreceiver hlayout
  · rw [hrun, exec_bind_error (exec_bind_error (popRecord_null hnull)), hnull]
    exact agrees_failed rfl
  · have hrep : o.layout.repOf index = rep := by rw [RecordLayout.repOf, hfield]; rfl
    have htyped : execute m (.setField index) (f.at ip (v.box rep :: receiver :: st)) w =
        .ok (.next, f.at ip st) { w with heap := w.heap.setField r index (v.box rep) } := by
      rw [hrun]
      simp only [bind_assoc]
      rw [exec_bind_ok (popRecord_ok hr)]
      rfl
    have hdynamic : Dynamic.setMember m.env (.record r) name v w =
        .ok () { w with heap := w.heap.setField r index (v.box rep) } := by
      show (Run.heap >>= _ : Run σ Unit) w = _
      refine (Dynamic.run_heap_bind ..).trans ?_
      simp only [ho, hindex, hrep]
      exact Dynamic.run_bind_ok (Dynamic.store_ok hv)
    rw [htyped, hr, hdynamic]
    exact agrees_stored

/-! ### Elements -/

/-- Reading an element of an array. -/
def ElementsAgree (m : Setting σ) (w : World σ) : Prop :=
  ∀ ⦃f : Frame⦄ ⦃ip : Nat⦄ ⦃st : List Slot⦄ ⦃receiver key : Slot⦄ ⦃id : Nat⦄,
    receiver.value.conforms w.heap (.array id) = true → key.value.conforms w.heap .num = true →
    Agrees (f.at ip st) st (fun v => [v]) (execute m .getIndex (f.at ip (key :: receiver :: st)) w)
      (Dynamic.getIndex m.env receiver.value key.value w)

theorem elements_agree (m : Setting σ) (w : World σ) : ElementsAgree m w := by
  intro f ip st receiver key id hreceiver hkey
  obtain ⟨x, hx⟩ := (Slot.carries_of_conforms hkey).fits rfl
  have hkeyed : execute m .getIndex (f.at ip (key :: receiver :: st)) w =
      (popArray "[]" >>= fun array => inWorld (Dynamic.position x array.2.items.size) >>= fun i =>
        push (array.2.items[i]?.getD (.ref .null)) >>= fun _ => pure Flow.next : Exec σ Flow)
          (f.at ip (receiver :: st)) w := by
    show (getIndex >>= fun _ => pure Flow.next : Exec σ Flow) _ _ = _
    simp only [getIndex, bind_assoc]
    rw [exec_bind_ok (popNum_ok hx)]
  rw [hx, hkeyed]
  obtain hnull | ⟨a, o, ha, ho, -⟩ := Value.array_of_conforms hreceiver
  · rw [exec_bind_error (popArray_null hnull), hnull]
    exact agrees_failed rfl
  have hdynamic : Dynamic.getIndex m.env (.array a) (.number x) w =
      (Dynamic.position x o.items.size >>= fun i =>
        pure ((o.items[i]?.map Slot.value).getD .null) : Run σ Value) w := by
    refine (Dynamic.run_heap_bind ..).trans ?_
    rw [ho]
    rfl
  rw [exec_bind_ok (popArray_ok ha ho), ha, hdynamic]
  obtain ⟨i, hi⟩ | hfails := Dynamic.position_cases x o.items.size w
  · have hvalue : (o.items[i]?.map Slot.value).getD .null =
        (o.items[i]?.getD (.ref .null)).value := by
      cases o.items[i]? <;> rfl
    rw [exec_bind_ok (inWorld_ok hi), Dynamic.run_bind_ok hi, hvalue]
    exact agrees_pushed _
  · rw [exec_bind_error (inWorld_error hfails), Dynamic.run_bind_error hfails]
    exact agrees_failed rfl

/-- Storing an element of an array. -/
def ElementStoresAgree (m : Setting σ) (w : World σ) : Prop :=
  ∀ ⦃f : Frame⦄ ⦃ip : Nat⦄ ⦃st : List Slot⦄ ⦃receiver key : Slot⦄ ⦃id : Nat⦄
    ⦃layout : ArrayLayout⦄ ⦃v : Value⦄, m.code.arrays[id]? = some layout →
    receiver.value.conforms w.heap (.array id) = true → key.value.conforms w.heap .num = true →
    v.conforms w.heap layout.element = true →
    Agrees (f.at ip st) st (fun _ => [])
      (execute m .setIndex (f.at ip (v.box layout.element :: key :: receiver :: st)) w)
      (Dynamic.setIndex m.env receiver.value key.value v w)

/-- The dynamic operation checks the value before the place, which makes no difference here. -/
theorem elementStores_agree (hw : w.heap.Owned m.code) : ElementStoresAgree m w := by
  intro f ip st receiver key id layout v hlayout hreceiver hkey hv
  obtain ⟨x, hx⟩ := (Slot.carries_of_conforms hkey).fits rfl
  have hkeyed : execute m .setIndex (f.at ip (v.box layout.element :: key :: receiver :: st)) w =
      (popArray "[]" >>= fun array => inWorld (Dynamic.position x array.2.items.size) >>= fun i =>
        (modifyHeap fun h => h.setItem array.1 i (v.box layout.element)) >>= fun _ =>
          pure Flow.next : Exec σ Flow) (f.at ip (receiver :: st)) w := by
    show (setIndex >>= fun _ => pure Flow.next : Exec σ Flow) _ _ = _
    simp only [setIndex, bind_assoc]
    rw [exec_bind_ok (pop_at _), exec_bind_ok (popNum_ok hx)]
  rw [hx, hkeyed]
  obtain hnull | ⟨a, o, ha, ho, rfl⟩ := hw.array_of_conforms hreceiver hlayout
  · rw [exec_bind_error (popArray_null hnull), hnull]
    exact agrees_failed rfl
  have hdynamic : Dynamic.setIndex m.env (.array a) (.number x) v w =
      (Dynamic.position x o.items.size >>= fun i =>
        Run.modifyHeap fun h => h.setItem a i (v.box o.layout.element) : Run σ Unit) w := by
    refine (Dynamic.run_heap_bind ..).trans ?_
    rw [ho]
    exact Dynamic.run_bind_ok (Dynamic.store_ok hv)
  rw [exec_bind_ok (popArray_ok ha ho), ha, hdynamic]
  obtain ⟨i, hi⟩ | hfails := Dynamic.position_cases x o.items.size w
  · rw [exec_bind_ok (inWorld_ok hi), Dynamic.run_bind_ok hi]
    exact agrees_stored
  · rw [exec_bind_error (inWorld_error hfails), Dynamic.run_bind_error hfails]
    exact agrees_failed rfl

/-- Adding an element to an array and calling the bound method that adds one. -/
def AdditionsAgree (m : Setting σ) (w : World σ) : Prop :=
  ∀ ⦃f : Frame⦄ ⦃ip : Nat⦄ ⦃st : List Slot⦄ ⦃receiver : Slot⦄ ⦃id : Nat⦄ ⦃layout : ArrayLayout⦄
    ⦃v : Value⦄, m.code.arrays[id]? = some layout →
    receiver.value.conforms w.heap (.array id) = true → v.conforms w.heap layout.element = true →
    Agrees (f.at ip st) st (fun v => [v])
      (execute m .arrayAdd (f.at ip (v.box layout.element :: receiver :: st)) w)
      (Dynamic.callBound m.env ⟨receiver.value, .arrayAdd⟩ [v] w)

theorem additions_agree (hw : w.heap.Owned m.code) : AdditionsAgree m w := by
  intro f ip st receiver id layout v hlayout hreceiver hv
  have hpopped : execute m .arrayAdd (f.at ip (v.box layout.element :: receiver :: st)) w =
      (popArray "add" >>= fun array =>
        (modifyHeap fun h => h.addItem array.1 (v.box layout.element)) >>= fun _ =>
          pushValue .null >>= fun _ => pure Flow.next : Exec σ Flow) (f.at ip (receiver :: st)) w := by
    show (arrayAdd >>= fun _ => pure Flow.next : Exec σ Flow) _ _ = _
    simp only [arrayAdd, bind_assoc]
    rw [exec_bind_ok (pop_at _)]
  rw [hpopped]
  obtain hnull | ⟨a, o, ha, ho, rfl⟩ := hw.array_of_conforms hreceiver hlayout
  · rw [exec_bind_error (popArray_null hnull), hnull]
    exact agrees_failed rfl
  have hdynamic : Dynamic.callBound m.env ⟨.array a, .arrayAdd⟩ [v] w =
      .ok .null { w with heap := w.heap.addItem a (v.box o.layout.element) } := by
    refine (Dynamic.run_heap_bind ..).trans ?_
    rw [ho]
    exact Dynamic.run_bind_ok (Dynamic.store_ok hv)
  rw [exec_bind_ok (popArray_ok ha ho), ha, hdynamic]
  exact agrees_pushed (.ref .null)

/-! ### Lengths -/

/-- The length of an array and of a string. -/
def LengthsAgree (m : Setting σ) (w : World σ) : Prop :=
  ∀ ⦃f : Frame⦄ ⦃ip : Nat⦄ ⦃st : List Slot⦄ ⦃receiver : Slot⦄,
    (∀ id, receiver.value.conforms w.heap (.array id) = true →
      Agrees (f.at ip st) st (fun v => [v]) (execute m .arrayLength (f.at ip (receiver :: st)) w)
        (Dynamic.getMember m.env receiver.value "length" w)) ∧
    (receiver.value.conforms w.heap .str = true →
      Agrees (f.at ip st) st (fun v => [v]) (execute m .strLength (f.at ip (receiver :: st)) w)
        (Dynamic.getMember m.env receiver.value "length" w))

theorem lengths_agree (m : Setting σ) (w : World σ) : LengthsAgree m w := by
  intro f ip st receiver
  constructor
  · intro id hreceiver
    obtain hnull | ⟨a, o, ha, ho, -⟩ := Value.array_of_conforms hreceiver
    · have htyped : execute m .arrayLength (f.at ip (receiver :: st)) w =
          .error (.nullReference "length") w :=
        exec_bind_error (exec_bind_error (popArray_null hnull))
      rw [htyped, hnull]
      exact agrees_failed rfl
    · have htyped : execute m .arrayLength (f.at ip (receiver :: st)) w =
          .ok (.next, f.at ip (.num (Float.ofNat o.items.size) :: st)) w :=
        exec_bind_ok (exec_bind_ok (popArray_ok ha ho))
      have hdynamic : Dynamic.getMember m.env (.array a) "length" w =
          .ok (.number (Float.ofNat o.items.size)) w := by
        have howned : Dynamic.ownMember? (.array a) "length" w =
            .ok (some (.number (Float.ofNat ((w.heap.arrays[a]?.map fun o => o.items.size).getD 0)))) w :=
          rfl
        rw [ho] at howned
        exact (Dynamic.run_bind_ok howned).trans rfl
      rw [htyped, ha, hdynamic]
      exact agrees_pushed (.num (Float.ofNat o.items.size))
  · intro hreceiver
    obtain ⟨s, hs⟩ := (Slot.carries_of_conforms hreceiver).fits rfl
    rw [Slot.eq_of_value_str hs]
    exact agrees_pushed (.num (Float.ofNat s.length))

/-! ### All of them -/

/-- The operations for known representations agree with those on values of any kind. -/
structure TypedAgreement (m : Setting σ) (w : World σ) : Prop where
  operators : OperatorsAgree m w
  fields : FieldsAgree m w
  fieldStores : FieldStoresAgree m w
  elements : ElementsAgree m w
  elementStores : ElementStoresAgree m w
  additions : AdditionsAgree m w
  lengths : LengthsAgree m w

end Machine

/-- Whatever state a run of a compiled program passes through, its typed operations on operands,
records and arrays agree there with the dynamic ones, if the run starts in a heap that the program
owns. -/
theorem Program.typed_operations_agree {e : Engine} {source : String} {input : Option HostTypeId}
    {analyses : Nat} {p : Program}
    (hp : (Engine.compile source input analyses e).1 = some (.ok p)) {m : Machine.Setting σ}
    (hm : m.code = p.code) {start w : World σ} (hstart : start.heap.Owned p.code)
    {frames : List Frame} (hpass : Machine.Passes m start frames w) :
    Machine.TypedAgreement m w := by
  have hlaid : m.code.LaidOut := hm ▸ Engine.compile_laidOut hp
  have hw : w.heap.Owned m.code := hpass.owned hlaid (hm ▸ hstart)
  exact {
    operators := Machine.operators_agree m w
    fields := Machine.fields_agree hlaid hw
    fieldStores := Machine.fieldStores_agree hlaid hw
    elements := Machine.elements_agree m w
    elementStores := Machine.elementStores_agree hw
    additions := Machine.additions_agree hw
    lengths := Machine.lengths_agree m w }

/-! ### A field that programs share -/

namespace Shared

/-- A type with a field for values of any kind. -/
def orderType : TypeDescriptor where
  name := "Order"
  dataType := "Bag"
  members := [{ name := "Extra", isStatic := false, kind := .field .any true, code := 0 }]

def engine : Engine :=
  (Engine.registerType orderType (.new {})).2

def host : HostCode Bag.Store :=
  Bag.hostCode "Bag" #[.field "Extra" none]

def order : HostObject :=
  ⟨0, 0, "Order"⟩

def world : World Bag.Store where
  data := #[some {}]

def setting (p : Program) : Machine.Setting Bag.Store where
  env := { types := p.types, code := host }
  code := p.code
  input := .host order
  maxDepth := p.maxCallDepth

/-- The world after a script that stores a record in the field. -/
def stored : World Bag.Store :=
  ((Engine.eval host "Extra = \x7b a: true \x7d;" order ⟨1, 9⟩ world).run engine).1.2

/-- A script that stores the value of the field in a variable for records of its own. -/
def reader : String :=
  "var r = \x7b b: true, a: false \x7d; var g = (x) => \x7b r = x; \x7d; var h = null; h = g; " ++
    "h(Extra); return r.a;"

/-- The stack had no operand of the right kind. -/
def underflows {α : Type} : EStateM.Result RuntimeError (World Bag.Store) α → Bool
  | .error (.internal .underflow) _ => true
  | _ => false

end Shared

open Shared in
/-- In a heap with a record of the program itself, the field is read by its place as by its name. -/
theorem Program.typed_operations_agree_record :
    ∃ p function layout,
      (Engine.compile "var r = \x7b b: true, a: false \x7d; return r.a;" (some 0) 1 engine).1 =
        some (.ok p) ∧
      p.code.records[0]? = some layout ∧ layout.fields[1]? = some ("a", .bool) ∧
      let w := { world with heap := (world.heap.newRecord ⟨layout, #[.bool true, .bool false]⟩).2 }
      w.heap.Owned p.code ∧ Machine.Passes (setting p) w [Frame.enter function [] [] true] w ∧
      Machine.Agrees ((Frame.enter function [] [] true).at 1 []) [] (fun v => [v])
        (Machine.execute (setting p) (.getField 1)
          ((Frame.enter function [] [] true).at 1 [.ref (.record 0)]) w)
        (Dynamic.getMember (setting p).env (.record 0) "a" w) := by
  obtain ⟨p, hp, hcheck⟩ := Engine.exists_compiled "var r = \x7b b: true, a: false \x7d; return r.a;"
    (some 0) 1 engine (fun p => p.code.functions[0]?.isSome &&
      decide (p.code.records[0]? = some (⟨0, [("b", .bool), ("a", .bool)]⟩ : RecordLayout)))
    (by decide +kernel)
  rw [Bool.and_eq_true, Option.isSome_iff_exists, decide_eq_true_eq] at hcheck
  obtain ⟨⟨function, hfunction⟩, hlayout⟩ := hcheck
  have howned : (world.heap.newRecord
      ⟨⟨0, [("b", .bool), ("a", .bool)]⟩, #[.bool true, .bool false]⟩).2.Owned p.code :=
    Machine.Changes.owned (m := setting p) (Engine.compile_laidOut hp)
      (.newRecord world #[.bool true, .bool false] hlayout rfl) (.empty p.code)
  have hpass : Machine.Passes (setting p)
      { world with heap := (world.heap.newRecord
        ⟨⟨0, [("b", .bool), ("a", .bool)]⟩, #[.bool true, .bool false]⟩).2 }
      [Frame.enter function [] [] true] _ := .start hfunction
  have hagree := Program.typed_operations_agree hp (m := setting p) rfl howned hpass
  exact ⟨p, function, _, hp, hlayout, rfl, howned, hpass, hagree.fields hlayout rfl rfl⟩

open Shared in
/-- A record of another program passes for one of this program if the numbers of their layouts are
the same. Its field is found by the name and not by the place. -/
theorem Machine.foreign_record_misread :
    ∃ p layout v, (Engine.compile reader (some 0) 9 engine).1 = some (.ok p) ∧
      p.code.records[0]? = some layout ∧ layout.fields[1]? = some ("a", .bool) ∧
      stored.data[0]?.join.bind (·.fields.get? "Extra") = some v ∧
      v.conforms stored.heap (.record 0) = true ∧
      (∀ f ip, Machine.execute (setting p) (.getField 1) (Frame.at f ip [.ref v]) stored =
        .error (.internal .underflow) stored) ∧
      Dynamic.getMember (setting p).env v "a" stored = .ok (.bool true) stored ∧
      ∃ w, p.run host order 99 stored = .error (.internal .underflow) w := by
  obtain ⟨p, hp, hcheck⟩ := Engine.exists_compiled reader (some 0) 9 engine (fun p =>
    stored.heap.records[0]?.any fun (o : RecordObject) =>
      decide (p.code.records[0]? = some (⟨0, [("b", .bool), ("a", .bool)]⟩ : RecordLayout) ∧
        stored.data[0]?.join.bind (fun (bag : Bag) => bag.fields.get? "Extra") = some (Value.record 0) ∧
        o.layout = ⟨0, [("a", .bool)]⟩ ∧ o.fields = #[.bool true]) &&
      underflows (p.run host order 99 stored)) (by decide +kernel)
  generalize stored = w at hcheck ⊢
  simp only [Option.any_eq_true, Bool.and_eq_true, decide_eq_true_eq] at hcheck
  obtain ⟨o, ho, ⟨hlayout, hextra, hl, hf⟩, hrun⟩ := hcheck
  refine ⟨p, _, .record 0, hp, hlayout, rfl, hextra, ?_, ?_, ?_, ?_⟩
  · simp [Value.conforms, ho, hl]
  · intro f ip
    exact (Machine.getField_run rfl ho).trans (by rw [hf]; rfl)
  · have hindex : o.layout.indexOf? "a" = some 0 := by
      rw [hl]
      decide
    have hslot : o.fields[0]? = some (.bool true) := by
      rw [hf]
      rfl
    exact Dynamic.getMember_record ho hindex hslot
  · unfold underflows at hrun
    split at hrun
    next w' hw' => exact ⟨w', hw'⟩
    next => cases hrun

end HostScript
