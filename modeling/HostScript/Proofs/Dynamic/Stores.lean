import HostScript.Proofs.Machine.Containers

/-!
# Stores at run time

Compiled code reads records and arrays without a check, so storage must always hold what its layout
says. A store by name, a store by index and an addition to an array keep it so. Each of them writes
one spot of storage or works on one object of the host, and changes nothing at all if it fails.
-/

namespace HostScript

variable {σ D : Type} {h h' : Heap} {rep : Rep} {v : Value}

/-! ### Spots of storage -/

/-- A place in a record or an array. -/
inductive Spot where
  | field (r : RecordRef) (index : Nat)
  | item (a : ArrayRef) (index : Nat)
deriving DecidableEq

namespace Heap

/-- What a spot holds. -/
def slot? (h : Heap) : Spot → Option Slot
  | .field r i => h.records[r]?.bind (·.fields[i]?)
  | .item a i => h.arrays[a]?.bind (·.items[i]?)

/-- The representation that the layout gives for a spot. -/
def repAt (h : Heap) : Spot → Rep
  | .field r i => (h.records[r]?.map (·.layout.repOf i)).getD .any
  | .item a _ => (h.arrays[a]?.map (·.layout.element)).getD .any

end Heap

def Slot.isUnboxed : Slot → Bool
  | num _ | bool _ => true
  | ref _ => false

/-- The slot may stand in storage of a representation. -/
structure Slot.Fits (h : Heap) (rep : Rep) (slot : Slot) : Prop where
  conforms : slot.value.conforms h rep = true
  unboxed : rep.isUnboxed = true → slot.isUnboxed = true

/-- Records have a slot for each field, and every slot is as the layout says. -/
structure Heap.WellTyped (h : Heap) : Prop where
  sizes : ∀ {r : RecordRef} {o : RecordObject}, h.records[r]? = some o →
    o.fields.size = o.layout.fields.length
  slots : ∀ {spot slot}, h.slot? spot = some slot → slot.Fits h (h.repAt spot)

/-! ### Writing one spot -/

/-- The heaps have the same objects with the same layouts. -/
structure Heap.Parallel (h h' : Heap) : Prop where
  records : ∀ r : RecordRef, h'.records[r]?.map (·.layout) = h.records[r]?.map (·.layout)
  sizes : ∀ r : RecordRef, h'.records[r]?.map (·.fields.size) = h.records[r]?.map (·.fields.size)
  arrays : ∀ a : ArrayRef, h'.arrays[a]?.map (·.layout) = h.arrays[a]?.map (·.layout)
  closures : h'.closures = h.closures
  methods : h'.methods = h.methods
  cells : h'.cells = h.cells

/-- A slot is written at a spot, and everything else stays as it is. -/
structure Heap.Puts (h : Heap) (spot : Spot) (slot : Slot) (h' : Heap) : Prop extends
    h.Parallel h' where
  here : h'.slot? spot = some slot
  elsewhere : ∀ other, other ≠ spot → h'.slot? other = h.slot? other

namespace Heap.Parallel

theorem repAt (hp : h.Parallel h') (spot : Spot) : h'.repAt spot = h.repAt spot := by
  cases spot with
  | field r i =>
    have hrep := congrArg (Option.map (·.repOf i)) (hp.records r)
    simp only [Option.map_map, Function.comp_def] at hrep
    simp only [Heap.repAt, hrep]
  | item a i =>
    have hrep := congrArg (Option.map ArrayLayout.element) (hp.arrays a)
    simp only [Option.map_map, Function.comp_def] at hrep
    simp only [Heap.repAt, hrep]

/-- Whether a value conforms depends on the layouts only. -/
theorem conforms (hp : h.Parallel h') (rep : Rep) (v : Value) :
    v.conforms h' rep = v.conforms h rep := by
  have hrecord (r : RecordRef) := congrArg (Option.map RecordLayout.id) (hp.records r)
  have harray (a : ArrayRef) := congrArg (Option.map ArrayLayout.id) (hp.arrays a)
  simp only [Option.map_map, Function.comp_def] at hrecord harray
  unfold Value.conforms
  split <;> simp only [hrecord, harray, hp.closures]

end Heap.Parallel

/-- Storage stays well typed if the slot that is written fits its spot. -/
theorem Heap.WellTyped.puts (hw : h.WellTyped) {spot : Spot} {slot : Slot}
    (hp : h.Puts spot slot h') (hfits : slot.Fits h (h.repAt spot)) : h'.WellTyped where
  sizes := by
    intro r o' ho'
    have hlayout := hp.records r
    have hsize := hp.sizes r
    rw [ho'] at hlayout hsize
    obtain ⟨o, ho, hsame⟩ := Option.map_eq_some_iff.mp hlayout.symm
    rw [ho] at hsize
    have hfields : o'.fields.size = o.fields.size := Option.some.inj hsize
    rw [hfields, hw.sizes ho, hsame]
  slots := by
    intro other content hcontent
    have hold : content.Fits h (h.repAt other) := by
      by_cases hother : other = spot
      · subst hother
        cases hp.here.symm.trans hcontent
        exact hfits
      · exact hw.slots ((hp.elsewhere other hother).symm.trans hcontent)
    rw [hp.repAt]
    exact ⟨(hp.toParallel.conforms _ _).trans hold.conforms, hold.unboxed⟩

theorem Value.box_fits (hv : v.conforms h rep = true) : (v.box rep).Fits h rep := by
  refine ⟨by rw [Machine.box_value]; exact hv, fun hrep => ?_⟩
  cases rep with
  | num => cases v with
    | number x => rfl
    | _ => cases hv
  | bool => cases v with
    | bool b => rfl
    | _ => cases hv
  | _ => cases hrep

namespace Heap

theorem puts_setField {r : RecordRef} {o : RecordObject} {i : Nat} (ho : h.records[r]? = some o)
    (hi : i < o.fields.size) (slot : Slot) : h.Puts (.field r i) slot (h.setField r i slot) where
  records other := by
    by_cases hr : r = other <;> simp [setField, Array.getElem?_modify, hr, Function.comp_def]
  sizes other := by
    by_cases hr : r = other <;> simp [setField, Array.getElem?_modify, hr, Function.comp_def]
  arrays _ := rfl
  closures := rfl
  methods := rfl
  cells := rfl
  here := by simp [slot?, setField, Array.getElem?_modify, ho, hi]
  elsewhere := by
    rintro (⟨other, j⟩ | ⟨a, j⟩) hne
    · simp only [slot?, setField, Array.getElem?_modify]
      split
      next hr =>
        subst hr
        have hj : i ≠ j := fun hj => hne (by rw [hj])
        simp [ho, hj]
      next => rfl
    · rfl

/-- An array gets other elements, which differ from those before at one place. -/
theorem puts_items {a : ArrayRef} {o : ArrayObject} {i : Nat} {slot : Slot}
    {f : Array Slot → Array Slot} (ho : h.arrays[a]? = some o) (hhere : (f o.items)[i]? = some slot)
    (helse : ∀ j, j ≠ i → (f o.items)[j]? = o.items[j]?) :
    h.Puts (.item a i) slot
      { h with arrays := h.arrays.modify a fun o => { o with items := f o.items } } where
  records _ := rfl
  sizes _ := rfl
  arrays other := by
    by_cases ha : a = other <;> simp [Array.getElem?_modify, ha, Function.comp_def]
  closures := rfl
  methods := rfl
  cells := rfl
  here := by simp [slot?, Array.getElem?_modify, ho, hhere]
  elsewhere := by
    rintro (⟨r, j⟩ | ⟨other, j⟩) hne
    · rfl
    · simp only [slot?, Array.getElem?_modify]
      split
      next ha =>
        subst ha
        simp [ho, helse j fun hj => hne (by rw [hj])]
      next => rfl

theorem puts_setItem {a : ArrayRef} {o : ArrayObject} {i : Nat} (ho : h.arrays[a]? = some o)
    (hi : i < o.items.size) (slot : Slot) : h.Puts (.item a i) slot (h.setItem a i slot) :=
  puts_items (f := (·.setIfInBounds i slot)) ho (by simp [hi])
    fun _ hj => Array.getElem?_setIfInBounds_ne hj.symm

/-- The spot after the last element is written by an addition. -/
theorem puts_addItem {a : ArrayRef} {o : ArrayObject} (ho : h.arrays[a]? = some o) (slot : Slot) :
    h.Puts (.item a o.items.size) slot (h.addItem a slot) :=
  puts_items (f := (·.push slot)) ho (by simp) fun _ hj => by simp [Array.getElem?_push, hj]

end Heap

/-! ### What a store addresses -/

/-- How a store names its place. -/
inductive Address where
  | member (name : String)
  | index (key : Value)
  /-- Behind the last element. -/
  | next

namespace Heap

def fieldSpot? (h : Heap) (name : String) : Value → Option Spot
  | .record r => (h.records[r]?.bind (·.layout.indexOf? name)).map (.field r)
  | _ => none

/-- The spot that an address means for a receiver. Objects of the host have none. -/
def spot? (h : Heap) (target : Value) : Address → Option Spot
  | .member name => h.fieldSpot? name target
  | .index key =>
    match target, key with
    | .array a, .number x =>
      (h.arrays[a]?.bind fun o => Number.position? x o.items.size).map (.item a)
    | _, .str name => h.fieldSpot? name target
    | _, _ => none
  | .next =>
    match target with
    | .array a => h.arrays[a]?.map fun o => .item a o.items.size
    | _ => none

end Heap

/-- A setter changes the data of one object, or nothing if it fails. -/
def Confines (view : σ → ObjectRef → D) (ref : ObjectRef) (data : σ) :
    EStateM.Result String σ Unit → Prop
  | .ok _ data' => ∀ other, other ≠ ref → view data' other = view data other
  | .error _ data' => data' = data

/-- The setters of the host get hold of their own object only, and leave it alone when they fail.
The data of an object is what `view` shows of it. -/
structure HostCode.Confined (code : HostCode σ) (view : σ → ObjectRef → D) : Prop where
  write : ∀ c object v h data, Confines view object.ref data (code.write c object v h data)
  writeIndex : ∀ c object key v h data,
    Confines view object.ref data (code.writeIndex c object key v h data)

namespace Dynamic

variable {α : Type} {env : Env σ} {view : σ → ObjectRef → D} {w w' : World σ} {target : Value}
  {spot? : Option Spot}

/-- The action writes the value to the spot, or works on the object of the host that is the
receiver. If it fails it has changed nothing, and the value did not conform to a spot that there
was. -/
def Stores (view : σ → ObjectRef → D) (w : World σ) (target : Value) (spot? : Option Spot)
    (v : Value) (action : Run σ α) : Prop :=
  match action w with
  | .ok _ w' =>
    w'.heap.WellTyped ∧
      match spot? with
      | some spot => w.heap.Puts spot (v.box (w.heap.repAt spot)) w'.heap ∧ w'.data = w.data
      | none =>
        w'.heap = w.heap ∧
          ∃ object, target = .host object ∧
            ∀ ref, ref ≠ object.ref → view w'.data ref = view w.data ref
  | .error _ w' =>
    w'.heap = w.heap ∧ w'.data = w.data ∧
      ∀ spot ∈ spot?, v.conforms w.heap (w.heap.repAt spot) = false

namespace Stores

theorem throw (e : RuntimeError) : Stores view w target none v (throw e : Run σ α) :=
  ⟨rfl, rfl, nofun⟩

/-- The action goes on as another one. Look-ups that it remembered on the way do not count. -/
theorem of_run {action next : Run σ α} (ha : w.Alike w') (hrun : action w = next w')
    (hs : Stores view w' target spot? v next) : Stores view w target spot? v action := by
  unfold Stores at hs ⊢
  rw [hrun]
  rw [ha] at hs ⊢
  exact hs

end Stores

theorem store_error {label : String} (hv : v.conforms w.heap rep = false) :
    store label rep v w = .error (.typeMismatch label rep.name v.typeName) w := by
  have hslot : v.slot? w.heap rep = none := by simp [Value.slot?, hv]
  refine (run_heap_bind ..).trans ?_
  rw [hslot]
  rfl

/-- A value is converted for a spot and then written there. -/
theorem Stores.of_store {label : String} {spot : Spot} {write : Slot → Run σ α} {a : α}
    {put : Slot → Heap} (hw : w.heap.WellTyped) (hrep : w.heap.repAt spot = rep)
    (hput : ∀ slot, w.heap.Puts spot slot (put slot))
    (hwrite : ∀ slot, write slot w = .ok a { w with heap := put slot }) :
    Stores view w target (some spot) v (store label rep v >>= write) := by
  subst hrep
  unfold Stores
  cases hv : v.conforms w.heap (w.heap.repAt spot) with
  | true =>
    rw [run_bind_ok (store_ok hv), hwrite]
    exact ⟨hw.puts (hput _) (Value.box_fits hv), hput _, rfl⟩
  | false =>
    rw [run_bind_error (store_error hv)]
    refine ⟨rfl, rfl, ?_⟩
    rintro _ ⟨⟩
    exact hv

/-! ### Storage of scripts -/

theorem lt_of_lastIndex? {name : String} {fields : List (String × Rep)} {i : Nat}
    (hi : RecordLayout.lastIndex? name fields = some i) : i < fields.length := by
  fun_induction RecordLayout.lastIndex? name fields generalizing i with
  | case1 => cases hi
  | case2 field rep rest j hj ih =>
    cases hi
    exact Nat.succ_lt_succ (ih hj)
  | case3 rep rest hrest ih =>
    cases hi
    exact Nat.succ_pos _
  | case4 field rep rest hrest hne ih => cases hi

theorem stores_setField (hw : w.heap.WellTyped) (r : RecordRef) (name : String) (v : Value) :
    Stores view w (.record r) (w.heap.fieldSpot? name (.record r)) v (setField r name v) := by
  refine .of_run (.refl w) (run_heap_bind ..) ?_
  cases ho : w.heap.records[r]? with
  | none =>
    simp only [Heap.fieldSpot?, ho]
    exact .throw _
  | some o =>
    cases hindex : o.layout.indexOf? name with
    | none =>
      simp only [Heap.fieldSpot?, ho, Option.bind_some, hindex]
      exact .throw _
    | some i =>
      have hsize : i < o.fields.size := by
        rw [hw.sizes ho]
        exact lt_of_lastIndex? hindex
      have hrep : w.heap.repAt (.field r i) = o.layout.repOf i := by simp [Heap.repAt, ho]
      simp only [Heap.fieldSpot?, ho, Option.bind_some, hindex]
      exact .of_store hw hrep (Heap.puts_setField ho hsize) fun _ => rfl

theorem lt_of_position? {x : Float} {n i : Nat} (hi : Number.position? x n = some i) : i < n := by
  unfold Number.position? at hi
  grind

theorem stores_setElement (hw : w.heap.WellTyped) (a : ArrayRef) (x : Float) (v : Value) :
    Stores view w (.array a) (w.heap.spot? (.array a) (.index (.number x))) v
      (setElement a x v) := by
  refine .of_run (.refl w) (run_heap_bind ..) ?_
  cases ho : w.heap.arrays[a]? with
  | none =>
    simp only [Heap.spot?, ho]
    exact .throw _
  | some o =>
    cases hi : Number.position? x o.items.size with
    | none =>
      simp only [Heap.spot?, ho, Option.bind_some, position, hi]
      -- The value is checked first, so there are two ways to fail.
      cases hv : v.conforms w.heap o.layout.element with
      | true => exact .of_run (.refl w) (run_bind_ok (store_ok hv)) (.throw _)
      | false =>
        exact .of_run (.refl w) ((run_bind_error (store_error hv)).trans rfl) (.throw _)
    | some i =>
      have hrep : w.heap.repAt (.item a i) = o.layout.element := by simp [Heap.repAt, ho]
      have hput (slot : Slot) := Heap.puts_setItem ho (lt_of_position? hi) slot
      simp only [Heap.spot?, ho, Option.bind_some, position, hi]
      exact .of_store hw hrep hput fun _ => rfl

/-- The spot of an addition, if there is one value to add. -/
def additionSpot? (h : Heap) (receiver : Value) : List Value → Option Spot
  | [_] => h.spot? receiver .next
  | _ => none

theorem stores_add (hw : w.heap.WellTyped) (receiver : Value) (args : List Value) :
    Stores view w receiver (additionSpot? w.heap receiver args) (args.head?.getD .null)
      (callBound env ⟨receiver, .arrayAdd⟩ args) := by
  match args, receiver with
  | [], _ | _ :: _ :: _, _ => exact .throw _
  | [item], .array a =>
    refine .of_run (.refl w) (run_heap_bind ..) ?_
    cases ho : w.heap.arrays[a]? with
    | none =>
      simp only [additionSpot?, Heap.spot?, ho]
      exact .throw _
    | some o =>
      have hrep : w.heap.repAt (.item a o.items.size) = o.layout.element := by
        simp [Heap.repAt, ho]
      simp only [additionSpot?, Heap.spot?, ho]
      exact .of_store hw hrep (Heap.puts_addItem ho) fun _ => rfl
  | [item], .null | [item], .number _ | [item], .bool _ | [item], .str _ | [item], .record _
  | [item], .closure _ | [item], .method _ | [item], .host _ => exact .throw _

/-! ### Objects of the host -/

section Host

variable {object : HostObject} {code : HostCode σ}

theorem lookup_alike (types : Snapshot) (receiver : Receiver) (name : String) (w : World σ) :
    ∃ found w', w.Alike w' ∧ lookup types receiver name w = .ok found w' := by
  rw [lookup_eq]
  split
  · exact ⟨_, w, .refl w, rfl⟩
  · exact ⟨_, { w with lookups := _ }, rfl, rfl⟩

theorem stores_host (hw : w.heap.WellTyped) {m : Member} {action : HostAction σ Unit}
    (ha : Confines view object.ref w.data (action w.heap w.data)) :
    Stores view w (.host object) none v (Run.host m action) := by
  unfold Stores Run.host
  cases hrun : action w.heap w.data with
  | ok _ data =>
    rw [hrun] at ha
    exact ⟨hw, rfl, object, rfl, ha⟩
  | error message data =>
    rw [hrun] at ha
    exact ⟨rfl, ha, nofun⟩

theorem stores_write (hh : code.Confined view) (hw : w.heap.WellTyped) (m : Member) (x : Value) :
    Stores view w (.host object) none v (m.write code object x) := by
  unfold Member.write
  split
  · exact stores_host hw (hh.write ..)
  · exact stores_host hw (hh.write ..)
  · exact .throw _

theorem stores_writeIndex (hh : code.Confined view) (hw : w.heap.WellTyped) (m : Member)
    (key x : Value) : Stores view w (.host object) none v (m.writeIndex code object key x) := by
  unfold Member.writeIndex
  split
  · exact stores_host hw (hh.writeIndex ..)
  · exact .throw _

/-- A conversion comes before the host is asked. -/
theorem Stores.of_conversion {converted : Except RuntimeError Value} {next : Value → Run σ α}
    (hnext : ∀ x, Stores view w target none v (next x)) :
    Stores view w target none v (Run.ofExcept converted >>= next) := by
  cases converted with
  | ok x => exact hnext x
  | error e => exact .throw e

theorem stores_setHostMember (hh : env.code.Confined view) (hw : w.heap.WellTyped)
    (object : HostObject) (name : String) (v : Value) :
    Stores view w (.host object) none v (setHostMember env object name v) := by
  obtain ⟨found, w', ha, hlookup⟩ := lookup_alike env.types (.host object.typeId) name w
  have hw' : w'.heap.WellTyped := by rw [ha]; exact hw
  refine .of_run ha (run_bind_ok hlookup) ?_
  cases found with
  | none => exact .throw _
  | some m =>
    dsimp only
    split
    · exact .throw _
    · split
      · exact .of_conversion fun x => stores_write hh hw' m x
      · exact stores_write hh hw' m v

theorem stores_setHostIndex (hh : env.code.Confined view) (hw : w.heap.WellTyped)
    (object : HostObject) (key v : Value) :
    Stores view w (.host object) none v (setIndex env (.host object) key v) := by
  unfold setIndex
  dsimp only
  split
  · exact .throw _
  · split
    · exact .of_conversion fun k => .of_conversion fun x => stores_writeIndex hh hw _ k x
    · exact stores_writeIndex hh hw _ key v

end Host

/-! ### All stores -/

theorem stores_setMember (hh : env.code.Confined view) (hw : w.heap.WellTyped) (target : Value)
    (name : String) (v : Value) :
    Stores view w target (w.heap.spot? target (.member name)) v (setMember env target name v) := by
  cases target with
  | record r => exact stores_setField hw r name v
  | host object => exact stores_setHostMember hh hw object name v
  | array a | str s =>
    simp only [setMember]
    split <;> exact .throw _
  | _ => exact .throw _

theorem stores_setIndex (hh : env.code.Confined view) (hw : w.heap.WellTyped)
    (target key v : Value) :
    Stores view w target (w.heap.spot? target (.index key)) v (setIndex env target key v) := by
  cases target with
  | array a => cases key with
    | number x => exact stores_setElement hw a x v
    | _ => exact .throw _
  | record r => cases key with
    | str name => exact stores_setField hw r name v
    | _ => exact .throw _
  | host object => cases key <;> exact stores_setHostIndex hh hw object _ v
  | _ => cases key <;> exact .throw _

/-- Stores by name, stores by index and additions to an array write one spot with a value that
conforms to it, or work on one object of the host. Storage stays well typed, and a failure leaves
storage and the host as they were. -/
theorem storage_stays_typed (hh : env.code.Confined view) (hw : w.heap.WellTyped) :
    (∀ target name v,
      Stores view w target (w.heap.spot? target (.member name)) v (setMember env target name v)) ∧
    (∀ target key v,
      Stores view w target (w.heap.spot? target (.index key)) v (setIndex env target key v)) ∧
    ∀ receiver args,
      Stores view w receiver (additionSpot? w.heap receiver args) (args.head?.getD .null)
        (callBound env ⟨receiver, .arrayAdd⟩ args) :=
  ⟨stores_setMember hh hw, stores_setIndex hh hw, stores_add hw⟩

end Dynamic

/-! ### An array that contains itself -/

namespace Bag

variable {dataName : String} {object : HostObject} {h : Heap} {bags : Store}

theorem confines_bagOf {next : Bag → Action Unit}
    (hnext : ∀ bag, Confines (fun bags ref => bags[ref]?) object.ref bags (next bag h bags)) :
    Confines (fun bags ref => bags[ref]?) object.ref bags
      ((bagOf dataName object >>= next) h bags) := by
  have hget (f : Store → Action Unit) : (get >>= f) h bags = f bags h bags := rfl
  rw [bagOf, bind_assoc, hget]
  cases bags[object.ref]?.join with
  | some bag => exact hnext bag
  | none => rfl

theorem confines_setBag (bag : Bag) :
    Confines (fun bags ref => bags[ref]?) object.ref bags (setBag object bag h bags) :=
  fun _ hother => Array.getElem?_setIfInBounds_ne hother.symm

/-- The members of bags keep to their own bag. -/
theorem confined (dataName : String) (table : Array Code) :
    (hostCode dataName table).Confined fun bags ref => bags[ref]? where
  write c object v h bags := by
    refine confines_bagOf fun bag => ?_
    cases table[c]? with
    | none => exact fun _ _ => rfl
    | some code => cases code with
      | field name setFails => cases setFails with
        | none => exact confines_setBag _
        | some message => rfl
      | _ => exact fun _ _ => rfl
  writeIndex c object key v h bags := confines_bagOf fun bag => confines_setBag _

end Bag

/-- An array of arrays of its own kind, which is its only element. -/
def Heap.ring : Heap where
  arrays := #[⟨⟨0, .array 0⟩, #[.ref (.array 0)]⟩]

theorem Heap.wellTyped_ring : Heap.ring.WellTyped where
  sizes hr := by simp [ring] at hr
  slots := by
    rintro (⟨r, i⟩ | ⟨a, i⟩) slot hslot
    · simp [slot?, ring] at hslot
    · match a, i with
      | 0, 0 =>
        cases hslot
        exact ⟨rfl, nofun⟩
      | 0, i + 1 | a + 1, i => simp [slot?, ring] at hslot

/-- The array is added to itself once more. -/
theorem Dynamic.storage_stays_typed_ring :
    let env : Env Bag.Store := { types := {}, code := Bag.hostCode "Bag" #[] }
    let w : World Bag.Store := { heap := .ring, data := #[] }
    (env.code.Confined fun bags ref => bags[ref]?) ∧ w.heap.WellTyped ∧
      ∃ w', callBound env ⟨.array 0, .arrayAdd⟩ [.array 0] w = .ok .null w' ∧
        w'.heap.WellTyped ∧ w'.heap.slot? (.item 0 1) = some (.ref (.array 0)) := by
  intro env w
  have hcode : env.code.Confined fun bags ref => bags[ref]? := Bag.confined "Bag" #[]
  have hw : w.heap.WellTyped := Heap.wellTyped_ring
  have hstores := (storage_stays_typed hcode hw).2.2 (.array 0) [.array 0]
  exact ⟨hcode, hw, _, rfl, hstores.1, hstores.2.1.here⟩

end HostScript
