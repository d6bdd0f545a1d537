import HostScript.Machine
import Mathlib.Logic.Relation

/-!
# What runs do to the world

`Changes` lists the kinds of change that operations make to the world. Every run is a chain of them,
whether it fails or not, so a property that each kind of change keeps holds along every run.
-/

namespace HostScript.Machine

open Exec Relation

variable {σ α β : Type}

/-- One change of the world. New records, arrays and closures are made from the tables of the code,
and a new look-up is remembered with its result. -/
inductive Changes (m : Setting σ) : World σ → World σ → Prop
  | data (w : World σ) (data : σ) : Changes m w { w with data }
  | print (w : World σ) (line : String) : Changes m w { w with printed := w.printed.push line }
  | lookup (w : World σ) (key : Receiver × String) :
      Changes m w { w with lookups := w.lookups.insert key (m.env.types.member? key.1 key.2) }
  | newRecord (w : World σ) {i : Nat} {layout : RecordLayout} (fields : Array Slot)
      (hlayout : m.code.records[i]? = some layout) (hsize : fields.size = layout.fields.length) :
      Changes m w { w with heap := (w.heap.newRecord ⟨layout, fields⟩).2 }
  | newArray (w : World σ) {i : Nat} {layout : ArrayLayout} (items : Array Slot)
      (hlayout : m.code.arrays[i]? = some layout) :
      Changes m w { w with heap := (w.heap.newArray ⟨layout, items⟩).2 }
  | newClosure (w : World σ) {i : Nat} {template : Template} (captures : List CellRef)
      (htemplate : m.code.templates[i]? = some template) :
      Changes m w { w with heap := (w.heap.newClosure ⟨i, template.shape, captures⟩).2 }
  | newMethod (w : World σ) (method : BoundMethod) :
      Changes m w { w with heap := (w.heap.newMethod method).2 }
  | newCell (w : World σ) (content : Slot) :
      Changes m w { w with heap := (w.heap.newCell content).2 }
  | setField (w : World σ) (r : RecordRef) (index : Nat) (content : Slot) :
      Changes m w { w with heap := w.heap.setField r index content }
  | setItem (w : World σ) (a : ArrayRef) (index : Nat) (content : Slot) :
      Changes m w { w with heap := w.heap.setItem a index content }
  | addItem (w : World σ) (a : ArrayRef) (content : Slot) :
      Changes m w { w with heap := w.heap.addItem a content }
  | setCell (w : World σ) (c : CellRef) (content : Slot) :
      Changes m w { w with heap := w.heap.setCell c content }

/-- The world in which an action ends. -/
def lastWorld : EStateM.Result RuntimeError (World σ) α → World σ
  | .ok _ w | .error _ w => w

/-- Whether an error is that too many calls are under way. -/
def isOverflow : RuntimeError → Bool
  | .stackOverflow _ => true
  | _ => false

def overflows : EStateM.Result RuntimeError (World σ) α → Bool
  | .error e _ => isOverflow e
  | .ok .. => false

/-- An action on the world is a chain of changes, and fails for other reasons than the depth of
calls. -/
def Evolves (m : Setting σ) (action : Run σ α) : Prop :=
  ∀ w, ReflTransGen (Changes m) w (lastWorld (action w)) ∧ overflows (action w) = false

/-- An action within a frame does so. -/
def Chains (m : Setting σ) (x : Exec σ α) : Prop :=
  ∀ f, Evolves m (x f)

variable {m : Setting σ}

/-- A property that every change keeps is kept by a chain of changes. -/
theorem Changes.keeps {w w' : World σ} (h : ReflTransGen (Changes m) w w') {P : World σ → Prop}
    (hP : ∀ {w w'}, Changes m w w' → P w → P w') (hw : P w) : P w' := by
  induction h with
  | refl => exact hw
  | tail _ hchange ih => exact hP hchange ih

/-! ### Checks of values -/

/-- A check fails for other reasons than the depth of calls. -/
def Shallow (result : Except RuntimeError α) : Prop :=
  ∀ e, result = .error e → isOverflow e = false

theorem shallow_coerce (target : String) (ty : TypeRef) (v : Value) : Shallow (ty.coerce target v) := by
  fun_induction TypeRef.coerce target ty v with
  | case9 _ _ _ _ ih => exact ih
  | _ =>
    intro e he
    cases he <;> rfl

theorem shallow_arith (h : Heap) (op : BinOp) (left right : Value) :
    Shallow (Operator.arith h op left right) := by
  intro e he
  unfold Operator.arith at he
  split at he
  all_goals
    split at he
    · cases he
    · cases he
      rfl

theorem shallow_negate (v : Value) : Shallow (Operator.negate v) := by
  intro e he
  cases v <;> cases he <;> rfl

theorem shallow_compare (op : CmpOp) (left right : Value) : Shallow (Operator.compare op left right) := by
  intro e he
  unfold Operator.compare at he
  split at he
  · cases he
  · cases he
  · cases he
    rfl

theorem Shallow.bind {x : Except RuntimeError α} {k : α → Except RuntimeError β} (hx : Shallow x)
    (hk : ∀ a, Shallow (k a)) : Shallow (x >>= k) := by
  cases x with
  | ok a => exact hk a
  | error e =>
    intro e' he
    cases he
    exact hx e rfl

theorem shallow_hostArgs (member : Member) (types : List TypeRef) (args : List Value) :
    Shallow (Dynamic.hostArgs member types args) := by
  have hcoerce (i : Nat) : Shallow (Dynamic.coerceArgs member i types args) := by
    fun_induction Dynamic.coerceArgs member i types args with
    | case1 i ty types v values ih =>
      exact (shallow_coerce _ ty v).bind fun _ => ih.bind fun _ e he => nomatch he
    | case2 => exact fun e he => nomatch he
  rw [Dynamic.hostArgs]
  split
  · exact hcoerce 1
  · intro e he
    cases he
    rfl

/-! ### Actions on the world -/

namespace Evolves

theorem pure (a : α) : Evolves m (pure a : Run σ α) :=
  fun _ => ⟨.refl, rfl⟩

theorem fails (e : RuntimeError) (h : isOverflow e = false) :
    Evolves m (throw e : Run σ α) :=
  fun _ => ⟨.refl, h⟩

theorem bind {x : Run σ α} {k : α → Run σ β} (hx : Evolves m x) (hk : ∀ a, Evolves m (k a)) :
    Evolves m (x >>= k) := by
  intro w
  have hw := hx w
  show ReflTransGen _ w (lastWorld (EStateM.bind x k w)) ∧ overflows (EStateM.bind x k w) = false
  unfold EStateM.bind
  cases hrun : x w with
  | ok a w' =>
    rw [hrun] at hw
    exact ⟨hw.1.trans (hk a w').1, (hk a w').2⟩
  | error e w' =>
    rw [hrun] at hw
    exact hw

theorem ite {c : Prop} [Decidable c] {x y : Run σ α} (hx : Evolves m x) (hy : Evolves m y) :
    Evolves m (if c then x else y) := by
  split
  · exact hx
  · exact hy

theorem get_bind {k : World σ → Run σ β} (hk : ∀ w, Evolves m (k w)) :
    Evolves m (get >>= k) :=
  fun w => hk w w

theorem modify {f : World σ → World σ} (hf : ∀ w, Changes m w (f w)) :
    Evolves m (modify f : Run σ Unit) :=
  fun w => ⟨.single (hf w), rfl⟩

theorem heap : Evolves m (Run.heap : Run σ Heap) :=
  fun _ => ⟨.refl, rfl⟩

theorem modifyHeap {f : Heap → Heap} (hf : ∀ w, Changes m w { w with heap := f w.heap }) :
    Evolves m (Run.modifyHeap f : Run σ Unit) :=
  fun w => ⟨.single (hf w), rfl⟩

theorem alloc {f : Heap → α × Heap} (hf : ∀ w, Changes m w { w with heap := (f w.heap).2 }) :
    Evolves m (Run.alloc f : Run σ α) :=
  fun w => ⟨.single (hf w), rfl⟩

theorem ofExcept {result : Except RuntimeError α} (h : Shallow result) :
    Evolves m (Run.ofExcept result : Run σ α) := by
  cases result with
  | ok a => exact pure a
  | error e => exact fails e (h e rfl)

/-- Code of the host changes its own data only, also when it fails. -/
theorem host (member : Member) (action : HostAction σ α) : Evolves m (Run.host member action) := by
  intro w
  unfold Run.host
  cases action w.heap w.data with
  | ok a data | error message data => exact ⟨.single (.data w data), rfl⟩

/-! ### Members of the host -/

variable (code : HostCode σ) (member : Member)

theorem read (object : HostObject) : Evolves m (member.read code object) := by
  unfold Member.read
  split
  · exact host _ _
  · exact host _ _
  · exact fails _ rfl

theorem write (object : HostObject) (v : Value) : Evolves m (member.write code object v) := by
  unfold Member.write
  split
  · exact host _ _
  · exact host _ _
  · exact fails _ rfl

theorem call (receiver : Option HostObject) (args : List Value) :
    Evolves m (member.call code receiver args) := by
  unfold Member.call
  split
  · exact host _ _
  · exact fails _ rfl
  · exact host _ _
  · exact fails _ rfl

theorem readIndex (object : HostObject) (key : Value) :
    Evolves m (member.readIndex code object key) := by
  unfold Member.readIndex
  split
  · exact host _ _
  · exact fails _ rfl

theorem writeIndex (object : HostObject) (key v : Value) :
    Evolves m (member.writeIndex code object key v) := by
  unfold Member.writeIndex
  split
  · exact host _ _
  · exact fails _ rfl

/-! ### Dynamic operations -/

theorem lookup (receiver : Receiver) (name : String) :
    Evolves m (Dynamic.lookup m.env.types receiver name) := by
  refine get_bind fun w => ?_
  split
  · exact pure _
  · exact bind (modify fun w => .lookup w (receiver, name)) fun _ => pure _

theorem notFound (target : Value) (name : String) :
    Evolves m (Dynamic.notFound target name : Run σ α) :=
  fails _ rfl

theorem bindMethod (receiver : Value) : Evolves m (Dynamic.bind receiver member) := by
  unfold Dynamic.bind
  exact alloc fun w => .newMethod w _

theorem ownMember (target : Value) (name : String) :
    Evolves m (Dynamic.ownMember? target name) := by
  unfold Dynamic.ownMember?
  split
  · exact bind heap fun _ => pure _
  · split
    · exact bind (alloc fun w => .newMethod w _) fun _ => pure _
    · exact bind heap fun _ => pure _
    · exact pure _
  · split
    · exact pure _
    · exact pure _
  · exact pure _

theorem getMember (target : Value) (name : String) :
    Evolves m (Dynamic.getMember m.env target name) := by
  unfold Dynamic.getMember
  refine ite (fails _ rfl) (bind (ownMember target name) fun own => ?_)
  cases own with
  | some v => exact pure v
  | none =>
    cases Receiver.ofValue? target with
    | none => exact notFound target name
    | some receiver =>
      refine bind (lookup receiver name) fun found => ?_
      split
      · exact notFound target name
      · refine ite (bindMethod _ _) (bind (read _ _ _) fun v => ?_)
        split
        · exact ofExcept (shallow_coerce _ _ _)
        · exact pure v
      · exact ite (bindMethod _ _) (notFound target name)

theorem store (target : String) (rep : Rep) (v : Value) : Evolves m (Dynamic.store target rep v) := by
  refine bind heap fun h => ?_
  split
  · exact pure _
  · exact fails _ rfl

theorem setField (r : RecordRef) (name : String) (v : Value) :
    Evolves m (Dynamic.setField r name v) := by
  refine bind heap fun h => ?_
  split
  · exact notFound _ _
  · split
    · exact notFound _ _
    · exact bind (store _ _ _) fun slot => modifyHeap fun w => .setField w r _ slot

theorem setHostMember (object : HostObject) (name : String) (v : Value) :
    Evolves m (Dynamic.setHostMember m.env object name v) := by
  refine bind (lookup _ _) fun found => ?_
  cases found with
  | none => exact notFound _ _
  | some member =>
    refine ite (bind (fails _ rfl) fun _ => ?_) ?_
    all_goals
      dsimp only
      split
      · exact bind (ofExcept (shallow_coerce _ _ _)) fun _ => write _ _ _ _
      · exact bind (pure _) fun _ => write _ _ _ _

theorem setMember (target : Value) (name : String) (v : Value) :
    Evolves m (Dynamic.setMember m.env target name v) := by
  unfold Dynamic.setMember
  split
  · exact fails _ rfl
  · exact setField _ _ _
  · exact setHostMember _ _ _
  · exact ite (fails _ rfl) (notFound _ _)
  · exact ite (fails _ rfl) (notFound _ _)
  · exact notFound _ _

theorem position (index : Float) (length : Nat) :
    Evolves m (Dynamic.position index length : Run σ Nat) := by
  unfold Dynamic.position
  split
  · exact pure _
  · exact fails _ rfl

theorem getIndex (target index : Value) : Evolves m (Dynamic.getIndex m.env target index) := by
  unfold Dynamic.getIndex
  split
  · exact fails _ rfl
  · exact bind heap fun _ => bind (position _ _) fun _ => pure _
  · exact bind (position _ _) fun _ => pure _
  · exact getMember _ _
  · split
    · exact fails _ rfl
    · split
      · exact bind (ofExcept (shallow_coerce _ _ _)) fun _ => readIndex _ _ _ _
      · exact bind (pure _) fun _ => readIndex _ _ _ _
  · exact fails _ rfl

theorem setElement (a : ArrayRef) (index : Float) (v : Value) :
    Evolves m (Dynamic.setElement a index v) := by
  refine bind heap fun h => ?_
  split
  · exact fails _ rfl
  · exact bind (store _ _ _) fun slot => bind (position _ _) fun i =>
      modifyHeap fun w => .setItem w a i slot

theorem setIndex (target index v : Value) : Evolves m (Dynamic.setIndex m.env target index v) := by
  unfold Dynamic.setIndex
  split
  · exact fails _ rfl
  · exact setElement _ _ _
  · exact setMember _ _ _
  · split
    · exact fails _ rfl
    · split
      · exact bind (ofExcept (shallow_coerce _ _ _)) fun _ => bind (ofExcept (shallow_coerce _ _ _)) fun _ => writeIndex _ _ _ _ _
      · exact writeIndex _ _ _ _ _
  · exact fails _ rfl

theorem callBound (bound : BoundMethod) (args : List Value) :
    Evolves m (Dynamic.callBound m.env bound args) := by
  unfold Dynamic.callBound
  split
  · refine bind (ofExcept (shallow_hostArgs _ _ _)) fun _ => ?_
    split
    · exact call _ _ _ _
    · exact fails _ rfl
  · refine ite (bind (fails _ rfl) fun _ => ?_) ?_
    all_goals exact bind (ofExcept (shallow_hostArgs _ _ _)) fun _ => call _ _ _ _
  · split
    · split
      · refine bind heap fun h => ?_
        split
        · exact fails _ rfl
        · exact bind (store _ _ _) fun slot =>
            bind (modifyHeap fun w => .addItem w _ slot) fun _ => pure _
      · exact fails _ rfl
    · exact fails _ rfl

theorem callMethod (callee : Value) (args : List Value) :
    Evolves m (Dynamic.callMethod m.env callee args) := by
  unfold Dynamic.callMethod
  split
  · refine bind heap fun h => ?_
    split
    · exact callBound _ _
    · exact fails _ rfl
  · exact fails _ rfl

theorem memberCallee (target : Value) (name : String) :
    Evolves m (Dynamic.memberCallee m.env target name) := by
  refine bind (getMember target name) fun v => ?_
  split
  · exact pure _
  · exact pure _
  · exact fails _ rfl

end Evolves

/-! ### Actions within a frame -/

namespace Chains

theorem pure (a : α) : Chains m (pure a : Exec σ α) :=
  fun f => .pure (a, f)

theorem fails (e : RuntimeError) (h : isOverflow e = false) :
    Chains m (throw e : Exec σ α) :=
  fun _ => .fails e h

theorem bind {x : Exec σ α} {k : α → Exec σ β} (hx : Chains m x) (hk : ∀ a, Chains m (k a)) :
    Chains m (x >>= k) :=
  fun f => (hx f).bind fun r => hk r.1 r.2

theorem ite {c : Prop} [Decidable c] {x y : Exec σ α} (hx : Chains m x) (hy : Chains m y) :
    Chains m (if c then x else y) := by
  split
  · exact hx
  · exact hy

theorem inWorld {action : Run σ α} (h : Evolves m action) : Chains m (inWorld action) := by
  intro f w
  have hw := h w
  unfold Exec.inWorld
  cases hrun : action w with
  | ok a w' =>
    rw [hrun] at hw
    exact hw
  | error e w' =>
    rw [hrun] at hw
    exact hw

theorem get : Chains m (get : Exec σ Frame) :=
  fun f => .pure (f, f)

theorem set (f : Frame) : Chains m (set f : Exec σ Unit) :=
  fun _ => .pure ((), f)

theorem modify (g : Frame → Frame) : Chains m (modify g : Exec σ Unit) :=
  fun f => .pure ((), g f)

theorem fault (f : Fault) : Chains m (fault f : Exec σ α) :=
  fails _ rfl

theorem orFault (result : Option α) (f : Fault) : Chains m (orFault result f : Exec σ α) := by
  cases result with
  | some a => exact pure a
  | none => exact fault f

theorem ofExcept {result : Except RuntimeError α} (h : Shallow result) :
    Chains m (MonadExcept.ofExcept result : Exec σ α) := by
  cases result with
  | ok a => exact pure a
  | error e => exact fails e (h e rfl)

theorem heap : Chains m (heap : Exec σ Heap) :=
  inWorld .heap

theorem modifyHeap {g : Heap → Heap} (hg : ∀ w, Changes m w { w with heap := g w.heap }) :
    Chains m (modifyHeap g : Exec σ Unit) :=
  inWorld (.modifyHeap hg)

theorem alloc {g : Heap → α × Heap} (hg : ∀ w, Changes m w { w with heap := (g w.heap).2 }) :
    Chains m (alloc g : Exec σ α) :=
  inWorld (.alloc hg)

theorem mapM {k : α → Exec σ β} (hk : ∀ a, Chains m (k a)) (l : List α) :
    Chains m (l.mapM k) := by
  induction l with
  | nil => exact pure []
  | cons a l ih =>
    rw [List.mapM_cons]
    exact bind (hk a) fun _ => bind ih fun _ => pure _

/-! ### The operand stack, local slots and cells -/

theorem push (slot : Slot) : Chains m (push slot : Exec σ Unit) :=
  modify _

theorem pushValue (v : Value) : Chains m (pushValue v : Exec σ Unit) :=
  push _

theorem pop : Chains m (pop : Exec σ Slot) := by
  refine bind get fun f => ?_
  split
  · exact fault _
  · exact bind (set _) fun _ => pure _

theorem popValue : Chains m (popValue : Exec σ Value) :=
  bind pop fun _ => pure _

theorem popNum : Chains m (popNum : Exec σ Float) := by
  refine bind pop fun slot => ?_
  split
  · exact pure _
  · exact pure _
  · exact fault _

theorem popBool : Chains m (popBool : Exec σ Bool) := by
  refine bind pop fun slot => ?_
  split
  · exact pure _
  · exact pure _
  · exact fault _

theorem popStr : Chains m (popStr : Exec σ String) := by
  refine bind popValue fun v => ?_
  split
  · exact pure _
  · exact fault _

theorem popMany (count : Nat) : Chains m (popMany count : Exec σ (List Slot)) := by
  refine bind get fun f => ite (bind (fault _) fun _ => ?_) ?_
  all_goals exact bind (set _) fun _ => pure _

theorem popValues (count : Nat) : Chains m (popValues count : Exec σ (List Value)) :=
  bind (popMany count) fun _ => pure _

theorem pushAgain (count : Nat) : Chains m (pushAgain count : Exec σ Unit) := by
  refine bind get fun f => ite (bind (fault _) fun _ => ?_) ?_
  all_goals exact set _

theorem readCell (c : CellRef) : Chains m (readCell c : Exec σ Slot) :=
  bind heap fun _ => pure _

theorem writeCell (c : CellRef) (content : Slot) : Chains m (writeCell c content : Exec σ Unit) :=
  modifyHeap fun w => .setCell w c content

theorem readLocal (slot : Nat) : Chains m (readLocal slot : Exec σ Slot) := by
  refine bind get fun f => ?_
  split
  · exact pure _
  · exact readCell _
  · exact fault _

theorem localCell (slot : Nat) : Chains m (localCell slot : Exec σ CellRef) := by
  refine bind get fun f => ?_
  split
  · exact pure _
  · exact fault _

theorem captureCell (index : Nat) : Chains m (captureCell index : Exec σ CellRef) :=
  bind get fun _ => orFault _ _

/-! ### Operations by kind -/

theorem checked (rep : Rep) (expected target : String) (v : Value) :
    Chains m (checked rep expected target v : Exec σ Slot) := by
  refine bind heap fun h => ?_
  split
  · exact pure _
  · exact fails _ rfl

theorem hostMember (index : Nat) : Chains m (hostMember m index) :=
  orFault _ _

theorem hostReceiver (h : HostMember) (v : Value) :
    Chains m (hostReceiver h v : Exec σ HostObject) := by
  unfold Machine.hostReceiver
  split
  · exact pure _
  · exact fails _ rfl

theorem pushResult (h : HostMember) (v : Value) : Chains m (pushResult h v : Exec σ Unit) :=
  bind (checked _ _ _ _) fun slot => push slot

theorem operands {popOne : Exec σ α} (h : Chains m popOne) : Chains m (operands popOne) :=
  bind h fun _ => bind h fun _ => pure _

theorem popRecord : Chains m (popRecord : Exec σ RecordRef) := by
  refine bind popValue fun v => ?_
  split
  · exact pure _
  · exact fails _ rfl

theorem popArray (target : String) :
    Chains m (popArray target : Exec σ (ArrayRef × ArrayObject)) := by
  refine bind popValue fun v => ?_
  split
  · exact bind heap fun _ => pure _
  · exact fails _ rfl

theorem orFault_bind {result : Option α} {e : Fault} {k : α → Exec σ β}
    (hk : ∀ a, result = some a → Chains m (k a)) : Chains m (Exec.orFault result e >>= k) := by
  cases result with
  | some a => exact fun f w => hk a rfl f w
  | none => exact fault e

theorem newRecord (layout : Nat) : Chains m (newRecord m layout) := by
  refine orFault_bind fun row hrow => bind (alloc fun w => ?_) fun v => pushValue v
  exact .newRecord w _ hrow (by simp)

theorem newArray (layout count : Nat) : Chains m (newArray m layout count) :=
  orFault_bind fun _ hrow => bind (popMany count) fun items =>
    bind (alloc fun w => .newArray w items.toArray hrow) fun v => pushValue v

theorem getField (index : Nat) : Chains m (getField index : Exec σ Unit) :=
  bind popRecord fun _ => bind heap fun _ => bind (orFault _ _) fun slot => push slot

theorem setField (index : Nat) : Chains m (setField index : Exec σ Unit) :=
  bind pop fun content => bind popRecord fun r => modifyHeap fun w => .setField w r index content

theorem getIndex : Chains m (getIndex : Exec σ Unit) :=
  bind popNum fun _ => bind (popArray _) fun _ =>
    bind (inWorld (.position _ _)) fun _ => push _

theorem setIndex : Chains m (setIndex : Exec σ Unit) :=
  bind pop fun content => bind popNum fun _ => bind (popArray _) fun (a, _) =>
    bind (inWorld (.position _ _)) fun i => modifyHeap fun w => .setItem w a i content

theorem arrayAdd : Chains m (arrayAdd : Exec σ Unit) :=
  bind pop fun content => bind (popArray _) fun (a, _) =>
    bind (modifyHeap fun w => .addItem w a content) fun _ => pushValue _

theorem getHost (index : Nat) : Chains m (getHost m index) :=
  bind (hostMember index) fun h => bind popValue fun _ => bind (hostReceiver h _) fun _ =>
    bind (inWorld (.read _ _ _)) fun v => pushResult h v

theorem setHost (index : Nat) : Chains m (setHost m index) := by
  refine bind (hostMember index) fun h => bind popValue fun v => bind popValue fun _ =>
    bind (hostReceiver h _) fun object => ?_
  split
  · exact bind (ofExcept (shallow_coerce _ _ _)) fun _ => inWorld (.write _ _ _ _)
  · exact bind (pure _) fun _ => inWorld (.write _ _ _ _)

theorem callHost (index args : Nat) : Chains m (callHost m index args) :=
  bind (hostMember index) fun h => bind (popValues args) fun _ => bind popValue fun _ =>
    bind (hostReceiver h _) fun _ => bind (inWorld (.call _ _ _ _)) fun v => pushResult h v

theorem callStatic (index args : Nat) : Chains m (callStatic m index args) :=
  bind (hostMember index) fun h => bind (popValues args) fun _ =>
    bind (inWorld (.call _ _ _ _)) fun v => pushResult h v

theorem getHostIndex (index : Nat) : Chains m (getHostIndex m index) :=
  bind (hostMember index) fun h => bind popValue fun _ => bind popValue fun _ =>
    bind (hostReceiver h _) fun _ => bind (inWorld (.readIndex _ _ _ _)) fun v => pushResult h v

theorem setHostIndex (index : Nat) : Chains m (setHostIndex m index) := by
  refine bind (hostMember index) fun h => bind popValue fun v => bind popValue fun key =>
    bind popValue fun target => ?_
  split
  · exact bind (ofExcept (shallow_coerce _ _ _)) fun _ => bind (hostReceiver h _) fun _ => inWorld (.writeIndex _ _ _ _ _)
  · exact bind (pure _) fun _ => bind (hostReceiver h _) fun _ => inWorld (.writeIndex _ _ _ _ _)

theorem captureOf (source : CaptureSource) : Chains m (captureOf source : Exec σ CellRef) := by
  cases source with
  | «local» slot => exact localCell slot
  | outer index => exact captureCell index

theorem makeClosure (index : Nat) : Chains m (makeClosure m index) :=
  orFault_bind fun _ hrow => bind (mapM captureOf _) fun captures =>
    bind (alloc fun w => .newClosure w captures hrow) fun v => pushValue v

theorem entryFrame (function : Nat) (args : List Slot) (captures : List CellRef) (erases : Bool) :
    Chains m (entryFrame m function args captures erases) :=
  bind (orFault _ _) fun _ => pure _

theorem closureOf (c : ClosureRef) : Chains m (closureOf c : Exec σ Closure) :=
  bind heap fun _ => orFault _ _

theorem genericFrame (c : ClosureRef) (args : List Value) : Chains m (genericFrame m c args) := by
  refine bind (closureOf c) fun _ => bind (orFault _ _) fun _ => ite (bind (fails _ rfl) fun _ => ?_) ?_
  all_goals exact entryFrame _ _ _ _

theorem callValue (callee : Value) (args : List Value) : Chains m (callValue m callee args) := by
  unfold Machine.callValue
  split
  · exact bind (genericFrame _ _) fun _ => pure _
  · exact bind (inWorld (.callMethod _ _)) fun v => bind (pushValue v) fun _ => pure _

theorem callEntry (function args : Nat) : Chains m (callEntry m function args) := by
  refine bind (popMany args) fun _ => bind popValue fun v => ?_
  split
  · exact bind (closureOf _) fun _ => bind (entryFrame _ _ _ _) fun _ => pure _
  · exact fails _ rfl

/-! ### Operations -/

theorem compute (op : Op) : Chains m (compute m op) := by
  cases op with
  | pushNum index => exact push _
  | pushStr index => exact pushValue _
  | pushBool b => exact push _
  | pushNull => exact pushValue _
  | loadLocal slot => exact bind (readLocal slot) fun s => push s
  | storeLocal slot => exact bind pop fun _ => modify _
  | makeCell slot =>
    exact bind pop fun content => bind (alloc fun w => .newCell w content) fun _ => modify _
  | loadCell slot => exact bind (localCell slot) fun c => bind (readCell c) fun s => push s
  | storeCell slot => exact bind pop fun s => bind (localCell slot) fun c => writeCell c s
  | loadCapture index => exact bind (captureCell index) fun c => bind (readCell c) fun s => push s
  | storeCapture index => exact bind pop fun s => bind (captureCell index) fun c => writeCell c s
  | loadInput => exact pushValue _
  | pop => exact bind pop fun _ => pure _
  | dup => exact pushAgain 1
  | dup2 => exact pushAgain 2
  | arith op => exact bind (operands popNum) fun _ => push _
  | negate => exact bind popNum fun _ => push _
  | compareNum op | equalNum negated => exact bind (operands popNum) fun _ => push _
  | equalBool negated => exact bind (operands popBool) fun _ => push _
  | notBool => exact bind popBool fun _ => push _
  | concat => exact bind (operands popValue) fun _ => bind heap fun _ => pushValue _
  | compareStr op => exact bind (operands popStr) fun _ => push _
  | equalStr negated | equalRef negated | dynEqual negated =>
    exact bind (operands popValue) fun _ => push _
  | toStr => exact bind popValue fun _ => bind heap fun _ => pushValue _
  | strLength =>
    refine bind popValue fun v => ?_
    split
    · exact push _
    · exact fails _ rfl
  | wrap => exact bind popValue fun v => pushValue v
  | check rep label => exact bind popValue fun v => bind (checked _ _ _ v) fun s => push s
  | narrow kind => exact bind popNum fun _ => push _
  | dynArith op =>
    exact bind (operands popValue) fun _ => bind heap fun _ =>
      bind (ofExcept (shallow_arith _ _ _ _)) fun v => pushValue v
  | dynNegate => exact bind popValue fun v => bind (ofExcept (shallow_negate v)) fun v => pushValue v
  | dynCompare op =>
    exact bind (operands popValue) fun _ => bind (ofExcept (shallow_compare _ _ _)) fun _ => push _
  | dynGetMember index =>
    exact bind popValue fun _ => bind (inWorld (.getMember _ _)) fun v => pushValue v
  | dynSetMember index => exact bind (operands popValue) fun _ => inWorld (.setMember _ _ _)
  | dynGetIndex =>
    exact bind (operands popValue) fun _ => bind (inWorld (.getIndex _ _)) fun v => pushValue v
  | dynSetIndex =>
    exact bind popValue fun _ => bind (operands popValue) fun _ => inWorld (.setIndex _ _ _)
  | newRecord layout => exact newRecord layout
  | getField index => exact getField index
  | setField index => exact setField index
  | newArray layout count => exact newArray layout count
  | getIndex => exact getIndex
  | setIndex => exact setIndex
  | arrayAdd => exact arrayAdd
  | arrayLength => exact bind (popArray _) fun _ => push _
  | getHost index => exact getHost index
  | setHost index => exact setHost index
  | callHost index args => exact callHost index args
  | callStatic index args => exact callStatic index args
  | getHostIndex index => exact getHostIndex index
  | setHostIndex index => exact setHostIndex index
  | bindMethod index =>
    exact bind (hostMember index) fun _ => bind popValue fun _ =>
      bind (inWorld (.bindMethod _ _)) fun v => pushValue v
  | bindArrayAdd =>
    exact bind popValue fun _ => bind (alloc fun w => .newMethod w _) fun v => pushValue v
  | makeClosure index => exact makeClosure index
  | jump target => exact modify _
  | jumpIf condition target => exact bind popBool fun _ => ite (modify _) (pure _)
  | print =>
    exact bind popValue fun _ => bind heap fun _ => inWorld (.modify fun w => .print w _)
  | unreachable => exact bind get fun _ => fault _
  | dynCall args | dynCallMember index args | callEntry function args | ret => exact pure _

theorem execute (op : Op) : Chains m (execute m op) := by
  unfold Machine.execute
  split
  · exact bind (popValues _) fun args => bind popValue fun callee => callValue callee args
  · exact bind (popValues _) fun args => bind popValue fun _ =>
      bind (inWorld (.memberCallee _ _)) fun callee => callValue callee args
  · exact callEntry _ _
  · exact bind pop fun _ => pure _
  · exact bind (compute _) fun _ => pure _

end Chains

/-! ### Steps and runs -/

theorem stepFrame_evolves (m : Setting σ) (f : Frame) : Evolves m (stepFrame m f) := by
  unfold stepFrame
  split
  · exact .pure _
  · exact Chains.execute _ _

theorem step_evolves (frames : List Frame) (w : World σ) :
    ReflTransGen (Changes m) w (lastWorld (step m frames w)) := by
  cases frames with
  | nil => exact .refl
  | cons f callers =>
    have hw := (stepFrame_evolves m f w).1
    show ReflTransGen _ w (lastWorld (EStateM.bind (stepFrame m f) _ w))
    unfold EStateM.bind
    cases hrun : stepFrame m f w with
    | error e w' =>
      rw [hrun] at hw
      exact hw
    | ok r w' =>
      rw [hrun] at hw
      obtain ⟨flow, f'⟩ := r
      cases flow with
      | next | «return» result => exact hw
      | call callee =>
        dsimp only
        split <;> exact hw

end HostScript.Machine
