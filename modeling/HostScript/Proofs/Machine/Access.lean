import HostScript.Proofs.Machine.Changes
import HostScript.Proofs.Machine.Guards

/-!
# Typed and dynamic access to the host

Code of known types reaches the members of host objects by operations of its own, other code by name
at run time. `Agreement` says that both ways give the same value and leave the same world, or fail
with the same code.
-/

namespace HostScript

variable {σ α : Type}

/-! ### Look-ups -/

/-- Remembered look-ups have the result of a new look-up. -/
def World.Recalls (types : Snapshot) (w : World σ) : Prop :=
  ∀ key found, w.lookups.get? key = some found → found = types.member? key.1 key.2

/-- The worlds differ in remembered look-ups only. -/
def World.Alike (w w' : World σ) : Prop :=
  w' = { w with lookups := w'.lookups }

namespace World

variable {w w' w'' : World σ}

theorem Alike.refl (w : World σ) : w.Alike w :=
  rfl

end World

namespace Machine

variable {m : Setting σ} {w w' : World σ}

theorem Changes.recalls (h : Changes m w w') (hw : w.Recalls m.env.types) :
    w'.Recalls m.env.types := by
  cases h with
  | lookup key =>
    intro other found hfound
    rw [OrderedMap.get?_insert] at hfound
    split at hfound
    next hkey =>
      rw [hkey]
      exact (Option.some.inj hfound).symm
    next => exact hw other found hfound
  | _ => exact hw

/-- The states that a run passes through. It starts without remembered look-ups. -/
inductive Passes (m : Setting σ) (start : World σ) : List Frame → World σ → Prop
  | start {function : Function} : m.code.functions[0]? = some function →
      Passes m start [Frame.enter function [] [] true] { start with lookups := {} }
  | step {frames frames' : List Frame} {w w' : World σ} : Passes m start frames w →
      step m frames w = .ok (.running frames') w' → Passes m start frames' w'

theorem Passes.recalls {start : World σ} {frames : List Frame} (h : Passes m start frames w) :
    w.Recalls m.env.types := by
  induction h with
  | start _ =>
    intro key found hfound
    cases hfound
  | @step frames _ w _ _ hstep ih =>
    have hlast := Changes.keeps (step_evolves frames w) Changes.recalls ih
    rw [hstep] at hlast
    exact hlast

/-! ### Actions that do not see look-ups -/

/-- The same outcome, in worlds that differ in remembered look-ups only. -/
def SameEnd : EStateM.Result RuntimeError (World σ) α → EStateM.Result RuntimeError (World σ) α → Prop
  | .ok a w, .ok a' w' => a' = a ∧ w.Alike w'
  | .error e w, .error e' w' => e' = e ∧ w.Alike w'
  | _, _ => False

theorem SameEnd.cases {r r' : EStateM.Result RuntimeError (World σ) α} (h : SameEnd r r') :
    (∃ a u u', r = .ok a u ∧ r' = .ok a u' ∧ u.Alike u') ∨
      ∃ e u u', r = .error e u ∧ r' = .error e u' ∧ u.Alike u' := by
  unfold SameEnd at h
  split at h
  · obtain ⟨rfl, ha⟩ := h
    exact .inl ⟨_, _, _, rfl, rfl, ha⟩
  · obtain ⟨rfl, ha⟩ := h
    exact .inr ⟨_, _, _, rfl, rfl, ha⟩
  · exact h.elim

/-- The action does not see remembered look-ups. -/
def Blind (action : Run σ α) : Prop :=
  ∀ {w w'}, w.Alike w' → SameEnd (action w) (action w')

namespace Blind

theorem fails (e : RuntimeError) : Blind (throw e : Run σ α) :=
  fun h => ⟨rfl, h⟩

theorem host (member : Member) (action : HostAction σ α) : Blind (Run.host member action) := by
  intro w w' h
  rw [h]
  unfold Run.host
  dsimp only
  cases action w.heap w.data with
  | ok a data | error message data => exact ⟨rfl, rfl⟩

variable (code : HostCode σ) (member : Member)

theorem read (object : HostObject) : Blind (member.read code object) := by
  unfold Member.read
  split
  · exact host _ _
  · exact host _ _
  · exact fails _

theorem write (object : HostObject) (v : Value) : Blind (member.write code object v) := by
  unfold Member.write
  split
  · exact host _ _
  · exact host _ _
  · exact fails _

end Blind

end Machine

/-! ### Finding a member by name -/

namespace Dynamic

variable {env : Env σ} {w : World σ} {receiver : Receiver} {name : String} {member : Member}

theorem run_get_bind {β : Type} (k : World σ → Run σ β) (w : World σ) : (get >>= k) w = k w w :=
  rfl

theorem run_heap_bind {β : Type} (k : Heap → Run σ β) (w : World σ) :
    (Run.heap >>= k) w = k w.heap w :=
  rfl

theorem lookup_eq (types : Snapshot) (receiver : Receiver) (name : String) (w : World σ) :
    lookup types receiver name w =
      match w.lookups.get? (receiver, name) with
      | some found => .ok found w
      | none =>
        let found := types.member? receiver name
        .ok found { w with lookups := w.lookups.insert (receiver, name) found } := by
  rw [lookup, run_get_bind]
  cases w.lookups.get? (receiver, name) <;> rfl

theorem lookup_run (hw : w.Recalls env.types) :
    ∃ w', w.Alike w' ∧ lookup env.types receiver name w = .ok (env.types.member? receiver name) w' := by
  rw [lookup_eq]
  split
  next found hget =>
    obtain rfl := hw _ _ hget
    exact ⟨w, .refl w, rfl⟩
  next => exact ⟨{ w with lookups := _ }, rfl, rfl⟩

theorem run_bind_ok {β : Type} {x : Run σ α} {k : α → Run σ β} {a : α} {w' : World σ}
    (h : x w = .ok a w') : (x >>= k) w = k a w' := by
  show EStateM.bind x k w = _
  simp only [EStateM.bind, h]

theorem run_bind_error {β : Type} {x : Run σ α} {k : α → Run σ β} {e : RuntimeError} {w' : World σ}
    (h : x w = .error e w') : (x >>= k) w = .error e w' := by
  show EStateM.bind x k w = _
  simp only [EStateM.bind, h]

theorem getMember_host {object : HostObject} (hw : w.Recalls env.types)
    (hm : env.types.member? (.host object.typeId) name = some member) :
    ∃ w', w.Alike w' ∧ getMember env (.host object) name w =
      (if member.isCallable then Dynamic.bind (.host object) member
      else do
        let value ← member.read env.code object
        match member.valueType? with
        | some ty => Run.ofExcept (ty.coerce member.qualifiedName value)
        | none => return value : Run σ Value) w' := by
  obtain ⟨w', halike, hlookup⟩ := lookup_run hw
  rw [hm] at hlookup
  refine ⟨w', halike, ?_⟩
  unfold getMember
  rw [if_neg (by simp)]
  have hown : ownMember? (.host object) name w = .ok none w := rfl
  exact (run_bind_ok hown).trans (run_bind_ok hlookup)

/-- An extension is found for a value whose own members do not have the name. -/
theorem getMember_extension {target : Value} (hw : w.Recalls env.types) (hnull : target ≠ .null)
    (hown : ownMember? target name w = .ok none w) (hreceiver : Receiver.ofValue? target = some receiver)
    (hm : env.types.member? receiver name = some member) (hcall : member.isCallable = true) :
    ∃ w', w.Alike w' ∧ getMember env target name w = Dynamic.bind target member w' := by
  obtain ⟨w', halike, hlookup⟩ := lookup_run hw
  rw [hm] at hlookup
  refine ⟨w', halike, ?_⟩
  unfold getMember
  rw [if_neg hnull]
  refine (run_bind_ok hown).trans ?_
  simp only [hreceiver]
  refine (run_bind_ok hlookup).trans ?_
  cases target <;> simp [hcall]

end Dynamic

/-! ### Values of declared types -/

namespace TypeRef

variable {ty : TypeRef} {h : Heap} {v v' : Value}

/-- Conversion to the type leaves the value as it is, or the value is not even of the representation
of the type. -/
def Keeps (ty : TypeRef) (h : Heap) (v : Value) : Prop :=
  v.conforms h ty.rep = false ∨ ∀ target, ty.coerce target v = .ok v

theorem coerce_of_not_conforms (hv : v.conforms h ty.rep = false) (target : String) :
    ∃ e : RuntimeError, ty.coerce target v = .error e ∧ e.code = "type_mismatch" := by
  cases ty with
  | host id =>
    cases v with
    | host object =>
      have hid : object.typeId ≠ id := by simpa [rep, Value.conforms] using hv
      exact ⟨_, by simp only [coerce, hid, if_false]; rfl, rfl⟩
    | null => simp [rep, Value.conforms] at hv
    | _ => exact ⟨_, rfl, rfl⟩
  | number kind =>
    cases v with
    | number x => simp [rep, Value.conforms] at hv
    | _ => exact ⟨_, rfl, rfl⟩
  | bool =>
    cases v with
    | bool b => simp [rep, Value.conforms] at hv
    | _ => exact ⟨_, rfl, rfl⟩
  | string =>
    cases v with
    | str s => simp [rep, Value.conforms] at hv
    | _ => exact ⟨_, rfl, rfl⟩
  | _ =>
    simp [rep, Value.conforms] at hv

theorem conforms_of_coerce {target : String} (hc : ty.coerce target v = .ok v') :
    v.conforms h ty.rep = true := by
  by_contra hv
  obtain ⟨e, he, _⟩ := coerce_of_not_conforms (Bool.eq_false_iff.mpr hv) target
  rw [he] at hc
  cases hc

end TypeRef

namespace Machine

open Exec

variable {m : Setting σ} {i ip : Nat} {h : HostMember} {w w' : World σ} {f : Frame}
  {st rest : List Slot} {v : Value} {object : HostObject} {receiver : Slot} {name : String}
  {member : Member}

/-! ### The same outcome -/

/-- A typed operation and a dynamic one have the same outcome. The operation pushes the given values
and leaves the same world up to look-ups, or both fail with the same code. -/
def Agrees (f : Frame) (rest : List Slot) (given : α → List Value) :
    EStateM.Result RuntimeError (World σ) (Flow × Frame) →
      EStateM.Result RuntimeError (World σ) α → Prop
  | .ok (flow, g) w, .ok a w' =>
    flow = .next ∧ (∃ top : List Slot, top.map Slot.value = given a ∧ g = f.at f.ip (top ++ rest)) ∧
      w.Alike w'
  | .error e w, .error e' w' => e'.code = e.code ∧ w.Alike w'
  | _, _ => False

theorem box_value (rep : Rep) (v : Value) : (v.box rep).value = v := by
  unfold Value.box
  split <;> rfl

theorem guarded_agrees {rep : Rep} (hv : v.conforms w.heap rep = true) (ha : w.Alike w') :
    Agrees f rest (fun v => [v]) (guarded f rest w member rep v) (.ok v w') := by
  rw [guarded, if_pos hv]
  exact ⟨rfl, ⟨[v.box rep], by rw [List.map_singleton, box_value], rfl⟩, ha⟩

theorem guarded_agrees_coerce {ty : TypeRef} {target : String} (hk : ty.Keeps w.heap v)
    (ha : w.Alike w') :
    Agrees f rest (fun v => [v]) (guarded f rest w member ty.rep v)
      (Run.ofExcept (ty.coerce target v) w') := by
  rcases hk with hv | hv
  · obtain ⟨e, he, hcode⟩ := TypeRef.coerce_of_not_conforms hv target
    rw [guarded, if_neg (by simp [hv]), he]
    exact ⟨hcode, ha⟩
  · rw [hv target]
    exact guarded_agrees (TypeRef.conforms_of_coerce (hv target)) ha

/-- Host code in the same world, if the value it gives is of the representation of the row. -/
theorem guardedEnd_agrees {result : EStateM.Result RuntimeError (World σ) Value}
    (hv : ∀ v w', result = .ok v w' → v.conforms w'.heap h.result = true) :
    Agrees f rest (fun v => [v]) (guardedEnd f rest h result) result := by
  cases result with
  | ok v w' => exact guarded_agrees (hv v w' rfl) (.refl w')
  | error e w' => exact ⟨rfl, .refl w'⟩

/-! ### Reading -/

/-- Reading a field or property, if the host gives a value that conversion to the declared type
leaves as it is or one that is not of its representation. -/
def ReadsAgree (m : Setting σ) (i : Nat) (h : HostMember) (w : World σ) : Prop :=
  ∀ ⦃f : Frame⦄ ⦃ip : Nat⦄ ⦃st : List Slot⦄ ⦃receiver : Slot⦄ ⦃object : HostObject⦄ ⦃name : String⦄
    ⦃ty : TypeRef⦄, h.member.valueType? = some ty →
    m.env.types.member? (.host object.typeId) name = some h.member →
    receiver.value = .host object →
    (∀ v w', h.member.read m.env.code object w = .ok v w' → ty.Keeps w'.heap v) →
    Agrees (f.at ip st) st (fun v => [v]) (execute m (.getHost i) (f.at ip (receiver :: st)) w)
      (Dynamic.getMember m.env (.host object) name w)

theorem reads_agree (hrow : m.code.members[i]? = some h) (hw : w.Recalls m.env.types)
    (hresult : ∀ ty, h.member.valueType? = some ty → h.result = ty.rep) : ReadsAgree m i h w := by
  intro f ip st receiver object name ty hty hm hreceiver hkeeps
  obtain ⟨w₁, halike, hget⟩ := Dynamic.getMember_host hw hm
  have hcallable : h.member.isCallable = false := by
    unfold Member.valueType? at hty
    unfold Member.isCallable
    split at hty <;> simp_all
  rw [getHost_run hrow hreceiver, hget, hcallable]
  simp only [Bool.false_eq_true, if_false, hty]
  obtain ⟨v, u, u', hread, hread', hlast⟩ | ⟨e, u, u', hread, hread', hlast⟩ :=
    (Blind.read m.env.code h.member object halike).cases
  · rw [hread, Dynamic.run_bind_ok hread', guardedEnd, hresult ty hty]
    exact guarded_agrees_coerce (hkeeps v u hread) hlast
  · rw [hread, Dynamic.run_bind_error hread', guardedEnd]
    exact ⟨rfl, hlast⟩

/-- Reading an entry by a key of the declared type, if the host gives a value of the representation
that code expects. -/
def EntriesAgree (m : Setting σ) (i : Nat) (h : HostMember) (w : World σ) : Prop :=
  ∀ ⦃f : Frame⦄ ⦃ip : Nat⦄ ⦃st : List Slot⦄ ⦃receiver key : Slot⦄ ⦃object : HostObject⦄
    ⦃keyType ty : TypeRef⦄ ⦃writable : Bool⦄, h.member.kind = .indexer keyType ty writable →
    Dynamic.indexer? m.env.types object.typeId = some h.member →
    receiver.value = .host object →
    (∀ target, keyType.coerce target key.value = .ok key.value) →
    (∀ v w', h.member.readIndex m.env.code object key.value w = .ok v w' →
      v.conforms w'.heap h.result = true) →
    Agrees (f.at ip st) st (fun v => [v])
      (execute m (.getHostIndex i) (f.at ip (key :: receiver :: st)) w)
      (Dynamic.getIndex m.env (.host object) key.value w)

theorem entries_agree (hrow : m.code.members[i]? = some h) : EntriesAgree m i h w := by
  intro f ip st receiver key object keyType ty writable hkind hm hreceiver hkey hv
  have hget : Dynamic.getIndex m.env (.host object) key.value w =
      h.member.readIndex m.env.code object key.value w := by
    simp only [Dynamic.getIndex, hm, hkind, hkey]
    rfl
  rw [getHostIndex_run hrow hreceiver, hget]
  exact guardedEnd_agrees hv

/-! ### Calls -/

/-- What binding a method leaves behind: a new bound method and look-ups. -/
def Bound (w w' : World σ) (r : MethodRef) (bound : BoundMethod) : Prop :=
  r = w.heap.methods.size ∧
    w' = { w with heap := (w.heap.newMethod bound).2, lookups := w'.lookups }

theorem bound_bind {target : Value} (ha : w.Alike w') :
    ∃ u, Dynamic.bind target member w' = .ok (.method w.heap.methods.size) u ∧
      Bound w u w.heap.methods.size
        ⟨target, if member.isExtension then .extension member else .member member⟩ := by
  rw [ha]
  exact ⟨_, rfl, rfl, rfl⟩

theorem callMethod_run {r : MethodRef} {bound : BoundMethod} {args : List Value}
    (hb : Bound w w' r bound) :
    Dynamic.callMethod m.env (.method r) args w' = Dynamic.callBound m.env bound args w' := by
  obtain ⟨rfl, hw'⟩ := hb
  have hget : w'.heap.methods[w.heap.methods.size]? = some bound := by
    rw [hw']
    simp [Heap.newMethod]
  simp only [Dynamic.callMethod, Dynamic.run_heap_bind, hget]

/-- Calling a method with arguments of the declared types. Finding the method by name binds it; in
the world that is left, both calls agree if the host gives a value of the representation that code
expects. -/
def CallsAgree (m : Setting σ) (i : Nat) (h : HostMember) (w : World σ) : Prop :=
  ∀ ⦃f : Frame⦄ ⦃ip : Nat⦄ ⦃st args : List Slot⦄ ⦃receiver : Slot⦄ ⦃object : HostObject⦄
    ⦃name : String⦄ ⦃params : List TypeRef⦄ ⦃ret : TypeRef⦄, h.member.kind = .method params ret →
    m.env.types.member? (.host object.typeId) name = some h.member →
    receiver.value = .host object →
    Dynamic.hostArgs h.member params (args.map Slot.value) = .ok (args.map Slot.value) →
    ∃ r w', Dynamic.getMember m.env (.host object) name w = .ok (.method r) w' ∧
      Bound w w' r ⟨.host object, .member h.member⟩ ∧
      ((∀ v u, h.member.call m.env.code (some object) (args.map Slot.value) w' = .ok v u →
          v.conforms u.heap h.result = true) →
        Agrees (f.at ip st) st (fun v => [v])
          (execute m (.callHost i args.length) (f.at ip (args.reverse ++ receiver :: st)) w')
          (Dynamic.callMethod m.env (.method r) (args.map Slot.value) w'))

theorem calls_agree (hrow : m.code.members[i]? = some h) (hw : w.Recalls m.env.types) :
    CallsAgree m i h w := by
  intro f ip st args receiver object name params ret hkind hm hreceiver hargs
  obtain ⟨w₁, halike, hget⟩ := Dynamic.getMember_host hw hm
  obtain ⟨w', hbind, hb⟩ := bound_bind halike
  have hcallable : h.member.isCallable = true := by simp [Member.isCallable, hkind]
  have hextension : h.member.isExtension = false := by simp [Member.isExtension, hkind]
  have hparams : h.member.callParams = params := by simp [Member.callParams, hkind]
  rw [hcallable, if_pos rfl, hbind] at hget
  simp only [hextension, Bool.false_eq_true, if_false] at hb
  refine ⟨_, w', hget, hb, fun hv => ?_⟩
  have hcall : Dynamic.callMethod m.env (.method w.heap.methods.size) (args.map Slot.value) w' =
      h.member.call m.env.code (some object) (args.map Slot.value) w' := by
    rw [callMethod_run hb]
    simp only [Dynamic.callBound, hparams, hargs]
    rfl
  rw [callHost_run hrow hreceiver, hcall]
  exact guardedEnd_agrees hv

/-- Calling an extension on a receiver other than null, none of whose own members has the name. -/
def ExtensionsAgree (m : Setting σ) (i : Nat) (h : HostMember) (w : World σ) : Prop :=
  ∀ ⦃f : Frame⦄ ⦃ip : Nat⦄ ⦃st args : List Slot⦄ ⦃receiver : Slot⦄ ⦃kind : Receiver⦄ ⦃name : String⦄
    ⦃params : List TypeRef⦄ ⦃ret : TypeRef⦄, h.member.kind = .function params ret →
    receiver.value ≠ .null →
    Dynamic.ownMember? receiver.value name w = .ok none w →
    Receiver.ofValue? receiver.value = some kind →
    m.env.types.member? kind name = some h.member →
    Dynamic.hostArgs h.member params ((receiver :: args).map Slot.value) =
      .ok ((receiver :: args).map Slot.value) →
    ∃ r w', Dynamic.getMember m.env receiver.value name w = .ok (.method r) w' ∧
      Bound w w' r ⟨receiver.value, .extension h.member⟩ ∧
      ((∀ v u, h.member.call m.env.code none ((receiver :: args).map Slot.value) w' = .ok v u →
          v.conforms u.heap h.result = true) →
        Agrees (f.at ip st) st (fun v => [v])
          (execute m (.callStatic i (receiver :: args).length)
            (f.at ip ((receiver :: args).reverse ++ st)) w')
          (Dynamic.callMethod m.env (.method r) (args.map Slot.value) w'))

theorem extensions_agree (hrow : m.code.members[i]? = some h) (hw : w.Recalls m.env.types) :
    ExtensionsAgree m i h w := by
  intro f ip st args receiver kind name params ret hkind hnull hown hreceiver hm hargs
  have hcallable : h.member.isCallable = true := by simp [Member.isCallable, hkind]
  have hextension : h.member.isExtension = true := by simp [Member.isExtension, hkind]
  have hlength : args.length + 1 = params.length := by
    by_contra hne
    rw [Dynamic.hostArgs, if_neg (by simpa using hne)] at hargs
    cases hargs
  obtain ⟨w₁, halike, hget⟩ := Dynamic.getMember_extension hw hnull hown hreceiver hm hcallable
  obtain ⟨w', hbind, hb⟩ := bound_bind halike
  rw [hbind] at hget
  simp only [hextension, if_true] at hb
  refine ⟨_, w', hget, hb, fun hv => ?_⟩
  have hcall : Dynamic.callMethod m.env (.method w.heap.methods.size) (args.map Slot.value) w' =
      h.member.call m.env.code none ((receiver :: args).map Slot.value) w' := by
    rw [callMethod_run hb]
    simp only [List.map_cons] at hargs
    simp only [Dynamic.callBound, hkind, List.length_map, hlength, ne_eq, not_true, if_false, hargs]
    rfl
  rw [callStatic_run hrow, hcall]
  exact guardedEnd_agrees hv

/-! ### Stores -/

/-- What becomes of the outcome of host code that gives no value. -/
def storedEnd (f : Frame) :
    EStateM.Result RuntimeError (World σ) Unit →
      EStateM.Result RuntimeError (World σ) (Flow × Frame)
  | .ok _ w => .ok (.next, f) w
  | .error e w => .error e w

theorem stored_run (action : Run σ Unit) :
    (inWorld action >>= fun _ => pure Flow.next : Exec σ Flow) f w = storedEnd f (action w) := by
  cases hrun : action w with
  | ok _ w' =>
    rw [exec_bind_ok (inWorld_ok hrun)]
    rfl
  | error e w' => rw [exec_bind_error (inWorld_error hrun), storedEnd]

theorem ofExcept_ok (a : α) : (ofExcept (.ok a : Except RuntimeError α) : Exec σ α) f w = .ok (a, f) w :=
  rfl

theorem storedEnd_agrees {r r' : EStateM.Result RuntimeError (World σ) Unit} (hsame : SameEnd r r') :
    Agrees (f.at ip st) st (fun _ => []) (storedEnd (f.at ip st) r) r' := by
  obtain ⟨_, u, u', rfl, rfl, ha⟩ | ⟨e, u, u', rfl, rfl, ha⟩ := hsame.cases
  · exact ⟨rfl, ⟨[], rfl, rfl⟩, ha⟩
  · exact ⟨rfl, ha⟩

theorem SameEnd.refl (r : EStateM.Result RuntimeError (World σ) α) : SameEnd r r := by
  cases r with
  | ok a w | error e w => exact ⟨rfl, .refl w⟩

theorem write_of_not_writable {code : HostCode σ} (hw : member.isWritable = false) :
    member.write code object v = throw (.readOnly member.qualifiedName) := by
  unfold Member.isWritable at hw
  unfold Member.write
  split at hw <;> simp_all

/-- Storing to a field or property a value that can be converted to its type. -/
def StoresAgree (m : Setting σ) (i : Nat) (h : HostMember) (w : World σ) : Prop :=
  ∀ ⦃f : Frame⦄ ⦃ip : Nat⦄ ⦃st : List Slot⦄ ⦃receiver content : Slot⦄ ⦃object : HostObject⦄
    ⦃name : String⦄ ⦃ty : TypeRef⦄ ⦃v : Value⦄, h.member.valueType? = some ty →
    m.env.types.member? (.host object.typeId) name = some h.member →
    receiver.value = .host object →
    ty.coerce h.member.qualifiedName content.value = .ok v →
    Agrees (f.at ip st) st (fun _ => [])
      (execute m (.setHost i) (f.at ip (content :: receiver :: st)) w)
      (Dynamic.setMember m.env (.host object) name content.value w)

theorem stores_agree (hrow : m.code.members[i]? = some h) (hw : w.Recalls m.env.types) :
    StoresAgree m i h w := by
  intro f ip st receiver content object name ty v hty hm hreceiver hv
  obtain ⟨w₁, halike, hlookup⟩ := Dynamic.lookup_run hw
  rw [hm] at hlookup
  have htyped : execute m (.setHost i) (f.at ip (content :: receiver :: st)) w =
      storedEnd (f.at ip st) (h.member.write m.env.code object v w) := by
    show (setHost m i >>= fun _ => pure Flow.next : Exec σ Flow) _ _ = _
    simp only [setHost, bind_assoc]
    rw [exec_bind_ok (hostMember_ok hrow), exec_bind_ok (popValue_at _),
      exec_bind_ok (popValue_at _), exec_bind_ok (hostReceiver_ok hreceiver), hty]
    simp only [hv, bind_assoc]
    exact (exec_bind_ok (ofExcept_ok v)).trans (stored_run _)
  have hdynamic : Dynamic.setMember m.env (.host object) name content.value w =
      (if !h.member.isWritable then throw (.readOnly h.member.qualifiedName)
      else h.member.write m.env.code object v : Run σ Unit) w₁ := by
    refine (Dynamic.run_bind_ok hlookup).trans ?_
    simp only [hty, hv]
    split <;> rfl
  rw [htyped, hdynamic]
  by_cases hwritable : h.member.isWritable = true
  · rw [hwritable]
    exact storedEnd_agrees (Blind.write m.env.code h.member object v halike)
  · rw [write_of_not_writable (by simpa using hwritable), if_pos (by simpa using hwritable)]
    exact storedEnd_agrees (Blind.fails _ halike)

/-- Storing to an entry, by a key of the declared type, a value that can be converted to the type of
entries. -/
def EntryStoresAgree (m : Setting σ) (i : Nat) (h : HostMember) (w : World σ) : Prop :=
  ∀ ⦃f : Frame⦄ ⦃ip : Nat⦄ ⦃st : List Slot⦄ ⦃receiver key content : Slot⦄ ⦃object : HostObject⦄
    ⦃keyType ty : TypeRef⦄ ⦃writable : Bool⦄ ⦃v : Value⦄,
    h.member.kind = .indexer keyType ty writable →
    Dynamic.indexer? m.env.types object.typeId = some h.member →
    receiver.value = .host object →
    (∀ target, keyType.coerce target key.value = .ok key.value) →
    ty.coerce (Dynamic.indexLabel h.member) content.value = .ok v →
    Agrees (f.at ip st) st (fun _ => [])
      (execute m (.setHostIndex i) (f.at ip (content :: key :: receiver :: st)) w)
      (Dynamic.setIndex m.env (.host object) key.value content.value w)

theorem entryStores_agree (hrow : m.code.members[i]? = some h) : EntryStoresAgree m i h w := by
  intro f ip st receiver key content object keyType ty writable v hkind hm hreceiver hkey hv
  have htyped : execute m (.setHostIndex i) (f.at ip (content :: key :: receiver :: st)) w =
      storedEnd (f.at ip st) (h.member.writeIndex m.env.code object key.value v w) := by
    show (setHostIndex m i >>= fun _ => pure Flow.next : Exec σ Flow) _ _ = _
    simp only [setHostIndex, bind_assoc]
    rw [exec_bind_ok (hostMember_ok hrow), exec_bind_ok (popValue_at _),
      exec_bind_ok (popValue_at _), exec_bind_ok (popValue_at _), hkind]
    simp only [hv, bind_assoc]
    refine (exec_bind_ok (ofExcept_ok v)).trans ?_
    exact (exec_bind_ok (hostReceiver_ok hreceiver)).trans (stored_run _)
  have hdynamic : Dynamic.setIndex m.env (.host object) key.value content.value w =
      h.member.writeIndex m.env.code object key.value v w := by
    simp only [Dynamic.setIndex, hm, hkind, hkey, hv]
    rfl
  rw [htyped, hdynamic]
  exact storedEnd_agrees (.refl _)

/-! ### All kinds of access -/

/-- Typed and dynamic access to a member agree in a world. -/
structure Agreement (m : Setting σ) (i : Nat) (h : HostMember) (w : World σ) : Prop where
  reads : ReadsAgree m i h w
  calls : CallsAgree m i h w
  extensions : ExtensionsAgree m i h w
  entries : EntriesAgree m i h w
  stores : StoresAgree m i h w
  entryStores : EntryStoresAgree m i h w

end Machine

/-- The row of a field or property has the representation of its declared type. -/
theorem Code.Uses.value_result {c : Code} {made : List Member} (hu : c.Uses made) {i : Nat}
    {h : HostMember} (hrow : c.members[i]? = some h) {ty : TypeRef}
    (hty : h.member.valueType? = some ty) : h.result = ty.rep := by
  obtain ⟨_, _, _, _, hfits, hresult⟩ := hu.first hrow
  rw [hresult]
  exact (hfits.eq_value hty).2

/-- Whatever state a run of a compiled program passes through, typed and dynamic access to each
member that the program uses agree there. -/
theorem Program.host_access_agrees {e : Engine} (he : e.Reached) {source : String}
    {input : Option HostTypeId} {analyses : Nat} {p : Program}
    (hp : (Engine.compile source input analyses e).1 = some (.ok p)) {m : Machine.Setting σ}
    (hm : m.code = p.code) {i : Nat} {h : HostMember} (hrow : p.code.members[i]? = some h)
    {start w : World σ} {frames : List Frame} (hpass : Machine.Passes m start frames w) :
    Machine.Agreement m i h w := by
  obtain ⟨made, hu⟩ := Engine.compile_uses he hp
  have hrow' : m.code.members[i]? = some h := hm ▸ hrow
  exact {
    reads := Machine.reads_agree hrow' hpass.recalls fun _ => hu.value_result hrow
    calls := Machine.calls_agree hrow' hpass.recalls
    extensions := Machine.extensions_agree hrow' hpass.recalls
    entries := Machine.entries_agree hrow'
    stores := Machine.stores_agree hrow' hpass.recalls
    entryStores := Machine.entryStores_agree hrow' }

/-- A method without arguments that gives a text. -/
def Member.givesText (m : Member) : Bool :=
  match m.kind with
  | .method [] .string => true
  | _ => false

theorem Member.kind_of_givesText {m : Member} (h : m.givesText = true) : m.kind = .method [] .string := by
  unfold givesText at h
  split at h
  next hkind => exact hkind
  next => cases h

open Lying Member in
/-- A method that keeps its type: the call by its row and the call of the bound method agree. -/
theorem Program.host_access_agrees_call :
    ∃ p function h, (Engine.compile "return Name();" (some 0) 1 engine).1 = some (.ok p) ∧
      p.code.members[0]? = some h ∧
      Machine.Passes (setting p) world [Frame.enter function [] [] true] world ∧
      ∃ r w', Dynamic.getMember (setting p).env (.host order) "Name" world = .ok (.method r) w' ∧
        Machine.Agrees ((Frame.enter function [] [] true).at 2 []) [] (fun v => [v])
          (Machine.execute (setting p) (.callHost 0 0)
            ((Frame.enter function [] [] true).at 2 [.ref (.host order)]) w')
          (Dynamic.callMethod (setting p).env (.method r) [] w') := by
  obtain ⟨p, hp, hcheck⟩ := Engine.exists_compiled "return Name();" (some 0) 1 engine
    (fun p => p.code.functions[0]?.isSome && p.code.members[0]?.any fun (h : HostMember) =>
      (p.types.member? (.host 0) "Name").any fun found =>
        givesText h.member && givesText found &&
        decide (h.member.code = 1 ∧ found.code = 1 ∧ h.result = .str ∧ h.member.id = found.id ∧
          h.member.name = found.name ∧ h.member.hostName = found.hostName ∧
          h.member.owner = found.owner)) (by decide +kernel)
  simp only [Bool.and_eq_true, Option.any_eq_true, Option.isSome_iff_exists, decide_eq_true_eq] at hcheck
  obtain ⟨⟨function, hfunction⟩, h, hrow, found, hfound, ⟨hkind, hfkind⟩, hcode, hfcode, hresult, hid,
    hname, hhost, howner⟩ := hcheck
  replace hkind := kind_of_givesText hkind
  replace hfkind := kind_of_givesText hfkind
  have hsame : found = h.member := by
    cases found
    cases hmember : h.member
    simp_all
  have hpass : Machine.Passes (setting p) world [Frame.enter function [] [] true] world :=
    .start hfunction
  have hagree := Program.host_access_agrees reached_engine hp (m := setting p) rfl hrow hpass
  obtain ⟨r, w', hget, hb, hcalls⟩ := @hagree.calls (Frame.enter function [] [] true) 2 [] []
    (.ref (.host order)) order "Name" [] .string hkind (hsame ▸ hfound) rfl rfl
  refine ⟨p, function, h, hp, hrow, hpass, r, w', hget, hcalls ?_⟩
  intro v u hcall
  rw [hb.2] at hcall
  simp only [Member.call, hkind, hcode] at hcall
  cases hcall
  rw [hresult]
  rfl

open Lying in
/-- The call of a method is checked against its type, and the call of the method as a value is
not. -/
theorem Engine.bound_call_unchecked :
    outcome "return Lie();" =
        some (.error (.runtime (.typeMismatch "Order.Lie" "Number" "Null"))) ∧
      outcome "var f = Lie; return f();" = some (.ok .null) :=
  ⟨outcome_call, eq_null (by decide +kernel)⟩

end HostScript
