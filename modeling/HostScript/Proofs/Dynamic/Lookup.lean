import HostScript.Proofs.Dynamic.Stores

/-!
# Look-up of members

Analysis decides from the shape of a receiver how a member is reached, and an access at run time
decides from the value. Members of a type come before extensions in both, and a type has gained
every extension that it does not hide, so both find the same member. Look-ups that are remembered
change nothing about that.
-/

namespace HostScript

variable {σ : Type} {r : Registry} {made : List Member} {name : String}

/-! ### Members of a snapshot -/

theorem Registry.Ready.types_snapshot (h : r.Ready [] made) (id : HostTypeId) :
    r.snapshot.types.get? id = r.info? id := by
  have hget := OrderedMap.lookup_filterMap h.unique (fun outcome => outcome.toOption) id
  refine hget.trans ?_
  rw [Registry.info?, OrderedMap.get?]
  cases OrderedMap.lookup id r.validated.entries with
  | none => rfl
  | some outcome => cases outcome <;> rfl

/-- The members of a valid type are all that its objects have. -/
theorem Registry.Ready.member?_host (h : r.Ready [] made) {id : HostTypeId} {info : TypeInfo}
    (hinfo : r.info? id = some info) (name : String) :
    r.snapshot.member? (.host id) name = info.members.get? name := by
  have hcovers := @(h.fits (Registry.info?_eq_some.mp hinfo)).covers name
  show ((r.snapshot.types.get? id).bind fun info => info.members.get? name).orElse
    (fun _ => r.extension? (.host id) name) = _
  rw [h.types_snapshot, hinfo, Option.bind_some]
  cases hm : info.members.get? name with
  | some m => rfl
  | none =>
    cases hext : r.extension? (.host id) name with
    | none => rfl
    | some m => simp [hext, OrderedMap.contains, hm] at hcovers

theorem Registry.extension?_isCallable (h : r.Ready [] made) {receiver : Receiver} {m : Member}
    (hm : r.extension? receiver name = some m) : m.isExtension = true := by
  obtain ⟨named, hnamed, hm⟩ := Option.bind_eq_some_iff.mp hm
  exact (h.lends ⟨named, List.mem_map_of_mem (OrderedMap.mem_of_lookup hnamed),
    List.mem_map_of_mem (OrderedMap.mem_of_lookup hm)⟩).2

/-! ### What a target means -/

/-- The length of an array or a string. -/
def Heap.lengthOf (h : Heap) : Value → Nat
  | .array a => (h.arrays[a]?.map fun o => o.items.size).getD 0
  | .str s => s.length
  | _ => 0

/-- Get the member of a value that a target stands for. -/
def MemberTarget.perform (env : Env σ) (v : Value) (name : String) : MemberTarget → Run σ Value
  | .recordField _ => do
    match v.field? (← Run.heap) name with
    | some value => return value
    | none => Dynamic.notFound v name
  | .arrayLength | .stringLength => do
    return .number (Float.ofNat ((← Run.heap).lengthOf v))
  | .arrayAdd => Run.alloc fun h => h.newMethod { receiver := v, target := .arrayAdd }
  | .extension m => Run.alloc fun h => h.newMethod { receiver := v, target := .extension m }
  | .host m =>
    if m.isCallable then Run.alloc fun h => h.newMethod { receiver := v, target := .member m }
    else
      match v with
      | .host object => do
        let value ← m.read env.code object
        match m.valueType? with
        | some ty => Run.ofExcept (ty.coerce m.qualifiedName value)
        | none => return value
      | _ => Dynamic.notFound v name
  | .missingField _ | .noMember => Dynamic.notFound v name
  | .dynamic => Dynamic.getMember env v name

/-- The shape says of which kind a value is. A record has the fields of its shape with a slot for
each, and an object of the host has a valid type. -/
def Shape.Describes (types : Registry) (h : Heap) : Shape → Value → Prop
  | .record fields _, .record r => ∃ o, h.records[r]? = some o ∧
      o.fields.size = o.layout.fields.length ∧
      ∀ name, fields.contains name = (o.layout.indexOf? name).isSome
  | .array .., .array _ => True
  | .concrete .string, .str _ => True
  | .concrete .number, .number _ => True
  | .concrete .bool, .bool _ => True
  | .concrete (.host id), .host object => object.typeId = id ∧ (types.info? id).isSome
  | _, _ => False

/-! ### Look-ups that are remembered -/

namespace Dynamic

variable {env : Env σ} {w w' : World σ} {v : Value} {receiver : Receiver}

/-- The world after a sequence of look-ups that starts without any remembered. -/
def recalled (types : Snapshot) (earlier : List (Receiver × String)) (w : World σ) : World σ :=
  earlier.foldl (fun w query =>
    match lookup types query.1 query.2 w with
    | .ok _ w' => w'
    | .error _ w' => w') { w with lookups := {} }

theorem recalls_lookup {types : Snapshot} {found : Option Member} (hw : w.Recalls types)
    (hrun : lookup types receiver name w = .ok found w') : w'.Recalls types := by
  rw [lookup_eq] at hrun
  split at hrun
  · cases hrun
    exact hw
  · cases hrun
    intro key found hfound
    rw [OrderedMap.get?_insert] at hfound
    split at hfound
    next hkey =>
      rw [hkey]
      exact (Option.some.inj hfound).symm
    next => exact hw key found hfound

theorem recalls_recalled (types : Snapshot) (earlier : List (Receiver × String)) (w : World σ) :
    (recalled types earlier w).Recalls types := by
  have hstart : ({ w with lookups := {} } : World σ).Recalls types := fun _ _ h => nomatch h
  rw [recalled]
  generalize { w with lookups := {} } = w at hstart
  induction earlier generalizing w with
  | nil => exact hstart
  | cons query rest ih =>
    obtain ⟨found, w', -, hrun⟩ := lookup_alike types query.1 query.2 w
    rw [List.foldl_cons, hrun]
    exact ih _ (recalls_lookup hstart hrun)

/-! ### Access at run time -/

theorem getMember_none (hw : w.Recalls env.types) (hnull : v ≠ .null)
    (hown : ownMember? v name w = .ok none w) (hreceiver : Receiver.ofValue? v = some receiver)
    (hm : env.types.member? receiver name = none) :
    ∃ w', w.Alike w' ∧ getMember env v name w = notFound v name w' := by
  obtain ⟨w', halike, hlookup⟩ := lookup_run hw
  rw [hm] at hlookup
  refine ⟨w', halike, ?_⟩
  unfold getMember
  rw [if_neg hnull]
  refine (run_bind_ok hown).trans ?_
  simp only [hreceiver]
  exact (run_bind_ok hlookup).trans rfl

theorem bind_of_extension {m : Member} (hm : m.isExtension = true) :
    Dynamic.bind v m = (MemberTarget.extension m).perform env v name := by
  rw [Dynamic.bind, if_pos hm]
  rfl

/-- A value without a member of its own has an extension or nothing. -/
theorem getMember_extended (h : r.Ready [] made) (henv : env.types = r.snapshot)
    (hw : w.Recalls env.types) (hnull : v ≠ .null) (hown : ownMember? v name w = .ok none w)
    (hreceiver : Receiver.ofValue? v = some receiver) (hhost : ∀ id, receiver ≠ .host id)
    {missing : MemberTarget} (hmissing : missing.perform env v name = notFound v name) :
    ∃ w', w.Alike w' ∧ getMember env v name w =
      (match r.extension? receiver name with
        | some m => MemberTarget.extension m
        | none => missing).perform env v name w' := by
  have hmember : env.types.member? receiver name = r.extension? receiver name := by
    rw [henv]
    cases receiver with
    | host id => exact absurd rfl (hhost id)
    | _ => rfl
  cases hext : r.extension? receiver name with
  | none =>
    obtain ⟨w', ha, hrun⟩ := getMember_none hw hnull hown hreceiver (hmember.trans hext)
    exact ⟨w', ha, hrun.trans (congrFun hmissing w').symm⟩
  | some m =>
    have hm := Registry.extension?_isCallable h hext
    obtain ⟨w', ha, hrun⟩ := getMember_extension hw hnull hown hreceiver (hmember.trans hext)
      (Member.isCallable_of_isExtension hm)
    exact ⟨w', ha, hrun.trans (congrFun (bind_of_extension hm) w')⟩

theorem getMember_valid (h : r.Ready [] made) (henv : env.types = r.snapshot)
    (hw : w.Recalls env.types) {object : HostObject} {info : TypeInfo}
    (hinfo : r.info? object.typeId = some info) :
    ∃ w', w.Alike w' ∧ getMember env (.host object) name w =
      (match info.members.get? name with
        | some m => if m.isExtension then MemberTarget.extension m else .host m
        | none => .noMember).perform env (.host object) name w' := by
  have hmember : env.types.member? (.host object.typeId) name = info.members.get? name :=
    henv ▸ h.member?_host hinfo name
  cases hm : info.members.get? name with
  | none => exact getMember_none hw (by simp) rfl rfl (hmember.trans hm)
  | some m =>
    obtain ⟨w', ha, hrun⟩ := getMember_host hw (hmember.trans hm)
    refine ⟨w', ha, hrun.trans ?_⟩
    cases hext : m.isExtension with
    | true =>
      rw [if_pos (Member.isCallable_of_isExtension hext)]
      simp only [hext, if_true]
      exact congrFun (bind_of_extension hext) w'
    | false =>
      simp only [Dynamic.bind, hext]
      rfl

theorem getMember_own {value : Value} (hnull : v ≠ .null)
    (hown : ownMember? v name w = .ok (some value) w') : getMember env v name w = .ok value w' := by
  unfold getMember
  rw [if_neg hnull]
  exact (run_bind_ok hown).trans rfl

/-- A record has the fields of its layout. -/
theorem isSome_field? {h : Heap} {ref : RecordRef} {o : RecordObject} (ho : h.records[ref]? = some o)
    (hsize : o.fields.size = o.layout.fields.length) (name : String) :
    ((Value.record ref).field? h name).isSome = (o.layout.indexOf? name).isSome := by
  rw [Value.field?, ho, Option.bind_some]
  cases hindex : o.layout.indexOf? name with
  | none => rfl
  | some i =>
    have hi : i < o.fields.size := hsize ▸ lt_of_lastIndex? hindex
    simp [hi]

theorem getMember_resolved (h : r.Ready [] made) (henv : env.types = r.snapshot)
    (hw : w.Recalls env.types) {arena : Arena} {shape : ShapeId}
    (hd : (arena.resolved shape).Describes r w.heap v) :
    ∃ w', w.Alike w' ∧ getMember env v name w =
      (MemberTarget.resolve arena r shape name).perform env v name w' := by
  unfold MemberTarget.resolve
  unfold Shape.Describes at hd
  split at hd
  next fields _ ref hshape =>
    obtain ⟨o, ho, hsize, hfields⟩ := hd
    rw [hshape]
    dsimp only
    rw [hfields, ← isSome_field? ho hsize]
    cases hfield : (Value.record ref).field? w.heap name with
    | some value =>
      have hown : ownMember? (.record ref) name w = .ok (some value) w := hfield ▸ rfl
      refine ⟨w, .refl w, (getMember_own (by simp) hown).trans ?_⟩
      exact ((run_heap_bind ..).trans (by rw [hfield]; rfl)).symm
    | none =>
      have hown : ownMember? (.record ref) name w = .ok none w := hfield ▸ rfl
      exact getMember_extended h henv hw (by simp) hown rfl (by simp) rfl
  next ref hshape =>
    rw [hshape]
    dsimp only
    cases hb : Builtin.lookup? .array name with
    | none =>
      have hown : ownMember? (.array ref) name w = .ok none w := by simp [ownMember?, hb]; rfl
      exact getMember_extended h henv hw (by simp) hown rfl (by simp) rfl
    | some b =>
      refine ⟨w, .refl w, ?_⟩
      cases b <;>
      · refine getMember_own (by simp) ?_
        simp only [ownMember?, hb]
        rfl
  next text hshape =>
    rw [hshape]
    dsimp only
    cases hb : Builtin.lookup? .string name with
    | none =>
      have hown : ownMember? (.str text) name w = .ok none w := by simp [ownMember?, hb]; rfl
      exact getMember_extended h henv hw (by simp) hown rfl (by simp) rfl
    | some b =>
      have hown : ownMember? (.str text) name w =
          .ok (some (.number (Float.ofNat text.length))) w := by
        simp only [ownMember?, hb]
        rfl
      exact ⟨w, .refl w, getMember_own (by simp) hown⟩
  next hshape =>
    rw [hshape]
    exact getMember_extended h henv hw (by simp) rfl rfl (by simp) rfl
  next hshape =>
    rw [hshape]
    exact getMember_extended h henv hw (by simp) rfl rfl (by simp) rfl
  next hshape =>
    obtain ⟨rfl, hvalid⟩ := hd
    obtain ⟨info, hinfo⟩ := Option.isSome_iff_exists.mp hvalid
    rw [hshape]
    simp only [hinfo]
    exact getMember_valid h henv hw hinfo
  next => exact hd.elim

/-- For a shape that describes a value nothing is left to the run. -/
theorem resolve_ne_dynamic {arena : Arena} {shape : ShapeId} {h : Heap}
    (hd : (arena.resolved shape).Describes r h v) (name : String) :
    MemberTarget.resolve arena r shape name ≠ .dynamic := by
  intro heq
  unfold MemberTarget.resolve at heq
  cases hshape : arena.resolved shape with
  | unknown | undetermined =>
    rw [hshape] at hd
    cases v <;> exact hd
  | concrete c =>
    rw [hshape] at heq
    cases c <;> dsimp only at heq <;> (repeat' split at heq) <;> cases heq
  | _ =>
    rw [hshape] at heq
    dsimp only at heq
    (repeat' split at heq) <;> cases heq

/-- After any registrations and look-ups, a look-up that is remembered gives what a new one gives,
and the access to a member of a value does what analysis resolved for a shape that describes it.
Analysis never leaves this open. -/
theorem lookups_agree {e : Engine} (he : e.Reached) (code : HostCode σ)
    (earlier : List (Receiver × String)) (start : World σ) :
    let env : Env σ := { types := e.registry.snapshot, code }
    let w := recalled env.types earlier start
    (∀ receiver name, ∃ w', w.Alike w' ∧
      lookup env.types receiver name w = .ok (env.types.member? receiver name) w') ∧
    ∀ {arena shape v} name, (Arena.resolved arena shape).Describes e.registry w.heap v →
      MemberTarget.resolve arena e.registry shape name ≠ .dynamic ∧
        ∃ w', w.Alike w' ∧ getMember env v name w =
          (MemberTarget.resolve arena e.registry shape name).perform env v name w' := by
  intro env w
  obtain ⟨made, hready⟩ := he.ready
  have hw : w.Recalls env.types := recalls_recalled env.types earlier start
  exact ⟨fun _ _ => lookup_run hw, fun name hd =>
    ⟨resolve_ne_dynamic hd name, getMember_resolved hready rfl hw hd⟩⟩

end Dynamic

/-! ### An extension that a member hides -/

namespace Lying

/-- Functions for orders and for strings. One has the name of a method of orders. -/
def tools : TypeDescriptor where
  name := "Tools"
  dataType := "Tools"
  members := [
    { name := "Name", isStatic := true, kind := .function [.host 0] .string, code := 0 },
    { name := "Name", scriptName := some "Title", isStatic := true,
      kind := .function [.string] .string, code := 1 }]

def equipped : Engine :=
  (Engine.registerExtension tools engine).2

theorem reached_equipped : equipped.Reached :=
  .registerExtension tools reached_engine

end Lying

open Lying in
/-- The method is found, also after it was looked up before. -/
theorem Dynamic.lookups_agree_hidden :
    let env : Env Bag.Store := { types := equipped.registry.snapshot, code := host }
    let arena := (({} : Arena).host 0).2
    let w := recalled env.types [(.host 0, "Name"), (.string, "Name")] world
    (arena.resolved 5).Describes equipped.registry w.heap (.host order) ∧
      ∃ m : Member, m.owner = "Order" ∧
        ∃ w', getMember env (.host order) "Name" w =
          (MemberTarget.host m).perform env (.host order) "Name" w' := by
  intro env arena w
  have hd : (arena.resolved 5).Describes equipped.registry w.heap (.host order) :=
    ⟨rfl, by decide +kernel⟩
  obtain ⟨-, w', -, hrun⟩ := (lookups_agree reached_equipped host
    [(.host 0, "Name"), (.string, "Name")] world).2 "Name" hd
  have hcheck : (match MemberTarget.resolve arena equipped.registry 5 "Name" with
      | .host m => decide (m.owner = "Order")
      | _ => false) = true := by decide +kernel
  split at hcheck
  next m hm => exact ⟨hd, m, of_decide_eq_true hcheck, w', hm ▸ hrun⟩
  next => cases hcheck

end HostScript
