import HostScript.Host.Registry
import HostScript.Proofs.OrderedMap
import Mathlib.Data.List.Nodup

/-!
# Registered types

A type is validated as soon as it is registered, and the types that it mentions are older. So its
validation asks for outcomes that are known, and changes nothing but the number of the next member.

Every member gets a number of its own when it is validated. Types and receivers share members, so
the same member may be offered in many places, but no two members have the same number. This is
stated with the list of all members that were ever made, in the order of their numbers.
-/

namespace HostScript

def Member.isIndexer (m : Member) : Bool :=
  match m.kind with
  | .indexer .. => true
  | _ => false

theorem Member.isIndexer_of_isCallable {m : Member} (h : m.isCallable = true) :
    m.isIndexer = false := by
  unfold isCallable at h
  unfold isIndexer
  split <;> simp_all

theorem Member.isCallable_of_isExtension {m : Member} (h : m.isExtension = true) :
    m.isCallable = true := by
  unfold isExtension at h
  unfold isCallable
  split <;> simp_all

theorem Member.isIndexer_of_isExtension {m : Member} (h : m.isExtension = true) :
    m.isIndexer = false :=
  isIndexer_of_isCallable (isCallable_of_isExtension h)

namespace Registry

/-- The members that receivers have from elsewhere. -/
def Lends (r : Registry) (m : Member) : Prop :=
  ∃ named ∈ r.extensions.values, m ∈ named.values

/-- The members that can be reached by name, on a type or on a receiver. -/
def Offers (r : Registry) (m : Member) : Prop :=
  (∃ info, .ok info ∈ r.validated.values ∧ m ∈ info.members.values) ∨ r.Lends m

/-- The members that can be reached by an index. -/
def Indexes (r : Registry) (m : Member) : Prop :=
  ∃ info, .ok info ∈ r.validated.values ∧ info.indexer = some m

/-- The registry has numbered the members in the list, and offers no others. -/
structure Numbers (r : Registry) (made : List Member) : Prop where
  ids : made.map Member.id = List.range r.nextMember
  offers : ∀ {m}, r.Offers m → m ∈ made ∧ m.isIndexer = false
  indexes : ∀ {m}, r.Indexes m → m ∈ made ∧ m.isIndexer = true
  lends : ∀ {m}, r.Lends m → m.isExtension = true

/-- Members that a registry numbered are known by their numbers. -/
theorem Numbers.eq_of_id {r : Registry} {made : List Member} (h : r.Numbers made) {m m' : Member}
    (hm : m ∈ made) (hm' : m' ∈ made) (hid : m.id = m'.id) : m = m' := by
  have hnodup : (made.map Member.id).Nodup := h.ids ▸ List.nodup_range
  exact List.inj_on_of_nodup_map hnodup hm hm' hid

theorem info?_eq_some {r : Registry} {id : HostTypeId} {info : TypeInfo} :
    r.info? id = some info ↔ r.validated.get? id = some (.ok info) := by
  rw [info?]
  split <;> simp_all

theorem ok_mem_of_info? {r : Registry} {id : HostTypeId} {info : TypeInfo}
    (h : r.info? id = some info) : .ok info ∈ r.validated.values :=
  List.mem_map_of_mem (OrderedMap.mem_of_lookup (info?_eq_some.mp h))

/-- The registry when `n` members were numbered. -/
def upTo (r : Registry) (n : Nat) : Registry :=
  { r with nextMember := n }

/-- Every type was validated, or its validation is under way. -/
def Settled (r : Registry) : Prop :=
  ∀ id < r.descriptors.size, id ∈ r.inProgress ∨ (r.validated.get? id).isSome

variable {α β : Type} {r : Registry}

/-! ### Members of a type -/

/-- Members have their places as numbers. -/
def Counted (made : List Member) : Prop :=
  made.map Member.id = List.range made.length

variable {made : List Member}

theorem Counted.snoc (h : Counted made) {m : Member} (hid : m.id = made.length) :
    Counted (made ++ [m]) := by
  have h : made.map Member.id = List.range made.length := h
  simp [Counted, List.range_succ, h, hid]

/-- An action that numbers further members at most. What it gives is as `Q` says of all members made
then. -/
def Makes (r : Registry) (made : List Member) (act : Register α) (Q : List Member → α → Prop) :
    Prop :=
  ∃ more, Counted (made ++ more) ∧
    ((∃ a, act (r.upTo made.length) = .ok a (r.upTo (made ++ more).length) ∧ Q (made ++ more) a) ∨
      ∃ e, act (r.upTo made.length) = .error e (r.upTo (made ++ more).length))

variable {Q : List Member → α → Prop} {R : List Member → β → Prop} {act : Register α}
  {f : α → Register β}

theorem Makes.pure {a : α} (h : Counted made) (ha : Q made a) : Makes r made (Pure.pure a) Q :=
  ⟨[], by rw [List.append_nil]; exact ⟨h, .inl ⟨a, rfl, ha⟩⟩⟩

theorem Makes.throw {e : TypeError} (h : Counted made) :
    Makes r made (MonadExcept.throw e : Register α) Q :=
  ⟨[], by rw [List.append_nil]; exact ⟨h, .inr ⟨e, rfl⟩⟩⟩

theorem Makes.bind (h : Makes r made act Q)
    (hf : ∀ {a made'}, Counted made' → made <+: made' → Q made' a → Makes r made' (f a) R) :
    Makes r made (act >>= f) R := by
  obtain ⟨more, hcount, ⟨a, hact, ha⟩ | ⟨e, hact⟩⟩ := h
  · obtain ⟨more', hcount', hrun⟩ := hf hcount (List.prefix_append made more) ha
    refine ⟨more ++ more', ?_⟩
    simp only [Bind.bind, EStateM.bind, hact, ← List.append_assoc]
    exact ⟨hcount', hrun⟩
  · refine ⟨more, hcount, .inr ⟨e, ?_⟩⟩
    simp only [Bind.bind, EStateM.bind, hact]

theorem Makes.get {f : Registry → Register β} (h : Makes r made (f (r.upTo made.length)) R) :
    Makes r made (MonadState.get >>= f) R :=
  h

/-- A member gets its number, and an action goes on as another one. -/
theorem Makes.number {act' : Register α} {m : Member}
    (hrun : act (r.upTo made.length) = act' (r.upTo (made.length + 1)))
    (h : Makes r (made ++ [m]) act' Q) : Makes r made act Q := by
  obtain ⟨more, h⟩ := h
  rw [List.length_append, List.length_singleton, List.append_assoc, ← hrun] at h
  exact ⟨[m] ++ more, h⟩

/-! ### Questions -/

/-- An action that numbers further members at most and gives nothing. -/
abbrev Asks (r : Registry) (act : Register α) : Prop :=
  ∀ {made}, Counted made → Makes r made act fun _ _ => True

theorem asks_validateWith (h : r.Settled) (budget : Nat) (asExtension : Bool) {id : HostTypeId}
    (hid : id < r.descriptors.size) : Asks r (validateWith budget asExtension id) := by
  intro made hc
  cases budget with
  | zero => exact .pure hc trivial
  | succ budget =>
    rw [validateWith]
    refine .get ?_
    split
    · exact .pure hc trivial
    · exact .throw hc
    next hget =>
      have hget : r.validated.get? id = none := hget
      have hbusy : id ∈ r.inProgress := by simpa [hget] using h id hid
      rw [if_pos (by simpa [upTo] using hbusy)]
      exact .pure hc trivial

section

variable {validate : HostTypeId → Register Unit}

theorem asks_checkType (hv : ∀ id < r.descriptors.size, Asks r (validate id)) (owner : String)
    (ty : TypeRef) : Asks r (checkType validate owner ty) := by
  intro made hc
  fun_induction checkType validate owner ty with
  | case1 target => exact .throw hc
  | case2 inner ih | case3 inner ih => exact ih
  | case4 | case5 kind => exact .pure hc trivial
  | case6 container args => exact .throw hc
  | case7 id =>
    refine .get ?_
    split
    next hid => exact hv id hid hc
    next => exact .throw hc
  | case8 ty => exact .pure hc trivial

theorem asks_forM {items : List TypeRef} {g : TypeRef → Register PUnit} (hg : ∀ ty, Asks r (g ty)) :
    Asks r (items.forM g) := by
  intro made hc
  induction items generalizing made with
  | nil => exact .pure hc trivial
  | cons ty rest ih => exact (hg ty hc).bind fun hc' _ _ => ih hc'

theorem asks_checkKind (hv : ∀ id < r.descriptors.size, Asks r (validate id)) (owner : String)
    (kind : MemberKind) : Asks r (checkKind validate owner kind) := by
  have hcheck (ty : TypeRef) : Asks r (checkType validate owner ty) := asks_checkType hv owner ty
  intro made hc
  cases kind with
  | field ty writable | property ty readable writable => exact hcheck ty hc
  | method params ret | function params ret =>
    exact (asks_forM hcheck hc).bind fun hc' _ _ => hcheck ret hc'
  | indexer key ty writable => exact (hcheck key hc).bind fun hc' _ _ => hcheck ty hc'

end

variable {found : OrderedMap String Member × Option Member}

/-- The members found so far are among those made so far. -/
structure Found (found : OrderedMap String Member × Option Member) (made : List Member) : Prop where
  members : ∀ {m}, m ∈ found.1.values → m ∈ made ∧ m.isIndexer = false
  indexer : ∀ {m}, found.2 = some m → m ∈ made ∧ m.isIndexer = true

theorem Found.mono {made' : List Member} (h : Found found made) (hle : made <+: made') :
    Found found made' where
  members hm := ⟨hle.subset (h.members hm).1, (h.members hm).2⟩
  indexer hm := ⟨hle.subset (h.indexer hm).1, (h.indexer hm).2⟩

theorem Found.insert (h : Found found made) (name : String) {m : Member} (hm : m ∈ made)
    (hkind : m.isIndexer = false) :
    Found (found.1.insert name m, found.2) made where
  members hx := by
    rcases OrderedMap.mem_values_insert hx with rfl | hx
    · exact ⟨hm, hkind⟩
    · exact h.members hx
  indexer := h.indexer

theorem makes_enter (owner : String) {member : Member} (hc : Counted made) (hm : member ∈ made)
    (hfound : Found found made) :
    Makes r made (enter owner found member) fun made found => Found found made := by
  obtain ⟨members, indexer⟩ := found
  rw [enter]
  split
  next hkind =>
    split
    · exact .throw hc
    · refine .pure hc ⟨hfound.members, ?_⟩
      rintro _ ⟨⟩
      exact ⟨hm, by simp [Member.isIndexer, hkind]⟩
  next hkind =>
    split
    · exact .throw hc
    · refine .pure hc (hfound.insert member.name hm ?_)
      simp only [Member.isIndexer]

section

variable {validate : HostTypeId → Register Unit}

variable (hv : ∀ id < r.descriptors.size, Asks r (validate id))
include hv

theorem makes_addNumbered (owner : String) (m : MemberDescriptor) (hc : Counted made)
    (hfound : Found found made) :
    Makes r made (addNumbered validate owner found m) fun made found => Found found made := by
  refine (asks_checkKind hv owner m.kind hc).bind fun {_ made₁} hc₁ hle₁ _ => ?_
  let member : Member := {
    id := made₁.length
    name := m.scriptName.getD (r.naming.apply m.name)
    hostName := m.name
    owner
    kind := m.kind
    code := m.code }
  have hle₂ : made₁ <+: made₁ ++ [member] := List.prefix_append ..
  have hmember : member ∈ made₁ ++ [member] := by simp
  exact .number (m := member) rfl
    (makes_enter owner (hc₁.snoc rfl) hmember ((hfound.mono hle₁).mono hle₂))

theorem makes_addMember (asExtension : Bool) (owner : String) (m : MemberDescriptor)
    (hc : Counted made) (hfound : Found found made) :
    Makes r made (addMember validate asExtension owner found m) fun made found =>
      Found found made := by
  rw [addMember]
  split
  · exact .throw hc
  · split
    · exact .throw hc
    · split
      · exact .throw hc
      · exact makes_addNumbered hv owner m hc hfound

theorem makes_addMembers (asExtension : Bool) (owner : String) (ms : List MemberDescriptor)
    (hc : Counted made) (hfound : Found found made) :
    Makes r made (ms.foldlM (addMember validate asExtension owner) found) fun made found =>
      Found found made := by
  induction ms generalizing made found with
  | nil => exact .pure hc hfound
  | cons m rest ih =>
    rw [List.foldlM_cons]
    exact (makes_addMember hv asExtension owner m hc hfound).bind fun hc' _ hfound' => ih hc' hfound'

end

/-- Extensions are offered next to the members of a type. -/
def overlaid (own : OrderedMap String Member) (entries : List (String × Member)) :
    OrderedMap String Member :=
  entries.foldl (fun ms (n, m) => ms.insertIfNew n m) own

theorem Found.overlaid (h : Found found made) (entries : List (String × Member))
    (hentries : ∀ entry ∈ entries, entry.2 ∈ made ∧ entry.2.isIndexer = false) :
    Found (overlaid found.1 entries, found.2) made := by
  induction entries generalizing found with
  | nil => exact h
  | cons entry rest ih =>
    obtain ⟨hentry, hrest⟩ := List.forall_mem_cons.mp hentries
    have hnew : Found (found.1.insertIfNew entry.1 entry.2, found.2) made := by
      rw [OrderedMap.insertIfNew]
      split
      · exact h
      · exact h.insert entry.1 hentry.1 hentry.2
    exact ih hnew hrest

theorem contains_insertIfNew {κ α : Type} [DecidableEq κ] (m : OrderedMap κ α) (key name : κ)
    (value : α) : (m.insertIfNew key value).contains name = (m.contains name || name = key) := by
  unfold OrderedMap.insertIfNew
  split
  next h => by_cases hk : name = key <;> simp [hk, h]
  next h => by_cases hk : name = key <;> simp [OrderedMap.contains, OrderedMap.get?_insert, hk]

/-- A name is among the members if the type or an extension has it. -/
theorem contains_overlaid {own : OrderedMap String Member} {entries : List (String × Member)}
    {name : String} (h : own.contains name = true ∨ (OrderedMap.lookup name entries).isSome) :
    (overlaid own entries).contains name = true := by
  induction entries generalizing own with
  | nil => simpa [overlaid, OrderedMap.lookup] using h
  | cons entry rest ih =>
    show (overlaid (own.insertIfNew entry.1 entry.2) rest).contains name = true
    apply ih
    rw [contains_insertIfNew]
    by_cases hk : entry.1 = name
    · simp [hk]
    · simpa [OrderedMap.lookup, hk, Ne.symm hk] using h

/-- The members of the type are among those made so far. Every extension of the type is one of them,
or a member hides it. -/
structure Fits (r : Registry) (made : List Member) (id : HostTypeId) (info : TypeInfo) : Prop where
  found : Found (info.members, info.indexer) made
  covers : ∀ {name}, (r.extension? (.host id) name).isSome → info.members.contains name = true
  bounded : id < r.descriptors.size

theorem extension?_eq (receiver : Receiver) (name : String) :
    r.extension? receiver name = ((r.extensions.get? receiver).getD {}).get? name := by
  rw [extension?]
  cases r.extensions.get? receiver <;> rfl

theorem lends_of_mem {receiver : Receiver} {m : Member}
    (h : m ∈ ((r.extensions.get? receiver).getD {}).values) : r.Lends m := by
  cases hget : r.extensions.get? receiver with
  | none => simp [hget, OrderedMap.values] at h
  | some named =>
    rw [hget] at h
    exact ⟨named, List.mem_map_of_mem (OrderedMap.mem_of_lookup hget), h⟩

section

variable {validate : HostTypeId → Register Unit}
  (hv : ∀ id < r.descriptors.size, Asks r (validate id))
include hv

theorem makes_buildInfo (asExtension : Bool) (id : HostTypeId) (hc : Counted made)
    (hext : ∀ {m}, r.Lends m → m ∈ made ∧ m.isIndexer = false) :
    Makes r made (buildInfo validate asExtension id) fun made info => r.Fits made id info := by
  rw [buildInfo]
  refine .get ?_
  dsimp only
  split
  next => exact .throw hc
  next desc hdesc =>
    split
    · exact .throw hc
    · have hnone : Found ({}, none) made :=
        ⟨fun hm => absurd hm List.not_mem_nil, fun hm => by cases hm⟩
      refine (makes_addMembers hv asExtension _ _ hc hnone).bind fun {found made₁} hc₁ hle hfound => ?_
      refine .get (.pure hc₁ ⟨hfound.overlaid _ fun entry hentry => ?_, fun {name} hname => ?_, ?_⟩)
      · have hlent := hext (lends_of_mem (List.mem_map_of_mem hentry))
        exact ⟨hle.subset hlent.1, hlent.2⟩
      · rw [extension?_eq] at hname
        exact contains_overlaid (.inr hname)
      · by_contra hge
        have hnone : (r.upTo made.length).descriptors[id]? = none :=
          Array.getElem?_eq_none (Nat.le_of_not_lt hge)
        simp [hnone] at hdesc

end

/-! ### Validation -/

/-- The outcome of a validation as the result of an action. -/
def answer (r : Registry) : Except TypeError TypeInfo → EStateM.Result TypeError Registry Unit
  | .ok _ => .ok () r
  | .error e => .error e r

/-- The validation of a type gives an outcome that is known, or finds it and keeps it. All other
types have outcomes already. -/
theorem validate_eq (asExtension : Bool) {id : HostTypeId} (hidle : r.inProgress = [])
    (hs : ∀ other < r.descriptors.size, other ≠ id → (r.validated.get? other).isSome)
    (hc : Counted made) (hlen : r.nextMember = made.length)
    (hext : ∀ {m}, r.Lends m → m ∈ made ∧ m.isIndexer = false) :
    (∃ outcome, r.validated.get? id = some outcome ∧
      validate asExtension id r = r.answer outcome) ∨
    (r.validated.get? id = none ∧ ∃ more outcome, Counted (made ++ more) ∧
      (∀ {info}, outcome = .ok info → r.Fits (made ++ more) id info) ∧
      validate asExtension id r =
        ({ r with
          nextMember := (made ++ more).length
          validated := r.validated.insert id outcome } : Registry).answer outcome) := by
  have hget_bind {α : Type} (f : Registry → Register α) : (MonadState.get >>= f) r = f r r := rfl
  rw [validate, hget_bind, validateWith, hget_bind]
  cases hget : r.validated.get? id with
  | some outcome =>
    refine .inl ⟨outcome, rfl, ?_⟩
    cases outcome <;> rfl
  | none =>
    refine .inr ⟨rfl, ?_⟩
    let busy : Registry := { r with inProgress := [id] }
    have hsettled : busy.Settled := fun other hother => by
      by_cases heq : other = id
      · exact .inl (by simp [busy, heq])
      · exact .inr (hs other hother heq)
    have hv : ∀ other < busy.descriptors.size,
        Asks busy (validateWith (r.descriptors.size + 1) false other) :=
      fun _ hother => asks_validateWith hsettled _ false hother
    have hbuild := makes_buildInfo hv asExtension id hc hext
    have hstart : { r with inProgress := [id] } = busy.upTo made.length := by
      simp [busy, upTo, ← hlen]
    simp only [hidle, List.contains_nil, Bool.false_eq_true, if_false, remember]
    rw [hstart]
    obtain ⟨more, hcount, ⟨info, hinfo, hfits⟩ | ⟨e, he⟩⟩ := hbuild
    · refine ⟨more, .ok info, hcount, ?_, ?_⟩
      · rintro _ ⟨⟩
        exact ⟨hfits.found, hfits.covers, hfits.bounded⟩
      · rw [hinfo]
        simp [answer, upTo, busy]
    · refine ⟨more, .error e, hcount, (fun h => by cases h), ?_⟩
      rw [he]
      simp [answer, upTo, busy]

/-- The registry after an action, also after one that failed. -/
def after (r : Registry) (act : Register α) : Registry :=
  match act r with
  | .ok _ r' => r'
  | .error _ r' => r'

theorem after_of_answer {act : Register Unit} {r' : Registry}
    {outcome : Except TypeError TypeInfo} (h : act r = r'.answer outcome) : r.after act = r' := by
  rw [after, h]
  cases outcome <;> rfl

/-! ### Registration -/

/-- What holds of a registry between registrations, but for outcomes of the types in `pending`. -/
structure Ready (r : Registry) (pending : List HostTypeId) (made : List Member) : Prop where
  counted : Counted made
  next : r.nextMember = made.length
  lends : ∀ {m}, r.Lends m → m ∈ made ∧ m.isExtension = true
  fits : ∀ {id info}, r.validated.get? id = some (.ok info) → r.Fits made id info
  unique : r.validated.keys.Nodup
  idle : r.inProgress = []
  sizes : r.names.size = r.descriptors.size
  settled : ∀ id < r.descriptors.size, id ∉ pending → (r.validated.get? id).isSome

theorem ready_new (naming : Naming) : ({ naming } : Registry).Ready [] [] where
  counted := rfl
  next := rfl
  lends := fun ⟨_, hnamed, _⟩ => nomatch hnamed
  fits h := nomatch h
  unique := .nil
  idle := rfl
  sizes := rfl
  settled _ hid := nomatch hid

namespace Ready

variable {pending : List HostTypeId}

theorem get?_of_mem (h : r.Ready pending made) {outcome : Except TypeError TypeInfo}
    (ho : outcome ∈ r.validated.values) : ∃ id, r.validated.get? id = some outcome := by
  obtain ⟨⟨id, _⟩, hentry, rfl⟩ := List.mem_map.mp ho
  exact ⟨id, OrderedMap.lookup_of_mem h.unique hentry⟩

theorem numbers (h : r.Ready pending made) : r.Numbers made where
  ids := h.next ▸ h.counted
  offers := by
    rintro m (⟨info, hinfo, hm⟩ | hm)
    · obtain ⟨id, hid⟩ := h.get?_of_mem hinfo
      exact (h.fits hid).found.members hm
    · exact ⟨(h.lends hm).1, Member.isIndexer_of_isExtension (h.lends hm).2⟩
  indexes := by
    rintro m ⟨info, hinfo, hm⟩
    obtain ⟨id, hid⟩ := h.get?_of_mem hinfo
    exact (h.fits hid).found.indexer hm
  lends hm := (h.lends hm).2

/-- The outcome of a type that was waited for is entered. -/
theorem enter {id : HostTypeId} (h : r.Ready [id] made) {more : List Member}
    {outcome : Except TypeError TypeInfo} (hc : Counted (made ++ more))
    (ho : ∀ {info}, outcome = .ok info → r.Fits (made ++ more) id info) :
    ({ r with
      nextMember := (made ++ more).length
      validated := r.validated.insert id outcome } : Registry).Ready [] (made ++ more) where
  counted := hc
  next := rfl
  lends hm := ⟨List.mem_append_left _ (h.lends hm).1, (h.lends hm).2⟩
  fits {other info} hfound := by
    have hget : (r.validated.insert id outcome).get? other = some (.ok info) := hfound
    rw [OrderedMap.get?_insert] at hget
    split at hget
    next heq =>
      obtain rfl := heq
      have hfits := ho (Option.some.inj hget)
      exact ⟨hfits.found, hfits.covers, hfits.bounded⟩
    next =>
      have hfits := h.fits hget
      exact ⟨hfits.found.mono (List.prefix_append ..), hfits.covers, hfits.bounded⟩
  unique := OrderedMap.nodup_keys_insert h.unique id outcome
  idle := h.idle
  sizes := h.sizes
  settled other hother _ := by
    show ((r.validated.insert id outcome).get? other).isSome
    rw [OrderedMap.get?_insert]
    split
    · rfl
    next hne => exact h.settled other hother (by simpa using hne)

theorem await (h : r.Ready [] made) (id : HostTypeId) : r.Ready [id] made :=
  { h with settled := fun other hother _ => h.settled other hother List.not_mem_nil }

theorem validate {id : HostTypeId} (h : r.Ready [id] made) (asExtension : Bool) :
    ∃ made', (r.after (Registry.validate asExtension id)).Ready [] made' := by
  have hs : ∀ other < r.descriptors.size, other ≠ id → (r.validated.get? other).isSome :=
    fun other hother hne => h.settled other hother (by simpa using hne)
  have hext : ∀ {m}, r.Lends m → m ∈ made ∧ m.isIndexer = false :=
    fun hm => h.numbers.offers (.inr hm)
  rcases validate_eq asExtension h.idle hs h.counted h.next hext with
    ⟨outcome, hget, hrun⟩ | ⟨-, more, outcome, hc, hfits, hrun⟩
  · refine ⟨made, ?_⟩
    rw [after_of_answer hrun]
    refine { h with settled := fun other hother _ => ?_ }
    by_cases heq : other = id
    · rw [heq, hget]
      rfl
    · exact hs other hother heq
  · refine ⟨made ++ more, ?_⟩
    rw [after_of_answer hrun]
    exact h.enter hc hfits

end Ready

/-- The registry with a type that has yet to be validated. -/
def introduce (r : Registry) (desc : TypeDescriptor) : Registry :=
  { r with
    names := r.names.push desc.name
    descriptors := r.descriptors.push (some desc)
    byData := r.byData.insert desc.dataType r.names.size
    validated := r.validated.erase r.names.size }

theorem define_new (hsizes : r.names.size = r.descriptors.size) (desc : TypeDescriptor) :
    define r.names.size desc
        { r with
          names := r.names.push desc.name
          descriptors := r.descriptors.push none } = .ok () (r.introduce desc) := by
  have hlt : r.names.size < (r.descriptors.push none).size := by simp [hsizes]
  show (if r.names.size < (r.descriptors.push none).size then set _ else throw _ : Register Unit) _ = _
  rw [if_pos hlt]
  show EStateM.Result.ok () _ = _
  simp [introduce, hsizes, Array.setIfInBounds, Array.set_push]

theorem registerType_eq (hsizes : r.names.size = r.descriptors.size) (desc : TypeDescriptor) :
    registerType desc r =
      (validate false r.names.size >>= fun _ => Pure.pure r.names.size) (r.introduce desc) := by
  show (define r.names.size desc >>= fun _ => validate false r.names.size >>= fun _ =>
    Pure.pure r.names.size) _ = _
  simp only [Bind.bind, EStateM.bind]
  rw [define_new hsizes]

theorem Ready.introduce (h : r.Ready [] made) (desc : TypeDescriptor) :
    (r.introduce desc).Ready [r.names.size] made where
  counted := h.counted
  next := h.next
  lends := h.lends
  fits {id info} hget := by
    have hold : (r.validated.erase r.names.size).get? id = some (.ok info) := hget
    rw [OrderedMap.get?_erase] at hold
    have hfits := h.fits (Option.ite_none_left_eq_some.mp hold).2
    exact ⟨hfits.found, hfits.covers, by simpa [Registry.introduce] using Nat.lt_succ_of_lt hfits.bounded⟩
  unique := (List.filter_sublist.map Prod.fst).nodup h.unique
  idle := h.idle
  sizes := by simp [Registry.introduce, h.sizes]
  settled id hid hne := by
    have hne : id ≠ r.names.size := by simpa using hne
    have hold : id < r.descriptors.size := by
      have hsizes := h.sizes
      simp [Registry.introduce] at hid
      omega
    show ((r.validated.erase r.names.size).get? id).isSome
    rw [OrderedMap.get?_erase, if_neg hne]
    exact h.settled id hold (by simp)

theorem Ready.registerType (h : r.Ready [] made) (desc : TypeDescriptor) :
    ∃ made', (r.after (Registry.registerType desc)).Ready [] made' := by
  have hafter : r.after (Registry.registerType desc) =
      (r.introduce desc).after (Registry.validate false r.names.size) := by
    rw [after, after, registerType_eq h.sizes]
    simp only [Bind.bind, EStateM.bind]
    cases Registry.validate false r.names.size (r.introduce desc) <;> rfl
  exact hafter ▸ (h.introduce desc).validate false

/-- Outcomes after a function was offered to a receiver. -/
def gains (r : Registry) (m : Member) : Receiver → OrderedMap HostTypeId (Except TypeError TypeInfo)
  | .host target =>
    match r.info? target with
    | none => r.validated
    | some info =>
      r.validated.insert target (.ok { info with members := info.members.insertIfNew m.name m })
  | _ => r.validated

/-- The registry after a function was offered to a receiver. -/
def lend (r : Registry) (m : Member) (receiver : Receiver) : Registry :=
  { r with
    extensions := r.extensions.insert receiver
      (((r.extensions.get? receiver).getD {}).insert m.name m)
    validated := r.gains m receiver }

/-- A function is refused or is offered to its receiver. -/
theorem addExtension_cases (function : Member) (r : Registry) :
    addExtension function r = .ok () r ∨
    addExtension function r =
      .error (.unsupported function.owner (.receiver function.hostName)) r ∨
    function.isExtension = true ∧
      ∃ receiver, addExtension function r = .ok () (r.lend function receiver) := by
  cases hkind : function.kind with
  | function params ret =>
    cases hreceiver : params.head?.bind Receiver.ofType? with
    | none => exact .inr (.inl (by simp only [addExtension, hkind, hreceiver]; rfl))
    | some receiver =>
      refine .inr (.inr ⟨by rw [Member.isExtension, hkind], receiver, ?_⟩)
      simp only [addExtension, hkind, hreceiver]
      cases receiver with
      | host target =>
        show EStateM.Result.ok () (match r.info? target with | none => _ | some info => _) = _
        rw [lend, gains]
        cases r.info? target <;> rfl
      | _ => rfl
  | _ => exact .inl (by simp only [addExtension, hkind]; rfl)

theorem extension?_lend (m : Member) (receiver other : Receiver) (name : String) :
    (r.lend m receiver).extension? other name =
      if other = receiver ∧ name = m.name then some m else r.extension? other name := by
  show ((r.extensions.insert receiver _).get? other).bind (·.get? name) = _
  rw [OrderedMap.get?_insert]
  by_cases hother : other = receiver
  · simp [hother, OrderedMap.get?_insert, extension?_eq]
  · simp [hother, extension?]

theorem Lends.of_lend {receiver : Receiver} {m x : Member} (h : (r.lend m receiver).Lends x) :
    x = m ∨ r.Lends x := by
  obtain ⟨named, hnamed, hx⟩ := h
  rcases OrderedMap.mem_values_insert hnamed with rfl | hnamed
  · rcases OrderedMap.mem_values_insert hx with rfl | hx
    · exact .inl rfl
    · exact .inr (lends_of_mem hx)
  · exact .inr ⟨named, hnamed, hx⟩

/-- Only a type that has members gains one. -/
theorem gains_cases (r : Registry) (m : Member) (receiver : Receiver) :
    (r.gains m receiver = r.validated ∧ ∀ id, receiver = .host id → r.info? id = none) ∨
    ∃ id info, receiver = .host id ∧ r.info? id = some info ∧
      r.gains m receiver = r.validated.insert id
        (.ok { info with members := info.members.insertIfNew m.name m }) := by
  cases receiver with
  | host target =>
    cases hinfo : r.info? target with
    | none => exact .inl ⟨by rw [gains, hinfo], fun id hid => by cases hid; exact hinfo⟩
    | some info => exact .inr ⟨target, info, rfl, hinfo, by rw [gains, hinfo]⟩
  | _ => exact .inl ⟨rfl, fun _ hid => nomatch hid⟩

/-- A type that is not the receiver is as it was. -/
theorem Fits.lend {id : HostTypeId} {info : TypeInfo} (h : r.Fits made id info) (m : Member)
    {receiver : Receiver} (hr : receiver ≠ .host id) : (r.lend m receiver).Fits made id info where
  found := h.found
  covers hname := by
    rw [extension?_lend, if_neg (fun heq => hr heq.1.symm)] at hname
    exact h.covers hname
  bounded := h.bounded

theorem Ready.lend (h : r.Ready [] made) {m : Member} (hm : m ∈ made) (hkind : m.isExtension = true)
    (receiver : Receiver) : (r.lend m receiver).Ready [] made where
  counted := h.counted
  next := h.next
  lends hx := by
    rcases Lends.of_lend hx with rfl | hx
    · exact ⟨hm, hkind⟩
    · exact h.lends hx
  fits {id info} hfound := by
    have hget : (r.gains m receiver).get? id = some (.ok info) := hfound
    rcases r.gains_cases m receiver with ⟨hgains, hnone⟩ | ⟨target, old, rfl, hold, hgains⟩
    · rw [hgains] at hget
      refine (h.fits hget).lend m fun hr => ?_
      have hinfo := hnone id hr
      rw [info?_eq_some.mpr hget] at hinfo
      cases hinfo
    · rw [hgains, OrderedMap.get?_insert] at hget
      split at hget
      next heq =>
        obtain rfl := heq
        obtain rfl : info = _ := (Except.ok.inj (Option.some.inj hget)).symm
        have hfits := h.fits (info?_eq_some.mp hold)
        refine ⟨?_, fun {name} hname => ?_, hfits.bounded⟩
        · exact hfits.found.overlaid [(m.name, m)]
            (by simpa using ⟨hm, Member.isIndexer_of_isExtension hkind⟩)
        · rw [extension?_lend] at hname
          show (old.members.insertIfNew m.name m).contains name = true
          rw [contains_insertIfNew]
          by_cases hn : name = m.name
          · simp [hn]
          · simp only [hn, and_false, if_false] at hname
            simp [hfits.covers hname]
      next hne => exact (h.fits hget).lend m fun hr => hne (Receiver.host.inj hr).symm
  unique := by
    show (r.gains m receiver).keys.Nodup
    rcases r.gains_cases m receiver with ⟨hgains, -⟩ | ⟨_, _, -, -, hgains⟩
    · exact hgains ▸ h.unique
    · exact hgains ▸ OrderedMap.nodup_keys_insert h.unique ..
  idle := h.idle
  sizes := h.sizes
  settled id hid hne := by
    show ((r.gains m receiver).get? id).isSome
    have hold := h.settled id hid hne
    rcases r.gains_cases m receiver with ⟨hgains, -⟩ | ⟨_, _, -, -, hgains⟩
    · exact hgains ▸ hold
    · rw [hgains, OrderedMap.get?_insert]
      split
      · rfl
      · exact hold

theorem Ready.addExtensions (h : r.Ready [] made) {functions : List Member}
    (hf : ∀ m ∈ functions, m ∈ made) :
    (r.after (functions.forM addExtension)).Ready [] made := by
  induction functions generalizing r with
  | nil => exact h
  | cons m rest ih =>
    obtain ⟨hm, hrest⟩ := List.forall_mem_cons.mp hf
    have hafter {r' : Registry} (hrun : addExtension m r = .ok () r') :
        r.after ((m :: rest).forM addExtension) = r'.after (rest.forM addExtension) := by
      simp [after, Bind.bind, EStateM.bind, hrun]
    rcases addExtension_cases m r with hrun | hrun | ⟨hkind, receiver, hrun⟩
    · exact hafter hrun ▸ ih h hrest
    · simpa [after, Bind.bind, EStateM.bind, hrun] using h
    · exact hafter hrun ▸ ih (h.lend hm hkind receiver) hrest

/-- The functions of an extension type are offered to their receivers. -/
def install (id : HostTypeId) : Register Unit := do
  let functions := (((← get).info? id).map fun info => info.members.values).getD []
  functions.forM addExtension

theorem registerExtension_eq (hsizes : r.names.size = r.descriptors.size) (desc : TypeDescriptor) :
    registerExtension desc r =
      (validate true r.names.size >>= fun _ => install r.names.size) (r.introduce desc) := by
  show (define r.names.size desc >>= fun _ => validate true r.names.size >>= fun _ =>
    install r.names.size) _ = _
  simp only [Bind.bind, EStateM.bind]
  rw [define_new hsizes]

theorem Ready.install (h : r.Ready [] made) (id : HostTypeId) :
    (r.after (Registry.install id)).Ready [] made := by
  refine h.addExtensions fun m hm => ?_
  cases hinfo : r.info? id with
  | none => simp [hinfo] at hm
  | some info =>
    rw [hinfo] at hm
    exact ((h.fits (info?_eq_some.mp hinfo)).found.members hm).1

theorem Ready.registerExtension (h : r.Ready [] made) (desc : TypeDescriptor) :
    ∃ made', (r.after (Registry.registerExtension desc)).Ready [] made' := by
  obtain ⟨made', h'⟩ := (h.introduce desc).validate true
  refine ⟨made', ?_⟩
  rw [after, registerExtension_eq h.sizes]
  simp only [Bind.bind, EStateM.bind]
  rw [after] at h'
  cases hrun : Registry.validate true r.names.size (r.introduce desc) with
  | ok _ r' =>
    rw [hrun] at h'
    exact h'.install r.names.size
  | error e r' =>
    rw [hrun] at h'
    exact h'

end Registry

end HostScript
