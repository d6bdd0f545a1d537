import HostScript.Proofs.Code.Invariant

/-!
# Constants, variables, members and places

What the generator does for the parts of which it makes the code of a body: constants and members
get their numbers, values are converted, variables, members and entries are loaded and stored.
-/

namespace HostScript

namespace Generate

open Op (Extends)

variable {α : Type} {b : Body} {v : Bounds} {I : Invariant b v} {m : Member}

/-! ### Constants -/

theorem intern_lt (isItem : α → Bool) (item : α) (items : List α) :
    (intern isItem item items).1 < (intern isItem item items).2.length := by
  unfold intern
  split
  next i hi => exact (List.findIdx?_eq_some_iff_getElem.mp hi).1
  next => simp

theorem emits_of_adds {act : Generate α} {post : α → List Op} {Q : α → Prop}
    (h : ∀ {t a t'}, act t = .ok (a, t') → t.Adds t' ∧ t'.members = t.members ∧
      (∀ op ∈ post a, op.Plain) ∧ (v.code.Covers t' → Q a)) : Emits I [] act post Q := by
  intro base t a t' ht hrun
  obtain ⟨hadds, hmembers, hplain, ha⟩ := h hrun
  refine ⟨I.extend (I.adds ht hadds hmembers) ((Extends.refl base).append (.nil hplain)), ?_⟩
  exact fun _ hcovers => ⟨hadds.covers hcovers, ha hcovers.code⟩

theorem emits_pushNumber (x : Float) :
    Emits I [] (pushNumber x) (fun op => [op]) fun op => ∀ start, Takes v start [op] 0 1 := by
  refine emits_of_adds fun {t op t'} hrun => ?_
  have heq : pushNumber x t = .ok (.pushNum (intern (fun y => y.toBits == x.toBits) x t.numbers).1,
      { t with numbers := (intern (fun y => y.toBits == x.toBits) x t.numbers).2 }) := rfl
  rw [heq] at hrun
  cases hrun
  refine ⟨{ Tables.Adds.refl t with same := rfl, numbers := prefix_intern.length_le }, rfl, by simp,
    fun hcode start => ?_⟩
  exact takes_op rfl (Nat.lt_of_lt_of_le (intern_lt _ _ _) hcode.numbers)

theorem emits_pushString (s : String) :
    Emits I [] (pushString s) (fun op => [op]) fun op => ∀ start, Takes v start [op] 0 1 := by
  refine emits_of_adds fun {t op t'} hrun => ?_
  have heq : pushString s t = .ok (.pushStr (intern (· == s) s t.strings).1,
      { t with strings := (intern (· == s) s t.strings).2 }) := rfl
  rw [heq] at hrun
  cases hrun
  refine ⟨{ Tables.Adds.refl t with same := rfl, strings := prefix_intern.length_le }, rfl, by simp,
    fun hcode start => ?_⟩
  exact takes_op rfl (Nat.lt_of_lt_of_le (intern_lt _ _ _) hcode.strings)

theorem emits_name (s : String) : Emits I [] (name s) (fun _ => []) fun i => i < v.code.names.size := by
  refine emits_of_adds fun {t i t'} hrun => ?_
  have heq : name s t = .ok ((intern (· == s) s t.names).1,
      { t with names := (intern (· == s) s t.names).2 }) := rfl
  rw [heq] at hrun
  cases hrun
  refine ⟨{ Tables.Adds.refl t with same := rfl, names := prefix_intern.length_le }, rfl, by simp,
    fun hcode => ?_⟩
  exact Nat.lt_of_lt_of_le (intern_lt _ _ _) hcode.names

theorem emits_pushZero (rep : Rep) :
    Emits I [] (pushZero rep) (fun op => [op]) fun op => ∀ start, Takes v start [op] 0 1 := by
  cases rep with
  | num => exact emits_pushNumber 0.0
  | str => exact emits_pushString ""
  | _ => exact .pure (.nil (by simp)) fun _ start => takes_op rfl trivial

/-! ### Conversions -/

theorem emits_escape (rep : Rep) :
    Emits I [] (modify (Tables.escape b.layouts rep)) (fun _ => []) fun _ => True := by
  intro base t u t' ht hrun
  cases hrun
  exact ⟨I.escapes rep ht, fun _ hcovers => ⟨Tables.covers_escape hcovers, trivial⟩⟩

theorem emits_erase (given : Rep) :
    Emits I [] (erase b given) id fun ops => ∀ start, Takes v start ops 1 1 := by
  refine (emits_escape given).bind fun _ => ?_
  split
  · exact .pure (.nil (by simp)) fun _ _ start => takes_op rfl trivial
  · exact .pure (.refl []) fun _ _ start => .nil v start 1

theorem emits_check (wanted : Rep) (label : String) :
    Emits I [] (check wanted label) id fun ops =>
      b.layouts.Holds wanted → ∀ start, Takes v start ops 1 1 :=
  (emits_name label).bind fun _ => .pure (.nil (by simp)) fun hs hname hwanted _ =>
    takes_op rfl ⟨(I.suits hs).inRange hwanted, hname⟩

theorem emits_convert (given wanted : Rep) (label : String) :
    Emits I [] (convert b given wanted label) id fun ops =>
      b.layouts.Holds wanted → ∀ start, Takes v start ops 1 1 := by
  unfold convert
  split
  · exact .pure (.refl []) fun _ _ start => .nil v start 1
  · split
    · exact (emits_erase given).mono fun _ h _ _ => h
    · exact emits_check wanted label
    · refine (emits_erase given).bind fun erased => ?_
      refine ((emits_check wanted label).frame erased).bind fun ops => .pure (.refl _) ?_
      exact fun _ hops herased hwanted start => (herased start).append (hops hwanted _)

theorem emits_hostValue (ty : TypeRef) (given : Rep) (label : String) :
    Emits I [] (hostValue b ty given label) id fun ops => ∀ start, Takes v start ops 1 1 := by
  unfold hostValue
  split
  · refine (emits_convert given .num label).bind fun ops => ?_
    split
    · exact .pure (.refl ops) fun _ hops => hops trivial
    · refine .pure (.snoc rfl) fun _ hops start => ?_
      exact (hops trivial start).snoc rfl trivial
  · exact (emits_convert given ty.rep label).mono fun _ h _ => h (ty.rep_inRange _ _)

/-- A fragment that leaves one slot is converted in its place. -/
theorem emits_as (f : Fragment) (wanted : Rep) (label : String) :
    Emits I f.ops (as b f wanted label) id fun ops =>
      b.layouts.Holds wanted → ∀ {start m}, Takes v start f.ops m 1 → Takes v start ops m 1 :=
  ((emits_convert f.rep wanted label).frame f.ops).bind fun _ =>
    .pure (.refl _) fun _ hops hwanted _ _ hf => hf.append (hops hwanted _)

/-! ### Variables -/

theorem emits_declareLocal (symbol : Symbol) (h : I.allows symbol) :
    Emits I [] (declareLocal b symbol) (fun _ => []) fun storage =>
      storage.slot < v.locals ∧ b.layouts.Holds storage.rep := by
  intro base t storage t' ht hrun
  obtain ⟨t₁, t₂, hget, hrun⟩ := bind_ok.mp hrun
  cases hget
  cases hold : t.locals.get? symbol with
  | some old =>
    rw [hold] at hrun
    cases pure_ok.mp hrun
    refine ⟨ht, fun hs hcovers => ⟨hcovers, ?_⟩⟩
    exact (I.slots hs ht hold).imp_left fun hslot => Nat.lt_of_lt_of_le hslot hcovers.locals
  | none =>
    rw [hold] at hrun
    cases hrun
    refine ⟨I.declares symbol _ h hold ht, fun hs hcovers => ?_⟩
    exact ⟨⟨{ hcovers.code with }, Nat.le_of_succ_le hcovers.locals⟩,
      Nat.lt_of_le_of_lt (Nat.mod_le ..) hcovers.locals,
      (I.suits hs).holds_rep symbol.node⟩

theorem reads_captureIndex (symbol : Symbol) (span : Span) :
    Reads (captureIndex b symbol span) fun _ index => index < b.captures.length := by
  intro t index t' hrun
  obtain ⟨hsame, hindex⟩ := Reads.orFail hrun
  exact ⟨hsame, (List.findIdx?_eq_some_iff_getElem.mp hindex).1⟩

theorem emits_loadSymbol (symbol : Symbol) (span : Span) :
    Emits I [] (loadSymbol b symbol span) Fragment.ops fun f => ∀ start, Takes v start f.ops 0 1 := by
  refine .get fun t ops ht => ?_
  split
  next storage hstorage =>
    have hslot (hs : I.strict) (hcovers : v.Covers t) : storage.slot < v.locals :=
      Nat.lt_of_lt_of_le (I.slots hs ht hstorage).1 hcovers.locals
    dsimp only
    split
    · exact .pure (.nil (by simp)) fun hs hcovers start => takes_op rfl (hslot hs hcovers)
    · exact .pure (.nil (by simp)) fun hs hcovers start => takes_op rfl (hslot hs hcovers)
  next =>
    refine .bindReads (reads_captureIndex symbol span) fun index hindex => .pure (.nil (by simp)) ?_
    exact fun hs _ start => takes_op rfl (Nat.lt_of_lt_of_eq hindex (I.suits hs).captures.symm)

theorem emits_storeSymbol (symbol : Symbol) (given : Rep) (label : String) (span : Span) :
    Emits I [] (storeSymbol b symbol given label span) id fun ops =>
      ∀ start, Takes v start ops 1 0 := by
  refine .get fun t held ht => ?_
  split
  next storage hstorage =>
    refine (emits_convert given storage.rep label).bind fun ops => ?_
    have hslot (hs : I.strict) (hcovers : v.Covers t) : storage.slot < v.locals :=
      Nat.lt_of_lt_of_le (I.slots hs ht hstorage).1 hcovers.locals
    split
    all_goals
      refine .pure (.snoc rfl) fun hs hops hcovers start => ?_
      exact (hops (I.slots hs ht hstorage).2 start).snoc rfl (hslot hs hcovers)
  next =>
    refine .bindReads (reads_captureIndex symbol span) fun index hindex => ?_
    refine (emits_convert given _ label).bind fun ops => .pure (.snoc rfl) ?_
    intro hs hops _ start
    exact (hops ((I.suits hs).holds_rep symbol.node) start).snoc rfl
      (Nat.lt_of_lt_of_eq hindex (I.suits hs).captures.symm)

/-! ### Members -/

/-- A row for a member is found by the member's number, or added. -/
theorem member_cases {t t' : Tables} {rep : Rep} {i : Nat}
    (hrun : member m rep t = .ok (i, t')) :
    (t' = t ∧ ∃ h, t.members[i]? = some h ∧ h.member.id = m.id) ∨
      i = t.members.length ∧ t' = { t with members := t.members ++ [⟨m, rep⟩] } := by
  have heq : member m rep t = .ok ((intern (fun h => h.member.id == m.id) ⟨m, rep⟩ t.members).1,
      { t with members := (intern (fun h => h.member.id == m.id) ⟨m, rep⟩ t.members).2 }) := rfl
  rw [heq, intern] at hrun
  split at hrun
  next j hj =>
    cases hrun
    obtain ⟨hlt, hid, -⟩ := List.findIdx?_eq_some_iff_getElem.mp hj
    exact .inl ⟨rfl, t.members[j], by simp [hlt], by simpa using hid⟩
  next =>
    cases hrun
    exact .inr ⟨rfl, rfl⟩

theorem member_adds {t t' : Tables} {rep : Rep} {i : Nat} (hrun : member m rep t = .ok (i, t')) :
    t.Adds t' ∧ i < t'.members.length := by
  rcases member_cases hrun with ⟨rfl, row, hrow, _⟩ | ⟨rfl, rfl⟩
  · exact ⟨.refl _, (List.getElem?_eq_some_iff.mp hrow).1⟩
  · exact ⟨{ Tables.Adds.refl t with same := rfl, members := by simp }, by simp⟩

/-- The operation that uses a member comes right after the member gets its number. -/
theorem emits_member {use : MemberUse} (h : b.Offers m use) (mk : Nat → Op)
    (hop : ∀ i, (mk i).memberUse? = some (i, use)) :
    Emits I [] (member m (use.rep m)) (fun i => [mk i]) fun i => i < v.code.members.size := by
  intro base t i t' ht hrun
  rw [List.append_nil] at ht
  refine ⟨I.uses ht h hrun (hop i), fun _ hcovers => ?_⟩
  obtain ⟨hadds, hlt⟩ := member_adds hrun
  exact ⟨hadds.covers hcovers, Nat.lt_of_lt_of_le hlt hcovers.code.members⟩

theorem emits_hostMember (h : b.Names m) :
    Emits I [] (hostMember m) Fragment.ops fun f => ∀ start, Takes v start f.ops 1 1 := by
  rw [hostMember]
  split
  next hm =>
    have hbound : b.Offers m .bound := ⟨h, fun _ => hm⟩
    exact (emits_member hbound .bindMethod fun _ => rfl).bind fun _ =>
      .pure (.refl _) fun _ hi _ => takes_op rfl hi
  next =>
    have hvalue : b.Offers m .value := h
    exact (emits_member hvalue .getHost fun _ => rfl).bind fun _ =>
      .pure (.refl _) fun _ hi _ => takes_op rfl hi

theorem emits_dynMember (object : Fragment) (memberName : String) :
    Emits I object.ops (dynMember b object memberName) Fragment.ops fun f =>
      ∀ {start}, Takes v start object.ops 0 1 → Takes v start f.ops 0 1 := by
  refine (emits_as object .any "receiver").bind fun ops => ?_
  refine ((emits_name memberName).frame ops).bind fun _ => .pure ?_ fun _ hname hops _ hobject => ?_
  · simpa using (Extends.refl ops).appendPlain (by simp)
  · exact (hops trivial hobject).snoc rfl hname

theorem fits_field? (hb : b.Suits v) {record : Rep} {memberName : String} {found : Nat × Rep}
    (h : field? b record memberName = some found) :
    b.layouts.Holds found.2 ∧ ∃ layout ∈ v.code.records, found.1 < layout.fields.length := by
  unfold field? at h
  split at h
  · exact hb.field h
  · cases h

/-- A target names members that code may use. -/
def Reachable (b : Body) : MemberTarget → Prop
  | .host m => b.Names m
  | .extension m => b.Names m ∧ (b.LendsExtensions → m.isCallable = true)
  | _ => True

theorem emits_memberValue (objectNode : NodeId) (object : Fragment) (memberName : String)
    {found : MemberTarget} (h : Reachable b found) :
    Emits I object.ops (memberValue b objectNode object memberName found) Fragment.ops fun f =>
      ∀ {start}, Takes v start object.ops 0 1 → Takes v start f.ops 0 1 := by
  have hrep (hs : I.strict) := (I.suits hs).holds_rep objectNode
  cases found with
  | recordField record =>
    rw [memberValue]
    split
    next index rep hfield =>
      refine (emits_as object _ "record").bind fun ops => .pure (.snoc rfl) ?_
      intro hs hops _ hobject
      exact (hops (hrep hs) hobject).snoc rfl (fits_field? (I.suits hs) hfield).2
    next => exact emits_dynMember object memberName
  | arrayLength =>
    refine (emits_as object _ "array").bind fun ops => .pure (.snoc rfl) ?_
    exact fun hs hops _ hobject => (hops (hrep hs) hobject).snoc rfl trivial
  | stringLength =>
    refine (emits_as object .str "string").bind fun ops => .pure (.snoc rfl) ?_
    exact fun _ hops _ hobject => (hops trivial hobject).snoc rfl trivial
  | host m =>
    refine (emits_as object _ "receiver").bind fun ops => ?_
    refine ((emits_hostMember h).frame ops).bind fun _ => .pure (.refl _) ?_
    exact fun hs hvalue hops _ hobject => (hops (hrep hs) hobject).append (hvalue _)
  | extension m =>
    have hbound : b.Offers m .bound := h
    refine (emits_as object .any "receiver").bind fun ops => ?_
    refine ((emits_member hbound .bindMethod fun _ => rfl).frame ops).bind fun _ => .pure (.refl _) ?_
    exact fun _ hi hops _ hobject => (hops trivial hobject).snoc rfl hi
  | arrayAdd =>
    refine (emits_as object .any "receiver").bind fun ops => .pure (.snoc rfl) ?_
    exact fun _ hops _ hobject => (hops trivial hobject).snoc rfl trivial
  | missingField record | dynamic | noMember => exact emits_dynMember object memberName

theorem reads_checkMember (found : MemberTarget) (memberName : String) (span : Span) :
    Reads (checkMember found memberName span) fun _ _ => True := by
  unfold checkMember
  split
  · exact .fail
  · exact .pure fun _ => trivial

theorem Names.of_lends (h : b.types.Lends m) : b.Names m :=
  .inl (.inr h)

theorem lends_of_extension? {receiver : Receiver} {memberName : String}
    (h : b.types.extension? receiver memberName = some m) : b.types.Lends m := by
  obtain ⟨named, hnamed, hm⟩ := Option.bind_eq_some_iff.mp h
  exact ⟨named, List.mem_map_of_mem (OrderedMap.mem_of_lookup hnamed),
    List.mem_map_of_mem (OrderedMap.mem_of_lookup hm)⟩

theorem reachable_extension {receiver : Receiver} {memberName : String}
    (h : b.types.extension? receiver memberName = some m) :
    Reachable b (.extension m) :=
  have hlent := lends_of_extension? h
  ⟨Names.of_lends hlent, fun hlends => Member.isCallable_of_isExtension (hlends hlent)⟩

theorem names_of_info? {id : HostTypeId} {memberName : String}
    (h : ((b.types.info? id).bind fun info => info.members.get? memberName) = some m) :
    b.Names m := by
  obtain ⟨info, hinfo, hm⟩ := Option.bind_eq_some_iff.mp h
  exact .inl (.inl ⟨info, Registry.ok_mem_of_info? hinfo,
    List.mem_map_of_mem (OrderedMap.mem_of_lookup hm)⟩)

theorem reachable_target (b : Body) (object : NodeId) (memberName : String) :
    Reachable b (target b object memberName) := by
  unfold target MemberTarget.resolve
  dsimp only
  split
  · trivial
  · trivial
  · split
    · trivial
    · split
      next m hm => exact reachable_extension hm
      next => trivial
  · split
    · trivial
    · trivial
    · split
      next m hm => exact reachable_extension hm
      next => trivial
  · split
    · trivial
    · split
      next m hm => exact reachable_extension hm
      next => trivial
  · split
    next m hm => exact reachable_extension hm
    next => trivial
  · split
    next m hm => exact reachable_extension hm
    next => trivial
  · split
    next m hm =>
      split
      next hext => exact ⟨names_of_info? hm, fun _ => Member.isCallable_of_isExtension hext⟩
      next => exact names_of_info? hm
    next => trivial
  all_goals trivial

/-! ### Indices -/

namespace IndexTarget

/-- A target has the indexer of a type, and the type of its entries. -/
def Reachable (b : Body) : IndexTarget → Prop
  | .host _ m _ ty => b.types.Indexes m ∧ m.entryType? = some ty
  | _ => True

end IndexTarget

theorem reads_indexTarget (object : NodeId) (span : Span) :
    Reads (indexTarget b object span) fun _ how =>
      how.Reachable b ∧ (b.layouts.Closed → b.layouts.Holds how.object.1) := by
  unfold indexTarget
  split
  · exact .pure fun _ => ⟨trivial, fun hclosed => hclosed.rep _ _⟩
  · refine Reads.orFail.bind fun m => ?_
    split
    next key ty writable hkind =>
      refine .pure fun _ hm => ⟨⟨?_, by rw [Member.entryType?, hkind]⟩, fun _ => trivial⟩
      obtain ⟨info, hinfo, hindexer⟩ := Option.bind_eq_some_iff.mp hm
      exact ⟨info, Registry.ok_mem_of_info? hinfo, hindexer⟩
    next => exact .fail
  · exact .pure fun _ => ⟨trivial, fun _ => trivial⟩

theorem emits_indexKey (key : Fragment) (how : IndexTarget) :
    Emits I key.ops (indexKey b key how) id fun ops =>
      ∀ {start}, Takes v start key.ops 0 1 → Takes v start ops 0 1 := by
  cases how with
  | array rep => exact (emits_as key .num "index").mono fun _ h _ => h trivial
  | host id m keyType ty =>
    refine ((emits_hostValue keyType key.rep "index").frame key.ops).bind fun _ => .pure (.refl _) ?_
    exact fun _ hops _ hkey => hkey.append (hops _)
  | dynamic => exact (emits_as key .any "index").mono fun _ h _ => h trivial

/-- The representation of entries is the one that the use needs. -/
theorem entry_rep {ty : TypeRef} (h : m.entryType? = some ty) :
    MemberUse.entry.rep m = ty.rep := by
  simp [MemberUse.rep, h]

theorem emits_indexValue {how : IndexTarget} (h : how.Reachable b) :
    Emits I [] (indexValue b how) Fragment.ops fun f => ∀ start, Takes v start f.ops 2 1 := by
  cases how with
  | array rep => exact .pure (.nil (by simp)) fun _ _ => takes_op rfl trivial
  | host id m key ty =>
    have hentry : b.Offers m .entry := h.1
    rw [indexValue, ← entry_rep h.2]
    exact (emits_member hentry .getHostIndex fun _ => rfl).bind fun _ =>
      .pure (.refl _) fun _ hi _ => takes_op rfl hi
  | dynamic => exact .pure (.nil (by simp)) fun _ _ => takes_op rfl trivial

theorem holds_elementRep (hb : b.Suits v) (array : Rep) : b.layouts.Holds (elementRep b array) := by
  unfold elementRep
  split
  · exact hb.closed.element _
  · trivial

end Generate

/-! ### Places -/

namespace CodePlace

/-- A place has members that code may use so. -/
def Reachable (b : Body) : CodePlace → Prop
  | .input m | .host _ m => b.Names m
  | .hostIndex _ m _ ty => b.types.Indexes m ∧ m.entryType? = some ty
  | _ => True

/-- How many slots a place needs on the stack. -/
def width : CodePlace → Nat
  | .local _ => 0
  | .input _ | .field .. | .host .. | .dynMember _ => 1
  | .element .. | .hostIndex .. | .dynIndex => 2

/-- The representations and the field of a place are there. -/
def InRange (v : Bounds) (b : Body) : CodePlace → Prop
  | .field record index rep => b.layouts.Holds record ∧ b.layouts.Holds rep ∧
    ∃ layout ∈ v.code.records, index < layout.fields.length
  | .host receiver _ => b.layouts.Holds receiver
  | .element _ rep => b.layouts.Holds rep
  | _ => True

theorem InRange.receiver {v : Bounds} {b : Body} {p : CodePlace} (h : p.InRange v b) :
    b.layouts.Holds p.receiver.1 := by
  cases p with
  | field record index rep => exact h.1
  | host receiver m => exact h
  | _ => trivial

theorem takes_again (v : Bounds) (p : CodePlace) (start : Nat) :
    Takes v start p.again p.width (p.width + p.width) := by
  cases p with
  | «local» symbol => exact .nil v start 0
  | input _ | field _ _ _ | host _ _ | dynMember _ => exact takes_op rfl trivial
  | element _ _ | hostIndex _ _ _ _ | dynIndex => exact takes_op rfl trivial

end CodePlace

namespace Generate

open Op (Extends)

variable {b : Body} {v : Bounds} {I : Invariant b v}

theorem reads_namedPlace (node : Node) : Reads (namedPlace b node) fun _ p =>
    p.Reachable b ∧ ((∃ symbol, p = .local symbol) ∨ ∃ m, p = .input m) := by
  unfold namedPlace
  split
  · exact .pure fun _ => ⟨trivial, .inl ⟨_, rfl⟩⟩
  next m hm => exact .pure fun _ => ⟨.inr ⟨node.id, hm⟩, .inr ⟨_, rfl⟩⟩
  · exact .fail

theorem reads_memberPlace (object : NodeId) (memberName : String) (span : Span) :
    Reads (memberPlace b object memberName span) fun _ p =>
      p.Reachable b ∧ p.width = 1 ∧ ∀ v, b.Suits v → p.InRange v b := by
  have htarget := reachable_target b object memberName
  unfold memberPlace
  dsimp only
  split
  case h_1 | h_2 =>
    cases hfound : field? b (b.rep object) memberName with
    | some found =>
      refine .pure fun _ => ⟨trivial, rfl, fun v hb => ⟨hb.holds_rep object, ?_⟩⟩
      exact fits_field? hb hfound
    | none => exact .pure fun _ => ⟨trivial, rfl, fun _ _ => trivial⟩
  next m hm =>
    rw [hm] at htarget
    exact .pure fun _ => ⟨htarget, rfl, fun _ hb => hb.holds_rep object⟩
  · exact .pure fun _ => ⟨trivial, rfl, fun _ _ => trivial⟩
  · exact .fail

theorem reachable_indexPlace {how : IndexTarget} (h : how.Reachable b) :
    (indexPlace b how).Reachable b := by
  cases how with
  | array rep => trivial
  | host id m key ty => exact h
  | dynamic => trivial

theorem fits_indexPlace (hb : b.Suits v) (how : IndexTarget) :
    (indexPlace b how).width = 2 ∧ (indexPlace b how).InRange v b := by
  cases how with
  | array rep => exact ⟨rfl, holds_elementRep hb rep⟩
  | host id m key ty | dynamic => exact ⟨rfl, trivial⟩

theorem emits_loadPlace (span : Span) {p : CodePlace} (h : p.Reachable b) :
    Emits I [] (loadPlace b span p) Fragment.ops fun f =>
      p.InRange v b → ∀ start, Takes v start f.ops p.width 1 := by
  have hvalue {m : Member} (hm : b.Names m) : Emits I [] (do
      return ⟨[.getHost (← member m (memberRep m))], memberRep m⟩ : Generate Fragment)
      Fragment.ops fun f => ∀ start, Takes v start f.ops 1 1 := by
    have hoffer : b.Offers m .value := hm
    exact (emits_member hoffer .getHost fun _ => rfl).bind fun _ =>
      .pure (.refl _) fun _ hi _ => takes_op rfl hi
  cases p with
  | «local» symbol => exact (emits_loadSymbol symbol span).mono fun _ h _ _ => h
  | input m => exact (hvalue h).mono fun _ h _ _ => h
  | field record index rep => exact .pure (.nil (by simp)) fun _ h _ => takes_op rfl h.2.2
  | host receiver m => exact (hvalue h).mono fun _ h _ _ => h
  | element array rep => exact .pure (.nil (by simp)) fun _ _ _ => takes_op rfl trivial
  | hostIndex receiver m key ty =>
    have hentry : b.Offers m .entry := h.1
    rw [loadPlace, ← entry_rep h.2]
    exact (emits_member hentry .getHostIndex fun _ => rfl).bind fun _ =>
      .pure (.refl _) fun _ hi _ _ => takes_op rfl hi
  | dynMember memberName =>
    exact (emits_name memberName).bind fun _ => .pure (.nil (by simp)) fun _ hi _ _ => takes_op rfl hi
  | dynIndex => exact .pure (.nil (by simp)) fun _ _ _ => takes_op rfl trivial

/-- The value is converted above what the place needs. -/
theorem emits_storePlace (given : Rep) (span : Span) {p : CodePlace} (h : p.Reachable b) :
    Emits I [] (storePlace b given span p) id fun ops =>
      p.InRange v b → ∀ start, Takes v start ops (p.width + 1) 0 := by
  have hvalue {m : Member} (hm : b.Names m) : Emits I [] (storePlace b given span (.input m)) id
      fun ops => ∀ start, Takes v start ops 2 0 := by
    have hoffer : b.Offers m .value := hm
    have hset (ops : List Op) : Emits I ops (do
        return ops ++ [.setHost (← member m (memberRep m))]) id fun all =>
          (∀ start, Takes v start ops 1 1) → ∀ start, Takes v start all 2 0 := by
      refine ((emits_member hoffer .setHost fun _ => rfl).frame ops).bind fun _ => .pure (.refl _) ?_
      exact fun _ hi hops start => ((hops start).above 1).snoc rfl hi
    rw [storePlace]
    cases m.valueType? with
    | some ty => exact (emits_hostValue ty given _).bind fun ops => hset ops
    | none => exact (hset []).mono fun _ h _ => h fun start => .nil v start 1
  cases p with
  | «local» symbol => exact (emits_storeSymbol symbol given "variable" span).mono fun _ h _ _ => h
  | input m => exact (hvalue h).mono fun _ h _ _ => h
  | field record index rep =>
    refine (emits_convert given rep "field").bind fun ops => .pure (.snoc rfl) ?_
    exact fun _ hops h start => ((hops h.2.1 start).above 1).snoc rfl h.2.2
  | host receiver m => exact (hvalue h).mono fun _ h _ _ => h
  | element array rep =>
    refine (emits_convert given rep "element").bind fun ops =>
      .pure (.snoc rfl) ?_
    exact fun _ hops h start => ((hops h start).above 2).snoc rfl trivial
  | hostIndex receiver m key ty =>
    have hentry : b.Offers m .entry := h.1
    rw [storePlace, ← entry_rep h.2]
    refine (emits_hostValue ty given _).bind fun ops => ?_
    refine ((emits_member hentry .setHostIndex fun _ => rfl).frame ops).bind fun _ => .pure (.refl _) ?_
    exact fun _ hi hops _ start => ((hops start).above 2).snoc rfl hi
  | dynMember memberName =>
    refine (emits_convert given .any memberName).bind fun ops => ?_
    refine ((emits_name memberName).frame ops).bind fun _ => .pure ?_ fun _ hi hops _ start => ?_
    · simpa using (Extends.refl ops).appendPlain (by simp)
    · exact ((hops trivial start).above 1).snoc rfl hi
  | dynIndex =>
    refine (emits_convert given .any "element").bind fun ops =>
      .pure (.snoc rfl) ?_
    exact fun _ hops _ start => ((hops trivial start).above 2).snoc rfl trivial

end Generate

end HostScript
