import HostScript.Proofs.Code.Trees

/-!
# Members that code uses

Every row of the table of members was asked for by an operation that is in the code, and has the
representation that this operation needs. Every operation that uses a member finds a row with a
member that can be used so.
-/

namespace HostScript

/-- The members that can be used so. -/
def MemberUse.Fits (m : Member) : MemberUse → Prop
  | value => m.isIndexer = false
  | entry => m.isIndexer = true
  | call | bound => m.isCallable = true

namespace Body

/-- The members that code can reach are among those in the list. -/
structure Provides (b : Body) (made : List Member) : Prop where
  numbers : b.types.Numbers made
  names : ∀ {node m}, b.analysis.resolutions.get? node = some (.input m) → b.types.Offers m

variable {b : Body} {made : List Member} {m : Member}

theorem Provides.of_names (h : b.Provides made) (hm : b.Names m) :
    m ∈ made ∧ m.isIndexer = false := by
  rcases hm with hm | ⟨node, hnode⟩
  · exact h.numbers.offers hm
  · exact h.numbers.offers (h.names hnode)

/-- What code may use so is among the members, and can be used so. -/
theorem Provides.of_offers (h : b.Provides made) {use : MemberUse} (hm : b.Offers m use) :
    m ∈ made ∧ use.Fits m := by
  cases use with
  | value => exact h.of_names hm
  | entry => exact h.numbers.indexes hm
  | call | bound => exact ⟨(h.of_names hm.1).1, hm.2 h.numbers.lends⟩

end Body

namespace Tables

/-- The operations of all functions. -/
def ops (t : Tables) : List Op :=
  t.functions.toList.flatMap fun f => f.ops.toList

/-- The rows of members and the operations that use them, in `ops` and in the functions. -/
structure Uses (made : List Member) (ops : List Op) (t : Tables) : Prop where
  rows : ∀ {i h}, t.members[i]? = some h → h.member ∈ made ∧
    ∃ op ∈ ops ++ t.ops, ∃ use, op.memberUse? = some (i, use) ∧ h.result = use.rep h.member
  fits : ∀ {op i use}, op ∈ ops ++ t.ops → op.memberUse? = some (i, use) →
    ∃ h, t.members[i]? = some h ∧ use.Fits h.member

variable {t t' : Tables} {made : List Member} {ops more : List Op}

namespace Uses

/-- Only the members and the operations that use some count. -/
theorem of_same (h : t.Uses made ops) (hm : t'.members = t.members)
    (hops : ∀ {op i use}, op.memberUse? = some (i, use) →
      (op ∈ more ++ t'.ops ↔ op ∈ ops ++ t.ops)) :
    t'.Uses made more := by
  constructor
  · intro i row hi
    obtain ⟨hmade, op, hop, use, huse, hresult⟩ := h.rows (hm ▸ hi)
    exact ⟨hmade, op, (hops huse).mpr hop, use, huse, hresult⟩
  · intro op i use hop huse
    rw [hm]
    exact h.fits ((hops huse).mp hop) huse

theorem extend (h : t.Uses made ops) (hops : Op.Extends ops more) : t.Uses made more := by
  refine h.of_same rfl fun {op _ _} huse => ?_
  rw [List.mem_append, List.mem_append]
  refine or_congr_left ⟨fun hop => ?_, fun hop => hops.1 hop⟩
  refine (hops.2 op hop).resolve_right fun hplain => ?_
  cases op <;> simp_all

/-- A call of an entry uses no member. -/
theorem addCall (h : t.Uses made ops) (f args : Nat) : t.Uses made (ops ++ [.callEntry f args]) := by
  refine h.of_same rfl fun {op _ _} huse => ?_
  simp only [List.mem_append, List.mem_singleton, or_assoc]
  refine or_congr_right (or_iff_right ?_)
  rintro rfl
  cases huse

end Uses

/-! ### Functions -/

theorem ops_push {function : Function} (ht : t'.functions = t.functions.push function) :
    t'.ops = t.ops ++ function.ops.toList := by
  simp [Tables.ops, ht]

theorem Uses.gains (h : t.Uses made ops) {key : ShapeId × Entry} {function : Function}
    (hg : Gains key function t t') : t'.Uses made ops := by
  refine h.of_same (by rw [hg.same]) fun {op _ _} huse => ?_
  rw [ops_push hg.functions, hg.blank, ← List.append_assoc, List.mem_append, or_iff_left]
  intro hop
  rw [List.mem_singleton.mp hop] at huse
  cases huse

/-- The operation of a blank function is replaced by the code that the function gets. -/
theorem ops_setFunction {f : Nat} (hblank : t.Blank f) (function : Function) :
    ∃ before after, t.ops = before ++ .unreachable :: after ∧
      (t.setFunction f function).ops = before ++ function.ops.toList ++ after := by
  obtain ⟨old, hold, hops⟩ := hblank
  obtain ⟨hlt, rfl⟩ := Array.getElem?_eq_some_iff.mp hold
  refine ⟨(t.functions.toList.take f).flatMap fun g => g.ops.toList,
    (t.functions.toList.drop (f + 1)).flatMap fun g => g.ops.toList, ?_, ?_⟩
  · have hsplit : t.functions.toList.take f ++ t.functions[f] :: t.functions.toList.drop (f + 1) =
        t.functions.toList := by
      rw [← Array.getElem_toList hlt, ← List.drop_eq_getElem_cons, List.take_append_drop]
    conv_lhs => rw [Tables.ops, ← hsplit, List.flatMap_append, List.flatMap_cons, hops]
    rfl
  · rw [Tables.ops, Tables.setFunction, Array.toList_setIfInBounds, List.set_eq_take_append_cons_drop,
      if_pos (by simpa using hlt), List.flatMap_append, List.flatMap_cons, List.append_assoc]

end Tables

namespace Generate

open Tables (Uses Queued)

variable {b : Body} {made : List Member} {t t' : Tables} {ops : List Op}

/-! ### The invariant -/

theorem member_uses (hb : b.Provides made) {m : Member} {use : MemberUse} {i : Nat} {op : Op}
    (h : t.Uses made ops) (hm : b.Offers m use) (hrun : member m (use.rep m) t = .ok (i, t'))
    (hop : op.memberUse? = some (i, use)) : t'.Uses made (ops ++ [op]) := by
  obtain ⟨hmade, hfits⟩ := hb.of_offers hm
  have hold {op' : Op} (hmem : op' ∈ ops ++ t.ops) : op' ∈ ops ++ [op] ++ t.ops := by
    rcases List.mem_append.mp hmem with hmem | hmem
    · exact List.mem_append_left _ (List.mem_append_left _ hmem)
    · exact List.mem_append_right _ hmem
  have hcases {op' : Op} (hmem : op' ∈ ops ++ [op] ++ t.ops) : op' = op ∨ op' ∈ ops ++ t.ops := by
    simp only [List.mem_append, List.mem_singleton] at hmem ⊢
    tauto
  rcases member_cases hrun with ⟨rfl, row, hrow, hid⟩ | ⟨rfl, rfl⟩
  · have hsame : row.member = m := hb.numbers.eq_of_id (h.rows hrow).1 hmade hid
    constructor
    · intro j other hj
      obtain ⟨hin, op', hop', huse⟩ := h.rows hj
      exact ⟨hin, op', hold hop', huse⟩
    · intro op' j use' hop' huse'
      rcases hcases hop' with rfl | hop'
      · rw [hop] at huse'
        cases huse'
        exact ⟨row, hrow, hsame ▸ hfits⟩
      · exact h.fits hop' huse'
  · have hkeep {j : Nat} {row : HostMember} (hj : t.members[j]? = some row) :
        (t.members ++ [⟨m, use.rep m⟩])[j]? = some row :=
      getElem?_mono (List.prefix_append ..) hj
    have hnew : (t.members ++ [⟨m, use.rep m⟩])[t.members.length]? = some ⟨m, use.rep m⟩ := by simp
    constructor
    · intro j row hj
      rcases Nat.lt_trichotomy j t.members.length with hlt | rfl | hgt
      · rw [List.getElem?_append_left hlt] at hj
        obtain ⟨hin, op', hop', huse⟩ := h.rows hj
        exact ⟨hin, op', hold hop', huse⟩
      · rw [hnew] at hj
        cases hj
        exact ⟨hmade, op, by simp, use, hop, rfl⟩
      · rw [List.getElem?_eq_none (by simp; omega)] at hj
        cases hj
    · intro op' j use' hop' huse'
      rcases hcases hop' with rfl | hop'
      · rw [hop] at huse'
        cases huse'
        exact ⟨⟨m, use.rep m⟩, hnew, hfits⟩
      · obtain ⟨row, hrow, hfit⟩ := h.fits hop' huse'
        exact ⟨row, hkeep hrow, hfit⟩

theorem uses_of_functions (h : t.Uses made ops) (hm : t'.members = t.members)
    (hf : t'.functions = t.functions) : t'.Uses made ops := by
  refine h.of_same hm fun _ => ?_
  rw [Tables.ops, hf, Tables.ops]

theorem escape_uses (h : t.Uses made ops) (layouts : Layouts) (rep : Rep) :
    (t.escape layouts rep).Uses made ops := by
  refine Tables.escape_keeps (fun {t} lambda h => ?_) (fun _ h => uses_of_functions h rfl rfl)
    layouts rep h
  rcases t.escapeLambda_cases lambda with heq | ⟨_, _, heq, _⟩ <;> rw [heq]
  · exact h
  · exact uses_of_functions h rfl rfl

/-- A new entry brings no operation that uses a member. -/
theorem uses_of_cases {busy : List Nat} (h : t.Uses made ops ∧ t.Queued busy)
    (hcases : t' = t ∨ ∃ key function, Tables.Gains key function t t') :
    t'.Uses made ops ∧ t'.Queued busy := by
  rcases hcases with rfl | ⟨_, _, hg⟩
  · exact h
  · exact ⟨h.1.gains hg, h.2.gains hg⟩

/-- While code is generated for the functions in `busy`, the rows fit the operations, and the queue
is in order. -/
def memberUses (hb : b.Provides made) (busy : List Nat) :
    Invariant b ⟨Tables.code {} b.layouts none, 0, 0⟩ where
  strict := False
  suits := suits_of_lax
  holds ops t := t.Uses made ops ∧ t.Queued busy
  slots := False.elim
  extend h hops := ⟨h.1.extend hops, h.2⟩
  adds h hadds hmembers := ⟨uses_of_functions h.1 hmembers (by rw [hadds.same]), by
    rw [hadds.same]
    exact { h.2 with }⟩
  allows _ := True
  declares _ _ _ _ h := ⟨uses_of_functions h.1 rfl rfl, { h.2 with }⟩
  escapes rep h := ⟨escape_uses h.1 b.layouts rep, h.2.escape b.layouts rep⟩
  uses h hm hrun hop := by
    refine ⟨member_uses hb h.1 hm hrun hop, ?_⟩
    rw [(member_adds hrun).1.same]
    exact { h.2 with }
  signatures h _ _ hrun :=
    have hnew := uses_of_cases h (signatureFunction_cases hrun)
    ⟨⟨hnew.1.addCall _ _, hnew.2⟩, False.elim⟩
  templates h _ hrun := ⟨uses_of_cases h (template_cases h.2 hrun), False.elim⟩

/-! ### Entries -/

theorem uses_setFunction {f : Nat} {function : Function} (h : t.Uses made ops) (hq : t.Queued [f])
    (hops : function.ops = ops.toArray) : (t.setFunction f function).Uses made [] := by
  obtain ⟨before, after, hold, hnew⟩ := Tables.ops_setFunction (hq.blank f List.mem_cons_self) function
  refine h.of_same rfl fun {op _ _} huse => ?_
  have hne : op ≠ .unreachable := by
    rintro rfl
    cases huse
  rw [hold, hnew, hops]
  simp only [List.nil_append, List.mem_append, List.mem_cons, hne, false_or]
  tauto

/-- The tables are in order when no function is being generated. -/
def Settled (made : List Member) (t : Tables) : Prop :=
  t.Uses made [] ∧ t.Queued []

/-- A job generates the code of its entry and gives it to its function. -/
theorem job_ok {j : Job} (hrun : job b j t = .ok ((), t')) :
    ∃ (l : LambdaShape) (literal : Lambda) (stack : List LayerId) (reps : List Rep) (ops : List Op)
      (locals : Nat) (t₁ : Tables),
      b.analysis.arena.lambda? j.lambda = some l ∧ b.script.lambda? l.node = some literal ∧
        entryFrame b j.lambda j.entry ⟨0, 0⟩ t = .ok ((stack, reps), t) ∧
        entryCode { b with
            stack
            captures := (b.analysis.captures.get? l.node).getD []
            ret := Entry.ret b l j.entry } l.node literal.params reps literal.body t =
          .ok ((ops, locals), t₁) ∧
        t' = t₁.setFunction j.function {
          name := "lambda#" ++ toString l.node ++ "/" ++ Entry.suffix j.entry
          arity := literal.params.length
          locals := slotNumber locals
          ops := ops.toArray } := by
  obtain ⟨l, t₁, hl, hliteral⟩ := bind_ok.mp hrun
  obtain ⟨hsame, hl⟩ := Reads.orFail hl
  rw [hsame] at hliteral
  obtain ⟨literal, t₂, hfound, hframe⟩ := bind_ok.mp hliteral
  obtain ⟨hsame, hfound⟩ := Reads.orFail hfound
  rw [hsame] at hframe
  obtain ⟨⟨stack, reps⟩, t₃, hentry, hcode⟩ := bind_ok.mp hframe
  rw [(reads_entryFrame _ _ _ hentry).1] at hcode hentry
  obtain ⟨_, t₄, hclear, hcells⟩ := bind_ok.mp hcode
  obtain ⟨cells, t₅, hparams, hcount⟩ := bind_ok.mp hcells
  obtain ⟨_, t₆, hset, hbody⟩ := bind_ok.mp hcount
  obtain ⟨ops, t₇, hops, hend⟩ := bind_ok.mp hbody
  obtain ⟨t₈, t₉, hget, hdone⟩ := bind_ok.mp hend
  cases hget
  cases hdone
  refine ⟨l, literal, stack, reps, cells ++ ops, t₇.localCount, t₇, hl, hfound, hentry, ?_, rfl⟩
  refine bind_ok.mpr ⟨_, t₄, hclear, bind_ok.mpr ⟨cells, t₅, hparams, ?_⟩⟩
  refine bind_ok.mpr ⟨_, t₆, hset, bind_ok.mpr ⟨ops, t₇, hops, ?_⟩⟩
  exact bind_ok.mpr ⟨t₇, t₇, rfl, rfl⟩

theorem job_cases {j : Job} (hrun : job b j t = .ok ((), t')) :
    ∃ (stack : List LayerId) (captures : List Symbol) (ret : Rep) (lambda : NodeId)
      (params : List Param) (reps : List Rep) (body : LambdaBody) (name : String) (ops : List Op)
      (locals : Nat) (t₁ : Tables),
      entryCode { b with stack, captures, ret } lambda params reps body t = .ok ((ops, locals), t₁) ∧
        t' = t₁.setFunction j.function
          { name, arity := params.length, locals := slotNumber locals, ops := ops.toArray } := by
  obtain ⟨_, _, _, _, _, _, _, _, _, _, hcode, heq⟩ := job_ok hrun
  exact ⟨_, _, _, _, _, _, _, _, _, _, _, hcode, heq⟩

theorem job_settled (hb : b.Provides made) {j : Job} (h : t.Uses made [])
    (hq : t.Queued [j.function]) (hrun : job b j t = .ok ((), t')) : Settled made t' := by
  obtain ⟨stack, captures, ret, lambda, params, reps, body, name, ops, locals, t₁, hcode, rfl⟩ :=
    job_cases hrun
  have hinner : Body.Provides { b with stack, captures, ret } made := ⟨hb.numbers, hb.names⟩
  obtain ⟨⟨huses, hqueued⟩, -⟩ := entryCode_keeps (memberUses hinner [j.function])
    (fun _ _ => False.elim) (fun _ _ => trivial)
    (fun _ _ => ⟨uses_of_functions h rfl rfl, { hq with }⟩) hcode
  exact ⟨uses_setFunction huses hqueued rfl, hqueued.finish _⟩

/-- A property that every job keeps is kept when the queue is worked off. -/
theorem drain_keeps {P : Tables → Prop}
    (hjob : ∀ {t t' j rest}, P t → t.jobs = j :: rest → job b j { t with jobs := rest } = .ok ((), t') →
      P t') (budget : Nat) (h : P t) (hrun : drain b budget t = .ok ((), t')) : P t' := by
  induction budget generalizing t with
  | zero =>
    cases pure_ok.mp hrun
    exact h
  | succ budget ih =>
    rw [drain_succ] at hrun
    split at hrun
    · cases hrun
      exact h
    next j rest hjobs =>
      obtain ⟨_, t₁, hdone, hrun⟩ := bind_ok.mp hrun
      exact ih (hjob h hjobs hdone) hrun

/-- Generating the code of all entries in the queue keeps the tables in order. -/
theorem drain_settled (hb : b.Provides made) (budget : Nat) (h : Settled made t)
    (hrun : drain b budget t = .ok ((), t')) : Settled made t' := by
  refine drain_keeps (fun {t _ _ rest} ht hjobs hdone => ?_) budget h hrun
  have htaken : Uses made [] { t with jobs := rest } := uses_of_functions ht.1 rfl rfl
  exact job_settled hb htaken (ht.2.start hjobs) hdone

/-- The tables when the code of the root is started. -/
def blankRoot : Tables :=
  { functions := #[{ name := "<root>", arity := 0, locals := 0, ops := #[.unreachable] }] }

theorem blankRoot_uses : blankRoot.Uses made [] where
  rows hi := by cases hi
  fits hop huse := by
    have hop : _ ∈ [Op.unreachable] := hop
    rw [List.mem_singleton.mp hop] at huse
    cases huse

theorem blankRoot_queued : blankRoot.Queued [0] where
  nodup := List.nodup_singleton 0
  blank f hf := by
    rw [List.mem_singleton.mp (show f ∈ [0] from hf)]
    exact ⟨_, rfl, rfl⟩
  idle hget := by cases hget
  apart hget := by cases hget
  bound hget := by cases hget
  jobs := List.forall_mem_nil _
  known hget := by cases hget

/-- The root gets the code of the statements and then gives null. -/
theorem root_cases (hrun : root b {} = .ok ((), t')) :
    ∃ (ops : List Op) (t₁ : Tables), stmts b 0 b.script.body blankRoot = .ok (ops, t₁) ∧
      t' = t₁.setFunction 0
        { name := "<root>", arity := 0, locals := slotNumber t₁.localCount
          ops := (ops ++ [Op.pushNull, .ret]).toArray } := by
  obtain ⟨_, t₁, hnew, hrun⟩ := bind_ok.mp hrun
  cases hnew
  obtain ⟨ops, t₂, hops, hrun⟩ := bind_ok.mp hrun
  obtain ⟨t₃, t₄, hget, hrun⟩ := bind_ok.mp hrun
  cases hget
  cases hrun
  exact ⟨ops, t₂, hops, rfl⟩

theorem root_settled (hb : b.Provides made) (hrun : root b {} = .ok ((), t')) :
    Settled made t' := by
  obtain ⟨ops, t₁, hops, rfl⟩ := root_cases hrun
  have hstart : (memberUses hb [0]).holds ([] ++ []) blankRoot := ⟨blankRoot_uses, blankRoot_queued⟩
  obtain ⟨⟨huses, hqueued⟩, -⟩ := emits_stmts _ (fun _ _ => False.elim) (fun _ _ => trivial) _ hstart hops
  have hend : Op.Extends ops (ops ++ [.pushNull, .ret]) :=
    (Op.Extends.refl ops).appendPlain (by simp)
  exact ⟨uses_setFunction (huses.extend hend) hqueued rfl, hqueued.finish _⟩

end Generate

/-! ### The code of a script -/

namespace Code

/-- The operations of all functions. -/
def ops (c : Code) : List Op :=
  c.functions.toList.flatMap fun f => f.ops.toList

/-- The rows of members and the operations that use them. -/
structure Uses (made : List Member) (c : Code) : Prop where
  rows : ∀ {i h}, c.members[i]? = some h → h.member ∈ made ∧
    ∃ op ∈ c.ops, ∃ use, op.memberUse? = some (i, use) ∧ h.result = use.rep h.member
  fits : ∀ {op i use}, op ∈ c.ops → op.memberUse? = some (i, use) →
    ∃ h, c.members[i]? = some h ∧ use.Fits h.member

end Code

/-- Every row of members in generated code was asked for by an operation of the code. -/
theorem Analysis.generate_uses {analysis : Analysis} {script : Script} {types : Registry}
    {code : Code} {made : List Member}
    (hb : Body.Provides { script, analysis, types, layouts := .ofAnalysis analysis } made)
    (h : analysis.generate script types = .ok code) : code.Uses made := by
  obtain ⟨t, t', hroot, hdrain, rfl⟩ := Analysis.generate_eq_ok h
  have hsettled := Generate.drain_settled hb _ (Generate.root_settled hb hroot) hdrain
  constructor
  · intro i row hi
    exact hsettled.1.rows (by simpa [Tables.code] using hi)
  · intro op i use hop huse
    obtain ⟨row, hrow, hfits⟩ := hsettled.1.fits hop huse
    exact ⟨row, by simpa [Tables.code] using hrow, hfits⟩

end HostScript
