import HostScript.Proofs.Engine
import HostScript.Host.Bag
import HostScript.Proofs.Analysis.Recorded
import HostScript.Proofs.Code.Members
import HostScript.Proofs.Machine.Runs

/-!
# Guards on what the host gives

An operation that takes a value from the host checks it against the row of its member. The first use
of a member in the code fixes that row, so the check is for the declared type unless the member is a
method that is called and also used in another way.
-/

namespace HostScript

variable {input : Option HostTypeId}

/-! ### Engines -/

namespace Engine

/-- The engines that can be made by registering types and compiling scripts. -/
inductive Reached : Engine → Prop
  | new (options : Options) : Reached (.new options)
  | registerType {e : Engine} (desc : TypeDescriptor) : Reached e →
      Reached (Engine.registerType desc e).2
  | registerExtension {e : Engine} (desc : TypeDescriptor) : Reached e →
      Reached (Engine.registerExtension desc e).2
  | compile {e : Engine} (source : String) (input : Option HostTypeId) (analyses : Nat) :
      Reached e → Reached (Engine.compile source input analyses e).2

variable {e : Engine} {α : Type}

theorem bind_run {β : Type} (m : StateM Engine α) (f : α → StateM Engine β) (e : Engine) :
    (m >>= f) e = f (m e).1 (m e).2 :=
  rfl

theorem inRegistry_run (action : Registry.Register α) (e : Engine) :
    inRegistry action e = match action e.registry with
      | .ok a registry => (.ok a, { e with registry })
      | .error error registry => (.error error, { e with registry }) :=
  rfl

theorem registry_inRegistry (action : Registry.Register α) (e : Engine) :
    (inRegistry action e).2.registry = e.registry.after action := by
  rw [inRegistry_run, Registry.after]
  cases action e.registry <;> rfl

theorem ready_checkInput (h : ∃ made, e.registry.Ready [] made) (input : Option HostTypeId) :
    ∃ made, (checkInput input e).2.registry.Ready [] made := by
  cases input with
  | none => exact h
  | some id =>
    obtain ⟨made, hready⟩ := h
    have hrun : (checkInput (some id) e).2 = (inRegistry (Registry.validate false id) e).2 := by
      rw [checkInput, bind_run]
      cases (inRegistry (Registry.validate false id) e).1 <;> rfl
    rw [hrun, registry_inRegistry]
    exact (hready.await id).validate false

/-- Compiling checks the input and builds the program with the engine as it is then. -/
theorem compile_run (source : String) (input : Option HostTypeId) (analyses : Nat) (e : Engine) :
    compile source input analyses e =
      (match (checkInput input e).1 with
        | .error problems => some (.error (problems.map (Problem.diagnostic source)))
        | .ok _ => ((checkInput input e).2.build source input analyses).map
            (Except.mapError (List.map (Problem.diagnostic source))),
        (checkInput input e).2) := by
  rw [compile, bind_run]
  cases (checkInput input e).1 <;> rfl

theorem Reached.ready (h : e.Reached) : ∃ made, e.registry.Ready [] made := by
  induction h with
  | new options => exact ⟨[], Registry.ready_new options.naming⟩
  | registerType desc _ ih =>
    obtain ⟨made, hready⟩ := ih
    rw [Engine.registerType, registry_inRegistry]
    exact hready.registerType desc
  | registerExtension desc _ ih =>
    obtain ⟨made, hready⟩ := ih
    rw [Engine.registerExtension, registry_inRegistry]
    exact hready.registerExtension desc
  | compile source input analyses _ ih =>
    rw [compile_run]
    exact ready_checkInput ih input

theorem build_eq_ok {source : String} {analyses : Nat} {p : Program}
    (h : e.build source input analyses = some (.ok p)) :
    ∃ (script : Script) (analysis : Analysis), parse source = .ok script ∧
      script.analyze e.registry e.options input analyses = some (.ok analysis) ∧
        analysis.generate script e.registry = .ok p.code := by
  unfold build at h
  split at h
  · cases h
  next script hparse =>
    obtain ⟨result, hresult, hp⟩ := Option.map_eq_some_iff.mp h
    cases result with
    | error problems => cases hp
    | ok analysis =>
      refine ⟨script, analysis, hparse, hresult, ?_⟩
      cases hcode : analysis.generate script e.registry with
      | error problem => simp [hcode, bind, Except.bind] at hp
      | ok code =>
        simp only [bind, Except.bind, hcode] at hp
        cases hp
        rfl

/-- A compiled program is built with the engine as it is after the check of its input. -/
theorem compile_eq_ok {source : String} {analyses : Nat} {p : Program}
    (hp : (compile source input analyses e).1 = some (.ok p)) :
    ∃ (script : Script) (analysis : Analysis), parse source = .ok script ∧
      script.analyze (checkInput input e).2.registry (checkInput input e).2.options input analyses =
          some (.ok analysis) ∧
        analysis.generate script (checkInput input e).2.registry = .ok p.code := by
  rw [compile_run] at hp
  dsimp only at hp
  split at hp
  · cases hp
  · obtain ⟨result, hbuild, heq⟩ := Option.map_eq_some_iff.mp hp
    cases result with
    | error problems => cases heq
    | ok p' =>
      cases heq
      exact build_eq_ok hbuild

/-- The rows of members of a compiled program fit its operations. -/
theorem compile_uses (h : e.Reached) {source : String} {analyses : Nat} {p : Program}
    (hp : (compile source input analyses e).1 = some (.ok p)) :
    ∃ made, p.code.Uses made := by
  obtain ⟨script, analysis, -, hanalyze, hgenerate⟩ := compile_eq_ok hp
  obtain ⟨made, hready⟩ := ready_checkInput h.ready input
  refine ⟨made, Analysis.generate_uses ⟨hready.numbers, ?_⟩ hgenerate⟩
  exact fun hm => Script.analyze_resolved hanalyze hm

end Engine

/-! ### Rows of members -/

namespace Op

/-- The type that a member declares for what it gives to an operation. -/
def declared? (m : Member) : Op → Option TypeRef
  | .getHost _ => m.valueType?
  | .callHost .. | .callStatic .. => m.ret?
  | .getHostIndex _ => m.entryType?
  | _ => none

end Op

namespace Code

/-- Every operation that uses the member calls it. -/
def OnlyCalled (c : Code) (i : Nat) : Prop :=
  ∀ op ∈ c.ops, ∀ use, op.memberUse? = some (i, use) → use = .call

instance (c : Code) (i : Nat) : Decidable (c.OnlyCalled i) :=
  decidable_of_iff (∀ op ∈ c.ops, ∀ used ∈ op.memberUse?, used.1 = i → used.2 = .call)
    ⟨fun h op hop use huse => h op hop (i, use) huse rfl,
      fun h op hop used hused hi => h op hop used.2 (by rw [← hi]; exact hused)⟩

variable {c : Code} {made : List Member} {op : Op} {i : Nat} {use : MemberUse} {h : HostMember}

/-- A row has the representation that one of the uses in the code needs. -/
theorem Uses.first (hu : c.Uses made) (hrow : c.members[i]? = some h) :
    ∃ asked ∈ c.ops, ∃ first : MemberUse, asked.memberUse? = some (i, first) ∧
      first.Fits h.member ∧ h.result = first.rep h.member := by
  obtain ⟨-, asked, hasked, first, hfirst, hresult⟩ := hu.rows hrow
  obtain ⟨h', hrow', hfits⟩ := hu.fits hasked hfirst
  rw [hrow] at hrow'
  cases hrow'
  exact ⟨asked, hasked, first, hfirst, hfits, hresult⟩

/-- All uses fit the row, and if the member is only called, the row is for calls. -/
theorem Uses.row (hu : c.Uses made) (hop : op ∈ c.ops) (huse : op.memberUse? = some (i, use)) :
    ∃ h, c.members[i]? = some h ∧ use.Fits h.member ∧
      ∃ first : MemberUse, first.Fits h.member ∧ h.result = first.rep h.member ∧
        (c.OnlyCalled i → first = .call) := by
  obtain ⟨h, hrow, hfits⟩ := hu.fits hop huse
  obtain ⟨asked, hasked, first, hfirst, hfirstFits, hresult⟩ := hu.first hrow
  exact ⟨h, hrow, hfits, first, hfirstFits, hresult, fun honly => honly asked hasked first hfirst⟩

end Code

/-- A member that cannot be called is used as an entry if it is an indexer, and as a value if
not. -/
theorem MemberUse.Fits.of_not_callable {m : Member} {use : MemberUse} (h : use.Fits m)
    (hm : m.isCallable = false) : use = if m.isIndexer then .entry else .value := by
  cases use with
  | value => exact (if_neg (Bool.eq_false_iff.mp h)).symm
  | entry => exact (if_pos h).symm
  | call | bound => exact absurd (h.symm.trans hm) (by simp)

theorem MemberUse.Fits.eq_value {m : Member} {use : MemberUse} {ty : TypeRef} (h : use.Fits m)
    (hty : m.valueType? = some ty) : use = .value ∧ use.rep m = ty.rep := by
  have hkind : m.isCallable = false ∧ m.isIndexer = false := by
    unfold Member.valueType? at hty
    unfold Member.isCallable Member.isIndexer
    split at hty <;> simp_all
  obtain rfl : use = .value := by rw [h.of_not_callable hkind.1, hkind.2]; rfl
  exact ⟨rfl, by simp [MemberUse.rep, Generate.memberRep, hty]⟩

theorem MemberUse.Fits.eq_entry {m : Member} {use : MemberUse} {ty : TypeRef} (h : use.Fits m)
    (hty : m.entryType? = some ty) : use = .entry ∧ use.rep m = ty.rep := by
  have hkind : m.isCallable = false ∧ m.isIndexer = true := by
    unfold Member.entryType? at hty
    unfold Member.isCallable Member.isIndexer
    split at hty <;> simp_all
  obtain rfl : use = .entry := by rw [h.of_not_callable hkind.1, hkind.2]; rfl
  exact ⟨rfl, by simp [MemberUse.rep, hty]⟩

/-- The row of a member that an operation reads has the representation of the declared type, if a
member that is called is only called. -/
theorem Code.Uses.result_eq {c : Code} {made : List Member} (hu : c.Uses made) {op : Op} {i : Nat}
    {use : MemberUse} (hop : op ∈ c.ops) (huse : op.memberUse? = some (i, use)) :
    ∃ h, c.members[i]? = some h ∧ ∀ ty, op.declared? h.member = some ty →
      (use = .call → c.OnlyCalled i) → h.result = ty.rep := by
  obtain ⟨h, hrow, hfits, first, hfirst, hresult, honly⟩ := hu.row hop huse
  refine ⟨h, hrow, fun ty hty hcall => ?_⟩
  rw [hresult]
  cases op with
  | getHost j => exact (hfirst.eq_value hty).2
  | getHostIndex j => exact (hfirst.eq_entry hty).2
  | callHost j args | callStatic j args =>
    cases huse
    rw [honly (hcall rfl)]
    have hret : h.member.ret? = some ty := hty
    simp [MemberUse.rep, hret]
  | _ => cases hty

namespace Machine

open Exec

variable {σ : Type}

/-! ### What the host hands over -/

/-- An operation takes its operands from the stack and the host hands over a value. The rules say
nothing about the type of the value. -/
inductive Hands (m : Setting σ) (member : Member) :
    Op → List Slot → World σ → Value → List Slot → World σ → Prop
  | read {i : Nat} {receiver : Slot} {object : HostObject} {st : List Slot} {w w' : World σ}
      {v : Value} : receiver.value = .host object → member.read m.env.code object w = .ok v w' →
      Hands m member (.getHost i) (receiver :: st) w v st w'
  | call {i : Nat} {args : List Slot} {receiver : Slot} {object : HostObject} {st : List Slot}
      {w w' : World σ} {v : Value} : receiver.value = .host object →
      member.call m.env.code (some object) (args.map Slot.value) w = .ok v w' →
      Hands m member (.callHost i args.length) (args.reverse ++ receiver :: st) w v st w'
  | callStatic {i : Nat} {args : List Slot} {st : List Slot} {w w' : World σ} {v : Value} :
      member.call m.env.code none (args.map Slot.value) w = .ok v w' →
      Hands m member (.callStatic i args.length) (args.reverse ++ st) w v st w'
  | entry {i : Nat} {key receiver : Slot} {object : HostObject} {st : List Slot} {w w' : World σ}
      {v : Value} : receiver.value = .host object →
      member.readIndex m.env.code object key.value w = .ok v w' →
      Hands m member (.getHostIndex i) (key :: receiver :: st) w v st w'

/-- What becomes of a value that has to be of a representation: it is boxed and pushed, or the step
fails with the name of the member. -/
def guarded (f : Frame) (rest : List Slot) (w : World σ) (member : Member) (rep : Rep) (v : Value) :
    EStateM.Result RuntimeError (World σ) (Flow × Frame) :=
  if v.conforms w.heap rep then .ok (.next, f.at f.ip (v.box rep :: rest)) w
  else .error (.typeMismatch member.qualifiedName rep.name v.typeName) w

variable {m : Setting σ} {h : HostMember} {f : Frame} {ip i : Nat} {op : Op} {st rest : List Slot}
  {w w' : World σ} {v : Value}

theorem checked_run (rep : Rep) (expected target : String) :
    checked rep expected target v f w =
      if v.conforms w.heap rep then .ok (v.box rep, f) w
      else .error (.typeMismatch target expected v.typeName) w := by
  refine (exec_bind_ok (inWorld_ok rfl)).trans ?_
  simp only [Value.slot?]
  split <;> rfl

/-- The last action of all four operations. -/
theorem pushResult_guarded :
    (pushResult h v >>= fun _ => pure Flow.next : Exec σ Flow) (f.at ip rest) w =
      guarded (f.at ip rest) rest w h.member h.result v := by
  unfold guarded
  have hcheck := checked_run (f := f.at ip rest) (w := w) (v := v) h.result h.result.name
    h.member.qualifiedName
  split at hcheck
  · rename_i hc
    rw [if_pos hc]
    exact (exec_bind_ok ((exec_bind_ok hcheck).trans rfl)).trans rfl
  · rename_i hc
    rw [if_neg hc]
    exact exec_bind_error (exec_bind_error hcheck)

theorem hostMember_ok (hrow : m.code.members[i]? = some h) : hostMember m i f w = .ok (h, f) w := by
  simp only [hostMember, orFault, hrow]
  rfl

theorem hostReceiver_ok {object : HostObject} (hv : v = .host object) :
    hostReceiver h v f w = .ok (object, f) w := by
  subst hv
  rfl

/-- What becomes of the outcome of host code. -/
def guardedEnd (f : Frame) (rest : List Slot) (h : HostMember) :
    EStateM.Result RuntimeError (World σ) Value →
      EStateM.Result RuntimeError (World σ) (Flow × Frame)
  | .ok v w => guarded f rest w h.member h.result v
  | .error e w => .error e w

theorem hosted_run (action : Run σ Value) :
    (inWorld action >>= fun v => pushResult h v >>= fun _ => pure Flow.next : Exec σ Flow)
        (f.at ip rest) w = guardedEnd (f.at ip rest) rest h (action w) := by
  cases hrun : action w with
  | ok v w' => rw [exec_bind_ok (inWorld_ok hrun), pushResult_guarded, guardedEnd]
  | error e w' => rw [exec_bind_error (inWorld_error hrun), guardedEnd]

/-! ### The operations that take a value from the host -/

section Operations

variable {object : HostObject} {receiver key : Slot} {args : List Slot}

section

variable (hrow : m.code.members[i]? = some h)

include hrow

theorem getHost_run (hreceiver : receiver.value = .host object) :
    execute m (.getHost i) (f.at ip (receiver :: st)) w =
      guardedEnd (f.at ip st) st h (h.member.read m.env.code object w) := by
  show (getHost m i >>= fun _ => pure Flow.next : Exec σ Flow) _ _ = _
  simp only [getHost, bind_assoc]
  rw [exec_bind_ok (hostMember_ok hrow), exec_bind_ok (popValue_at _),
    exec_bind_ok (hostReceiver_ok hreceiver), hosted_run]

theorem callHost_run (hreceiver : receiver.value = .host object) :
    execute m (.callHost i args.length) (f.at ip (args.reverse ++ receiver :: st)) w =
      guardedEnd (f.at ip st) st h
        (h.member.call m.env.code (some object) (args.map Slot.value) w) := by
  show (callHost m i _ >>= fun _ => pure Flow.next : Exec σ Flow) _ _ = _
  simp only [callHost, bind_assoc]
  rw [exec_bind_ok (hostMember_ok hrow), exec_bind_ok (popValues_at _),
    exec_bind_ok (popValue_at _), exec_bind_ok (hostReceiver_ok hreceiver), hosted_run]

theorem callStatic_run :
    execute m (.callStatic i args.length) (f.at ip (args.reverse ++ st)) w =
      guardedEnd (f.at ip st) st h (h.member.call m.env.code none (args.map Slot.value) w) := by
  show (callStatic m i _ >>= fun _ => pure Flow.next : Exec σ Flow) _ _ = _
  simp only [callStatic, bind_assoc]
  rw [exec_bind_ok (hostMember_ok hrow), exec_bind_ok (popValues_at _), hosted_run]

theorem getHostIndex_run (hreceiver : receiver.value = .host object) :
    execute m (.getHostIndex i) (f.at ip (key :: receiver :: st)) w =
      guardedEnd (f.at ip st) st h (h.member.readIndex m.env.code object key.value w) := by
  show (getHostIndex m i >>= fun _ => pure Flow.next : Exec σ Flow) _ _ = _
  simp only [getHostIndex, bind_assoc]
  rw [exec_bind_ok (hostMember_ok hrow), exec_bind_ok (popValue_at _),
    exec_bind_ok (popValue_at _), exec_bind_ok (hostReceiver_ok hreceiver), hosted_run]

end

end Operations

/-- Whatever the host hands over is guarded by the row of the operation. -/
theorem Hands.execute_eq {use : MemberUse} (hh : Hands m h.member op st w v rest w')
    (huse : op.memberUse? = some (i, use)) (hrow : m.code.members[i]? = some h) :
    execute m op (f.at ip st) w = guarded (f.at ip rest) rest w' h.member h.result v := by
  cases hh with
  | read hreceiver hread =>
    cases huse
    rw [getHost_run hrow hreceiver, hread, guardedEnd]
  | call hreceiver hcall =>
    cases huse
    rw [callHost_run hrow hreceiver, hcall, guardedEnd]
  | callStatic hcall =>
    cases huse
    rw [callStatic_run hrow, hcall, guardedEnd]
  | entry hreceiver hread =>
    cases huse
    rw [getHostIndex_run hrow hreceiver, hread, guardedEnd]

end Machine

/-- An operation of a compiled program that takes a value of a declared type from the host fails and
names the member if the value is not of the type, and otherwise pushes it in the representation of
the type. A member that the operation calls must not be used in the program in another way. -/
theorem Program.host_values_guarded {e : Engine} (he : e.Reached) {source : String}
    {input : Option HostTypeId} {analyses : Nat} {p : Program}
    (hp : (Engine.compile source input analyses e).1 = some (.ok p)) {σ : Type}
    {m : Machine.Setting σ} (hm : m.code = p.code) {f : Frame}
    (hf : f.function ∈ p.code.functions) {ip i : Nat} {op : Op} {use : MemberUse}
    (hop : f.function.ops[ip]? = some op) (huse : op.memberUse? = some (i, use)) :
    ∃ h, p.code.members[i]? = some h ∧ ∀ ty, op.declared? h.member = some ty →
      (use = .call → p.code.OnlyCalled i) → ∀ st w v rest w',
      Machine.Hands m h.member op st w v rest w' →
        (v.conforms w'.heap ty.rep = true →
          Machine.stepFrame m (f.at ip st) w =
            .ok (.next, f.at (ip + 1) (v.box ty.rep :: rest)) w') ∧
        (v.conforms w'.heap ty.rep = false →
          Machine.stepFrame m (f.at ip st) w =
            .error (.typeMismatch h.member.qualifiedName ty.rep.name v.typeName) w') := by
  obtain ⟨made, hu⟩ := Engine.compile_uses he hp
  have hmem : op ∈ p.code.ops :=
    List.mem_flatMap.mpr ⟨f.function, Array.mem_toList_iff.mpr hf,
      Array.mem_toList_iff.mpr (Array.mem_of_getElem? hop)⟩
  obtain ⟨h, hrow, hresult⟩ := hu.result_eq hmem huse
  refine ⟨h, hrow, fun ty hty hcall st w v rest w' hh => ?_⟩
  have hstep : Machine.stepFrame m (f.at ip st) w =
      Machine.guarded (f.at (ip + 1) rest) rest w' h.member ty.rep v := by
    rw [Machine.stepFrame_at hop, hh.execute_eq huse (hm ▸ hrow), hresult ty hty hcall]
  refine ⟨fun hv => ?_, fun hv => ?_⟩
  · rw [hstep, Machine.guarded, if_pos hv]
    rfl
  · rw [hstep, Machine.guarded, if_neg (by simp [hv])]

/-! ### A method that does not keep its type -/

namespace Lying

/-- A type with a method that promises a number and one that promises a string. -/
def orderType : TypeDescriptor where
  name := "Order"
  dataType := "Bag"
  members := [{ name := "Lie", isStatic := false, kind := .method [] (.number .f64), code := 0 },
    { name := "Name", isStatic := false, kind := .method [] .string, code := 1 }]

def engine : Engine :=
  (Engine.registerType orderType (.new {})).2

/-- The first method gives null. -/
def host : HostCode Bag.Store :=
  Bag.hostCode "Bag" #[.routine "Lie" (.const .null), .routine "Name" (.const (.str "first"))]

def order : HostObject :=
  ⟨0, 0, "Order"⟩

def world : World Bag.Store where
  data := #[some {}]

def setting (p : Program) : Machine.Setting Bag.Store where
  env := { types := p.types, code := host }
  code := p.code
  input := .host order
  maxDepth := p.maxCallDepth

theorem reached_engine : engine.Reached :=
  .registerType orderType (.new {})

/-- What a script gives for the object. -/
def outcome (source : String) : Option (Except ScriptError Value) :=
  ((Engine.eval host source order ⟨1, 9⟩ world).run engine).1.1

def isNull : Option (Except ScriptError Value) → Bool
  | some (.ok .null) => true
  | _ => false

theorem eq_null {r : Option (Except ScriptError Value)} (h : isNull r = true) : r = some (.ok .null) := by
  unfold isNull at h
  split at h
  · rfl
  · cases h

def isMismatch (target expected actual : String) : Option (Except ScriptError Value) → Bool
  | some (.error (.runtime (.typeMismatch t e a))) =>
    decide (t = target ∧ e = expected ∧ a = actual)
  | _ => false

theorem eq_mismatch {r : Option (Except ScriptError Value)} {target expected actual : String}
    (h : isMismatch target expected actual r = true) :
    r = some (.error (.runtime (.typeMismatch target expected actual))) := by
  unfold isMismatch at h
  split at h
  · obtain ⟨rfl, rfl, rfl⟩ := of_decide_eq_true h
    rfl
  · cases h

/-- A method that says that it gives a number. -/
def promisesNumber (m : Member) : Bool :=
  match m.kind with
  | .method _ (.number .f64) => true
  | _ => false

theorem outcome_call :
    outcome "return Lie();" =
      some (.error (.runtime (.typeMismatch "Order.Lie" "Number" "Null"))) :=
  eq_mismatch (by decide +kernel)

end Lying

open Lying in
/-- A script that only calls the method: the call does not let null pass. -/
theorem Program.host_values_guarded_call :
    ∃ p function, (Engine.compile "return Lie();" (some 0) 1 engine).1 = some (.ok p) ∧
      function ∈ p.code.functions ∧ function.ops[1]? = some (.callHost 0 0) ∧
      p.code.OnlyCalled 0 ∧ ∃ h, p.code.members[0]? = some h ∧
        Machine.stepFrame (setting p)
            ((Frame.enter function [] [] true).at 1 [.ref (.host order)]) world =
          .error (.typeMismatch h.member.qualifiedName "Number" "Null") world := by
  obtain ⟨p, hp, hcheck⟩ := Engine.exists_compiled "return Lie();" (some 0) 1 engine
    (fun p => p.code.functions[0]?.any fun (function : Function) =>
      p.code.members[0]?.any fun (h : HostMember) =>
      promisesNumber h.member && decide (h.member.code = 0 ∧
        function.ops[1]? = some (Op.callHost 0 0) ∧ p.code.OnlyCalled 0)) (by decide +kernel)
  simp only [Option.any_eq_true, Bool.and_eq_true, decide_eq_true_eq] at hcheck
  obtain ⟨function, hfunction, h, hrow, hkind, hcode, hop, honly⟩ := hcheck
  unfold promisesNumber at hkind
  split at hkind
  next params hk =>
    have hmem : function ∈ p.code.functions := Array.mem_of_getElem? hfunction
    refine ⟨p, function, hp, hmem, hop, honly, h, hrow, ?_⟩
    obtain ⟨h', hrow', hguard⟩ := Program.host_values_guarded reached_engine hp
      (m := setting p) (f := Frame.enter function [] [] true) rfl hmem hop rfl
    obtain rfl : h = h' := Option.some.inj (hrow.symm.trans hrow')
    have hret : h.member.ret? = some (.number .f64) := by
      simp only [Member.ret?, hk]
    have hhands : Machine.Hands (setting p) h.member (.callHost 0 0)
        [.ref (.host order)] world .null [] world := by
      show Machine.Hands _ _ (.callHost 0 ([] : List Slot).length)
        (([] : List Slot).reverse ++ [.ref (.host order)]) _ _ _ _
      refine .call rfl ?_
      simp only [Member.call, hk, hcode]
      rfl
    exact (hguard _ hret (fun _ => honly) _ _ _ _ _ hhands).2 rfl
  next => cases hkind

open Lying in
/-- The check of a call is for what the first use of the member needs. Once the method was taken as
a value, a call of it lets null pass as a number. -/
theorem Engine.null_passes_after_binding :
    outcome "return Lie();" =
        some (.error (.runtime (.typeMismatch "Order.Lie" "Number" "Null"))) ∧
      outcome "var f = Lie; return Lie();" = some (.ok .null) :=
  ⟨outcome_call, eq_null (by decide +kernel)⟩

end HostScript
