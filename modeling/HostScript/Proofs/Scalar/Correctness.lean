import HostScript.Proofs.Analysis.Passes
import HostScript.Proofs.Code.Members
import HostScript.Proofs.Code.Slots
import HostScript.Proofs.Scalar.Inference
import HostScript.Proofs.Scalar.Statements
import HostScript.Proofs.Script.Numbering

/-!
# Compiled scalar scripts

The code of a scalar script runs as the script does: it ends if and only if the script ends, with
the same value or failure and the same lines printed.
-/

namespace HostScript

/-! ### Layouts -/

namespace Layouts

/-- Shapes without parts have no layouts. -/
theorem ofAnalysis_of_flat {a : Analysis} (h : a.arena.Flat) : ofAnalysis a = {} := by
  have hflat (x : ShapeId) : (a.arena.resolved x).isContainer = false := by
    rw [Arena.resolved, h.resolve]
    by_cases hx : x = Arena.undetermined
    · rw [hx, h.get_undetermined]
      rfl
    · rcases Shape.isFlat_cases (h.flat x hx) with hs | ⟨c, hs⟩ | ⟨m, hs⟩ <;> rw [hs] <;> rfl
  rw [ofAnalysis_eq, ofRequests]
  induction a.layers.shapes with
  | nil => rfl
  | cons x rest ih =>
    rw [afterRequests, List.foldl_cons, layOut_succ, hflat x]
    exact ih

end Layouts

theorem Body.rep_of_flat {b : Body} {node : NodeId} {x : ShapeId} (h : b.analysis.arena.Flat)
    (hlayouts : b.layouts = {}) (hstack : b.stack = [Layers.root])
    (hx : b.analysis.layers.get? Layers.root node = some x) (hscalar : x.IsScalar) :
    b.rep node = x.scalarRep := by
  have hshape : b.shape node = x := by
    rw [Body.shape, Analysis.shape, hstack, Layers.shape?_root, hx, Option.getD_some]
  have hrep : b.rep node = (b.analysis.arena.get x).directRep x := by
    rw [Body.rep, hshape, Body.repOf, hlayouts, Layouts.rep, h.resolve]
    rfl
  rw [hrep]
  rcases hscalar with rfl | rfl | rfl | rfl
  · rw [h.get_unknown]; rfl
  · rw [h.get_number]; rfl
  · rw [h.get_bool]; rfl
  · rw [h.get_string]; rfl

/-! ### Passes -/

namespace Analysis

variable {ctx : Context} {s : State} {budget : Nat}

theorem plain_start (widening : Widening) : (State.start widening).Plain where
  arena := by
    refine ⟨List.prefix_rfl, fun id hid => ?_⟩
    match id with
    | 0 | 2 | 3 | 4 => rfl
    | 1 => exact absurd rfl hid
    | n + 5 => simp [Arena.get, Shape.isFlat]
  stack := rfl
  enclosing := rfl
  size := Nat.one_pos
  thawed := rfl
  owners := fun _ => rfl
  captured := rfl
  pending := rfl
  shapes := fun _ _ h => by cases h
  current := Nat.one_pos
  hosts := fun _ _ h => by cases h

theorem inScope_start (widening : Widening) : (State.start widening).InScope [] where
  seen := by
    have hroot : (State.start widening).scopes.scopes[0]? = some { kind := .root, parent := none } :=
      rfl
    exact ⟨[], .root hroot List.nodup_nil rfl, .nil, rfl⟩
  scalar := by simp

/-- A pass over a scalar script analyzes no lambda, and settles the script. -/
theorem pass_scalar {ok : Expr → Bool} (hok : OnlyScalar ok)
    (hplain : Stmt.arePlain ok ctx.script.body = true) (hids : ctx.script.ids.Nodup)
    (widening : Widening) :
    (pass ctx budget (.start widening)).2.Plain ∧
      ∀ {b : Body}, (pass ctx budget (.start widening)).2.Settles b →
        Stmt.AllSettled b [] ctx.script.body := by
  have hstart : State.Plain { State.start widening with returns := [[]] } :=
    { plain_start widening with }
  have hscope : State.InScope { State.start widening with returns := [[]] } [] :=
    { inScope_start widening with }
  have hwalk : Does ctx.script.ids _ (stmts ctx (enter ctx) false false ctx.script.body) _ :=
    stmts_finds hok ctx.script.body hplain false false
  have hmoves := (hwalk.moves hstart).plain
  have hsettles {last : State} {b : Body} (hlast : last.Settles b) (hleads : State.Leads [] _ last) :=
    hwalk.settles hstart hscope hlast hleads (by simpa using hids)
  have hrun : (pass ctx budget (.start widening)).2 =
      (warnUnread (drain ctx budget (popReturns (stmts ctx (enter ctx) false false ctx.script.body
        { State.start widening with returns := [[]] }).2).2).2).2 := rfl
  rw [hrun]
  generalize (stmts ctx (enter ctx) false false ctx.script.body
    { State.start widening with returns := [[]] }).2 = s at *
  have hpop : s.Goes [] (popReturns s).2 :=
    .quiet { hmoves with } rfl rfl (fun _ hr => hr) rfl rfl id
  rw [drain_of_empty hpop.plain.pending]
  have hwarn : (popReturns s).2.Goes [] (warnUnread (popReturns s).2).2 :=
    .quiet { hpop.plain with } rfl rfl (fun _ hr => hr) rfl rfl id
  refine ⟨hwarn.plain, fun {b} hlast => ?_⟩
  exact (hsettles hlast (hpop.leads.trans hwarn.leads)).1

/-- Whether every name refers to a variable of the script. -/
def isLocal (a : Analysis) : Bool :=
  a.resolutions.values.all fun
    | .local _ => true
    | .input _ => false

theorem ne_input_of_isLocal {a : Analysis} (h : a.isLocal = true) (id : NodeId) (m : Member) :
    a.resolutions.get? id ≠ some (.input m) := by
  intro hget
  have hmem := List.mem_map_of_mem (f := Prod.snd) (OrderedMap.mem_of_lookup hget)
  simpa using List.all_eq_true.mp h _ hmem

end Analysis

/-- The root for which the code of a script is generated. -/
abbrev Analysis.root (a : Analysis) (script : Script) (types : Registry) : Body :=
  { script, analysis := a, types, layouts := .ofAnalysis a }

/-- An analysis settles a scalar script, if it is stable or leaves all variables known. -/
theorem Script.settled_of_plain {script : Script} {types : Registry} {options : Options}
    {input : Option HostTypeId} {budget : Nat} {a : Analysis} {ok : Expr → Bool}
    (hok : OnlyScalar ok) (hbody : Stmt.arePlain ok script.body = true)
    (hids : script.ids.Nodup) (h : script.analyze types options input budget = some (.ok a))
    (hfirm : a.arena.unstable = false ∨ (a.root script types).Typed) (hlocal : a.isLocal = true) :
    (a.root script types).IsRoot ∧ Stmt.AllSettled (a.root script types) [] script.body := by
  obtain ⟨number, widening, _, hstate⟩ := Analysis.settle_eq_ok h
  obtain ⟨hproblems, harena, hlayers, hresolutions, hcaptured⟩ := Analysis.ofState_eq_ok hstate
  obtain ⟨hplain, hsettled⟩ : (Analysis.pass { types, options, input, script } budget
      (.start widening)).2.Plain ∧ _ := Analysis.pass_scalar hok hbody hids widening
  generalize (Analysis.pass _ budget (.start widening)).2 = last at *
  have hflat : a.arena.Flat := harena ▸ hplain.arena
  refine ⟨⟨rfl, hcaptured.trans hplain.captured⟩, hsettled ?_⟩
  exact {
    problems := hproblems
    firm := harena ▸ hfirm
    resolutions := hresolutions
    locals := hresolutions ▸ Analysis.ne_input_of_isLocal hlocal
    rep := fun node x hx hscalar => Body.rep_of_flat hflat (Layouts.ofAnalysis_of_flat hflat) rfl
      (hlayers ▸ hx) hscalar }

/-- A stable analysis settles a scalar script. -/
theorem Script.settled_of_analyze {script : Script} {types : Registry} {options : Options}
    {input : Option HostTypeId} {budget : Nat} {a : Analysis} (hscalar : script.isScalar = true)
    (hids : script.ids.Nodup) (h : script.analyze types options input budget = some (.ok a))
    (hstable : a.arena.unstable = false) (hlocal : a.isLocal = true) :
    (a.root script types).IsRoot ∧ Stmt.AllSettled (a.root script types) [] script.body :=
  Script.settled_of_plain (fun _ => id) (Stmt.arePlain_of_areScalar _ hscalar) hids h (.inl hstable)
    hlocal

/-! ### Code -/

namespace Generate

/-- The function of the script itself. -/
def rootFunction (ops : List Op) (slots : Nat) : Function :=
  { name := "<root>", arity := 0, locals := slotNumber slots, ops := (ops ++ [Op.pushNull, Op.ret]).toArray }

end Generate

/-- The code of a settled script is one function. -/
theorem Analysis.generate_plain {a : Analysis} {script : Script} {types : Registry} {ok : Expr → Bool}
    (hok : OnlyScalar ok) (hbody : Stmt.arePlain ok script.body = true)
    (hroot : (a.root script types).IsRoot)
    (hsettled : Stmt.AllSettled (a.root script types) [] script.body) :
    ∃ (ops : List Op) (t : Tables),
      a.generate script types =
        .ok ((t.setFunction 0 (Generate.rootFunction ops t.localCount)).code (.ofAnalysis a) a.input) ∧
      Generate.blankRoot.Grows t ∧ t.localCount ≤ slotsOf [] script.sites ∧
      StmtCode [] (Stmt.visibleAll [] script.body) ((a.root script types).KindsKnown ok)
        (script.isScalar = true) (Stmt.execAll · · script.body ·) 0 t ops := by
  have hsound : Generate.blankRoot.Sound (a.root script types) := by
    constructor <;> intros <;> contradiction
  obtain ⟨ops, t, hrun, ht, hgrows, hcode⟩ := Generate.succeeds_stmts hok hroot script.body hbody
    hsettled Generate.blankRoot hsound fun _ hmem => by cases hmem
  have hcode := hcode t (.refl t) ht
  have hslots := Generate.stmts_asked Generate.blankRoot_queued hrun
  refine ⟨ops, t, ?_, hgrows, Nat.le_trans hslots (Nat.le_of_eq (Nat.zero_add _)), hcode.holds, hcode.direct, fun hs => hcode.follows ⟨hs, .nil⟩⟩
  have hgen : Generate.root (a.root script types) {} =
      .ok ((), t.setFunction 0 (Generate.rootFunction ops t.localCount)) :=
    Generate.bind_ok.mpr ⟨_, Generate.blankRoot, rfl, Generate.bind_ok.mpr ⟨ops, t, hrun, rfl⟩⟩
  have hdrain := Generate.drain_of_empty (b := a.root script types)
    (show (t.setFunction 0 (Generate.rootFunction ops t.localCount)).jobs = [] from hgrows.jobs)
    (Generate.entryCount a.arena)
  have hall : (do
      Generate.root (a.root script types)
      Generate.drain (a.root script types) (Generate.entryCount a.arena) : Generate Unit) {} =
      .ok ((), t.setFunction 0 (Generate.rootFunction ops t.localCount)) :=
    Generate.bind_ok.mpr ⟨(), _, hgen, hdrain⟩
  show (do
    Generate.root (a.root script types)
    Generate.drain (a.root script types) (Generate.entryCount a.arena) : Generate Unit) {} >>= _ = _
  rw [hall]
  rfl

theorem Generate.functions_setFunction {t : Tables} {f : Function}
    (h : Generate.blankRoot.Grows t) : (t.setFunction 0 f).functions = #[f] := by
  show t.functions.setIfInBounds 0 f = #[f]
  rw [h.functions]
  rfl

/-! ### Runs -/

/-- What a run leaves that ends as the outcome says. -/
def Outcome.result {σ : Type} (w : World σ) :
    Outcome → EStateM.Result RuntimeError (World σ) (Option Value)
  | .next m => .ok (some .null) (w.print m.printed)
  | .returned v lines => .ok (some v) (w.print lines)
  | .failed e lines => .error e (w.print lines)

namespace Machine

variable {σ α : Type} {m : Setting σ} {w : World σ}

/-- The run has come to an end. -/
def IsOver : EStateM.Result RuntimeError (World σ) (Option α) → Prop
  | .ok none _ => False
  | _ => True

/-- A run that came to an end is not changed by more steps. -/
theorem runFrames_of_isOver {budget : Nat} {frames : List Frame} {w : World σ}
    (h : IsOver (runFrames m budget frames w)) (more : Nat) :
    runFrames m (budget + more) frames w = runFrames m budget frames w := by
  induction budget generalizing frames w with
  | zero => exact h.elim
  | succ budget ih =>
    rw [Nat.add_right_comm]
    simp only [runFrames, bind, EStateM.bind] at h ⊢
    cases hs : step m frames w with
    | error e w' => rfl
    | ok status w' =>
      rw [hs] at h
      cases status with
      | finished result => rfl
      | running frames' => exact ih h

theorem run_of_function {f : Function} (hf : m.code.functions[0]? = some f) (hdepth : 1 ≤ m.maxDepth)
    (budget : Nat) (w : World σ) :
    run m budget w = EStateM.map (Option.map Slot.value)
      (runFrames m budget [Frame.enter f [] [] true]) w := by
  have hne : m.maxDepth ≠ 0 := Nat.ne_of_gt hdepth
  unfold run
  rw [hf]
  simp only [hne, if_false]
  rfl

end Machine

/-- How the frames of a run end. -/
def Outcome.ending {σ : Type} (w : World σ) :
    Outcome → EStateM.Result RuntimeError (World σ) (Option Slot)
  | .next m => .ok (some (.ref .null)) (w.print m.printed)
  | .returned v lines => .ok (some (.ref v)) (w.print lines)
  | .failed e lines => .error e (w.print lines)

/-- The function of a script runs as the script does: it ends like the script, or is not over
after as many operations as there was fuel. -/
theorem Script.function_follows {σ : Type} {script : Script} {ops : List Op} {t : Tables}
    {m : Machine.Setting σ} {w : World σ}
    (hcode : Follows t [] (Stmt.visibleAll [] script.body)
      (Stmt.execAll · · script.body ·) 0 ops)
    (hm : m.Uses t) (hfew : t.localCount < 65536) (fuel : Nat) :
    let f := Frame.enter (Generate.rootFunction ops t.localCount) [] [] true
    match script.exec w.heap fuel with
    | none => ∃ n f' w', fuel ≤ n ∧ Machine.Reaches m n f w f' w'
    | some o => ∃ n, Machine.Ends m n f w (o.ending w) := by
  intro f
  have hhas : f.Has 0 (ops ++ [.pushNull, .ret]) := by
    intro i _
    rw [Nat.zero_add]
    exact List.getElem?_toArray
  have hnumber : slotNumber t.localCount = t.localCount := Nat.mod_eq_of_lt hfew
  have hruns : f.Runs m t :=
    ⟨hm, rfl, by simp [f, Frame.enter, Generate.rootFunction, hnumber], Nat.le_of_lt hfew⟩
  have hcarries : Machine.Carries m t f w 0 [] _ _ fuel #[]
      (Stmt.execAll w.heap fuel script.body {}) := hcode σ m f w fuel {} hruns .nil hhas.left
  have hprint : w.print #[] = w := by simp [World.print]
  rw [Script.exec]
  generalize Stmt.execAll w.heap fuel script.body {} = outcome at hcarries ⊢
  rcases outcome with _ | mem | _ | _
  case none =>
    obtain ⟨n, f', w', hn, hreach⟩ := hcarries
    exact ⟨n, f', w', hn, hprint ▸ hreach⟩
  case some.next =>
    obtain ⟨n, f', hlike, _, hreach⟩ := hcarries
    have hhas' := hlike.has hhas.right
    have hnull : Machine.Reaches m 1 (f'.at (0 + ops.length) []) (w.print mem.printed)
        (f'.at (0 + ops.length + 1) [.ref .null]) (w.print mem.printed) :=
      Machine.reaches_of_next hhas'.head rfl
    have hret : Machine.Ends m 1 (f'.at (0 + ops.length + 1) [.ref .null]) (w.print mem.printed)
        (.ok (some (.ref .null)) (w.print mem.printed)) :=
      Machine.ends_ret hhas'.tail.head (hlike.erases.trans hruns.erases)
    exact ⟨_, (hprint ▸ hreach).ends (hnull.ends hret)⟩
  all_goals
    obtain ⟨n, hends⟩ := hcarries
    exact ⟨n, hprint ▸ hends⟩

theorem Outcome.isOver_result {σ : Type} (w : World σ) (o : Outcome) :
    Machine.IsOver (o.result w) := by
  cases o <;> trivial

theorem Outcome.map_ending {σ : Type} {w : World σ} {o : Outcome} {x : Run σ (Option Slot)}
    (h : x w = o.ending w) : EStateM.map (Option.map Slot.value) x w = o.result w := by
  rw [EStateM.map, h]
  cases o <;> rfl

theorem Machine.isOver_of_map {σ : Type} {w : World σ} {x : Run σ (Option Slot)}
    (h : IsOver (EStateM.map (Option.map Slot.value) x w)) : IsOver (x w) := by
  rw [EStateM.map] at h
  match x w, h with
  | .ok (some _) _, _ | .error _ _, _ => trivial

/-- A run of the code of a stable scalar script ends if and only if the script ends, with the same
value or failure and the same lines printed, if there are slots for all its variables. -/
theorem Script.run_ends_iff_exec_ends {source : String} {script : Script} {types : Registry}
    {options : Options} {input : Option HostTypeId} {budget : Nat} {a : Analysis} {code : Code}
    (hparse : Engine.parse source = .ok script) (hscalar : script.isScalar = true)
    (hfew : script.FewSlots) (hanalyze : script.analyze types options input budget = some (.ok a))
    (hstable : a.arena.unstable = false) (hlocal : a.isLocal = true)
    (hcode : a.generate script types = .ok code) {σ : Type} (m : Machine.Setting σ)
    (hm : m.code = code) (hdepth : 1 ≤ m.maxDepth) (w : World σ)
    (r : EStateM.Result RuntimeError (World σ) (Option Value)) :
    (∃ steps, Machine.run m steps w = r ∧ Machine.IsOver r) ↔
      ∃ fuel o, script.exec w.heap fuel = some o ∧ o.result w = r := by
  obtain ⟨hroot, hsettled⟩ :=
    Script.settled_of_analyze hscalar (Engine.nodup_ids hparse) hanalyze hstable hlocal
  obtain ⟨ops, t, hgenerate, hgrows, hslots, hstmts⟩ := Analysis.generate_plain (fun _ => id)
    (Stmt.arePlain_of_areScalar _ hscalar) hroot hsettled
  have hm' := hm.trans (Except.ok.inj (hcode.symm.trans hgenerate))
  have huses : m.Uses t := by constructor <;> rw [hm'] <;> rfl
  have hfunction : m.code.functions[0]? = some (Generate.rootFunction ops t.localCount) := by
    rw [hm']
    exact congrArg (·[0]?) (Generate.functions_setFunction hgrows)
  have hfollows := Script.function_follows (w := w) (hstmts.follows hscalar) huses
    (Nat.lt_of_le_of_lt hslots hfew.1)
  have hrun := fun budget => Machine.run_of_function hfunction hdepth budget w
  generalize Frame.enter (Generate.rootFunction ops t.localCount) [] [] true = f at *
  constructor
  · rintro ⟨steps, rfl, hover⟩
    rw [hrun] at hover ⊢
    replace hover := Machine.isOver_of_map hover
    have hmore := Machine.runFrames_of_isOver hover
    have hfollow := hfollows steps
    cases hexec : script.exec w.heap steps with
    | none =>
      -- the run is over after `steps` operations, but goes on for at least as many
      rw [hexec] at hfollow
      obtain ⟨n, f', w', hn, hreach⟩ := hfollow
      have hgoing := hreach 0
      rw [Nat.zero_add, ← Nat.add_sub_cancel' hn, hmore] at hgoing
      rw [hgoing] at hover
      exact hover.elim
    | some o =>
      rw [hexec] at hfollow
      obtain ⟨n, hends⟩ := hfollow
      exact ⟨steps, o, hexec, (Outcome.map_ending ((hmore n).symm.trans (hends steps))).symm⟩
  · rintro ⟨fuel, o, hexec, rfl⟩
    have hfollow := hfollows fuel
    rw [hexec] at hfollow
    obtain ⟨n, hends⟩ := hfollow
    exact ⟨0 + n, (hrun _).trans (Outcome.map_ending (hends 0)), o.isOver_result w⟩

/-- A script with loops and a variable that is widened after it was read, which takes two passes. -/
def Script.loops : String :=
  "var i = 0; var s = 0; print s;
        while (i < 3) \x7b s = \"n$\x7bi\x7d\"; i++; print s; \x7d
        for (var k = 1; k <= 2 && i > 0; k++) i = i - k;
        if (!(s == null)) return -i; return s;"

theorem Script.run_ends_iff_exec_ends_loops :
    ∃ (script : Script) (a : Analysis) (code : Code),
      Engine.parse loops = .ok script ∧ script.isScalar = true ∧
      script.FewSlots ∧ script.analyze (Engine.new {}).registry {} none 0 = some (.ok a) ∧
      a.arena.unstable = false ∧ a.isLocal = true ∧
      a.generate script (Engine.new {}).registry = .ok code ∧
      ∀ (m : Machine.Setting Unit) (w : World Unit)
        (r : EStateM.Result RuntimeError (World Unit) (Option Value)),
        m.code = code → 1 ≤ m.maxDepth →
        ((∃ steps, Machine.run m steps w = r ∧ Machine.IsOver r) ↔
          ∃ fuel o, script.exec w.heap fuel = some o ∧ o.result w = r) := by
  obtain ⟨script, a, hparse, hanalyze, hcheck⟩ := Engine.exists_analyzed loops (Engine.new {}).registry 0
    (fun script a => match a.generate script (Engine.new {}).registry with
      | .ok _ => script.isScalar && decide script.FewSlots && !a.arena.unstable && a.isLocal
      | .error _ => false) (by decide +kernel)
  split at hcheck
  next code hcode =>
    simp only [Bool.and_eq_true, Bool.not_eq_true', decide_eq_true_eq] at hcheck
    obtain ⟨⟨⟨hscalar, hfew⟩, hstable⟩, hlocal⟩ := hcheck
    exact ⟨script, a, code, hparse, hscalar, hfew, hanalyze, hstable, hlocal, hcode,
      fun m w r hm hdepth => Script.run_ends_iff_exec_ends hparse hscalar hfew hanalyze hstable
        hlocal hcode m hm hdepth w r⟩
  next => cases hcheck

end HostScript
