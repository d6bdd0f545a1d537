import HostScript.Proofs.Code.Bodies
import HostScript.Proofs.Code.Slots
import HostScript.Proofs.Machine.Guards
import HostScript.Proofs.Script.Numbering

/-!
# Well-formed code

Every function of compiled code has depths of the operand stack that fit, and all operands are in
range. The root is generated first and the entries of lambdas follow from the queue, each with the
layer of an analysis of its own.
-/

namespace HostScript

variable {function : Function}

/-! ### What analysis knows of a body -/

/-- A body of a script that was analyzed without problems. -/
structure Body.Analyzed (b : Body) (ctx : Analysis.Context) (s : Analysis.State) : Prop where
  recorded : s.Recorded ctx
  ids : ctx.script.ids.Nodup
  arena : b.analysis.arena = s.arena
  layers : b.analysis.layers = s.layers
  script : b.script = ctx.script
  types : b.types = ctx.types

namespace Body.Analyzed

variable {b : Body} {ctx : Analysis.Context} {s : Analysis.State} {layer : LayerId} {l : LambdaShape}
  {key other : ShapeId × Entry}

theorem shape_eq (h : b.Analyzed ctx s) (hlast : b.stack.getLast? = some layer) {node : NodeId}
    {x : ShapeId} (hget : s.layers.get? layer node = some x) : b.shape node = x := by
  rw [Body.shape, Analysis.shape, h.layers, Layers.shape?_of_last hlast hget]
  rfl

/-- Two literals with one number are the same. -/
theorem params_length (h : b.Analyzed ctx s) {i : ShapeId} (hl : b.analysis.arena.get i = .lambda l)
    {lambda : Lambda} (hmem : lambda ∈ ctx.script.lambdas) (hnode : lambda.node.id = l.node) :
    lambda.params.length = l.paramCount := by
  obtain ⟨found, hfound, hid, hcount⟩ := h.recorded.literal (h.arena ▸ hl)
  have hsame : found.expr = lambda.expr := Script.eq_of_id h.ids
    ((ctx.script.lists.lambda _).mp hfound) ((ctx.script.lists.lambda _).mp hmem)
    (hid.trans hnode.symm)
  obtain ⟨_, hparams, _⟩ := Expr.lambda.inj hsame
  rw [← hcount, hparams]

/-- Whatever an analysis has on record, the body knows. -/
theorem knows (h : b.Analyzed ctx s) (hlast : b.stack.getLast? = some layer) {es : List Expr}
    (hcovers : s.Covers ctx es layer) : ∀ e ∈ es, b.Knows e := by
  intro e he
  obtain ⟨x, hnotes⟩ := hcovers h.ids h.recorded.problems e he
  have hx := h.shape_eq hlast hnotes.entry
  cases e with
  | call n callee args =>
    obtain ⟨hresult, hmember⟩ := hnotes.details
    refine ⟨fun method k hget => ?_, fun c object memberName span hcallee htarget => ?_⟩
    · rw [h.arena] at hget ⊢
      exact hresult method k (hx ▸ hget)
    · obtain ⟨_, r, hr, hone⟩ := hmember c object memberName span hcallee
      refine hone ?_
      rwa [Generate.target, h.shape_eq hlast hr, h.arena, h.types] at htarget
  | lambda n params body =>
    obtain ⟨l, hl, hnode, henv⟩ := hnotes.details
    have hl : b.analysis.arena.get (b.shape n.id) = .lambda l := by
      rw [h.arena, ← hl]
      exact congrArg _ hx
    have hmem : ⟨n, params, body⟩ ∈ ctx.script.lambdas :=
      (ctx.script.lists.lambda _).mpr hnotes.piece
    exact ⟨l, hl, hnode, (h.params_length hl hmem hnode.symm).symm, layer, henv, hlast⟩
  | _ => trivial

/-- Every analysis has a layer of its own. -/
theorem apart (h : b.Analyzed ctx s) (hkey : b.analysis.HasLayer key layer)
    (hother : b.analysis.HasLayer other layer) : key = other := by
  obtain ⟨l, signature, hl, hsig, hlayer⟩ := hkey
  obtain ⟨l', signature', hl', hsig', hlayer'⟩ := hother
  rw [h.arena] at hl hl'
  obtain ⟨hi, he⟩ := h.recorded.apart hl hsig hl' hsig' (hlayer.trans hlayer'.symm)
  obtain ⟨i, entry⟩ := key
  obtain ⟨i', entry'⟩ := other
  have hentry : entry = entry' := by
    cases entry <;> cases entry' <;> simp_all [Entry.index?]
  rw [Prod.mk.injEq]
  exact ⟨hi, hentry⟩

theorem above (h : b.Analyzed ctx s) (hkey : b.analysis.HasLayer key layer) :
    Layers.root < layer := by
  obtain ⟨l, signature, hl, hsig, hlayer⟩ := hkey
  rw [h.arena] at hl
  exact hlayer ▸ h.recorded.above hl hsig

end Body.Analyzed

/-! ### Entries -/

namespace Generate

variable {b : Body}

theorem entryRet_holds (h : b.layouts.Closed) (l : LambdaShape) (entry : Entry) :
    b.layouts.Holds (Entry.ret b l entry) := by
  cases entry with
  | signature index => exact h.rep _ _
  | generic => trivial

end Generate

/-! ### Functions that are finished -/

namespace Tables

variable {b : Body} {v : Bounds} {busy : Nat} {t : Tables} {c : Code} {a : Analysis}

/-- The tables while no function is being generated. -/
structure Ready (c : Code) (a : Analysis) (script : Script) (t : Tables) : Prop where
  queued : t.Queued []
  linked : t.Linked a
  verified : script.FewSlots → c.Covers t → ∀ {f : Nat} {function}, t.functions[f]? = some function →
    function.Verified c a f

/-- A function gets its code, and there is no other change. -/
theorem Working.finish (h : t.Working v busy b)
    (hlinked : Linked b.analysis (t.setFunction busy function))
    (hsame : ∀ {old}, t.functions[busy]? = some old → function.arity = old.arity)
    (hverified : b.script.FewSlots → v.code.Covers t → function.Verified v.code b.analysis busy) :
    Ready v.code b.analysis b.script (t.setFunction busy function) := by
  refine ⟨h.queued.finish function, hlinked, fun hfew hc => ?_⟩
  have hcode : v.code.Covers t := by
    refine ⟨hc.numbers, hc.strings, hc.names, hc.members, hc.templates, fun {f old} hget => ?_⟩
    by_cases hf : busy = f
    · subst hf
      obtain ⟨final, hfinal, harity⟩ := hc.functions
        (Array.getElem?_setIfInBounds_self_of_lt (Array.getElem?_eq_some_iff.mp hget).1)
      exact ⟨final, hfinal, harity.trans (hsame hget)⟩
    · exact hc.functions ((Array.getElem?_setIfInBounds_ne hf).trans hget)
  intro f found hget
  rw [setFunction, Array.getElem?_setIfInBounds] at hget
  split at hget
  next hf =>
    subst hf
    split at hget
    · cases hget
      exact hverified hfew hcode
    · cases hget
  next => exact h.verified hfew hcode hget

end Tables

/-! ### The root and the queue -/

/-- What suits a body suits that of an entry with captures of its own. -/
theorem Body.Suits.inner {b : Body} {v : Bounds} (h : b.Suits v) (stack : List LayerId)
    (captures : List Symbol) {ret : Rep} (hret : b.layouts.Holds ret) (locals : Nat) :
    Body.Suits { b with stack, captures, ret } ⟨v.code, locals, captures.length⟩ :=
  ⟨h.closed, h.records, h.arrays, rfl, hret⟩

namespace Tables

variable {b : Body} {v : Bounds} {ctx : Analysis.Context} {s : Analysis.State} {t : Tables}
  {layer : LayerId}

/-- The next job is taken from the queue. No template is there for its layer. -/
theorem Ready.start (h : t.Ready v.code b.analysis b.script) (hb : b.Analyzed ctx s) {j : Job} {rest : List Job}
    (hjobs : t.jobs = j :: rest) (hlayer : b.analysis.HasLayer (j.lambda, j.entry) layer)
    (hlast : b.stack.getLast? = some layer) {locals : NumberedMap Symbol Storage} {count : Nat}
    (hslots : ∀ {symbol storage}, locals.get? symbol = some storage →
      storage.slot < count ∧ b.layouts.Holds storage.rep) :
    Working v j.function b { t with jobs := rest, locals, localCount := count } := by
  obtain ⟨hlinked, hstarted⟩ := h.linked.start h.queued hjobs
  have hmem : j ∈ t.jobs := hjobs ▸ List.mem_cons_self
  refine ⟨{ h.queued.start hjobs with }, hlinked.of_same rfl rfl rfl rfl rfl rfl,
    fun hfew hcode => h.verified hfew { hcode with }, hslots, fun {last} hlast' => ?_,
    fun {last} hlast' template htemplate hdescribes => ?_⟩
  · cases hlast.symm.trans hlast'
    exact .inr ⟨_, { hstarted with }, hlayer⟩
  · cases hlast.symm.trans hlast'
    obtain ⟨⟨made, f, ⟨l, hl, _, _, _, hmade⟩, hopened⟩, _⟩ := h.linked.made template htemplate
    obtain ⟨l', hl', _, _, _, henv⟩ := hdescribes
    cases hl.symm.trans hl'
    cases hmade.symm.trans henv
    exact absurd hopened (Linked.not_opened h.queued hb.apart hb.above hmem hlayer)

end Tables

namespace Generate

variable {b : Body} {ctx : Analysis.Context} {s : Analysis.State} {c : Code} {t t' : Tables}

theorem job_ready (hb : b.Analyzed ctx s) (hsuits : b.Suits ⟨c, 0, 0⟩) {j : Job} {rest : List Job}
    (h : t.Ready c b.analysis b.script) (hjobs : t.jobs = j :: rest)
    (hrun : job b j { t with jobs := rest } = .ok ((), t')) : t'.Ready c b.analysis b.script := by
  obtain ⟨l, literal, stack, reps, ops, locals, t₁, hl, hliteral, hframe, hcode, rfl⟩ := job_ok hrun
  obtain ⟨-, l', signature, hl', hsig, hlast, hreps⟩ := reads_entryFrame _ _ _ hframe
  cases hl.symm.trans hl'
  rw [Entry.analysis?_eq] at hsig
  -- the queue has the shapes of lambdas themselves, not links to them
  have hentry : t.functionOf.get? (j.lambda, j.entry) = some j.function :=
    h.queued.jobs j (hjobs ▸ List.mem_cons_self)
  obtain ⟨_, l', _, hget, _⟩ := h.linked.entry hentry
  have hget : b.analysis.arena.get j.lambda = .lambda l := by
    have hresolved := Analysis.lambda?_eq_some.mp hl
    rwa [Arena.resolved, Arena.resolve_of_data (by rw [hget]; rfl)] at hresolved
  have hlayer : b.analysis.HasLayer (j.lambda, j.entry) signature.layer :=
    ⟨l, signature, hget, hsig, rfl⟩
  obtain ⟨hmem, hnode⟩ := Script.mem_of_lambda? hliteral
  have hparams : literal.params.length = l.paramCount :=
    hb.params_length hget (hb.script ▸ hmem) hnode
  generalize hcaptures : (b.analysis.captures.get? l.node).getD [] = captures at hcode
  let inner : Body := { b with stack, captures, ret := Entry.ret b l j.entry }
  have hinner : inner.Analyzed ctx s := { hb with }
  have hsuits' : inner.Suits ⟨c, locals, captures.length⟩ :=
    hsuits.inner stack captures (entryRet_holds hsuits.closed l j.entry) locals
  have hknows := hinner.knows hlast
    (hb.recorded.covers (hb.arena ▸ hget) hsig (hb.script ▸ hliteral))
  have hstart (slots : NumberedMap Symbol Storage)
      (hslots : ∀ {symbol storage}, slots.get? symbol = some storage →
        storage.slot < literal.params.length ∧ storage.rep ∈ reps) :
      Tables.Working ⟨c, locals, captures.length⟩ j.function inner
        { t with jobs := rest, locals := slots, localCount := literal.params.length } := by
    refine h.start hinner hjobs hlayer hlast fun hget => (hslots hget).imp_right fun hrep => ?_
    obtain ⟨shape, hshape⟩ := hreps _ hrep
    exact hshape ▸ hsuits.closed.rep _ _
  obtain ⟨hworking, hlocals, hends⟩ := entryCode_keeps (working hsuits' j.function)
    (fun x hx _ => hknows x hx) (fun _ _ => trivial) hstart hcode
  -- the function of the job is still that of its entry
  have hentry₁ : t₁.functionOf.get? (j.lambda, j.entry) = some j.function := by
    rcases hworking.opened hlast with ⟨hroot, _⟩ | ⟨key, hstarted, hkey⟩
    · exact absurd (hroot ▸ hb.above hlayer) (Nat.lt_irrefl _)
    · exact hb.apart hkey hlayer ▸ hstarted.entry
  obtain ⟨hpos, l', old, hl', hold, harity, _⟩ := hworking.linked.entry hentry₁
  cases hget.symm.trans hl'
  refine hworking.finish (hworking.linked.setFunction (fun hzero => by omega) fun {key} hkey => ?_)
    (fun hold' => ?_) fun hfew hcovers => ?_
  · obtain rfl := hworking.queued.apart hkey hentry₁
    refine ⟨l, hget, hparams, fun hgeneric => ?_⟩
    have hgeneric : j.entry = .generic := hgeneric
    rw [hgeneric]
    exact genericName _
  · cases hold.symm.trans hold'
    exact hparams.trans harity.symm
  · have hcount : captures.length = b.analysis.captureCount l.node := by
      rw [← hcaptures, Analysis.captureCount]
    have hslots : locals ≤ slotsOf literal.params literal.body.sites :=
      entryCode_asked (h.queued.start hjobs) hcode
    have hnumber : slotNumber locals = locals :=
      Nat.mod_eq_of_lt (Nat.lt_of_le_of_lt hslots (hfew.2 literal hmem))
    refine ⟨captures.length, hcount ▸ .entry hpos rfl, ?_⟩
    dsimp only
    rw [hnumber]
    exact (hends trivial ⟨hcovers, Nat.le_of_eq hlocals.symm⟩).2

theorem working_blankRoot {locals : Nat} (hstack : b.stack.getLast? = some Layers.root) :
    Tables.Working ⟨c, locals, 0⟩ 0 b blankRoot where
  queued := blankRoot_queued
  linked := by
    refine ⟨⟨_, rfl, rfl, rfl⟩, fun hget => ?_, List.forall_mem_nil _, fun hget => ?_⟩
    · cases hget
    · cases hget
  verified _ _ f function hget := by
    obtain ⟨hlt, rfl⟩ := Array.getElem?_eq_some_iff.mp hget
    have hzero : f = 0 := Nat.lt_one_iff.mp hlt
    subst hzero
    exact ⟨0, .root rfl, .unreachable (.nil _ 0 0)⟩
  slots hget := by cases hget
  opened hlast := .inl ⟨by cases hstack.symm.trans hlast; rfl, rfl⟩
  sources _ template hmem := by cases hmem

theorem root_ready (hb : b.Analyzed ctx s) (hsuits : b.Suits ⟨c, 0, 0⟩)
    (hstack : b.stack.getLast? = some Layers.root) (hrun : root b {} = .ok ((), t')) :
    t'.Ready c b.analysis b.script := by
  obtain ⟨ops, t₁, hops, rfl⟩ := root_cases hrun
  have hsuits' : b.Suits ⟨c, t₁.localCount, 0⟩ := { hsuits with }
  have hknows := hb.knows hstack hb.recorded.root
  rw [← hb.script] at hknows
  have hstart : (working hsuits' 0).holds ([] ++ []) blankRoot := working_blankRoot hstack
  obtain ⟨hworking, hchecked⟩ :=
    emits_stmts b.script.body (fun x hx _ => hknows x hx) (fun _ _ => trivial) 0 hstart hops
  refine hworking.finish (hworking.linked.setFunction (fun _ => ⟨rfl, rfl⟩) fun hget => ?_)
    (fun hold => ?_) fun hfew hcovers => ?_
  · exact absurd (hworking.linked.entry hget).1 (Nat.lt_irrefl 0)
  · obtain ⟨function, hfunction, _, harity⟩ := hworking.linked.root
    cases hfunction.symm.trans hold
    exact harity.symm
  · have hnull {start : Nat} : Takes ⟨c, t₁.localCount, 0⟩ start [.pushNull] 0 1 := takes_op rfl trivial
    have hslots := stmts_asked blankRoot_queued hops
    have hnumber : slotNumber t₁.localCount = t₁.localCount :=
      Nat.mod_eq_of_lt (Nat.lt_of_le_of_lt hslots ((Nat.zero_add _).symm ▸ hfew.1))
    refine ⟨0, .root rfl, ?_⟩
    dsimp only
    rw [hnumber]
    have hends := Ends.ret ((hchecked trivial ⟨hcovers, Nat.le_refl _⟩).2.append hnull.checked)
    rwa [List.append_assoc] at hends

end Generate

/-! ### Code -/

/-- The closures of a template may be called by the function. -/
def Template.Enters (template : Template) (function : Function) : Prop :=
  ∃ entry, function.name = template.name ++ "/" ++ entry

/-- Depths fit in every function, and whatever is referred to is there. The root has no closure, and
other functions find the cells of the closures that they are called with. -/
structure Code.WellFormed (c : Code) : Prop where
  root : ∃ function, c.functions[0]? = some function ∧ function.arity = 0
  balanced : ∀ function ∈ c.functions, ∃ depth, function.Balanced depth
  ranges : ∀ {f : Nat} {function}, c.functions[f]? = some function → ∃ captures,
    (f = 0 → captures = 0) ∧
      (∀ template ∈ c.templates, template.Enters function → template.captures.length = captures) ∧
        ∀ op ∈ function.ops, op.InRange ⟨c, function.locals, captures⟩
  templates : ∀ template ∈ c.templates, ∃ function, c.functions[template.generic]? = some function ∧
    function.arity = template.arity ∧ template.Enters function
  records : ∀ layout ∈ c.records, ∀ field ∈ layout.fields,
    field.2.InRange c.records.size c.arrays.size
  arrays : ∀ layout ∈ c.arrays, layout.element.InRange c.records.size c.arrays.size

theorem Ends.balanced {v : Bounds} (h : Ends v 0 function.ops.toList) :
    ∃ depth, function.Balanced depth := by
  obtain ⟨depth, hstart, hflows⟩ := h.closes
  refine ⟨depth, ?_, hstart, fun {pc op} hop => ?_⟩
  · rw [← Array.length_toList]
    exact List.length_pos_of_ne_nil h.nonempty
  · have hfits := hflows.get ((Array.getElem?_toList ..).trans hop)
    rwa [Nat.zero_add, Nat.zero_add, Array.length_toList] at hfits

/-- The root is no entry of a lambda. -/
theorem Analysis.Describes.not_enters_root {a : Analysis} {template : Template} {layer : LayerId}
    (h : a.Describes template layer) (hname : function.name = "<root>") :
    ¬ template.Enters function := by
  obtain ⟨l, _, hl, _⟩ := h
  rintro ⟨entry, henters⟩
  rw [hname, hl] at henters
  have hchars := congrArg String.toList henters
  simp [String.toList_append] at hchars

/-- Templates that enter a function have the captures of one lambda. -/
theorem Analysis.Describes.captures_of_enters {a : Analysis} {template : Template} {layer : LayerId}
    (h : a.Describes template layer) (henters : template.Enters function) {node : NodeId}
    {entry : String} (hname : function.name = "lambda#" ++ toString node ++ "/" ++ entry) :
    template.captures.length = a.captureCount node := by
  obtain ⟨l, _, hl, _, hcaptures, _⟩ := h
  obtain ⟨entry', henters⟩ := henters
  rw [hname, hl] at henters
  rw [hcaptures, eq_of_entryName henters]

namespace Tables

variable {a : Analysis} {t : Tables} {layouts : Layouts} {input : Option HostTypeId}

theorem code_covers (t : Tables) (layouts : Layouts) (input : Option HostTypeId) :
    (t.code layouts input).Covers t where
  numbers := Nat.le_of_eq List.size_toArray.symm
  strings := Nat.le_of_eq List.size_toArray.symm
  names := Nat.le_of_eq List.size_toArray.symm
  members := Nat.le_of_eq List.size_toArray.symm
  templates hget := by rwa [code, List.getElem?_toArray]
  functions hget := ⟨_, hget, rfl⟩

/-- The cells that a function finds are those of every template that enters it. -/
theorem Ready.ranges {script : Script} (h : t.Ready (t.code layouts input) a script)
    (hfew : script.FewSlots) {f : Nat}
    (hget : t.functions[f]? = some function) :
    ∃ captures, (f = 0 → captures = 0) ∧
      (∀ template ∈ t.templates, template.Enters function → template.captures.length = captures) ∧
        ∀ op ∈ function.ops, op.InRange ⟨t.code layouts input, function.locals, captures⟩ := by
  obtain ⟨captures, howns, hends⟩ := h.verified hfew (t.code_covers layouts input) hget
  have hranges : ∀ op ∈ function.ops, op.InRange ⟨t.code layouts input, function.locals, captures⟩ :=
    fun op hop => hends.ranges op (Array.mem_toList_iff.mpr hop)
  cases howns with
  | root hname =>
    refine ⟨0, fun _ => rfl, fun template hmem henters => ?_, hranges⟩
    obtain ⟨⟨layer, _, hdescribes, _⟩, _⟩ := h.linked.made template hmem
    exact absurd henters (hdescribes.not_enters_root hname)
  | entry hpos hname =>
    refine ⟨_, fun hzero => by omega, fun template hmem henters => ?_, hranges⟩
    obtain ⟨⟨layer, _, hdescribes, _⟩, _⟩ := h.linked.made template hmem
    exact hdescribes.captures_of_enters henters hname
  | blank hpos hops =>
    -- without code any number will do, so it is that of the templates
    have hany (captures : Nat) : ∀ op ∈ function.ops,
        op.InRange ⟨t.code layouts input, function.locals, captures⟩ := by
      intro op hop
      rw [hops, List.mem_toArray, List.mem_singleton] at hop
      rw [hop]
      trivial
    by_cases hexists : ∃ template ∈ t.templates, template.Enters function
    · obtain ⟨template, hmem, henters⟩ := hexists
      obtain ⟨⟨_, _, ⟨l, _, hl, _⟩, _⟩, _⟩ := h.linked.made template hmem
      obtain ⟨entry, hname⟩ := henters
      rw [hl] at hname
      refine ⟨a.captureCount l.node, fun hzero => by omega, fun other hother henters => ?_, hany _⟩
      obtain ⟨⟨_, _, hdescribes, _⟩, _⟩ := h.linked.made other hother
      exact hdescribes.captures_of_enters henters hname
    · refine ⟨0, fun _ => rfl, fun template hmem henters => ?_, hany 0⟩
      exact absurd ⟨template, hmem, henters⟩ hexists

/-- The generic entry of a template takes its arguments. -/
theorem Linked.generic (h : t.Linked a) {template : Template} (hmem : template ∈ t.templates) :
    ∃ function, t.functions[template.generic]? = some function ∧ function.arity = template.arity ∧
      template.Enters function := by
  obtain ⟨⟨_, _, ⟨l, hl, hname, harity, _⟩, _⟩, hentry⟩ := h.made template hmem
  obtain ⟨_, l', function, hl', hget, harity', hfunction⟩ := h.entry hentry
  cases hl.symm.trans hl'
  refine ⟨function, hget, harity'.trans harity.symm, "generic", ?_⟩
  rw [hfunction rfl, hname, genericName]

theorem Ready.wellFormed {script : Script} (h : t.Ready (t.code layouts input) a script)
    (hfew : script.FewSlots) (hlayouts : layouts.Closed) :
    (t.code layouts input).WellFormed where
  root := by
    obtain ⟨function, hget, _, harity⟩ := h.linked.root
    exact ⟨function, hget, harity⟩
  balanced function hmem := by
    obtain ⟨f, hget⟩ := Array.mem_iff_getElem?.mp hmem
    obtain ⟨_, _, hends⟩ := h.verified hfew (t.code_covers layouts input) hget
    exact hends.balanced
  ranges hget := by
    obtain ⟨captures, hroot, htemplates, hranges⟩ := h.ranges hfew hget
    exact ⟨captures, hroot, fun template hmem => htemplates template (List.mem_toArray.mp hmem), hranges⟩
  templates template hmem := h.linked.generic (List.mem_toArray.mp hmem)
  records layout hmem field hfield := by
    obtain ⟨i, hi, rfl⟩ := Array.mem_mapIdx.mp hmem
    have hrep := hlayouts.fields (Array.getElem?_eq_getElem hi) field hfield
    simpa [code, Layouts.recordLayouts, Layouts.arrayLayouts] using hrep
  arrays layout hmem := by
    obtain ⟨i, hi, rfl⟩ := Array.mem_mapIdx.mp hmem
    have hrep := hlayouts.elements (Array.getElem?_eq_getElem hi)
    simpa [code, Layouts.recordLayouts, Layouts.arrayLayouts] using hrep

end Tables

/-- Code that is generated after an analysis without problems is well formed. -/
theorem Analysis.generate_wellFormed {script : Script} {types : Registry} {options : Options}
    {input : Option HostTypeId} {budget : Nat} {analysis : Analysis} {code : Code}
    (hids : script.ids.Nodup) (hfew : script.FewSlots)
    (hanalyze : script.analyze types options input budget = some (.ok analysis))
    (h : analysis.generate script types = .ok code) : code.WellFormed := by
  obtain ⟨s, hrecorded, harena, hlayers⟩ := Script.analyze_recorded hanalyze
  obtain ⟨t, t', hroot, hdrain, rfl⟩ := generate_eq_ok h
  have hclosed := Layouts.closed_ofAnalysis analysis
  have hb : Body.Analyzed { script, analysis, types, layouts := .ofAnalysis analysis } _ s :=
    ⟨hrecorded, hids, harena, hlayers, rfl, rfl⟩
  have hsuits : Body.Suits { script, analysis, types, layouts := .ofAnalysis analysis }
      ⟨t'.code (.ofAnalysis analysis) analysis.input, 0, 0⟩ :=
    ⟨hclosed, rfl, rfl, rfl, trivial⟩
  have hready := Generate.drain_keeps (Generate.job_ready hb hsuits) _
    (Generate.root_ready hb hsuits rfl hroot) hdrain
  exact hready.wellFormed hfew hclosed

namespace Engine

variable {e : Engine}

/-- Whatever compiles has well-formed code, if no body has more variables than there are slots. -/
theorem compile_wellFormed {source : String} {script : Script} {input : Option HostTypeId} {analyses : Nat}
    {p : Program} (hparse : parse source = .ok script) (hfew : script.FewSlots)
    (h : (compile source input analyses e).1 = some (.ok p)) : p.code.WellFormed := by
  obtain ⟨script', analysis, hparse', hanalyze, hgenerate⟩ := compile_eq_ok h
  cases hparse.symm.trans hparse'
  exact Analysis.generate_wellFormed (nodup_ids hparse) hfew hanalyze hgenerate

/-- A loop that makes closures, which share a variable of the root. -/
def closures : String :=
  "var n = 0; var f = (x) => \x7b n = n + x; return () => n; \x7d;
        for (var i = 0; i < 3; i++) \x7b f(i); \x7d return f(1)();"

/-- There are two templates, and each has its generic entry and one for the call. -/
theorem compile_wellFormed_counter :
    ∃ script p, parse closures = .ok script ∧ script.FewSlots ∧
      (compile closures none 3 (.new {})).1 = some (.ok p) ∧
      p.code.functions.size = 5 ∧ p.code.templates.size = 2 ∧ p.code.WellFormed := by
  obtain ⟨p, hp, hcheck⟩ := exists_compiled closures none 3 (.new {})
    (fun p => decide (p.code.functions.size = 5 ∧ p.code.templates.size = 2)) (by decide +kernel)
  obtain ⟨hfunctions, htemplates⟩ := of_decide_eq_true hcheck
  obtain ⟨script, hparse, hcheck⟩ :=
    exists_parsed closures (fun script => decide script.FewSlots) (by decide +kernel)
  have hfew := of_decide_eq_true hcheck
  exact ⟨script, p, hparse, hfew, hp, hfunctions, htemplates, compile_wellFormed hparse hfew hp⟩

end Engine

end HostScript
