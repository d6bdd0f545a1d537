import HostScript.Proofs.Code.Linking
import HostScript.Proofs.Code.Trees

/-!
# Checked code of bodies

While the code of a function is generated, the tables are in order: entries and templates are
linked, functions that have their code are verified, and variables have slots. This is an invariant
of code generation, so the code of a body that analysis knows is checked.
-/

namespace HostScript

namespace Function

/-- Whose cells a function finds, by its name. A function without code needs none. -/
inductive Owns (a : Analysis) (function : Function) : Nat → Nat → Prop where
  | root : function.name = "<root>" → function.Owns a 0 0
  | blank {f captures : Nat} : 0 < f → function.ops = #[.unreachable] → function.Owns a f captures
  | entry {f : Nat} {node : NodeId} {suffix : String} : 0 < f →
      function.name = "lambda#" ++ toString node ++ "/" ++ suffix →
      function.Owns a f (a.captureCount node)

/-- The code of the function is checked with the cells that it finds. -/
def Verified (c : Code) (a : Analysis) (f : Nat) (function : Function) : Prop :=
  ∃ captures, function.Owns a f captures ∧
    Ends ⟨c, function.locals, captures⟩ 0 function.ops.toList

theorem verified_blank (c : Code) (a : Analysis) {f : Nat} (hf : 0 < f) {function : Function}
    (hops : function.ops = #[.unreachable]) : function.Verified c a f := by
  refine ⟨0, .blank hf hops, ?_⟩
  rw [hops]
  exact .unreachable (.nil _ 0 0)

end Function

/-- The tables while the code of one function is generated. -/
structure Tables.Working (v : Bounds) (busy : Nat) (b : Body) (t : Tables) : Prop where
  queued : t.Queued [busy]
  linked : t.Linked b.analysis
  verified : b.script.FewSlots → v.code.Covers t → ∀ {f : Nat} {function}, t.functions[f]? = some function →
    function.Verified v.code b.analysis f
  slots : ∀ {symbol storage}, t.locals.get? symbol = some storage →
    storage.slot < t.localCount ∧ b.layouts.Holds storage.rep
  opened : ∀ {layer}, b.stack.getLast? = some layer → t.Opened b.analysis layer busy
  /-- The cells for closures that this function makes are found in it. -/
  sources : ∀ {layer}, b.stack.getLast? = some layer → ∀ template ∈ t.templates,
    b.analysis.Describes template layer →
      ∀ source ∈ template.captures, source.InRange t.localCount b.captures.length

namespace Tables

variable {v : Bounds} {busy : Nat} {b : Body} {t t' : Tables}

/-- Constants and members do not count. -/
theorem Working.adds (h : t.Working v busy b) (hadds : t.Adds t') : t'.Working v busy b := by
  rw [hadds.same]
  refine ⟨{ h.queued with }, h.linked.of_same rfl rfl rfl rfl rfl rfl, fun hfew hcode => ?_,
    h.slots, fun hlayer => (h.opened hlayer).of_same rfl rfl rfl, h.sources⟩
  rw [← hadds.same] at hcode
  exact h.verified hfew (hadds.code_covers hcode)

/-- A new function without code changes nothing for the others. -/
theorem Working.addFunction (h : t.Working v busy b) {function : Function} (more : List Template)
    {key : ShapeId × Entry} (hg : Gains key function t t') (htemplates : t'.templates = t.templates ++ more)
    (hlinked : t'.Linked b.analysis)
    (hmore : ∀ template ∈ more, ∀ source ∈ template.captures,
      source.InRange t.localCount b.captures.length) :
    t'.Working v busy b ∧ (v.Covers t' → v.Covers t) := by
  have hlocals : t'.locals = t.locals := by rw [hg.same]
  have hcount : t'.localCount = t.localCount := by rw [hg.same]
  have hcode {c : Code} (hc : c.Covers t') : c.Covers t := by
    have hn := hc.numbers
    have hs := hc.strings
    have hm := hc.names
    have hh := hc.members
    rw [hg.same] at hn hs hm hh
    refine ⟨hn, hs, hm, hh, fun hget => hc.templates ?_, fun {f _} hget => hc.functions ?_⟩
    · rw [htemplates]
      exact Generate.getElem?_mono (List.prefix_append ..) hget
    · have hlt : f < t.functions.size := (Array.getElem?_eq_some_iff.mp hget).1
      rw [hg.functions, Array.getElem?_push, if_neg (by omega)]
      exact hget
  refine ⟨⟨h.queued.gains hg, hlinked, fun hfew hc f found hget => ?_, fun hget => ?_, fun hlayer => ?_,
    fun hlayer template hmem hdescribes source hsource => ?_⟩, fun hc => ⟨hcode hc.code, ?_⟩⟩
  · rw [hg.functions, Array.getElem?_push] at hget
    split at hget
    next hf =>
      cases hget
      exact Function.verified_blank _ _ (hf ▸ h.linked.size_pos) hg.blank
    next => exact h.verified hfew (hcode hc) hget
  · rw [hcount]
    exact h.slots (hlocals ▸ hget)
  · exact (h.opened hlayer).mono (h.linked.started_add hg)
  · rw [hcount]
    rw [htemplates] at hmem
    rcases List.mem_append.mp hmem with hmem | hmem
    · exact h.sources hlayer template hmem hdescribes source hsource
    · exact hmore template hmem source hsource
  · have hle := hc.locals
    rwa [hcount] at hle

theorem Working.declare (h : t.Working v busy b) (hb : b.Suits v) (symbol : Symbol) (inCell : Bool) :
    Working v busy b { t with
      locals := t.locals.insert symbol ⟨slotNumber t.localCount, b.rep symbol.node, inCell⟩
      localCount := t.localCount + 1 } := by
  refine ⟨{ h.queued with }, h.linked.of_same rfl rfl rfl rfl rfl rfl,
    fun hfew hcode => h.verified hfew { hcode with }, fun {other found} hfound => ?_,
    fun hlayer => (h.opened hlayer).of_same rfl rfl rfl,
    fun hlayer template hmem hdescribes source hsource => ?_⟩
  · rcases NumberedMap.get?_insert_cases hfound with hold | ⟨_, rfl⟩
    · exact (h.slots hold).imp_left Nat.lt_succ_of_lt
    · exact ⟨Nat.lt_succ_of_le (Nat.mod_le ..), hb.holds_rep symbol.node⟩
  · exact (h.sources hlayer template hmem hdescribes source hsource).mono (Nat.le_succ _)

theorem Working.escape (h : t.Working v busy b) (rep : Rep) :
    (t.escape b.layouts rep).Working v busy b := by
  refine escape_keeps (fun {t} lambda h => ?_) (fun _ h => ?_) b.layouts rep h
  · obtain ⟨hlinked, hstarted⟩ := h.linked.escapeLambda h.queued lambda
    have hqueued := h.queued.escapeLambda lambda
    rcases t.escapeLambda_cases lambda with hsame | ⟨_, more, hsame, _⟩ <;>
      rw [hsame] at hlinked hstarted hqueued ⊢
    · exact h
    · exact ⟨hqueued, hlinked, fun hfew hc => h.verified hfew { hc with }, h.slots,
        fun hlayer => (h.opened hlayer).mono hstarted, h.sources⟩
  · exact ⟨{ h.queued with }, h.linked.of_same rfl rfl rfl rfl rfl rfl,
      fun hfew hcode => h.verified hfew { hcode with }, h.slots,
      fun hlayer => (h.opened hlayer).of_same rfl rfl rfl, h.sources⟩

end Tables

namespace Generate

variable {v : Bounds} {busy : Nat} {b : Body} {t t' : Tables}

/-- A lambda literal has a template whose closures find their cells in the function. -/
theorem template_working (hb : b.Suits v) (ht : t.Working v busy b) {node : Node} {arity index : Nat}
    {lambda : ShapeId} {l : LambdaShape} {layer : LayerId}
    (hl : b.analysis.arena.get lambda = .lambda l) (hnode : l.node = node.id)
    (harity : l.paramCount = arity) (henv : l.env.getLast? = some layer)
    (hlayer : b.stack.getLast? = some layer)
    (hrun : template b node arity lambda t = .ok (index, t')) :
    t'.Working v busy b ∧ (v.Covers t' → v.Covers t ∧ (Op.makeClosure index).InRange v) := by
  rcases template_ok ht.queued hrun with
    ⟨hfound, rfl⟩ | ⟨rfl, captures, ⟨hlength, hsources⟩, hg, htemplates, htemplateOf⟩
  · obtain ⟨found, htemplate, rfl⟩ := ht.linked.found hfound
    have hmem : found ∈ t'.templates := List.mem_of_getElem? htemplate
    obtain ⟨⟨other, _, ⟨l', hl', hrest⟩, _⟩, _⟩ := ht.linked.made found hmem
    cases hl.symm.trans hl'
    refine ⟨ht, fun hcovers => ⟨hcovers, found, hcovers.code.templates htemplate, fun source hsource => ?_⟩⟩
    have hdescribes : b.analysis.Describes found layer :=
      ⟨l, hl, hrest.1, hrest.2.1, hrest.2.2.1, henv⟩
    rw [hb.captures]
    exact (ht.sources hlayer found hmem hdescribes source hsource).mono hcovers.locals
  · generalize hnew : Template.mk ("lambda#" ++ toString node.id) lambda t.functions.size arity captures =
      new at htemplates
    have hsources : ∀ source ∈ new.captures, source.InRange t.localCount b.captures.length := by
      rw [← hnew]
      exact hsources fun _ _ hget => (ht.slots hget).1
    have hdescribes : b.analysis.Describes new layer := by
      rw [← hnew]
      exact ⟨l, hl, hnode ▸ rfl, harity.symm, hnode ▸ hlength, henv⟩
    have hindex : t'.templates[t.templates.length]? = some new := by
      rw [htemplates, List.getElem?_append_right (Nat.le_refl _), Nat.sub_self]
      rfl
    have hlinked : t'.Linked b.analysis := by
      refine ht.linked.addEntry hg hl harity.symm (fun _ => by rw [hnode])
        (fun template hmem => ?_) fun {other k} hget => ?_
      · rw [htemplates] at hmem
        rcases List.mem_append.mp hmem with hmem | hmem
        · exact .inl hmem
        · rw [List.mem_singleton.mp hmem]
          exact .inr ⟨hnew ▸ rfl, hnew ▸ rfl, layer, busy, hdescribes, ht.opened hlayer⟩
      · rcases OrderedMap.get?_insert_cases (htemplateOf ▸ hget) with hold | ⟨rfl, rfl⟩
        · obtain ⟨found, hfound, hshape⟩ := ht.linked.found hold
          rw [htemplates]
          exact ⟨found, getElem?_mono (List.prefix_append ..) hfound, hshape⟩
        · exact ⟨_, hindex, hnew ▸ rfl⟩
    obtain ⟨hworking, hcovers⟩ := ht.addFunction _ hg htemplates hlinked
      fun template hmem => (List.mem_singleton.mp hmem).symm ▸ hsources
    refine ⟨hworking, fun hc => ⟨hcovers hc, _, hc.code.templates hindex, fun source hsource => ?_⟩⟩
    rw [hb.captures]
    exact (hsources source hsource).mono (hcovers hc).locals

/-- The function of an entry is called with the arguments of its lambda. -/
theorem signatureFunction_working (ht : t.Working v busy b) {lambda : ShapeId} {l : LambdaShape}
    {index arity function : Nat} (hl : b.analysis.arena.get lambda = .lambda l)
    (harity : l.paramCount = arity) (hrun : signatureFunction lambda index arity t = .ok (function, t')) :
    t'.Working v busy b ∧ (v.Covers t' → v.Covers t ∧ (Op.callEntry function arity).InRange v) := by
  rcases signatureFunction_ok hrun with ⟨hget, rfl⟩ | ⟨rfl, hg, -, htemplates, htemplateOf⟩
  · obtain ⟨_, l', found, hl', hfound, hcount, _⟩ := ht.linked.entry hget
    cases hl.symm.trans hl'
    refine ⟨ht, fun hcovers => ⟨hcovers, ?_⟩⟩
    obtain ⟨final, hfinal, heq⟩ := hcovers.code.functions hfound
    exact ⟨final, hfinal, by rw [heq, hcount, harity]⟩
  · have hlinked := ht.linked.addEntry hg hl harity.symm nofun (by rw [htemplates]; exact fun _ => .inl)
      (by rw [htemplates, htemplateOf]; exact ht.linked.found)
    obtain ⟨hworking, hcovers⟩ := ht.addFunction [] hg (by rw [htemplates, List.append_nil]) hlinked
      (List.forall_mem_nil _)
    refine ⟨hworking, fun hc => ⟨hcovers hc, ?_⟩⟩
    exact hc.code.functions (hg.functions ▸ Array.getElem?_push_size)

/-- While the code of a function is generated, the tables stay in order, and code is checked. -/
def working (hb : b.Suits v) (busy : Nat) : Invariant b v where
  strict := True
  suits _ := hb
  holds _ t := t.Working v busy b
  slots _ h := h.slots
  extend h _ := h
  adds h hadds _ := h.adds hadds
  allows _ := True
  declares symbol inCell _ _ h := h.declare hb symbol inCell
  escapes rep h := h.escape rep
  uses h _ hrun _ := h.adds (member_adds hrun).1
  signatures h _ hl hrun := by
    obtain ⟨l, hl, harity⟩ := hl trivial
    exact (signatureFunction_working h hl harity hrun).imp_right fun hc _ => hc
  templates h hknows hrun := by
    obtain ⟨l, hl, hnode, hcount, layer, henv, hlayer⟩ := hknows trivial
    rw [Arena.resolve_of_data (by rw [hl]; rfl)] at hrun
    exact (template_working hb h hl hnode hcount henv hlayer hrun).imp_right fun hc _ => hc

end Generate

end HostScript
