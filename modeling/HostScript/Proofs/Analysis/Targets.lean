import HostScript.Proofs.Analysis.Accesses
import HostScript.Proofs.Analysis.Sandbox
import HostScript.Proofs.Script.Numbering

/-!
# Member accesses at the end of an analysis

A member that is looked up once more at the end of an analysis is reached in the way in which it was
reached when its expression got a shape, unless a record came in between: a record may gain a field
with the name of an extension function, and a record that was merged into another one may have lost
a field. -/

namespace HostScript

variable {a b : Arena} {types : Registry} {x : ShapeId} {name : String}
  {record receiver i : ShapeId}

namespace MemberTarget

/-- Two look-ups that find a member in the same way. -/
def Agrees : MemberTarget → MemberTarget → Prop
  | .recordField _, .recordField _ => True
  | .missingField _, .missingField _ => True
  | .arrayLength, .arrayLength => True
  | .arrayAdd, .arrayAdd => True
  | .stringLength, .stringLength => True
  | .host m, .host m' => m = m'
  | .extension m, .extension m' => m = m'
  | .dynamic, .dynamic => True
  | .noMember, .noMember => True
  | _, _ => False

theorem Agrees.refl (target : MemberTarget) : target.Agrees target := by
  cases target <;> simp only [Agrees]

theorem resolve_of_record {fields : OrderedMap String ShapeId} {origins : List NodeId}
    (hx : a.resolved x = .record fields origins) :
    resolve a types x name =
      if fields.contains name then .recordField (a.resolve x)
      else
        match types.extension? .record name with
        | some m => .extension m
        | none => .missingField (a.resolve x) := by
  cases hextension : types.extension? .record name <;> simp only [resolve, hx, hextension]

theorem resolve_eq_missingField (h : resolve a types x name = .missingField record) :
    record = a.resolve x ∧ types.extension? .record name = none ∧
      ∃ fields origins, a.resolved x = .record fields origins ∧ fields.contains name = false := by
  rw [resolve] at h
  cases hx : a.resolved x with
  | record fields origins =>
    simp only [hx] at h
    split at h
    · cases h
    next hname =>
      split at h
      · cases h
      next hnone =>
        cases h
        exact ⟨rfl, hnone, fields, origins, rfl, by simpa using hname⟩
  | concrete c => cases c <;> simp only [hx] at h <;> grind
  | array element origins =>
    simp only [hx] at h
    grind
  | _ =>
    simp only [hx] at h
    cases h

end MemberTarget

namespace Analysis

open Invariant MemberTarget

/-- A receiver that is no record is asked the same way in both arenas. -/
theorem resolve_of_akin (h : Akin (a.resolved x) (b.resolved x))
    (hnot : ∀ fields origins, a.resolved x ≠ .record fields origins) :
    resolve b types x name = resolve a types x name := by
  rw [resolve, resolve]
  generalize a.resolved x = before at h hnot
  generalize b.resolved x = after at h
  cases h with
  | same =>
    cases before with
    | record fields origins => exact absurd rfl (hnot fields origins)
    | concrete c => cases c <;> rfl
    | _ => rfl
  | record => exact absurd rfl (hnot _ _)
  | array | lambda => rfl

variable {ctx : Context} {bound : Nat} {s s' t : State} {K : List LayerId} {v : Access}

/-- How the member was reached. -/
def Access.target (ctx : Context) (v : Access) : MemberTarget :=
  resolve v.state.arena ctx.types v.receiver v.name

/-! ### Accesses while a body is analyzed -/

theorem Chain.problems (hc : Chain ctx bound s s') (hp : s'.problems = []) : s.problems = [] := by
  induction hc with
  | refl => exact hp
  | tail _ hc ih => exact ih (hc.problems hp)

/-- What is known of an access in a later state of the same analysis. A field that is missing is no
problem only if its record is frozen. -/
structure Access.Noted (ctx : Context) (v : Access) (t : State) : Prop where
  tidy : v.state.Tidy
  stack : v.state.stack ≠ []
  receiver : v.receiver < v.state.arena.shapes.size
  chain : Chain ctx (Layers.root + 1) v.state t
  marked : mark ctx v.state.stack t v.object v.receiver
  frozen : t.problems = [] → ∀ {record}, v.target ctx = .missingField record →
    v.state.arena.isFrozen record

theorem Access.Noted.later (h : v.Noted ctx s) (ht : s.Tidy)
    (hc : Chain ctx (Layers.root + 1) s s') : v.Noted ctx s' where
  tidy := h.tidy
  stack := h.stack
  receiver := h.receiver
  chain := h.chain.trans hc
  marked := hc.keeps (P := fun t => mark ctx v.state.stack t v.object v.receiver) ht
    (fun ht' hc' => mark_change ht' hc') h.marked
  frozen hp := h.frozen (hc.problems hp)

theorem isFrozen_of_memberShape {object : ShapeId} {span : Span}
    (hproblems : (memberShape object name (.missingField record) span s).2.problems = []) :
    s.arena.isFrozen record := by
  have hrun : memberShape object name (.missingField record) span s =
      (if !s.arena.isFrozen record then do
        report (.type (.noField name)) span
        return Arena.unknown
      else return Arena.unknown : Analyze ShapeId) s := by
    rw [memberShape]
    rfl
  cases hfrozen : s.arena.isFrozen record with
  | true => rfl
  | false =>
    rw [hrun, hfrozen] at hproblems
    cases (List.append_eq_nil_iff.mp hproblems).2

theorem memberCall_of_missingField {c : Node}
    (htarget : resolve s.arena ctx.types receiver name = .missingField record) :
    memberCall ctx c receiver name s = (do
      return MemberCall.value
        (← note c (← memberShape receiver name (.missingField record) c.span)) :
        Analyze MemberCall) s := by
  rw [memberCall, get_bind_run, htarget]
  rfl

namespace Tracing

/-- An access that was made is noted when its look-up has ended. -/
theorem noted_of_lookup (hbound : Layers.root + 1 ≤ bound) (h : (tracing ctx bound K).holds s)
    {object : Expr} (hreceiver : receiver < s.arena.shapes.size)
    (hmark : mark ctx K s object receiver) (hl : (tracing ctx bound K).leads s t)
    (hfrozen : t.problems = [] → ∀ {record},
      resolve s.arena ctx.types receiver name = .missingField record → s.arena.isFrozen record) :
    (⟨object, receiver, name, s⟩ : Access).Noted ctx t where
  tidy := h.sane.tidy
  stack := h.sane.stack.1
  receiver := hreceiver
  chain := hl.2.mono hbound
  marked := h.stack ▸ mark_later h hl hmark
  frozen := hfrozen

theorem noted_read (hbound : Layers.root + 1 ≤ bound) (h : (tracing ctx bound K).holds s)
    {e object : Expr} (hmem : .expr e ∈ ctx.script.pieces)
    (hreceiver : receiver < s.arena.shapes.size)
    (hmark : mark ctx K s object receiver) (name : String) (span : Span) :
    (⟨object, receiver, name, s⟩ : Access).Noted ctx
      ((do Analysis.record e.id (← placeShape ctx (.member receiver name) span) span) s).2 := by
  have hfinds : (tracing ctx bound K).Finds s (placeShape ctx (.member receiver name) span) :=
    (helps ctx bound K).runs_placeShape h (p := .member receiver name) hreceiver span
  have hrecord := leads_record hfinds.holds hmem hfinds.gives span
  refine noted_of_lookup hbound h hreceiver hmark
    ((tracing ctx bound K).trans hfinds.leads hrecord) fun hproblems record htarget => ?_
  have hrun : placeShape ctx (.member receiver name) span s =
      memberShape receiver name (resolve s.arena ctx.types receiver name) span s := rfl
  have hshape := hrecord.2.problems hproblems
  rw [hrun, htarget] at hshape
  exact isFrozen_of_memberShape hshape

theorem noted_called (hbound : Layers.root + 1 ≤ bound) (h : (tracing ctx bound K).holds s)
    {c : Node} {object : Expr} {span : Span}
    (hmem : .expr (.member c object name span) ∈ ctx.script.pieces)
    (hreceiver : receiver < s.arena.shapes.size) (hmark : mark ctx K s object receiver) :
    (⟨object, receiver, name, s⟩ : Access).Noted ctx (memberCall ctx c receiver name s).2 := by
  have hnote {s' : State} {x : ShapeId} (h' : (tracing ctx bound K).holds s')
      (hx : x < s'.arena.shapes.size) : (tracing ctx bound K).Finds s' (note c x) :=
    (does_record h' hmem hx (fits_of_isPlain rfl) c.span).bind fun _ _ h'' hl _ =>
      .pure h'' ((tracing ctx bound K).valid_of_leads hl hx)
  have hruns : (tracing ctx bound K).Runs s (memberCall ctx c receiver name)
      (tracing ctx bound K).Calls :=
    (helps ctx bound K).runs_memberCall_of h hnote receiver name
  refine noted_of_lookup hbound h hreceiver hmark hruns.leads fun hproblems record htarget => ?_
  rw [memberCall_of_missingField htarget] at hproblems
  have hshape := (helps ctx bound K).runs_memberShape h receiver name (.missingField record) c.span
  exact isFrozen_of_memberShape ((hnote hshape.holds hshape.gives).leads.2.problems hproblems)

/-- Accesses are noted in every body. -/
theorem watches_accesses (ctx : Context) :
    Watches ctx (Access.Noted ctx) accesses where
  lasting h _ hc hv := hv.later h.tidy hc
  sees hbound hpieces := {
    ident := fun _ _ _ _ _ _ hv => absurd hv List.not_mem_nil
    named := fun _ _ _ _ _ hv => absurd hv List.not_mem_nil
    member := fun n object name span o hmem h ho hmark v hv => by
      rw [List.mem_singleton.mp hv]
      exact noted_read hbound h (hpieces hmem) ho hmark name n.span
    index := fun _ _ _ _ _ _ _ _ _ _ hv => absurd hv List.not_mem_nil
    callee := fun c object name span o hmem h ho hmark v hv => by
      rw [List.mem_singleton.mp hv]
      exact noted_called hbound h (hpieces hmem) ho hmark
    stepped := fun target p hmem h hplace v hv => by
      dsimp only [accesses] at hv
      split at hv
      next =>
        obtain ⟨_, _, _, heq, hmark⟩ := hplace.member rfl
        cases heq
        rw [List.mem_singleton.mp hv]
        exact noted_read hbound h (hpieces hmem) hplace.reaches hmark _ _
      next => cases hv }

end Tracing

/-! ### What stays of an access -/

/-- The receiver of an access still leads to what it led to, of the same kind, and a record that was
not merged into another one has the fields that it had. -/
structure Access.Stands (v : Access) (t : State) : Prop where
  receiver : v.receiver < t.arena.shapes.size
  follows : t.arena.resolve v.receiver = t.arena.resolve (v.state.arena.resolve v.receiver)
  akin : Akin (v.state.arena.resolved v.receiver) (t.arena.resolved v.receiver)
  record : ∀ {fields origins}, v.state.arena.resolved v.receiver = .record fields origins →
    (∃ fields' origins', t.arena.get (v.state.arena.resolve v.receiver) = .record fields' origins' ∧
      fields.keys ⊆ fields'.keys) ∨
      ∃ next, t.arena.get (v.state.arena.resolve v.receiver) = .forward next

/-- A record has at least the fields that it had, or it was forwarded. -/
theorem Change.record_after (h : Change ctx bound s s') {fields : OrderedMap String ShapeId}
    {origins : List NodeId} (hi : s.arena.get i = .record fields origins) :
    (∃ fields' origins', s'.arena.get i = .record fields' origins' ∧ fields.keys ⊆ fields'.keys) ∨
      ∃ next, s'.arena.get i = .forward next := by
  have hlt : i < s.arena.shapes.size := Arena.lt_size_of_get (by rw [hi]; exact Shape.noConfusion)
  cases h.slot i with
  | same heq => exact .inl ⟨fields, origins, heq.trans hi, List.Subset.refl _⟩
  | edits he => exact he.record_after hi
  | new heq _ => exact absurd heq (Nat.ne_of_lt hlt)
  | lambda hl _ _ => cases hi.symm.trans hl

theorem Change.forward_after (h : Change ctx bound s s') {next : ShapeId}
    (hi : s.arena.get i = .forward next) : s'.arena.get i = .forward next := by
  have hlt : i < s.arena.shapes.size := Arena.lt_size_of_get (by rw [hi]; exact Shape.noConfusion)
  rw [(h.slot i).get_eq hlt (by rw [hi]; rfl) (by rw [hi]; exact fun _ => Shape.noConfusion), hi]

theorem Change.record_of_frozen (h : Change ctx bound s s') (hfrozen : i < s.arena.frozenBelow)
    {fields : OrderedMap String ShapeId} {origins : List NodeId}
    (hi : s.arena.get i = .record fields origins) : s'.arena.get i = .record fields origins := by
  have hlt : i < s.arena.shapes.size := Arena.lt_size_of_get (by rw [hi]; exact Shape.noConfusion)
  cases h.slot i with
  | same heq => exact heq.trans hi
  | edits he => exact (he.get_of_frozen hfrozen).trans hi
  | new heq _ => exact absurd heq (Nat.ne_of_lt hlt)
  | lambda hl _ _ => cases hi.symm.trans hl

theorem Access.Stands.change (h : v.Stands s) (ht : s.Tidy) (hc : Change ctx bound s s') :
    v.Stands s' where
  receiver := Nat.lt_of_lt_of_le h.receiver hc.size_le
  follows := by
    have hafter := (hc.preserves ht.tied).follows
    rw [hafter v.receiver, h.follows, ← hafter]
  akin := h.akin.trans (hc.akin ht.tied h.receiver)
  record hr := by
    rcases h.record hr with ⟨fields', origins', hget, hkeys⟩ | ⟨next, hget⟩
    · rcases hc.record_after hget with ⟨fields'', origins'', hget', hkeys'⟩ | hforward
      · exact .inl ⟨fields'', origins'', hget', List.Subset.trans hkeys hkeys'⟩
      · exact .inr hforward
    · exact .inr ⟨next, hc.forward_after hget⟩

theorem Access.lasts_stands (ctx : Context) (v : Access) : Lasts ctx v.Stands where
  change ht hc h := h.change ht hc
  bounds {s} n m h := by
    have hshapes := shapes_bounded s n m
    have hget (i : ShapeId) : (s.bounded n m).arena.get i = s.arena.get i :=
      Arena.get_of_shapes hshapes i
    have hresolve (i : ShapeId) : (s.bounded n m).arena.resolve i = s.arena.resolve i :=
      Arena.resolve_of_shapes hshapes i
    refine ⟨h.receiver, ?_, ?_, fun hr => ?_⟩
    · rw [hresolve, hresolve]
      exact h.follows
    · rw [Arena.resolved, Arena.resolved, hresolve, hget]
      exact h.akin
    · rw [hget]
      exact h.record hr

theorem lasts_mark (ctx : Context) (K : List LayerId) (e : Expr) (x : ShapeId) :
    Lasts ctx fun t => mark ctx K t e x where
  change ht hc h := mark_change ht hc h
  bounds n m h hids hproblems layer hlast := (h hids hproblems layer hlast).bounded n m

theorem Lasts.and {P Q : State → Prop} (hP : Lasts ctx P) (hQ : Lasts ctx Q) :
    Lasts ctx fun t => P t ∧ Q t where
  change ht hc h := ⟨hP.change ht hc h.1, hQ.change ht hc h.2⟩
  bounds n m h := ⟨hP.bounds n m h.1, hQ.bounds n m h.2⟩

/-- The shape of the object is on record, and the receiver still stands. -/
def Access.Kept (ctx : Context) (v : Access) (t : State) : Prop :=
  v.Stands t ∧ mark ctx v.state.stack t v.object v.receiver

theorem Access.lasts_kept (ctx : Context) (v : Access) : Lasts ctx (v.Kept ctx) :=
  (v.lasts_stands ctx).and (lasts_mark ctx _ _ _)

theorem Access.Noted.kept (h : v.Noted ctx t) : v.Kept ctx t := by
  refine ⟨h.chain.keeps (P := v.Stands) h.tidy (fun ht hc hv => hv.change ht hc) ?_, h.marked⟩
  refine ⟨h.receiver, ?_, .same _, fun hr => .inl ⟨_, _, hr, List.Subset.refl _⟩⟩
  exact (h.tidy.tied.grounded.resolve_resolve v.receiver).symm

/-- A field that was missing is still missing, in a record that was not touched. -/
def Access.Lacks (ctx : Context) (v : Access) (t : State) : Prop :=
  t.problems = [] → ∀ {record}, v.target ctx = .missingField record →
    ∃ fields origins, t.arena.get record = .record fields origins ∧ fields.contains v.name = false

theorem Access.Noted.lacks (h : v.Noted ctx t) : v.Lacks ctx t := by
  intro hproblems record htarget
  obtain ⟨rfl, _, fields, origins, hget, hname⟩ := resolve_eq_missingField htarget
  have hfrozen := h.frozen hproblems htarget
  rw [Arena.isFrozen, h.tidy.tied.grounded.resolve_resolve, decide_eq_true_eq] at hfrozen
  refine ⟨fields, origins, ?_, hname⟩
  -- The bound below which shapes are frozen stays, too.
  exact (h.chain.keeps (P := fun t => t.arena.frozenBelow = v.state.arena.frozenBelow ∧
      t.arena.get (v.state.arena.resolve v.receiver) = .record fields origins) h.tidy
    (fun _ hc hP => ⟨hc.frozenBelow_eq.trans hP.1, hc.record_of_frozen (hP.1 ▸ hfrozen) hP.2⟩)
    ⟨rfl, hget⟩).2

theorem Access.Lacks.untouched (h : v.Lacks ctx s) (hs : s.Untouched t)
    (hproblems : t.problems = [] → s.problems = []) : v.Lacks ctx t := by
  intro hp record htarget
  obtain ⟨fields, origins, hget, hname⟩ := h (hproblems hp) htarget
  exact ⟨fields, origins, hs.record hget, hname⟩

/-! ### Passes -/

theorem State.Untouched.refl (s : State) : s.Untouched s :=
  ⟨id, id, id, id⟩

theorem State.Untouched.trans {u : State} (h : s.Untouched t) (h' : t.Untouched u) :
    s.Untouched u :=
  ⟨fun hs => h'.record (h.record hs), fun hs => h'.array (h.array hs),
    fun hs => h'.concrete (h.concrete hs), fun hs => h'.entry (h.entry hs)⟩

theorem lasts_problems (ctx : Context) (s : State) :
    Lasts ctx fun t => t.problems = [] → s.problems = [] where
  change _ hc h hp := h (hc.problems hp)
  bounds _ _ h := h

namespace Tracing

theorem analyzeGeneric_untouched (h : Between ctx s) (method : ShapeId) :
    s.Untouched (analyzeGeneric ctx method s).2 := by
  have hfrozen : Between ctx s.frozen := holds_bounded h _ _
  have hentered := enters_enterLambda ctx ctx.script.lambdas.length method none hfrozen
    fun p hp => absurd hp List.not_mem_nil
  have hguards := State.guards_of_chain hentered.leads.2
  have huntouched : s.Untouched (enter ctx method none s.frozen).2 :=
    ⟨hguards.record, hguards.array, hguards.concrete, hguards.entry⟩
  exact huntouched.generic method _ rfl rfl

/-- The loop over the pending lambdas touches nothing that is there when it starts. -/
theorem drain_untouched (h : Between ctx s) (budget : Nat) :
    s.Untouched (drain ctx budget s).2 := by
  induction budget generalizing s with
  | zero => exact .refl s
  | succ budget ih =>
    cases hp : s.pending with
    | nil =>
      rw [drain_of_empty hp]
      exact .refl s
    | cons method rest =>
      have hbetween := between_pending h rest
      have hfirst := analyzeGeneric_untouched hbetween method
      have hnext := (analyzeGeneric_keeps (lasts_problems ctx s) hbetween id method).1.between
      rw [drain_of_cons hp]
      exact (⟨hfirst.record, hfirst.array, hfirst.concrete, hfirst.entry⟩ : s.Untouched _).trans
        (ih hnext)

/-- What is known of an access after the loop over the pending lambdas, if it is known before. -/
theorem drain_knows (h : Between ctx s) (hkept : v.Kept ctx s) (hlacks : v.Lacks ctx s)
    (budget : Nat) : v.Kept ctx (drain ctx budget s).2 ∧ v.Lacks ctx (drain ctx budget s).2 :=
  ⟨(drain_keeps (v.lasts_kept ctx) h hkept budget).2,
    hlacks.untouched (drain_untouched h budget) (drain_keeps (lasts_problems ctx s) h id budget).2⟩

theorem drain_accesses (h : Between ctx s) (budget : Nat) (hv : v ∈ accesses.drained ctx budget s) :
    v.state.stack ≠ [] ∧ v.Kept ctx (drain ctx budget s).2 ∧
      v.Lacks ctx (drain ctx budget s).2 := by
  induction budget generalizing s with
  | zero => cases hv
  | succ budget ih =>
    rw [Lookout.drained] at hv
    cases hp : s.pending with
    | nil =>
      rw [hp] at hv
      cases hv
    | cons method rest =>
      simp only [hp] at hv
      rw [drain_of_cons hp]
      have hbetween := between_pending h rest
      let frozen := State.frozen { s with pending := rest }
      have hfrozen : Between ctx frozen := holds_bounded hbetween _ _
      rcases List.mem_append.mp hv with hv | hv
      · have hnoted : v.Noted ctx (enter ctx method none frozen).2 :=
          (watches_accesses ctx).tells _ method none (Nat.le_refl _) hfrozen
            (fun p hp => absurd hp List.not_mem_nil) v hv
        have hnext := analyzeGeneric_keeps_of_entered (v.lasts_kept ctx) hbetween method hnoted.kept
        have hlacks : v.Lacks ctx (analyzeGeneric ctx method { s with pending := rest }).2 :=
          hnoted.lacks.untouched ((State.Untouched.refl _).generic method _ rfl rfl) id
        exact ⟨hnoted.stack, drain_knows hnext.1.between hnext.2 hlacks budget⟩
      · exact ih (analyzeGeneric_keeps (lasts_problems ctx s) hbetween id method).1.between hv

theorem pass_accesses {widening : Widening} (budget : Nat)
    (hv : v ∈ passAccesses ctx budget widening) :
    v.state.stack ≠ [] ∧ v.Kept ctx (pass ctx budget (.start widening)).2 ∧
      v.Lacks ctx (pass ctx budget (.start widening)).2 := by
  have hwalked := (runs_walked ctx widening).1
  have hdrained : v.state.stack ≠ [] ∧ v.Kept ctx (drain ctx budget (.walked ctx widening)).2 ∧
      v.Lacks ctx (drain ctx budget (.walked ctx widening)).2 := by
    rcases List.mem_append.mp hv with hv | hv
    · have hnoted := (watches_accesses ctx).walked hv
      exact ⟨hnoted.stack, drain_knows hwalked hnoted.kept hnoted.lacks budget⟩
    · exact drain_accesses hwalked budget hv
  have hc : Change ctx (Layers.root + 1) (drain ctx budget (.walked ctx widening)).2
      (pass ctx budget (.start widening)).2 := .aside rfl rfl rfl rfl rfl rfl id
  have hafter := (drain_keeps (lasts_problems ctx (.walked ctx widening)) hwalked id budget).1
  exact ⟨hdrained.1, (v.lasts_kept ctx).change hafter.between.sane.tidy hc hdrained.2.1,
    hdrained.2.2⟩

end Tracing

/-! ### Look-ups at the end -/

/-- No record comes between an access and the end of an analysis. The record of a field that was
found was not merged into another one, or the field is still there. Where an extension function was
found in place of a field, the script writes no field of that name, or at least the record did not
get it. -/
def Access.Undisturbed (ctx : Context) (v : Access) (a : Arena) : Prop :=
  ∀ fields origins, v.state.arena.resolved v.receiver = .record fields origins →
    if fields.contains v.name then
      (∀ next, a.get (v.state.arena.resolve v.receiver) ≠ .forward next) ∨
        (a.field? v.receiver v.name).isSome
    else
      (ctx.types.extension? .record v.name).isSome →
        v.name ∉ ctx.script.fieldNames ∨ a.field? v.receiver v.name = none

theorem Access.Stands.resolved_of_data (h : v.Stands t) {shape : Shape}
    (hlink : shape.isLink = false) (hget : t.arena.get (v.state.arena.resolve v.receiver) = shape) :
    t.arena.resolved v.receiver = shape := by
  rw [Arena.resolved, h.follows, Arena.resolve_of_data (by rw [hget]; exact hlink), hget]

theorem Access.Stands.record_after (h : v.Stands t) {fields : OrderedMap String ShapeId}
    {origins : List NodeId} (hr : v.state.arena.resolved v.receiver = .record fields origins) :
    ∃ fields' origins', t.arena.resolved v.receiver = .record fields' origins' := by
  have hakin := h.akin
  rw [hr] at hakin
  generalize t.arena.resolved v.receiver = after at hakin
  cases hakin <;> exact ⟨_, _, rfl⟩

theorem contains_iff_mem_keys {fields : OrderedMap String ShapeId} :
    fields.contains name = true ↔ name ∈ fields.keys := by
  rw [OrderedMap.contains, OrderedMap.get?, Option.isSome_iff_ne_none, Ne,
    OrderedMap.lookup_eq_none]
  simp [OrderedMap.keys]

theorem isSome_field? {fields : OrderedMap String ShapeId} {origins : List NodeId}
    (hx : a.resolved x = .record fields origins) :
    (a.field? x name).isSome = fields.contains name := by
  rw [Arena.field?, hx]
  rfl

namespace Access

variable {fields fields' : OrderedMap String ShapeId} {origins origins' : List NodeId}

section

variable (hr : v.state.arena.resolved v.receiver = .record fields origins)

include hr

theorem undisturbed_of_field (hname : fields.contains v.name = true) : v.Undisturbed ctx a ↔
      (∀ next, a.get (v.state.arena.resolve v.receiver) ≠ .forward next) ∨
        (a.field? v.receiver v.name).isSome := by
  rw [Undisturbed]
  refine ⟨fun h => by simpa only [hname, if_true] using h fields origins hr,
    fun h fields₁ origins₁ hr₁ => ?_⟩
  cases hr.symm.trans hr₁
  rwa [if_pos hname]

theorem undisturbed_of_no_field (hname : fields.contains v.name = false) : v.Undisturbed ctx a ↔
      ((ctx.types.extension? .record v.name).isSome →
        v.name ∉ ctx.script.fieldNames ∨ a.field? v.receiver v.name = none) := by
  rw [Undisturbed]
  refine ⟨fun h => by simpa only [hname, Bool.false_eq_true, if_false] using h fields origins hr,
    fun h fields₁ origins₁ hr₁ => ?_⟩
  cases hr.symm.trans hr₁
  rwa [if_neg (by rw [hname]; exact Bool.false_ne_true)]

variable (hr' : t.arena.resolved v.receiver = .record fields' origins')

include hr'

/-- A record that was not merged into another one has the field. -/
theorem Stands.contains_of_unmerged (h : v.Stands t) (hname : fields.contains v.name = true)
    (hkept : ∀ next, t.arena.get (v.state.arena.resolve v.receiver) ≠ .forward next) :
    fields'.contains v.name = true := by
  rcases h.record hr with ⟨_, _, hget, hkeys⟩ | ⟨next, hget⟩
  · cases hr'.symm.trans (h.resolved_of_data rfl hget)
    exact contains_iff_mem_keys.mpr (hkeys (contains_iff_mem_keys.mp hname))
  · exact absurd hget (hkept next)

/-- A field that was found is found at the end if and only if the access was undisturbed. -/
theorem agrees_iff_of_field (hstands : v.Stands t) (hname : fields.contains v.name = true) :
    (v.target ctx).Agrees (resolve t.arena ctx.types v.receiver v.name) ↔
      v.Undisturbed ctx t.arena := by
  rw [undisturbed_of_field hr hname, isSome_field? hr', target, resolve_of_record hr,
    resolve_of_record hr', if_pos hname]
  cases hfinal : fields'.contains v.name with
  | true => exact ⟨fun _ => .inr rfl, fun _ => trivial⟩
  | false =>
    rw [if_neg Bool.false_ne_true]
    refine ⟨fun h => ?_, fun h => ?_⟩
    · split at h <;> cases h
    · rcases h with hkept | hfound
      · have hcontains := hstands.contains_of_unmerged hr hr' hname hkept
        rw [hfinal] at hcontains
        cases hcontains
      · cases hfound

/-- An extension function, or nothing, that was found in place of a field is found at the end if and
only if the access was undisturbed. -/
theorem agrees_iff_of_no_field (hstands : v.Stands t) (hlacks : v.Lacks ctx t)
    (hproblems : t.problems = []) (hnamed : t.Traced ctx) (hname : fields.contains v.name = false) :
    (v.target ctx).Agrees (resolve t.arena ctx.types v.receiver v.name) ↔
      v.Undisturbed ctx t.arena := by
  have hsome : (t.arena.field? v.receiver v.name).isSome = fields'.contains v.name :=
    isSome_field? hr'
  have htarget : v.target ctx = match ctx.types.extension? .record v.name with
      | some m => .extension m
      | none => .missingField (v.state.arena.resolve v.receiver) := by
    rw [target, resolve_of_record hr, if_neg (by rw [hname]; exact Bool.false_ne_true)]
  rw [undisturbed_of_no_field hr hname, resolve_of_record hr']
  cases hfinal : fields'.contains v.name with
  | false =>
    have hnone : t.arena.field? v.receiver v.name = none := by
      rw [← Option.not_isSome_iff_eq_none, hsome, hfinal]
      exact Bool.false_ne_true
    refine ⟨fun _ _ => .inr hnone, fun _ => ?_⟩
    rw [htarget]
    split
    · rfl
    · trivial
  | true =>
    cases hextension : ctx.types.extension? .record v.name with
    | some m =>
      rw [htarget, hextension]
      refine ⟨fun h => absurd h id, fun h => ?_⟩
      rcases h rfl with hwritten | hnone
      · exact absurd (hnamed.named hr' v.name (contains_iff_mem_keys.mp hfinal)) hwritten
      · rw [hnone, hfinal] at hsome
        cases hsome
    | none =>
      -- The record was frozen when the field was missing, so it cannot have got it.
      obtain ⟨_, _, hget, hmissing⟩ := hlacks hproblems (htarget.trans (by rw [hextension]))
      cases hr'.symm.trans (hstands.resolved_of_data rfl hget)
      rw [hfinal] at hmissing
      cases hmissing

end

/-- A member is found in the same way at the end if and only if the access was undisturbed. -/
theorem agrees_iff (hstands : v.Stands t) (hlacks : v.Lacks ctx t) (hproblems : t.problems = [])
    (hnamed : t.Traced ctx) :
    (v.target ctx).Agrees (resolve t.arena ctx.types v.receiver v.name) ↔
      v.Undisturbed ctx t.arena := by
  by_cases hrecord : ∃ fields origins, v.state.arena.resolved v.receiver = .record fields origins
  · obtain ⟨fields, origins, hr⟩ := hrecord
    obtain ⟨fields', origins', hr'⟩ := hstands.record_after hr
    cases hname : fields.contains v.name with
    | true => exact agrees_iff_of_field hr hr' hstands hname
    | false => exact agrees_iff_of_no_field hr hr' hstands hlacks hproblems hnamed hname
  · have hnot (fields : OrderedMap String ShapeId) (origins : List NodeId) :
        v.state.arena.resolved v.receiver ≠ .record fields origins := fun hr => hrecord ⟨_, _, hr⟩
    rw [resolve_of_akin hstands.akin hnot]
    exact ⟨fun _ fields origins hr => absurd hr (hnot fields origins), fun _ => .refl _⟩

end Access

theorem Tracing.traced_pass (ctx : Context) (budget : Nat) (widening : Widening) :
    (pass ctx budget (.start widening)).2.Traced ctx :=
  (after_start ctx budget widening).between.traced

end Analysis

open Analysis in
/-- At the end of an analysis without problems, the object of every access has the shape on record
with which its member was looked up. When code is generated the member is reached in the way in
which it was reached then, if and only if the access was undisturbed. -/
theorem Script.targets_agree_iff {source : String} {script : Script}
    (hparse : Engine.parse source = .ok script) {types : Registry} {options : Options}
    {input : Option HostTypeId} {budget : Nat} {a : Analysis}
    (hanalyze : script.analyze types options input budget = some (.ok a)) :
    let ctx : Context := { types, options, input, script }
    ∃ number widening, ofState ctx number (pass ctx budget (.start widening)).2 = .ok a ∧
      ∀ v ∈ passAccesses ctx budget widening,
        ∃ layer, v.state.stack.getLast? = some layer ∧
          a.layers.get? layer v.object.id = some v.receiver ∧
          ∀ b : Body, b.analysis = a → b.types = types → b.stack.getLast? = some layer →
            ((v.target ctx).Agrees (Generate.target b v.object.id v.name) ↔
              v.Undisturbed ctx a.arena) := by
  intro ctx
  obtain ⟨number, widening, _, hof⟩ := settle_eq_ok hanalyze
  obtain ⟨hproblems, harena, hlayers, _⟩ := ofState_eq_ok hof
  have hids : ctx.script.ids.Nodup := Engine.nodup_ids hparse
  refine ⟨number, widening, hof, fun v hv => ?_⟩
  obtain ⟨hstack, ⟨hstands, hmark⟩, hlacks⟩ := Tracing.pass_accesses budget hv
  obtain ⟨layer, hlast⟩ := Option.ne_none_iff_exists'.mp (mt List.getLast?_eq_none_iff.mp hstack)
  have hentry : a.layers.get? layer v.object.id = some v.receiver :=
    hlayers ▸ (hmark hids hproblems layer hlast).entry
  refine ⟨layer, hlast, hentry, ?_⟩
  rintro b rfl rfl hb
  have hshape : b.shape v.object.id = v.receiver := by
    rw [Body.shape, Analysis.shape, Layers.shape?_of_last hb hentry]
    rfl
  rw [Generate.target, hshape, harena]
  exact Access.agrees_iff hstands hlacks hproblems (Tracing.traced_pass ctx budget widening)

/-- A function `x` for records. -/
def marking : TypeDescriptor where
  name := "Marking"
  dataType := "Marking"
  members := [{ name := "x", isStatic := true, kind := .function [.record] .bool, code := 0 }]

/-- An engine that has the function `x` for records. -/
def Engine.withMarking : Engine :=
  (Engine.registerExtension marking (Engine.new {})).2

open Analysis in
/-- An extension function of a record that is called in the script and in a lambda, and a field that
is read, stepped and called. -/
theorem Script.targets_agree_iff_marking :
    ∃ script a, Engine.parse "var r = { a: 1, f: () => true }; var g = (p) => p.x() && p.f();
        r.a++; if (r.x() && g(r)) { return r.a; } return [r].length;" = .ok script ∧
      script.analyze Engine.withMarking.registry {} none 2 = some (.ok a) ∧
      let ctx : Context :=
        { types := Engine.withMarking.registry, options := {}, input := none, script }
      ∃ number widening, ofState ctx number (pass ctx 2 (.start widening)).2 = .ok a ∧
        ∀ v ∈ passAccesses ctx 2 widening,
          ∃ layer, v.state.stack.getLast? = some layer ∧
            a.layers.get? layer v.object.id = some v.receiver ∧
            ∀ b : Body, b.analysis = a → b.types = ctx.types → b.stack.getLast? = some layer →
              ((v.target ctx).Agrees (Generate.target b v.object.id v.name) ↔
                v.Undisturbed ctx a.arena) := by
  obtain ⟨script, a, hparse, hanalyze, _⟩ := Engine.exists_analyzed
    "var r = { a: 1, f: () => true }; var g = (p) => p.x() && p.f();
        r.a++; if (r.x() && g(r)) { return r.a; } return [r].length;" Engine.withMarking.registry 2
    (fun _ _ => true) (by decide +kernel)
  exact ⟨script, a, hparse, hanalyze, Script.targets_agree_iff hparse hanalyze⟩

open Analysis in
/-- An extension function was found, and a record that comes later brings a field of its name. Code
is generated for the field. -/
theorem Script.extension_lost_of_merged :
    ∃ script a, Engine.parse
        "var r = { a: true }; var s = { x: true }; var y = r.x(); r = s; return y;" = .ok script ∧
      script.analyze Engine.withMarking.registry {} none 1 = some (.ok a) ∧
      a.arena.unstable = false ∧ a.passes = 1 ∧
      let ctx : Context :=
        { types := Engine.withMarking.registry, options := {}, input := none, script }
      ∃ v ∈ passAccesses ctx 1 {}, ∃ m record, v.target ctx = .extension m ∧
        MemberTarget.resolve a.arena ctx.types v.receiver v.name = .recordField record := by
  obtain ⟨script, a, hparse, hanalyze, hcheck⟩ := Engine.exists_analyzed
    "var r = { a: true }; var s = { x: true }; var y = r.x(); r = s; return y;"
    Engine.withMarking.registry 1 (fun script a =>
      let ctx : Context :=
        { types := Engine.withMarking.registry, options := {}, input := none, script }
      !a.arena.unstable && a.passes == 1 && (passAccesses ctx 1 {}).any fun v =>
        match v.target ctx, MemberTarget.resolve a.arena ctx.types v.receiver v.name with
        | .extension _, .recordField _ => true
        | _, _ => false) (by decide +kernel)
  simp only [Bool.and_eq_true, Bool.not_eq_true', beq_iff_eq, List.any_eq_true] at hcheck
  obtain ⟨⟨hstable, hpasses⟩, v, hv, hlost⟩ := hcheck
  split at hlost
  next m record hbefore hafter =>
    exact ⟨script, a, hparse, hanalyze, hstable, hpasses, v, hv, m, record, hbefore, hafter⟩
  next => cases hlost

end HostScript
