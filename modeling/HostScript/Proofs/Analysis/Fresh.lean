import HostScript.Proofs.Analysis.Tracing
import HostScript.Proofs.Analysis.Visits
import HostScript.Proofs.Script.Numbering

/-!
# Fresh reads

What a read found is recorded for its node. It is fresh while the place that was read still has the
same shape. Main statement: in the answer of a settled analysis every read of a variable is fresh,
and every read of a field or element whose record or array was not merged into another one.
-/

namespace HostScript

variable {place : Place} {object key : ShapeId}

namespace Analysis

variable {ctx : Context} {s s' s'' : State} {x : ShapeId} {node : NodeId} {bound : Nat}
  {K : List LayerId}

/-! ### Reads -/

/-- The shape recorded for a node by a visit. -/
def State.Records (s s' : State) (node : NodeId) (x : ShapeId) : Prop :=
  ∃ top, s.stack.getLast? = some top ∧ s'.layers.get? top node = some x

/-- A place that was read in one state has the same shape in a later one, and the read was noted. -/
def Place.Still (s s' : State) (x : ShapeId) : Place → Prop
  | .local symbol => ∀ layer, s.layers.find? s.stack symbol.node = some layer →
      s'.layers.get? layer symbol.node = some x ∧ (layer, symbol.node) ∈ s'.declarationReads
  | .member object name =>
    (∃ u, s'.arena.get (s.arena.resolve object) = .forward u) ∨
      s'.arena.ReadField (s.arena.resolve object) name x
  | .index object _ =>
    (∃ u, s'.arena.get (s.arena.resolve object) = .forward u) ∨
      s'.arena.ReadElement (s.arena.resolve object) x
  | .input _ | .invalid => True

/-- The place is there when it is read. -/
def Place.Exists (s : State) : Place → Prop
  | .local symbol => ∃ layer, s.layers.find? s.stack symbol.node = some layer
  | .member object name => ∃ x, s.arena.field? object name = some x
  | .index object _ => ∃ x, s.arena.element? object = some x
  | .input _ | .invalid => False

/-- What a read found is what the place still has, unless the analysis failed or is to be
repeated. -/
def Visit.Fresh (ctx : Context) : Visit → State → Prop
  | .name .., _ => True
  | .read node place s, s' => ¬ ctx.Keeps node ∧ (place.Exists s → s'.problems = [] →
      s'.arena.unstable = false → ∃ x, s.Records s' node x ∧ place.Still s s' x)

theorem Place.Still.later (hstill : place.Still s s' x) (h : s'.Stands ctx s'')
    (hstable : s''.arena.unstable = false) : place.Still s s'' x := by
  cases place with
  | «local» symbol =>
    intro layer hlayer
    obtain ⟨hget, hread⟩ := hstill layer hlayer
    obtain ⟨y, hy, _, hkept⟩ := h.layers hget
    rcases hkept hread with rfl | hunstable
    · exact ⟨hy, h.reads hread⟩
    · rw [hunstable] at hstable
      cases hstable
  | member object name =>
    rcases hstill with ⟨u, hu⟩ | hfield
    · exact .inl ⟨u, h.arena.forward hu⟩
    · exact h.arena.readField hfield hstable
  | index object key =>
    rcases hstill with ⟨u, hu⟩ | helement
    · exact .inl ⟨u, h.arena.forward hu⟩
    · exact h.arena.readElement helement hstable
  | input _ | invalid => trivial

theorem State.Stands.stable (h : s'.Stands ctx s'') (hstable : s''.arena.unstable = false) :
    s'.arena.unstable = false := by
  cases hunstable : s'.arena.unstable with
  | false => rfl
  | true => exact absurd (h.arena.unstable hunstable) (by rw [hstable]; exact Bool.false_ne_true)

theorem Visit.Fresh.later {v : Visit} (hfresh : v.Fresh ctx s') (hsane : s'.Sane)
    (hleads : (standing ctx).leads s' s'') : v.Fresh ctx s'' := by
  have h := (hleads.2 hsane).2
  cases v with
  | name => trivial
  | read node place s =>
    refine ⟨hfresh.1, fun hplace hproblems hstable => ?_⟩
    obtain ⟨x, ⟨top, htop, hget⟩, hstill⟩ :=
      hfresh.2 hplace (h.problems hproblems) (h.stable hstable)
    obtain ⟨y, hy, hkept, _⟩ := h.layers hget
    cases hkept hfresh.1
    exact ⟨x, ⟨top, htop, hy⟩, hstill.later h hstable⟩

/-! ### A single read -/

theorem fresh_record {t : State} (h : (standing ctx).holds t) (hstack : t.stack = s.stack)
    (hx : x < t.arena.shapes.size) (hstill : place.Still s t x) (span : Span)
    (hproblems : (record node x span t).2.problems = [])
    (hstable : (record node x span t).2.arena.unstable = false) :
    ∃ x', s.Records (record node x span t).2 node x' ∧ place.Still s (record node x span t).2 x' := by
  have hstands := (State.record_stands ctx h.1 node span hx).2
  obtain ⟨top, htop⟩ := Option.isSome_iff_exists.mp (List.getLast?_isSome.mpr h.1.stack.1)
  refine ⟨x, ⟨top, hstack ▸ htop, ?_⟩, hstill.later hstands hstable⟩
  exact Tracing.get?_record (h.1.stack.2 top (List.mem_of_getLast? htop)) htop hproblems

theorem still_readSymbol {symbol : Symbol} {layer : LayerId} (span : Span)
    (hlayer : s.layers.find? s.stack symbol.node = some layer) :
    (Place.local symbol).Still s (placeShape ctx (.local symbol) span s).2
      (placeShape ctx (.local symbol) span s).1 := by
  intro other hother
  cases hlayer.symm.trans hother
  have hfound := List.find?_some hlayer
  obtain ⟨x, hx⟩ := Option.isSome_iff_exists.mp hfound
  have hrun : placeShape ctx (.local symbol) span s = readSymbol symbol s := rfl
  have hshape : s.layers.shape? s.stack symbol.node = some x := by
    rw [Layers.shape?, hlayer]
    exact hx
  rw [hrun, readSymbol_run, hshape, State.noteUse_eq]
  refine ⟨hx, ?_⟩
  simp only [State.noteRead, hlayer]
  exact List.mem_insert_self

theorem field?_eq_some {a : Arena} {record : ShapeId} {name : String}
    (h : a.field? record name = some x) : ∃ fields origins,
      a.get (a.resolve record) = .record fields origins ∧ fields.get? name = some x := by
  rw [Arena.field?, Arena.resolved] at h
  split at h
  next fields origins hget => exact ⟨fields, origins, hget, h⟩
  next => cases h

theorem element?_eq_some {a : Arena} {array : ShapeId} (h : a.element? array = some x) :
    ∃ origins, a.get (a.resolve array) = .array x origins := by
  rw [Arena.element?, Arena.resolved] at h
  split at h
  next element origins hget =>
    cases h
    exact ⟨origins, hget⟩
  next => cases h

theorem memberShape_of_field {name : String} (h : s.arena.Sound)
    (hx : s.arena.field? object name = some x) (span : Span) :
    placeShape ctx (.member object name) span s =
      (x, { s with arena := (s.arena.readField (s.arena.resolve object) name).2 }) := by
  obtain ⟨fields, origins, hget, hname⟩ := field?_eq_some hx
  have htarget : MemberTarget.resolve s.arena ctx.types object name =
      .recordField (s.arena.resolve object) := by
    have hcontains : fields.contains name = true := by
      rw [OrderedMap.contains, hname]
      rfl
    rw [MemberTarget.resolve, Arena.resolved, hget]
    exact if_pos hcontains
  have hrun : placeShape ctx (.member object name) span s =
      memberShape object name (MemberTarget.resolve s.arena ctx.types object name) span s := rfl
  have hfound : (s.arena.readField (s.arena.resolve object) name).1 = some x := by
    rw [Arena.readField_fst, Arena.field?, Arena.resolved, h.grounded.resolve_resolve, hget]
    exact hname
  rw [hrun, htarget]
  show ((s.arena.readField (s.arena.resolve object) name).1.getD Arena.unknown, _) = _
  rw [hfound]
  rfl

theorem still_readField {name : String} (h : s.Sane) (hx : s.arena.field? object name = some x) :
    (Place.member object name).Still s
      { s with arena := (s.arena.readField (s.arena.resolve object) name).2 } x := by
  obtain ⟨fields, origins, hget, hname⟩ := field?_eq_some hx
  obtain ⟨o, ho⟩ := h.rooted.record hget
  have hresolved : s.arena.resolved (s.arena.resolve object) = .record fields origins := by
    rw [Arena.resolved, h.sound.grounded.resolve_resolve, hget]
  refine .inr ⟨fields, origins, o, ?_, hname, ho, Arena.mem_fieldReads_readField hresolved ho⟩
  rw [Arena.readField, hresolved]
  exact hget

/-- A check of a key changes nothing but the problems. -/
theorem checkArrayIndex_state (key : ShapeId) (span : Span) (s : State) :
    (checkArrayIndex key span s).2 =
      { s with problems := (checkArrayIndex key span s).2.problems } := by
  rw [checkArrayIndex, get_bind_run]
  split <;> rfl

theorem indexShape_of_element (hx : s.arena.element? object = some x) (span : Span) :
    placeShape ctx (.index object key) span s =
      (x, { (checkArrayIndex key span s).2 with arena := (s.arena.readElement object).2 }) := by
  obtain ⟨origins, hget⟩ := element?_eq_some hx
  have hresolved : s.arena.resolved object = .array x origins := hget
  rw [placeShape, indexShape, get_bind_run, hresolved]
  show (((checkArrayIndex key span s).2.arena.readElement object).1.getD Arena.unknown,
    { (checkArrayIndex key span s).2 with
      arena := ((checkArrayIndex key span s).2.arena.readElement object).2 }) = _
  rw [checkArrayIndex_state]
  show ((s.arena.readElement object).1.getD Arena.unknown, _) = _
  rw [Arena.readElement_fst, hx]
  rfl

theorem still_readElement (h : s.Sane) (hx : s.arena.element? object = some x) {t : State}
    (ht : t.arena = (s.arena.readElement object).2) : (Place.index object key).Still s t x := by
  obtain ⟨origins, hget⟩ := element?_eq_some hx
  obtain ⟨o, ho⟩ := h.rooted.array hget
  refine .inr ⟨origins, o, ?_, ho, ?_⟩ <;> rw [ht]
  · rw [Arena.readElement, show s.arena.resolved object = .array x origins from hget]
    exact hget
  · exact Arena.mem_elementReads_readElement hget ho

/-- What is found at a place that is there is what the place has. -/
theorem still_placeShape (ctx : Context) (h : s.Sane) (hexists : place.Exists s) (span : Span) :
    (placeShape ctx place span s).2.stack = s.stack ∧
      place.Still s (placeShape ctx place span s).2 (placeShape ctx place span s).1 := by
  cases place with
  | «local» symbol =>
    obtain ⟨layer, hlayer⟩ := hexists
    refine ⟨?_, still_readSymbol span hlayer⟩
    show (readSymbol symbol s).2.stack = s.stack
    rw [readSymbol_run, State.noteUse_eq]
    rfl
  | member object name =>
    obtain ⟨x, hx⟩ := hexists
    rw [memberShape_of_field h.sound hx]
    exact ⟨rfl, still_readField h hx⟩
  | index object key =>
    obtain ⟨x, hx⟩ := hexists
    rw [indexShape_of_element hx]
    refine ⟨?_, still_readElement h hx rfl⟩
    rw [checkArrayIndex_state]
  | input _ | invalid => exact hexists.elim

theorem Visit.fresh_read (h : (tracing ctx bound K).holds s) (hnode : ¬ ctx.Keeps node)
    (hplace : (tracing ctx bound K).Reaches s place) (span recorded : Span) :
    (Visit.read node place s).Fresh ctx
      (readInto ctx node place span recorded s).2 := by
  refine ⟨hnode, fun hexists hproblems hstable => ?_⟩
  have hfinds : (tracing ctx bound K).Finds s (placeShape ctx place span) :=
    (Tracing.helps ctx bound K).runs_placeShape h hplace span
  obtain ⟨hstack, hstill⟩ := still_placeShape ctx h.sane hexists span
  exact fresh_record hfinds.holds.standing hstack hfinds.gives hstill recorded hproblems hstable

/-! ### All reads -/

theorem fresh_ident (h : (tracing ctx bound K).holds s) {n : Node}
    (hnode : ¬ ctx.Keeps n.id) (name : String) {v : Visit} (hv : v ∈ identVisits ctx n name s) :
    v.Fresh ctx ((do note n (← ident ctx n name)) s).2 := by
  have hresolve := Tracing.runs_resolve? h n name
  have hplace : (tracing ctx bound K).Reaches (resolve? ctx n name s).2
      (placeOf (resolve? ctx n name s).1) := by
    match hr : (resolve? ctx n name s).1 with
    | some (.local symbol) => exact hresolve.gives symbol hr
    | some (.input _) | none => trivial
  rw [ident_eq]
  simp only [identVisits, List.mem_cons, List.not_mem_nil, or_false] at hv
  rcases hv with rfl | rfl
  · trivial
  · exact Visit.fresh_read hresolve.holds hnode hplace n.span n.span

/-- Reads are fresh in every body. -/
theorem watches_visits (hids : ctx.script.ids.Nodup) :
    Tracing.Watches ctx (Visit.Fresh ctx) (visits ctx) where
  lasting h hleads _ hfresh := hfresh.later h hleads
  sees {bound K _ pieces} _ hpieces :=
    have hread {e : Expr} (hmem : .expr e ∈ pieces) {s : State} (h : (tracing ctx bound K).holds s)
        {p : Place} (hp : (tracing ctx bound K).Reaches s p) (span : Span) :
        (Visit.read e.id p s).Fresh ctx (readInto ctx e.id p span span s).2 :=
      Visit.fresh_read h (Script.not_stored hids (hpieces hmem)) hp span span
    { ident := fun n name _ hmem h v hv => fresh_ident h
        (Script.not_stored hids (hpieces hmem)) name hv
      named := fun n name _ _ v hv => by
        rw [List.mem_singleton.mp hv]
        trivial
      member := fun n object name span o hmem h ho _ v hv => by
        rw [List.mem_singleton.mp hv]
        exact hread hmem h (p := .member o name) ho n.span
      index := fun n object key o k hmem h ho hk v hv => by
        rw [List.mem_singleton.mp hv]
        exact hread hmem h (p := .index o k) ⟨ho, hk⟩ n.span
      callee := fun c object name span o hmem h ho _ v hv => by
        obtain ⟨rfl, hrun⟩ := memberCall_of_visit hv
        rw [hrun]
        exact hread hmem h (p := .member o name) ho c.span
      stepped := fun target p hmem h hplace v hv => by
        rw [List.mem_singleton.mp hv]
        exact hread hmem h hplace.reaches target.span }

/-! ### Passes -/

/-- Reads are fresh at the end of a pass. -/
theorem fresh_pass (hids : ctx.script.ids.Nodup) (budget : Nat) (widening : Widening) :
    (pass ctx budget (.start widening)).2.Sane ∧
      ∀ v ∈ walkVisits ctx widening, v.Fresh ctx (pass ctx budget (.start widening)).2 := by
  have hwalked := (Tracing.runs_walked ctx widening).1
  have hafter := Tracing.after_walked ctx budget widening
  exact ⟨hafter.between.sane, fun v hv =>
    ((watches_visits hids).walked hv).later hwalked.sane hafter.leads⟩

/-! ### Settled analyses -/

/-- At the end of an analysis, a place that was read has a given shape. A field or element counts if
its record or array was not merged into another one since. -/
def Place.Ends (a : Analysis) (s : State) (x : ShapeId) : Place → Prop
  | .local symbol => ∀ layer, s.layers.find? s.stack symbol.node = some layer →
      a.layers.get? layer symbol.node = some x
  | .member object name => a.arena.resolve object = s.arena.resolve object →
      a.arena.field? object name = some x
  | .index object _ => a.arena.resolve object = s.arena.resolve object →
      a.arena.element? object = some x
  | .input _ | .invalid => True

/-- The shape recorded by a read is the one that its place has at the end of the analysis. -/
def Visit.Current (a : Analysis) : Visit → Prop
  | .name .. => True
  | .read node place s => place.Exists s → ∃ layer x, s.stack.getLast? = some layer ∧
      a.layers.get? layer node = some x ∧ place.Ends a s x

theorem Place.Still.ends {a : Analysis} (hstill : place.Still s s' x) (hsane : s'.Sane)
    (harena : a.arena = s'.arena) (hlayers : a.layers = s'.layers) :
    place.Ends a s x := by
  have hkept {i : ShapeId} (hsame : s'.arena.resolve i = s.arena.resolve i) (u : ShapeId) :
      s'.arena.get (s.arena.resolve i) ≠ .forward u := by
    intro hforward
    have hlink := hsane.sound.grounded.isLink_resolved i
    rw [hsame, hforward] at hlink
    cases hlink
  cases place with
  | «local» symbol => exact fun layer hlayer => hlayers ▸ (hstill layer hlayer).1
  | member object name =>
    simp only [Ends, harena]
    intro hsame
    rcases hstill with ⟨u, hu⟩ | ⟨fields, origins, o, hget, hname, _⟩
    · exact absurd hu (hkept hsame u)
    · rw [Arena.field?, Arena.resolved, hsame, hget]
      exact hname
  | index object key =>
    simp only [Ends, harena]
    intro hsame
    rcases hstill with ⟨u, hu⟩ | ⟨origins, o, hget, _⟩
    · exact absurd hu (hkept hsame u)
    · rw [Arena.element?, Arena.resolved, hsame, hget]
  | input _ | invalid => trivial

theorem Visit.Fresh.current {a : Analysis} {v : Visit} (hfresh : v.Fresh ctx s')
    (hsane : s'.Sane) (hproblems : s'.problems = []) (harena : a.arena = s'.arena)
    (hlayers : a.layers = s'.layers) (hstable : a.arena.unstable = false) : v.Current a := by
  cases v with
  | name => trivial
  | read node place s =>
    intro hexists
    obtain ⟨x, ⟨top, htop, hget⟩, hstill⟩ := hfresh.2 hexists hproblems (harena ▸ hstable)
    exact ⟨top, x, htop, hlayers ▸ hget, hstill.ends hsane harena hlayers⟩

end Analysis

open Analysis in
/-- In a settled analysis the shape recorded by a read of a variable, field or element is the one
that the place has at the end. A record or array that was read may take in others; if it was itself
merged into another one, nothing is said of its reads. -/
theorem Script.reads_current {source : String} {script : Script} (hparse : Engine.parse source = .ok script)
    {types : Registry} {options : Options} {input : Option HostTypeId} {budget : Nat} {a : Analysis}
    (hanalyze : script.analyze types options input budget = some (.ok a))
    (hstable : a.arena.unstable = false) :
    ∃ number widening,
      ofState { types, options, input, script } number
          (pass { types, options, input, script } budget (.start widening)).2 = .ok a ∧
        ∀ v ∈ walkVisits { types, options, input, script } widening, v.Current a := by
  obtain ⟨number, widening, _, hof⟩ := settle_eq_ok hanalyze
  obtain ⟨hproblems, harena, hlayers, _⟩ := ofState_eq_ok hof
  let ctx : Context := { types, options, input, script }
  have hids : ctx.script.ids.Nodup := Engine.nodup_ids hparse
  obtain ⟨hsane, hfresh⟩ := fresh_pass hids budget widening
  exact ⟨number, widening, hof, fun v hv =>
    (hfresh v hv).current hsane hproblems harena hlayers hstable⟩

open Analysis in
/-- A record that takes in another one after it was read, and elements that are read in a loop. -/
theorem Script.reads_current_loop :
    ∃ script a, Engine.parse "var p = { n: 1 }; var q = { n: 2 }; var k = p.n; p = q; var a = [k];
        while (k < 9) { k = k + p.n + a[0]; a.add(k); } return k;" = .ok script ∧
      script.analyze (Engine.new {}).registry {} none 1 = some (.ok a) ∧ a.arena.unstable = false ∧
      ∃ number widening,
        ofState { types := (Engine.new {}).registry, options := {}, input := none, script } number
            (pass { types := (Engine.new {}).registry, options := {}, input := none, script } 1
              (.start widening)).2 = .ok a ∧
          ∀ v ∈ walkVisits { types := (Engine.new {}).registry, options := {}, input := none, script }
            widening, v.Current a := by
  obtain ⟨script, a, hparse, hanalyze, hcheck⟩ := Engine.exists_analyzed
    "var p = { n: 1 }; var q = { n: 2 }; var k = p.n; p = q; var a = [k];
        while (k < 9) { k = k + p.n + a[0]; a.add(k); } return k;" (Engine.new {}).registry 1
    (fun _ a => !a.arena.unstable) (by decide +kernel)
  have hstable : a.arena.unstable = false := by simpa using hcheck
  exact ⟨script, a, hparse, hanalyze, hstable, Script.reads_current hparse hanalyze hstable⟩

namespace Analysis

/-- A field was read, and at the end its shape is not the recorded one. -/
def Visit.Stale (a : Analysis) : Visit → Prop
  | .read node (.member object field) s => ∃ layer ∈ s.stack.getLast?,
      ∃ x ∈ a.layers.get? layer node, ∃ y ∈ a.arena.field? object field,
        a.arena.resolve x ≠ a.arena.resolve y
  | _ => False

instance (a : Analysis) (v : Visit) : Decidable (v.Stale a) :=
  match v with
  | .read _ place _ =>
    match place with
    | .member .. => inferInstanceAs (Decidable (∃ layer ∈ _, ∃ x ∈ _, ∃ y ∈ _, _))
    | .local _ | .input _ | .index .. | .invalid => .isFalse id
  | .name .. => .isFalse id

end Analysis

open Analysis in
/-- A record whose field was read is merged into another one, in which that field is unknown. The
read keeps the shape it found, and the analysis settles in its first pass. -/
theorem Script.read_stale_of_merged :
    ∃ script a, Engine.parse "var x = { f: null }; var y = { f: 1 }; var n = y.f; x = y;" = .ok script ∧
      script.analyze (Engine.new {}).registry {} none 1 = some (.ok a) ∧
      a.arena.unstable = false ∧ a.passes = 1 ∧
      ∃ v ∈ walkVisits { types := (Engine.new {}).registry, options := {}, input := none, script } {},
        v.Stale a := by
  obtain ⟨script, a, hparse, hanalyze, hcheck⟩ := Engine.exists_analyzed
    "var x = { f: null }; var y = { f: 1 }; var n = y.f; x = y;" (Engine.new {}).registry 1
    (fun script a => decide (a.arena.unstable = false ∧ a.passes = 1 ∧
      ∃ v ∈ walkVisits { types := (Engine.new {}).registry, options := {}, input := none, script } {},
        v.Stale a)) (by decide +kernel)
  exact ⟨script, a, hparse, hanalyze, of_decide_eq_true hcheck⟩

end HostScript
