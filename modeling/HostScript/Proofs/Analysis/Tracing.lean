import HostScript.Proofs.Analysis.Dispatch

/-!
# An analysis is a chain of changes

Every action of an analysis makes a chain of changes, and leaves a note for each expression that has
a value in the body. The layer of a body belongs to one analysis only, because it is new when the
body is entered and no analysis inside gets an earlier one.
-/

namespace HostScript.Analysis

open Invariant

variable {ctx : Context} {bound : Nat} {s s' : State} {x y : ShapeId} {K : List LayerId} {e : Expr}
  {layer : LayerId} {method receiver : ShapeId} {l : LambdaShape} {args xs : List ShapeId}
  {P : State → Prop}

/-- A state in which the layers in `K` are visible, and there are `bound` layers at least. -/
structure Tracing.Holds (ctx : Context) (bound : Nat) (K : List LayerId) (s : State) : Prop where
  standing : (standing ctx).holds s
  traced : s.Traced ctx
  accounted : ctx.script.ids.Nodup → s.Accounted ctx
  stack : s.stack = K
  bound_le : bound ≤ s.layers.layers.size

theorem Tracing.Holds.sane (h : Tracing.Holds ctx bound K s) : s.Sane :=
  h.standing.1

/-- Changes are traced while the layers in `K` are visible. Lambdas get analyses in layers that come
after the first `bound` ones. -/
def tracing (ctx : Context) (bound : Nat) (K : List LayerId) : Invariant where
  holds := Tracing.Holds ctx bound K
  leads s s' := (standing ctx).leads s s' ∧ Chain ctx bound s s'
  valid := (standing ctx).valid
  known := (standing ctx).known
  refl s := ⟨(standing ctx).refl s, .refl⟩
  trans h h' := ⟨(standing ctx).trans h.1 h'.1, h.2.trans h'.2⟩
  valid_of_leads h := (standing ctx).valid_of_leads h.1
  known_of_leads h := (standing ctx).known_of_leads h.1

/-- A note for an expression, unless there are problems. -/
def mark (ctx : Context) (K : List LayerId) (s : State) (e : Expr) (x : ShapeId) : Prop :=
  ctx.script.ids.Nodup → s.problems = [] → ∀ layer, K.getLast? = some layer → s.Notes ctx layer e x

theorem mark_change (ht : s.Tidy) (hc : Change ctx bound s s') (h : mark ctx K s e x) :
    mark ctx K s' e x :=
  fun hids hproblems layer hlast => (h hids (hc.problems hproblems) layer hlast).change ht hids hc

namespace Tracing

variable {α : Type} {Q : State → α → Prop} {m : Analyze α}

/-! ### Actions -/

section

variable (h : (tracing ctx bound K).holds s)

include h

theorem of_accounted (hm : (standing ctx).Runs s m Q) (hc : Chain ctx bound s (m s).2)
    (hstack : (m s).2.stack = s.stack) (haccounted : ctx.script.ids.Nodup → (m s).2.Accounted ctx) :
    (tracing ctx bound K).Runs s m Q :=
  ⟨⟨hm.holds, h.traced.chain hc, haccounted, hstack.trans h.stack, h.bound_le.trans hc.count_le⟩,
    ⟨hm.leads, hc⟩, hm.gives⟩

theorem of_standing (hm : (standing ctx).Runs s m Q) (hc : Chain ctx bound s (m s).2)
    (hstack : (m s).2.stack = s.stack) (hcalm : s.Calm ctx (m s).2) :
    (tracing ctx bound K).Runs s m Q :=
  of_accounted h hm hc hstack fun hids => (h.accounted hids).calm hids h.sane.tidy hc hcalm

omit h in
theorem chain_of_alike (ha : s.Alike ctx s') : Chain ctx bound s s' :=
  .single (.aside (by rw [ha.arena]) (by rw [ha.arena]) (by rw [ha.arena]) (by rw [ha.arena])
    (by rw [ha.arena]) ha.layers ha.problems)

theorem of_alike (ha : s.Alike ctx (m s).2)
    (hreturns : ∀ shapes ∈ (m s).2.returns, ∀ p ∈ shapes, p < s.arena.shapes.size)
    (hnamed : (m s).2.scopes.Named ctx.Keeps) (hQ : Q (m s).2 (m s).1) :
    (tracing ctx bound K).Runs s m Q :=
  of_standing h (Standing.runs_of_stands (ha.sane h.sane hreturns) (ha.stands h.sane) hnamed hQ)
    (chain_of_alike ha) ha.stack (.of_same (by rw [ha.arena]) ha.layers)

theorem of_same (ha : s.Alike ctx (m s).2) (hreturns : (m s).2.returns = s.returns)
    (hscopes : (m s).2.scopes = s.scopes) (hQ : Q (m s).2 (m s).1) :
    (tracing ctx bound K).Runs s m Q :=
  of_alike h ha (hreturns ▸ h.sane.returns) (hscopes ▸ h.standing.2) hQ

theorem of_scopes {scopes : Scopes} (hrun : (m s).2 = { s with scopes })
    (hnamed : scopes.Named ctx.Keeps) :
    (tracing ctx bound K).Does s m := by
  refine of_alike h ?_ ?_ ?_ trivial <;> rw [hrun]
  · exact {}
  · exact h.sane.returns
  · exact hnamed

theorem of_goes {f : Arena → α × Arena} (hgoes : s.arena.Goes (f s.arena).2)
    (hc : Chain ctx bound s { s with arena := (f s.arena).2 })
    (hcalm : s.Calm ctx { s with arena := (f s.arena).2 })
    (hQ : Q { s with arena := (f s.arena).2 } (f s.arena).1) :
    (tracing ctx bound K).Runs s (inArena f) Q :=
  of_standing h (Standing.runs_inArena h.standing hgoes hQ) hc rfl hcalm

theorem of_edited {f : Arena → α × Arena} (hgoes : s.arena.Goes (f s.arena).2)
    (he : s.arena.Edited ctx.Names (f s.arena).2)
    (hQ : Q { s with arena := (f s.arena).2 } (f s.arena).1) :
    (tracing ctx bound K).Runs s (inArena f) Q :=
  of_goes h hgoes (.edited he) (.edited he) hQ

/-- A shape is added that is no lambda. -/
theorem of_push {f : Arena → ShapeId × Arena} {shape : Shape} (hgoes : s.arena.Goes (f s.arena).2)
    (ha : s.Alters ctx bound (f s.arena).2) (hpush : f s.arena = s.arena.push shape)
    (hshape : ∀ l, shape ≠ .lambda l) :
    (tracing ctx bound K).Finds s (inArena f) := by
  refine of_goes h hgoes (.single (.alters ha)) ?_ ?_ <;> rw [hpush]
  · exact .push fun l hl => absurd hl (hshape l)
  · exact Nat.lt_of_lt_of_eq (Nat.lt_succ_self _) (Arena.size_push ..).symm

theorem runs_report (cause : Cause) (span : Span) :
    (tracing ctx bound K).Does s (report cause span) :=
  of_same h (.of_report cause span s) rfl rfl trivial

theorem runs_addReturn (hx : x < s.arena.shapes.size) :
    (tracing ctx bound K).Does s (addReturn x) := by
  have hrun := congrArg Prod.snd (addReturn_run x s)
  have hold := h.sane.returns
  dsimp only at hrun
  split at hrun
  · refine of_same h ?_ ?_ ?_ trivial <;> rw [hrun]
    exact {}
  next innermost outer hreturns =>
    rw [hreturns] at hold
    refine of_alike h ?_ ?_ ?_ trivial <;> rw [hrun]
    · exact {}
    · intro shapes hs p hp
      rcases List.mem_cons.mp hs with rfl | hs
      · rcases List.mem_append.mp hp with hp | hp
        · exact hold innermost List.mem_cons_self p hp
        · rw [List.mem_singleton.mp hp]
          exact hx
      · exact hold shapes (List.mem_cons_of_mem _ hs) p hp
    · exact h.standing.2

theorem runs_readSymbol (symbol : Symbol) :
    (tracing ctx bound K).Finds s (readSymbol symbol) := by
  have hrun := readSymbol_run symbol s
  rw [State.noteUse_eq] at hrun
  refine of_same h ?_ ?_ ?_ ?_ <;> rw [hrun]
  · refine { reads := fun r hr => ?_ }
    simp only [State.noteRead]
    split
    · exact List.mem_insert_of_mem hr
    · exact hr
  · rfl
  · rfl
  · show (s.layers.shape? s.stack symbol.node).getD Arena.unknown < s.arena.shapes.size
    cases hshape : s.layers.shape? s.stack symbol.node with
    | none => exact h.sane.sound.unknown_lt_size
    | some p =>
      obtain ⟨layer, _, hget⟩ := shape?_eq_some hshape
      exact h.sane.layers hget

/-- A shape is read, and the read is noted. -/
theorem of_reads {f : Arena → Option ShapeId × Arena} (hgoes : s.arena.Goes (f s.arena).2)
    (hreads : ∃ fieldReads elementReads, (f s.arena).2 = { s.arena with fieldReads, elementReads })
    (hfound : ∀ x ∈ (f s.arena).1, x < s.arena.shapes.size) :
    (tracing ctx bound K).Runs s (inArena f) fun s found =>
      ∀ x ∈ found, x < s.arena.shapes.size := by
  refine of_goes h hgoes ?_ ?_ fun x hx => Nat.lt_of_lt_of_le (hfound x hx) hgoes.later.size
  all_goals
    obtain ⟨_, _, heq⟩ := hreads
    rw [heq]
  · exact .single (.aside rfl rfl rfl rfl rfl rfl id)
  · exact .of_same rfl rfl

theorem runs_readField (record : ShapeId) (name : String) :
    (tracing ctx bound K).Runs s (inArena (·.readField record name)) fun s found =>
      ∀ x ∈ found, x < s.arena.shapes.size := by
  refine of_reads h (Arena.goes_readField h.sane.sound h.sane.rooted record name) ?_ fun x hx => ?_
  · rw [Arena.readField]
    split <;> exact ⟨_, _, rfl⟩
  · rw [Arena.readField_fst] at hx
    exact h.sane.sound.lt_size_of_field? hx

theorem runs_readElement (array : ShapeId) :
    (tracing ctx bound K).Runs s (inArena (·.readElement array)) fun s found =>
      ∀ x ∈ found, x < s.arena.shapes.size := by
  refine of_reads h (Arena.goes_readElement h.sane.sound h.sane.rooted array) ?_ fun x hx => ?_
  · rw [Arena.readElement]
    split <;> exact ⟨_, _, rfl⟩
  · rw [Arena.readElement_fst] at hx
    exact h.sane.sound.lt_size_of_element? hx

theorem runs_ofType (ty : TypeRef) :
    (tracing ctx bound K).Finds s (inArena (·.ofType ty)) := by
  have hchange : Chain ctx bound s { s with arena := (s.arena.ofType ty).2 } ∧
      s.Calm ctx { s with arena := (s.arena.ofType ty).2 } := by
    cases ty with
    | host id => exact ⟨.single (.alters (.host id)), .host id⟩
    | _ => exact ⟨.refl, .of_same rfl rfl⟩
  exact of_goes h (Arena.goes_ofType h.sane.sound h.sane.rooted ty) hchange.1 hchange.2
    (Arena.ofType_lt_size h.sane.sound h.sane.hosts ty)

omit h in
theorem calm_widen {symbol : Symbol} (hsymbol : ctx.Keeps symbol.node)
    (hold : s.layers.shape? s.stack symbol.node = some y) : s.Calm ctx (s.widen symbol x) := by
  refine .of_layers ?_ fun {layer node p} hp => ?_
  · rw [State.widen]
    dsimp only
    split
    · split <;> rfl
    · rfl
  · rcases Change.widen_layers (x := x) hold with heq | ⟨_, _, _, _, heq⟩
    · exact .inl (heq ▸ hp)
    · rw [heq, Layers.get?_put] at hp
      split at hp
      next hwhere => exact .inr (hwhere.2.2 ▸ hsymbol)
      next => exact .inl hp

theorem runs_derive (hx : x < s.arena.shapes.size) (hy : y < s.arena.shapes.size) :
    (tracing ctx bound K).Finds s (inArena (·.derive x y)) := by
  have hmerges := h.sane.sound.derive hx hy
  refine of_edited h (Arena.goes_derive h.sane.sound h.sane.rooted hx hy)
    ((h.traced.based h.sane).derive x y) ?_
  show _ < (s.arena.derive x y).2.shapes.size
  rw [hmerges.evolves.size]
  exact hmerges.lt_size

/-- The shape of a variable is merged with another one and becomes wider if it has to. -/
theorem runs_storeLocal {symbol : Symbol} (hsymbol : ctx.Keeps symbol.node)
    (hy : y < s.arena.shapes.size) :
    (tracing ctx bound K).Does s (storeLocal symbol y) := by
  have hrun := storeLocal_eq symbol y s
  cases hold : s.layers.shape? s.stack symbol.node with
  | none =>
    rw [hold] at hrun
    refine of_same h ?_ ?_ ?_ trivial <;> rw [hrun]
    exact {}
  | some old =>
    obtain ⟨layer, _, hget⟩ := shape?_eq_some hold
    have hderive := runs_derive h (h.sane.layers hget) hy
    rw [hold] at hrun
    dsimp only at hrun
    split at hrun
    · exact ⟨hrun ▸ hderive.holds, hrun ▸ hderive.leads, trivial⟩
    next hnot =>
      have hne :=
        ((h.traced.based h.sane).ne_unknown_of_not_same (fun ha => ha.deriveWith _ _ _) hnot).1
      have hwiden := State.widen_stands hderive.holds.sane symbol hold hsymbol hderive.gives
      have hstands := (hderive.leads.1.2 h.sane).2
      refine of_standing h (Standing.runs_of_stands ?_ ?_ ?_ trivial) ?_ ?_ ?_ <;> rw [hrun]
      · exact hwiden.1
      · exact hstands.trans hwiden.2 h.sane
      · exact h.standing.2
      · exact hderive.leads.2.tail (.widen hsymbol hderive.gives hold hne)
      · rfl
      · exact (State.Calm.edited ((h.traced.based h.sane).derive old y)).trans
          (calm_widen hsymbol hold)

omit h in
theorem helps (ctx : Context) (bound : Nat) (K : List LayerId) : (tracing ctx bound K).Helps where
  basic h hx := h.sane.sound.lt_size hx
  reports cause span _ h := runs_report h cause span
  warns warning span h := of_same h {} rfl rfl trivial
  returns x h hx := runs_addReturn h hx
  bindsMethod m h := of_push h
    (Arena.goes_push_simple h.sane.sound h.sane.rooted rfl rfl rfl fun _ => Shape.noConfusion)
    (.hostMethod m) rfl fun _ => Shape.noConfusion
  ofType ty h := runs_ofType h ty
  readsField record name h := runs_readField h record name
  readsElement array h := runs_readElement h array
  writesElement array x h hx := of_edited h
    (Arena.goes_writeElement h.sane.sound h.sane.rooted array hx)
    ((h.traced.based h.sane).writeElement array x) trivial
  derives x y h hx hy := runs_derive h hx hy
  reads symbol h _ := runs_readSymbol h symbol
  stores symbol x h hk hx := runs_storeLocal h hk hx

theorem runs_resolve? (n : Node) (name : String) :
    (tracing ctx bound K).Runs s (resolve? ctx n name) fun _ r =>
      ∀ symbol, r = some (.local symbol) → ctx.Keeps symbol.node := by
  have hrun := resolve?_run ctx n name s
  cases hmeaning : s.meaning? ctx n name with
  | none =>
    rw [hmeaning] at hrun
    have hreport := runs_report h (.scope (.undeclared name)) n.span
    refine ⟨hrun ▸ hreport.holds, hrun ▸ hreport.leads, ?_⟩
    rw [hrun]
    exact fun symbol hsymbol => by cases hsymbol
  | some r =>
    rw [hmeaning] at hrun
    have hlocal := keeps_of_meaning? h.standing.2 hmeaning
    refine of_same h ?_ ?_ ?_ ?_ <;> rw [hrun]
    · exact { resolved := fun hr => hr.insert hmeaning hlocal }
    · rfl
    · rfl
    · exact fun symbol hsymbol => hlocal symbol (Option.some.inj hsymbol)

theorem runs_ident (n : Node) (name : String) :
    (tracing ctx bound K).Finds s (ident ctx n name) := by
  refine (runs_resolve? h n name).bind fun r s' h' _ hr => ?_
  split
  next symbol => exact (helps ctx bound K).reads symbol h' (hr symbol rfl)
  next m => exact (helps ctx bound K).runs_hostMemberShape h' m n.span
  next => exact .pure h' ((helps ctx bound K).unknown h')

theorem runs_namedPlace (n : Node) (name : String) :
    (tracing ctx bound K).Runs s (namedPlace ctx n name) (tracing ctx bound K).Reaches := by
  refine (runs_resolve? h n name).bind fun r s' h' _ hr => ?_
  split
  next symbol =>
    have huse : (tracing ctx bound K).Does s' (noteUse symbol) := by
      refine of_same h' ?_ ?_ ?_ trivial <;> rw [noteUse_run, State.noteUse_eq]
      exact {}
    exact huse.bind fun _ _ h'' _ _ => .pure h'' (hr symbol rfl)
  next m => exact .pure h' trivial
  next => exact .pure h' trivial

/-! ### Recording -/

omit h in
theorem chain_record {node : NodeId} {span : Span}
    (hchange : ∀ found, s.layers.set? s.stack node x = some found →
      Change ctx bound s { s with layers := found.2 }) :
    Chain ctx bound s (record node x span s).2 := by
  rw [record_run]
  cases hset : s.layers.set? s.stack node x with
  | none => exact chain_of_alike (.of_report _ span s)
  | some found => exact .single (hchange found hset)

omit h in
theorem stack_record (node : NodeId) (x : ShapeId) (span : Span) (s : State) :
    (record node x span s).2.stack = s.stack := by
  rw [record_run]
  cases s.layers.set? s.stack node x <;> rfl

omit h in
/-- A shape that was recorded is in the innermost layer, unless there are problems. -/
theorem get?_record {node : NodeId} {span : Span} (hlt : layer < s.layers.layers.size)
    (hlast : s.stack.getLast? = some layer) (hproblems : (record node x span s).2.problems = []) :
    (record node x span s).2.layers.get? layer node = some x := by
  have hrun := record_run node x span s
  cases hset : s.layers.set? s.stack node x with
  | none =>
    rw [hrun, hset] at hproblems
    cases (List.append_eq_nil_iff.mp hproblems).2
  | some found =>
    rw [hrun, hset]
    show found.2.layers[layer]?.bind _ = _
    have hget : found.2.get? layer node = some x := by
      rcases Layers.set?_eq_some hset with ⟨_, hnone⟩ | ⟨top, htop, _, heq⟩
      · rw [hnone] at hlast
        cases hlast
      · cases hlast.symm.trans htop
        rw [heq, Layers.get?_put, if_pos ⟨rfl, hlt, rfl⟩]
    exact hget

omit h in
/-- If the expression is a call and gets the result of a lambda, it is dispatched to the
signature. -/
def Fits (ctx : Context) (K : List LayerId) (s : State) (e : Expr) (x : ShapeId) : Prop :=
  ctx.script.ids.Nodup → s.problems = [] → ∀ {layer n callee args method k},
    K.getLast? = some layer → e = .call n callee args → s.arena.get x = .callResult method k →
    Dispatches ctx.script s.arena s.layers layer args method k

omit h in
theorem fits_of_ne (hne : ∀ n callee args, e ≠ .call n callee args) : Fits ctx K s e x :=
  fun _ _ _ _ _ _ _ _ _ heq _ => absurd heq (hne _ _ _)

omit h in
theorem fits_of_isPlain (he : e.isPlain) : Fits ctx K s e x :=
  fits_of_ne fun _ _ _ heq => by
    rw [heq] at he
    cases he

theorem fits_unknown : Fits ctx K s e Arena.unknown :=
  fun _ _ _ _ _ _ _ _ _ _ hget => by
    rw [h.sane.sound.get_unknown] at hget
    cases hget

theorem runs_set (node : NodeId) (span : Span) (hx : x < s.arena.shapes.size) :
    (standing ctx).Does s (record node x span) := by
  obtain ⟨hsane, hstands⟩ := State.record_stands ctx h.sane node span hx
  refine Standing.runs_of_stands hsane hstands ?_ trivial
  rw [record_run]
  cases s.layers.set? s.stack node x <;> exact h.standing.2

theorem leads_record (hmem : .expr e ∈ ctx.script.pieces) (hx : x < s.arena.shapes.size)
    (span : Span) :
    (tracing ctx bound K).leads s (record e.id x span s).2 :=
  ⟨(runs_set h e.id span hx).leads, chain_record fun _ hset => .record hmem hx hset⟩

theorem accounted_record (hmem : .expr e ∈ ctx.script.pieces) (hx : x < s.arena.shapes.size)
    (hfits : Fits ctx K s e x) (span : Span) (hids : ctx.script.ids.Nodup) :
    (record e.id x span s).2.Accounted ctx := by
  have hc := (leads_record h hmem hx span).2
  rw [record_run] at hc ⊢
  cases hset : s.layers.set? s.stack e.id x with
  | none =>
    rw [hset] at hc
    exact (h.accounted hids).calm hids h.sane.tidy hc (.of_same rfl rfl)
  | some found =>
    rw [hset] at hc
    refine (h.accounted hids).chain hids h.sane.tidy hc
      (fun hproblems _ _ _ _ _ _ _ hcall hentry hget => ?_) fun hl hsig => .inl ⟨_, hl, hsig⟩
    rcases get?_before_set? hset hentry with hold | ⟨hlast, hid, rfl⟩
    · exact .inl hold
    · exact .inr (hfits hids hproblems (h.stack ▸ hlast) (Script.eq_of_id hids hmem hcall hid.symm)
        hget)

theorem does_record (hmem : .expr e ∈ ctx.script.pieces) (hx : x < s.arena.shapes.size)
    (hfits : Fits ctx K s e x) (span : Span) :
    (tracing ctx bound K).Does s (record e.id x span) :=
  of_accounted h (runs_set h e.id span hx) (leads_record h hmem hx span).2
    (stack_record ..) (accounted_record h hmem hx hfits span)

theorem runs_record (hmem : .expr e ∈ ctx.script.pieces) (hx : x < s.arena.shapes.size)
    (hfits : Fits ctx K s e x) (hdetails : ctx.script.ids.Nodup → s.problems = [] →
      ∀ layer, K.getLast? = some layer → s.Details ctx layer e x) (span : Span) :
    (tracing ctx bound K).Runs s (record e.id x span) fun s _ => mark ctx K s e x := by
  have hruns := does_record h hmem hx hfits span
  refine ⟨hruns.holds, hruns.leads, fun hids hproblems layer hlast => ⟨hmem, ?_, ?_⟩⟩
  · rw [← h.stack] at hlast
    exact get?_record (h.sane.stack.2 layer (List.mem_of_getLast? hlast)) hlast hproblems
  · refine (hruns.leads.2.keeps
      (P := fun t => t.problems = [] → t.Details ctx layer e x ∧ x < t.arena.shapes.size)
      h.sane.tidy (fun ht hc hold hp => ?_) (fun hp => ⟨hdetails hids hp layer hlast, hx⟩) hproblems).1
    obtain ⟨hd, hlt⟩ := hold (hc.problems hp)
    exact ⟨hd.change hlt ht hids hc, Nat.lt_of_lt_of_le hlt hc.size_le⟩

omit h in
theorem details_of_isPlain (he : e.isPlain) : s.Details ctx layer e x := by
  cases e with
  | call _ _ _ | lambda _ _ _ => cases he
  | _ => trivial

theorem runs_declare (name : String) (symbol : Symbol) (hsymbol : ctx.Keeps symbol.node)
    (hx : x < s.arena.shapes.size) (span : Span) :
    (tracing ctx bound K).Does s (declare name symbol x span) := by
  have hshape : s.declaredShape symbol.node x < s.arena.shapes.size := by
    rw [State.declaredShape]
    split
    · exact h.sane.sound.unknown_lt_size
    · exact hx
  have hcalm : s.Calm ctx (record symbol.node (s.declaredShape symbol.node x) span s).2 := by
    rw [record_run]
    cases hset : s.layers.set? s.stack symbol.node (s.declaredShape symbol.node x) with
    | none => exact .of_same rfl rfl
    | some found =>
      refine .of_layers rfl fun hp => ?_
      rcases get?_before_set? hset hp with hold | ⟨_, hnode, _⟩
      · exact .inl hold
      · exact .inr (hnode ▸ hsymbol)
  have hrecord := of_standing h (runs_set h symbol.node span hshape)
    (chain_record fun _ hset => .declare hsymbol hx hset) (stack_record ..) hcalm
  -- the name is declared after the shape was recorded
  have hname : (tracing ctx bound K).Does
      (record symbol.node (s.declaredShape symbol.node x) span s).2
      fun _ => declare name symbol x span s := by
    refine of_alike hrecord.holds (.of_declare name symbol x span s) ?_ ?_ trivial <;>
      rw [declare_run]
    · rw [State.declareName]
      split <;> exact hrecord.holds.sane.returns
    · exact named_declareName hrecord.holds.standing.2 name hsymbol span
  exact ⟨hname.holds, (tracing ctx bound K).trans hrecord.leads hname.leads, trivial⟩

theorem mark_later (hl : (tracing ctx bound K).leads s s') (hmark : mark ctx K s e x) :
    mark ctx K s' e x :=
  hl.2.keeps (P := fun t => mark ctx K t e x) h.sane.tidy mark_change hmark

theorem runs_openScope (kind : ScopeKind) :
    (tracing ctx bound K).Does s (openScope kind) :=
  of_scopes h rfl (h.standing.2.enter kind)

theorem runs_closeScope : (tracing ctx bound K).Does s closeScope :=
  of_scopes h rfl h.standing.2.close

theorem runs_block {m : Analyze Unit} {es : List Expr}
    (hm : ∀ s, (tracing ctx bound K).holds s → (tracing ctx bound K).Runs s m fun s _ =>
      Left (mark ctx K) es s) :
    (tracing ctx bound K).Runs s (do openScope .block; m; closeScope) fun s _ =>
      Left (mark ctx K) es s := by
  refine (runs_openScope h .block).bind fun _ s₁ h₁ _ _ => (hm s₁ h₁).bind fun _ s₂ h₂ _ hleft => ?_
  have hclose := runs_closeScope h₂
  refine ⟨hclose.holds, hclose.leads, fun e he => ?_⟩
  obtain ⟨x, hx⟩ := hleft e he
  exact ⟨x, mark_later h₂ hclose.leads hx⟩

/-! ### Lambdas and calls -/

theorem runs_literal {node : Node} {params : List Param} {body : LambdaBody}
    (hmem : .expr (.lambda node params body) ∈ ctx.script.pieces) :
    (tracing ctx bound K).Runs s (do note node (← lambdaLiteral node params)) fun s x =>
      (tracing ctx bound K).valid s x ∧ mark ctx K s (.lambda node params body) x := by
  let l := s.lambdaShape node params
  have hlambda : (⟨node, params, body⟩ : Lambda) ∈ ctx.script.lambdas :=
    (ctx.script.lists.lambda _).mpr hmem
  have hnew : Change ctx bound s { s with arena := (s.arena.push (.lambda l)).2 } :=
    .alters (.newLambda hlambda rfl rfl rfl rfl)
  have hc : Chain ctx bound s (lambdaLiteral node params s).2 :=
    .tail (.single hnew) (.aside rfl rfl rfl rfl rfl rfl id)
  have hcalm : s.Calm ctx (lambdaLiteral node params s).2 :=
    (State.Calm.push fun l' hl' => by cases hl'; rfl).trans (.of_same rfl rfl)
  have hpush := of_standing h (Standing.runs_lambdaLiteral h.standing node params) hc rfl hcalm
  have hget : (lambdaLiteral node params s).2.arena.get (lambdaLiteral node params s).1 =
      .lambda l :=
    Arena.get_push_self
  have hnote := runs_record hpush.holds hmem hpush.gives (fits_of_ne fun _ _ _ => Expr.noConfusion)
    (fun _ _ layer hlast => ⟨l, hget, rfl, by show s.stack.getLast? = _; rw [h.stack]; exact hlast⟩)
      node.span
  exact ⟨hnote.holds, (tracing ctx bound K).trans hpush.leads hnote.leads,
    (tracing ctx bound K).valid_of_leads hnote.leads hpush.gives, hnote.gives⟩

omit h in
/-- The shape of a call with the argument shapes `xs`. -/
def Gives (ctx : Context) (xs : List ShapeId) (s : State) (x : ShapeId) : Prop :=
  (standing ctx).valid s x ∧ s.Answers ctx xs x

theorem gives_unknown (xs : List ShapeId) :
    Gives ctx xs s Arena.unknown := by
  refine ⟨h.sane.sound.unknown_lt_size, fun method k hget => ?_⟩
  rw [h.sane.sound.get_unknown] at hget
  cases hget

omit h in
theorem isLink_first : ∀ i : Nat, i ≤ Arena.string → (({} : Arena).get i).isLink = false := by
  decide

/-- The shapes of types of the host are no results of lambdas. -/
theorem runs_resultType (ty : TypeRef) (xs : List ShapeId) :
    (tracing ctx bound K).Runs s (inArena (·.ofType ty)) (Gives ctx xs) := by
  have hruns := runs_ofType h ty
  refine ⟨hruns.holds, hruns.leads, hruns.gives, fun method k hget => ?_⟩
  have hfirst {c : Concrete} {i : ShapeId} (hi : s.arena.get i = .concrete c) :
      s.arena.get i ≠ .callResult method k := by
    rw [hi]
    exact Shape.noConfusion
  have hbasic {i : ShapeId} (hi : i ≤ Arena.string) : s.arena.get i ≠ .callResult method k := by
    intro hcall
    have hlink : (({} : Arena).get i).isLink = true := by
      rw [← h.sane.sound.first hi, hcall]
      rfl
    rw [isLink_first i hi] at hlink
    cases hlink
  have hget : (s.arena.ofType ty).2.get (s.arena.ofType ty).1 = .callResult method k := hget
  cases ty with
  | host id =>
    rw [Arena.ofType, Arena.host] at hget
    split at hget
    next shape hshape =>
      obtain ⟨c, hc⟩ := h.traced.hosts shape (OrderedMap.mem_values hshape)
      exact absurd hget (hfirst hc)
    next =>
      have hnew : (s.arena.push (.concrete (.host id))).2.get s.arena.shapes.size = _ :=
        Arena.get_push_self
      cases hget.symm.trans hnew
  | _ => exact absurd hget (hbasic (by simp only [Arena.ofType]; decide))

theorem runs_hostCall (m : Member) (args : List ShapeId) (span : Span) :
    (tracing ctx bound K).Runs s (hostCall m args span) (Gives ctx args) := by
  have hchecks := (helps ctx bound K).runs_checkArgs m.qualifiedName span 1 m.callParams args h
  rw [hostCall]
  cases m.ret? with
  | some ty =>
    split
    · exact (runs_report h _ span).bind fun _ _ h' _ _ => runs_resultType h' ty args
    · exact hchecks.bind fun _ _ h' _ _ => runs_resultType h' ty args
  | none =>
    split
    · exact (runs_report h _ span).bind fun _ _ h' _ _ => .pure h' (gives_unknown h' args)
    · exact hchecks.bind fun _ _ h' _ _ => .pure h' (gives_unknown h' args)

omit h in
/-- Analyses of bodies make changes, and what they find may be added to the lambda. -/
def Enters (ctx : Context) (enter : Enter) : Prop :=
  ∀ {bound : Nat} {K : List LayerId} {s : State} (method : ShapeId) (args : Option (List ShapeId)),
    (tracing ctx bound K).holds s → (∀ p ∈ args.getD [], p < s.arena.shapes.size) →
    (tracing ctx bound K).Runs s (enter method args) fun s' found => ∀ signature ∈ found,
      s'.Offers ctx bound method signature ∧ Found ctx s method (args.getD []) signature s'

theorem runs_newCall (hmethod : method < s.arena.shapes.size) (hl : s.arena.lambda? method = some l)
    {k : Nat} {signature : Signature} (hsig : l.signatures[k]? = some signature)
    (hcount : l.paramCount = args.length)
    (hargs : ctx.script.ids.Nodup → signature.args.map s.arena.resolve = args.map s.arena.resolve) :
    (tracing ctx bound K).Runs s (inArena (·.newCall method k)) (Gives ctx args) := by
  have hcall : s.arena.signature? method k = some signature := by
    rw [Arena.signature?, hl]
    exact hsig
  have hchange : Change ctx bound s { s with arena := (s.arena.newCall method k).2 } :=
    .alters (.newCall hcall)
  have hruns : (tracing ctx bound K).Finds s (inArena (·.newCall method k)) :=
    of_push h (Arena.goes_newCall h.sane.sound h.sane.rooted hmethod hcall) (.newCall hcall) rfl
      fun _ => Shape.noConfusion
  refine ⟨hruns.holds, hruns.leads, hruns.gives, fun method' k' hget => ?_⟩
  have hnew : (s.arena.newCall method k).2.get s.arena.shapes.size = .callResult method k :=
    Arena.get_push_self
  cases hnew.symm.trans hget
  obtain ⟨l', hl', hsame⟩ := hchange.lambda? h.sane.tidy.tied hl
  exact ⟨l', signature, hl', hsame.signature hsig, hsame.paramCount.trans hcount, fun hids =>
    map_resolve_later (hchange.preserves h.sane.tidy.tied) (hargs hids)⟩

theorem runs_useSignature (hmethod : method < s.arena.shapes.size) (span : Span)
    {found : Option Signature} (hfound : ∀ signature ∈ found, s.Offers ctx bound method signature)
    (hborn : ctx.script.ids.Nodup → ∀ signature ∈ found,
      s.Born ctx (s.arena.resolve method) signature ∧ signature.args = args)
    (hl : s.arena.lambda? method = some l) (hcount : l.paramCount = args.length) :
    (tracing ctx bound K).Runs s (useSignature method span found) (Gives ctx args) := by
  cases found with
  | none =>
    exact ((helps ctx bound K).warns _ span h).bind fun _ _ h' _ _ => .pure h' (gives_unknown h' _)
  | some signature =>
    have hoffer := hfound signature rfl
    refine .get ?_
    rw [hl]
    have hadd := Standing.runs_addSignature h.standing hoffer.has hl
    have hruns := of_accounted h hadd (.single (.alters (.signature hoffer))) rfl fun hids =>
      (h.accounted hids).addSignature hids h.sane.tidy hoffer (hborn hids signature rfl).1
    refine hruns.bind fun _ s₁ h₁ hl₁ hsig => ?_
    obtain ⟨l₁, hlambda, hk⟩ := Option.bind_eq_some_iff.mp hsig
    obtain ⟨l₂, hl₂, hsame⟩ := hl₁.2.lambda? h.sane.tidy hl
    cases hlambda.symm.trans hl₂
    exact runs_newCall h₁ (Nat.lt_of_lt_of_le hmethod hl₁.1.1) hlambda hk
      (hsame.paramCount.trans hcount) fun hids => by rw [(hborn hids signature rfl).2]

omit h in
theorem memberCall_of_arrayAdd {c : Node} {name : String}
    (h : MemberTarget.resolve s.arena ctx.types receiver name = .arrayAdd) :
    (memberCall ctx c receiver name s).1 = .add := by
  rw [memberCall, get_bind_run, h]
  rfl

theorem fits_of_gives (hl : (tracing ctx bound K).leads s s') {n : Node} {callee : Expr}
    {args : List Expr} (hmarks : List.Forall₂ (mark ctx K s) args xs) (hgives : Gives ctx xs s' x) :
    Fits ctx K s' (.call n callee args) x := by
  intro hids hproblems layer _ _ _ _ _ hlast heq hget
  cases heq
  exact hgives.2.dispatches hids
    (hmarks.imp fun _ _ hmark => mark_later h hl hmark hids hproblems layer hlast) hget

section

variable {enter : Enter} (henter : Enters ctx enter)

include henter

/-- What was found in a body for new arguments is used right after it. -/
theorem runs_entered (hl : s.arena.lambda? method = some l) (hcount : l.paramCount = args.length)
    (hnew : existingSignature? s.arena l args = none) (hmethod : method < s.arena.shapes.size)
    (hargs : ∀ p ∈ args, p < s.arena.shapes.size) (span : Span) :
    (tracing ctx bound K).Runs (enter method (some args) s).2
      (useSignature method span (enter method (some args) s).1) (Gives ctx args) := by
  have hentered := henter method (some args) h hargs
  obtain ⟨l', hl', hsame⟩ := hentered.leads.2.lambda? h.sane.tidy hl
  refine runs_useSignature hentered.holds (Nat.lt_of_lt_of_le hmethod hentered.leads.1.1) span
    (fun signature hfound => (hentered.gives signature hfound).1) (fun hids signature hfound => ?_)
      hl'
    (hsame.paramCount.trans hcount)
  rw [hentered.leads.2.resolve_lambda h.sane.tidy hl]
  exact (hentered.gives signature hfound).2.born hids h.traced (h.accounted hids).reached hl
    hcount hnew

theorem runs_callLambda (hl : s.arena.resolved method = .lambda l)
    (hmethod : method < s.arena.shapes.size) (hargs : ∀ p ∈ args, p < s.arena.shapes.size)
    (span : Span) :
    (tracing ctx bound K).Runs s (callLambda enter method l args span) (Gives ctx args) := by
  have hlambda : s.arena.lambda? method = some l := lambda?_eq_some.mpr hl
  rw [callLambda]
  split
  · exact (runs_report h _ span).bind fun _ _ h' _ _ => .pure h' (gives_unknown h' _)
  next hcount =>
    have hcount : l.paramCount = args.length := not_not.mp hcount
    refine .get ?_
    split
    next index hindex =>
      obtain ⟨signature, hsig, hsame⟩ := existingSignature?_eq_some hindex
      exact runs_newCall h hmethod hlambda hsig hcount fun _ => hsame
    next hnew =>
      have hused := runs_entered h henter hlambda hcount hnew hmethod hargs span
      exact ⟨hused.holds, (tracing ctx bound K).trans (henter method (some args) h hargs).leads
        hused.leads, hused.gives⟩

theorem runs_callShape {callee : ShapeId} (hcallee : callee < s.arena.shapes.size)
    (hargs : ∀ p ∈ args, p < s.arena.shapes.size) (span : Span) :
    (tracing ctx bound K).Runs s (callShape enter callee args span) (Gives ctx args) := by
  refine .get ?_
  split
  next l hl => exact runs_callLambda h henter hl hcallee hargs span
  next m _ => exact runs_hostCall h m args span
  next => exact .pure h (gives_unknown h _)
  next => exact .pure h (gives_unknown h _)
  next =>
    exact .describe ((runs_report h _ span).bind fun _ _ h' _ _ => .pure h' (gives_unknown h' _))

theorem runs_memberCallShape {how : MemberCall} (hhow : (tracing ctx bound K).Calls s how)
    (receiver : ShapeId) (hargs : ∀ p ∈ args, p < s.arena.shapes.size) (span : Span) :
    (tracing ctx bound K).Runs s (memberCallShape enter how receiver args span) fun s x =>
      Gives ctx args s x ∧ (how = .add → s.problems = [] → args.length = 1) := by
  have hnot {how : MemberCall} (hne : how ≠ .add) {m : Analyze ShapeId}
      (hm : (tracing ctx bound K).Runs s m (Gives ctx args)) :
      (tracing ctx bound K).Runs s m fun s x =>
        Gives ctx args s x ∧ (how = .add → s.problems = [] → args.length = 1) :=
    hm.imp fun _ _ hx => ⟨hx, fun heq => absurd heq hne⟩
  cases how with
  | host m => exact hnot MemberCall.noConfusion (runs_hostCall h m args span)
  | dynamic => exact hnot MemberCall.noConfusion (.pure h (gives_unknown h _))
  | value callee => exact hnot MemberCall.noConfusion (runs_callShape h henter hhow hargs span)
  | add =>
    rw [memberCallShape.eq_def]
    dsimp only
    split
    next item =>
      refine ((helps ctx bound K).writesElement receiver item h
        (hargs item (List.mem_singleton_self item))).bind fun _ _ h' _ _ => ?_
      exact .pure h' ⟨gives_unknown h' _, fun _ _ => rfl⟩
    next =>
      have hreport := runs_report h (.type (.arity "add" 1 args.length)) span
      refine ⟨hreport.holds, hreport.leads, gives_unknown hreport.holds _, fun _ hproblems => ?_⟩
      cases (List.append_eq_nil_iff.mp hproblems).2

theorem runs_call {n : Node} {callee : Expr} {args : List Expr}
    (hmem : .expr (.call n callee args) ∈ ctx.script.pieces) {c : ShapeId}
    (hc : c < s.arena.shapes.size) (hmarks : List.Forall₂ (mark ctx K s) args xs)
    (hxs : ∀ p ∈ xs, p < s.arena.shapes.size)
    (hnot : ∀ m object name span, callee ≠ .member m object name span) :
    (tracing ctx bound K).Runs s (do note n (← callShape enter c xs n.span)) fun s x =>
      (tracing ctx bound K).valid s x ∧ mark ctx K s (.call n callee args) x := by
  have hcall := runs_callShape h henter hc hxs n.span
  have hnote := runs_record hcall.holds hmem hcall.gives.1
    (fits_of_gives h hcall.leads hmarks hcall.gives)
    (fun _ _ layer _ => ⟨hmarks.length_eq ▸ hcall.gives.2.resultOf,
      fun m object name span heq => absurd heq (hnot m object name span)⟩) n.span
  exact ⟨hnote.holds, (tracing ctx bound K).trans hcall.leads hnote.leads,
    (tracing ctx bound K).valid_of_leads hnote.leads hcall.gives.1, hnote.gives⟩

theorem runs_memberCall {s₁ : State} (h₁ : (tracing ctx bound K).holds s₁)
    (hl : (tracing ctx bound K).leads s₁ s) {n c : Node} {object : Expr} {name : String}
    {span : Span} {args : List Expr}
    (hmem : .expr (.call n (.member c object name span) args) ∈ ctx.script.pieces)
    (hmark : mark ctx K s₁ object receiver)
    (hhow : (tracing ctx bound K).Calls s (memberCall ctx c receiver name s₁).1)
    (hmarks : List.Forall₂ (mark ctx K s) args xs) (hxs : ∀ p ∈ xs, p < s.arena.shapes.size) :
    (tracing ctx bound K).Runs s (do
      note n (← memberCallShape enter (memberCall ctx c receiver name s₁).1 receiver xs n.span))
      fun s x => (tracing ctx bound K).valid s x ∧
        mark ctx K s (.call n (.member c object name span) args) x := by
  have hcall := runs_memberCallShape h henter hhow receiver hxs n.span
  obtain ⟨hgives, hadd⟩ := hcall.gives
  have hleads := (tracing ctx bound K).trans hl hcall.leads
  have hnote := runs_record hcall.holds hmem hgives.1 (fits_of_gives h hcall.leads hmarks hgives)
    (fun hids hproblems layer hlast => ?_) n.span
  · exact ⟨hnote.holds, (tracing ctx bound K).trans hcall.leads hnote.leads,
      (tracing ctx bound K).valid_of_leads hnote.leads hgives.1, hnote.gives⟩
  · refine ⟨hmarks.length_eq ▸ hgives.2.resultOf, fun c' object' name' span' heq => ?_⟩
    cases heq
    have hobject := mark_later h₁ hleads hmark hids hproblems layer hlast
    refine ⟨hobject.piece, receiver, hobject.entry, fun htarget => ?_⟩
    -- An array now was one when the member was looked up, so the number of arguments was checked.
    have hproblems₁ : s₁.problems = [] := (hleads.1.2 h₁.sane).2.problems hproblems
    have hreceiver := h₁.sane.layers (hmark hids hproblems₁ layer hlast).entry
    have hbefore := hleads.2.arrayAdd_before h₁.sane.tidy hreceiver htarget
    exact hmarks.length_eq.trans (hadd (memberCall_of_arrayAdd hbefore) hproblems)

end

omit h in
theorem walks {enter : Enter} (henter : Enters ctx enter) {sites : List Site} {pieces : List Piece}
    (hdeclared : ∀ id offset, .declaration id offset ∈ sites → ctx.Keeps id)
    (hpieces : pieces ⊆ ctx.script.pieces) :
    (tracing ctx bound K).Walks (mark ctx K) ctx enter sites pieces where
  toHelps := helps ctx bound K
  later h hl hmark := mark_later h hl hmark
  records {s} e x span hmem hwhat h hx := by
    have hfits : Fits ctx K s e x := by
      rcases hwhat with hplain | rfl
      · exact fits_of_isPlain hplain
      · exact fits_unknown h
    have hruns := does_record h (hpieces hmem) hx hfits span
    refine ⟨hruns.holds, hruns.leads, fun hplain => ?_⟩
    exact (runs_record h (hpieces hmem) hx hfits (fun _ _ _ _ => details_of_isPlain hplain)
      span).gives
  writesField record piece name x hmem hname h hx := of_edited h
    (Arena.goes_writeField h.sane.sound h.sane.rooted record name hx)
    ((h.traced.based h.sane).writeField record
      (List.mem_flatMap.mpr ⟨piece, hpieces hmem, hname⟩) x) trivial
  newRecord n props fields hmem h hnames hkeys hin := of_push h
    (Arena.goes_newRecord h.sane.sound h.sane.rooted n.id hnames hin)
    (.newRecord (hpieces hmem) hkeys) rfl fun _ => Shape.noConfusion
  newArray n items x hmem h hx := of_push h
    (Arena.goes_newArray h.sane.sound h.sane.rooted n.id hx)
    (.newArray x (hpieces hmem)) rfl fun _ => Shape.noConfusion
  names node name _ h := runs_ident h node name
  places node name _ h := runs_namedPlace h node name
  declares id name span x hsite h hx :=
    runs_declare h name (.var id) (hdeclared id span.start hsite) hx span
  blocks h hm := runs_block h hm
  literals node params body _ hmem h := runs_literal h (hpieces hmem)
  calls n callee args c xs _ hmem h hc hmarks hxs hnot :=
    runs_call h henter (hpieces hmem) hc hmarks hxs hnot
  memberCalls n c object name span args receiver xs _ hmem h₁ h hl hmark hhow hmarks hxs :=
    runs_memberCall h henter h₁ hl (hpieces hmem) hmark hhow hmarks hxs

/-! ### Analyses of bodies -/

theorem runs_openBody (method : ShapeId) (l : LambdaShape) :
    (tracing ctx bound K).Does s (openBody method l) := by
  have hscopes {s : State} (h : (tracing ctx bound K).holds s) {f : Scopes → Scopes}
      (hf : (f s.scopes).Named ctx.Keeps) :
      (tracing ctx bound K).Does s (modify fun s : State => { s with scopes := f s.scopes }) :=
    of_scopes h rfl hf
  refine (hscopes h (f := fun t => { t with current := l.defScope }) h.standing.2).bind
    fun _ s₁ h₁ _ _ => ?_
  split
  next scope _ =>
    exact (hscopes h₁ (f := (·.reopen scope)) (h₁.standing.2.reopen scope)).bind
      fun _ _ h₂ _ _ => .pure h₂ trivial
  next =>
    refine (hscopes h₁ (f := (·.enter .lambda)) (h₁.standing.2.enter .lambda)).bind
      fun _ s₂ h₂ _ _ => .get ?_
    have hnote := of_standing h₂ (Standing.runs_noteLambda h₂.standing method
      (f := fun l => { l with bodyScope := some s₂.scopes.current }) (fun _ => rfl) fun _ => rfl)
      (.single (.alters (.scope method s₂.scopes.current))) rfl (.modifyLambda method fun _ => rfl)
    exact hnote.bind fun _ _ h₃ _ _ => .pure h₃ trivial

theorem runs_popReturns :
    (tracing ctx bound K).Runs s popReturns fun s shapes =>
      ∀ p ∈ shapes, p < s.arena.shapes.size := by
  have hrun : popReturns s = (s.returns.headD [], { s with returns := s.returns.tail }) := rfl
  refine of_alike h ?_ ?_ ?_ ?_ <;> rw [hrun]
  · exact {}
  · exact fun shapes hs => h.sane.returns shapes (List.mem_of_mem_tail hs)
  · exact h.standing.2
  · cases hreturns : s.returns with
    | nil => exact fun p hp => absurd hp List.not_mem_nil
    | cons shapes rest => exact h.sane.returns shapes (hreturns ▸ List.mem_cons_self)

theorem runs_pushReturns :
    (tracing ctx bound K).Does s
      (modify fun s : State => { s with returns := [] :: s.returns }) := by
  refine of_alike h {} (fun shapes hs p hp => ?_) h.standing.2 trivial
  rcases List.mem_cons.mp hs with rfl | hs
  · cases hp
  · exact h.sane.returns shapes hs p hp

omit h in
theorem gathers (ctx : Context) (bound : Nat) (K : List LayerId) :
    (tracing ctx bound K).Gathers where
  starts h := runs_pushReturns h
  ends h := runs_popReturns h

omit h in
/-- The body of a lambda is entered in a state `t` with a new layer, which no analysis has yet, and
with the shapes `params` of its parameters. -/
structure Started (ctx : Context) (bound : Nat) (s : State) (env : List LayerId) (layer : LayerId)
    (params : List ShapeId) (t : State) : Prop where
  fresh : bound ≤ layer
  there : layer < t.layers.layers.size
  unused : ¬ t.Uses layer
  before : (tracing ctx bound env).leads s t
  given : ∀ p ∈ params, p < t.arena.shapes.size
  holds : (tracing ctx (layer + 1) (env ++ [layer])).holds t

theorem started_startBody (method : ShapeId) (henv : s.Stacked l.env) {lambda : Lambda}
    (hparams : ∀ p ∈ lambda.params, ctx.Keeps p.node.id)
    (hargs : ∀ p ∈ args, p < s.arena.shapes.size) :
    Started ctx bound s l.env (startBody method l lambda args s).1.2.1
      (startBody method l lambda args s).1.2.2 (startBody method l lambda args s).2 := by
  -- The body is entered with its own stack.
  let s₁ : State :=
    { s with active := l.node :: s.active, stack := l.env, enclosing := l.enclosing }
  have hc₁ : Change ctx bound s s₁ := .aside rfl rfl rfl rfl rfl rfl id
  have hturn : (standing ctx).Does s (set s₁) :=
    Standing.runs_turn h.standing rfl h.standing.2 henv
  have h₁ : (tracing ctx bound l.env).holds s₁ :=
    ⟨hturn.holds, h.traced.change hc₁, fun hids => (h.accounted hids).calm hids h.sane.tidy
      (.single hc₁) (.of_same rfl rfl), rfl, h.bound_le⟩
  have hopen := runs_openBody h₁ method l
  let s₂ := (openBody method l s₁).2
  let layer := s₂.layers.layers.size
  let s₃ : State := { s₂ with
    layers := s₂.layers.newLayer.2
    stack := s₂.stack ++ [layer]
    enclosing := s₂.enclosing ++ [l.node] }
  have hsize : s₃.layers.layers.size = layer + 1 := Array.size_push ..
  have hc₃ : Chain ctx bound s₂ s₃ :=
    .tail (.single .newLayer) (.aside rfl rfl rfl rfl rfl rfl id)
  have hlayer : (standing ctx).Does s₂ (set s₃) := Standing.runs_newLayer hopen.holds.standing rfl
  have h₃ : (tracing ctx (layer + 1) (l.env ++ [layer])).holds s₃ := by
    refine ⟨hlayer.holds, hopen.holds.traced.chain hc₃, fun hids => ?_, ?_, Nat.le_of_eq hsize.symm⟩
    · exact (hopen.holds.accounted hids).calm hids hopen.holds.sane.tidy hc₃
        (.of_layers rfl fun hp => .inl ((Layers.get?_newLayer ..).symm.trans hp))
    show s₂.stack ++ [layer] = _
    rw [hopen.holds.stack]
  have hbefore : (tracing ctx bound l.env).leads s s₃ :=
    (tracing ctx bound l.env).trans ⟨hturn.leads, .single hc₁⟩
      ((tracing ctx bound l.env).trans hopen.leads ⟨hlayer.leads, hc₃⟩)
  have hgrown : s.arena.shapes.size ≤ s₃.arena.shapes.size :=
    (hopen.leads.1.1 : s₁.arena.shapes.size ≤ _)
  have hdeclare := (helps ctx (layer + 1) (l.env ++ [layer])).runs_declareParams l.node
    (fun index _ p hp h hx => runs_declare h p.name (.parameter l.node index p.node.id)
      (hparams p hp) hx p.node.span) 0 h₃
    fun p hp => Nat.lt_of_lt_of_le (hargs p hp) hgrown
  have hfresh : bound ≤ layer := h.bound_le.trans hopen.leads.2.count_le
  have hthere : layer < s₃.layers.layers.size :=
    Nat.lt_of_lt_of_eq (Nat.lt_succ_self layer) hsize.symm
  refine ⟨hfresh, Nat.lt_of_lt_of_le hthere hdeclare.leads.2.count_le, fun huses => ?_,
    (tracing ctx bound l.env).trans hbefore
      ⟨hdeclare.leads.1, hdeclare.leads.2.mono (hfresh.trans (Nat.le_succ _))⟩,
    hdeclare.gives, hdeclare.holds⟩
  rcases hdeclare.leads.2.uses huses with hold | hlt
  · exact Nat.lt_irrefl _ (hopen.holds.traced.uses (s := s₂) hold)
  · exact Nat.not_succ_le_self _ hlt

theorem does_endBody {enter : Enter} {lambda : Lambda} {t : State}
    (hstarted : Started ctx bound s l.env layer args t)
    (hwalk : (tracing ctx (layer + 1) (l.env ++ [layer])).Does t (bodyShape ctx enter lambda.body))
    (scope : ScopeId) :
    (standing ctx).Does (bodyShape ctx enter lambda.body t).2 (endBody s l scope) :=
  Standing.runs_turn hwalk.holds.standing rfl (hwalk.holds.standing.2.current scope).close
    (h.sane.stack.later (hstarted.before.2.count_le.trans hwalk.leads.2.count_le))

end

/-- The changes of the analysis of a body, whose layer stays free for its signature. -/
theorem runs_analyzeBody {enter : Enter} (henter : Enters ctx enter)
    (h : (tracing ctx bound K).holds s) (method : ShapeId) (hl : s.arena.lambda? method = some l)
    {lambda : Lambda} (hlambda : ctx.script.lambda? l.node = some lambda)
    (hargs : ∀ p ∈ args, p < s.arena.shapes.size) :
    (tracing ctx bound K).Runs s (analyzeBody ctx enter method l lambda args) fun s' signature =>
      s'.Offers ctx bound method signature ∧
        (analyzeBody ctx enter method l lambda args s).1 = signature ∧
        Proceeds ctx (startBody method l lambda args s).2 s' := by
  have hmem := (Script.mem_of_lambda? hlambda).1
  have hinside := ctx.script.lists.inside lambda hmem
  have henv : s.Stacked l.env := h.sane.envs (i := s.arena.resolve method) (lambda?_eq_some.mp hl)
  have hstarted := started_startBody h method henv hinside.params hargs
  let layer := (startBody method l lambda args s).1.2.1
  let t := (startBody method l lambda args s).2
  have hwalk := (walks henter hinside.declared hinside.pieces).runs_bodyShape
    (gathers ..) hstarted.holds
  have hend := does_endBody h hstarted hwalk.does (startBody method l lambda args s).1.1
  have hbody : (standing ctx).Runs s (analyzeBody ctx enter method l lambda args) State.Has := by
    have hleads := (standing ctx).trans hwalk.leads.1 hend.leads
    rw [analyzeBody]
    exact ⟨hend.holds, (standing ctx).trans hstarted.before.1 hleads,
      (standing ctx).valid_of_leads hend.leads hwalk.gives.1,
      fun p hp => (standing ctx).valid_of_leads hleads (hstarted.given p hp)⟩
  -- No analysis inside gets the layer of the body.
  have hlast : Change ctx (layer + 1) (bodyShape ctx enter lambda.body t).2
      (analyzeBody ctx enter method l lambda args s).2 := .aside rfl rfl rfl rfl rfl rfl id
  have hafter : Chain ctx (layer + 1) t (analyzeBody ctx enter method l lambda args s).2 :=
    hwalk.leads.2.tail hlast
  have hruns := of_accounted h hbody
    (hstarted.before.2.trans (hafter.mono (hstarted.fresh.trans (Nat.le_succ _)))) rfl fun hids =>
      (hwalk.holds.accounted hids).calm hids hwalk.holds.sane.tidy (.single hlast)
        (.of_same rfl rfl)
  refine ⟨hruns.holds, hruns.leads, ⟨hbody.gives, ?_, ?_, ?_, ?_⟩, rfl, hafter.proceeds⟩
  · exact hstarted.fresh
  · exact Nat.lt_of_lt_of_le hstarted.there hafter.count_le
  · intro huses
    rcases hafter.uses huses with hold | hlt
    · exact hstarted.unused hold
    · exact Nat.not_succ_le_self _ hlt
  · intro l' lambda' hl' hlambda'
    obtain ⟨l'', hl'', hsame⟩ := hruns.leads.2.lambda? h.sane.tidy hl
    cases hl'.symm.trans hl''
    rw [hsame.node, hlambda] at hlambda'
    cases hlambda'
    refine State.Covers.change (fun hids hproblems e he => ?_) hwalk.holds.sane.tidy hlast
    obtain ⟨x, hx⟩ := hwalk.gives.2 e he
    exact ⟨x, hx hids hproblems layer (List.getLast?_concat ..)⟩

theorem enters_enterLambda (ctx : Context) (depth : Nat) : Enters ctx (enterLambda ctx depth) := by
  induction depth with
  | zero => exact fun method args h _ => .pure h fun signature hs => by cases hs
  | succ depth ih =>
    intro bound K s method args h hargs
    have hnone : (tracing ctx bound K).Runs s (pure none) fun s' found => ∀ signature ∈ found,
        s'.Offers ctx bound method signature ∧ Found ctx s method (args.getD []) signature s' :=
      .pure h fun signature hs => by cases hs
    refine .get ?_
    split
    next => exact hnone
    next l hl =>
      split
      next => exact hnone
      next lambda hlambda =>
        split
        · exact hnone
        · refine (runs_analyzeBody ih h method hl hlambda hargs).bind
            fun signature s' h' _ hoffer => .pure h' fun found hfound => ?_
          cases hfound
          exact ⟨hoffer.1, l, lambda, hl, hlambda, ⟨depth, hoffer.2.1⟩, hoffer.2.2⟩

/-! ### Events in bodies -/

/-- What is known of events in any body once they happened, and as long as changes are made. A call
has the events of the body that it enters. -/
structure Watches {ν : Type} (ctx : Context) (F : ν → State → Prop) (L : Lookout ν) : Prop where
  lasting : ∀ {v s s'}, s.Sane → (standing ctx).leads s s' → Chain ctx (Layers.root + 1) s s' →
    F v s → F v s'
  sees : ∀ {bound K sites pieces}, Layers.root + 1 ≤ bound → pieces ⊆ ctx.script.pieces →
    (tracing ctx bound K).Sees (mark ctx K) F ctx L sites pieces
  starts : L.starts = fun _ _ => [] := by rfl

section

variable {ν : Type} {v : ν} {F : ν → State → Prop} {L : Lookout ν} {enter : Enter} {inner : Inner ν}

/-- The events of a body are known when it has been analyzed. -/
def Tells (ctx : Context) (F : ν → State → Prop) (enter : Enter) (inner : Inner ν) : Prop :=
  ∀ {bound : Nat} {K : List LayerId} {s : State} (method : ShapeId) (args : Option (List ShapeId)),
    Layers.root + 1 ≤ bound → (tracing ctx bound K).holds s →
    (∀ p ∈ args.getD [], p < s.arena.shapes.size) →
    ∀ v ∈ inner method args s, F v (enter method args s).2

namespace Watches

variable (W : Watches ctx F L)

include W

theorem later (hbound : Layers.root + 1 ≤ bound) (h : (tracing ctx bound K).holds s)
    (hl : (tracing ctx bound K).leads s s') (hv : F v s) : F v s' :=
  W.lasting h.sane hl.1 (hl.2.mono hbound) hv

theorem notices (henter : Enters ctx enter) (htells : Tells ctx F enter inner)
    (hbound : Layers.root + 1 ≤ bound) {sites : List Site} {pieces : List Piece}
    (hdeclared : ∀ id offset, .declaration id offset ∈ sites → ctx.Keeps id)
    (hpieces : pieces ⊆ ctx.script.pieces) :
    (tracing ctx bound K).Notices (mark ctx K) F (L.events ctx enter inner) sites pieces where
  toWalks := walks henter hdeclared hpieces
  toSees := W.sees hbound hpieces
  lasting h hl hv := W.later hbound h hl hv
  entered {s} n callee args c xs _ hmem h hc _ hxs v hv := by
    obtain ⟨hv, ⟨l, hl, hcount, hnew⟩, hrun⟩ := callShape_of_event enter hv n.span
    have hcall := runs_callShape h henter hc hxs n.span
    have hused := runs_entered h henter hl hcount hnew hc hxs n.span
    have hend : F v (callShape enter c xs n.span s).2 := by
      rw [hrun]
      exact W.later hbound (henter c (some xs) h hxs).holds hused.leads
        (htells c (some xs) hbound h hxs v hv)
    exact W.later hbound hcall.holds (leads_record hcall.holds (hpieces hmem) hcall.gives.1 n.span)
      hend
  inScope h hm v hv :=
    have hinside := hm _ (runs_openScope h .block).holds
    W.later hbound hinside.holds (runs_closeScope hinside.holds).leads (hinside.shown v hv)

theorem tells (depth : Nat) : Tells ctx F (enterLambda ctx depth) (L.entered ctx depth) := by
  induction depth with
  | zero =>
    intro bound K s method args hbound h hargs v hv
    cases hv
  | succ depth ih =>
    intro bound K s method args hbound h hargs v hv
    obtain ⟨l, lambda, hl, hlambda, _, hv, hrun⟩ := enterLambda_of_event hv
    rw [W.starts] at hv
    replace hv := hv.resolve_left List.not_mem_nil
    have hmem := (Script.mem_of_lambda? hlambda).1
    have hinside := ctx.script.lists.inside lambda hmem
    have hstarted := started_startBody h method (l := l)
      (h.sane.envs (i := s.arena.resolve method) (lambda?_eq_some.mp hl)) hinside.params hargs
    have N := W.notices (K := l.env ++ [(startBody method l lambda (args.getD []) s).1.2.1])
      (enters_enterLambda ctx depth) ih (hbound.trans (hstarted.fresh.trans (Nat.le_succ _)))
      hinside.declared hinside.pieces
    have hbody := N.shows_bodyShape (gathers ..) hstarted.holds
    have hend := does_endBody h hstarted hbody.toRuns.does
      (startBody method l lambda (args.getD []) s).1.1
    rw [hrun, analyzeBody]
    exact W.lasting hbody.holds.sane hend.leads (.single (.aside rfl rfl rfl rfl rfl rfl id))
      (hbody.shown v hv)

end Watches

end

end Tracing

/-! ### Passes -/

theorem analyzeGeneric_bounded (ctx : Context) (method : ShapeId) (s : State) :
    (analyzeGeneric ctx method s).2 =
      let entered := enter ctx method none (s.bounded s.arena.shapes.size s.layers.layers.size)
      let thawed := entered.2.bounded s.arena.frozenBelow s.layers.frozenBelow
      { thawed with
        arena := thawed.arena.modifyLambda method fun l => { l with generic := entered.1 } } :=
  rfl

theorem State.Traced.bounded (h : s.Traced ctx) (n m : Nat) : (s.bounded n m).Traced ctx :=
  ⟨h.named, h.hosts, h.uses, h.literal⟩

theorem State.Notes.bounded (h : s.Notes ctx layer e x) (n m : Nat) :
    (s.bounded n m).Notes ctx layer e x := by
  refine ⟨h.piece, h.entry, ?_⟩
  have hdetails := h.details
  cases e with
  | call node callee args =>
    refine ⟨fun method k hget => ?_, fun c object name span hcallee => ?_⟩
    · obtain ⟨l, hl, hcount⟩ := hdetails.1 method k hget
      exact ⟨l, (lambda?_bounded s n m method).trans hl, hcount⟩
    · obtain ⟨hmem, r, hr, hadd⟩ := hdetails.2 c object name span hcallee
      refine ⟨hmem, r, hr, fun htarget => hadd ?_⟩
      rw [resolve_eq_arrayAdd, Arena.resolved, resolve_bounded] at htarget
      exact resolve_eq_arrayAdd.mpr htarget
  | lambda _ _ _ => exact hdetails
  | _ => trivial

theorem State.Covers.bounded {es : List Expr} (h : s.Covers ctx es layer) (n m : Nat) :
    (s.bounded n m).Covers ctx es layer :=
  fun hids hproblems e he => (h hids hproblems e he).imp fun _ hx => hx.bounded n m

theorem State.Offers.bounded {signature : Signature} (h : s.Offers ctx bound method signature)
    (n m : Nat) :
    (s.bounded n m).Offers ctx bound method signature :=
  ⟨h.has, h.fresh, h.there, h.unused, fun l lambda hl hlambda =>
    (h.covers l lambda ((lambda?_bounded s n m method).symm.trans hl) hlambda).bounded n m⟩

/-- What is kept of tidy states by every change, and also if bounds change. Every layer but the root
may be that of an analysis. -/
structure Lasts (ctx : Context) (P : State → Prop) : Prop where
  change : ∀ {s s'}, s.Tidy → Change ctx (Layers.root + 1) s s' → P s → P s'
  bounds : ∀ {s} n m, P s → P (s.bounded n m)

namespace Tracing

/-- What holds between the walks of a pass. -/
abbrev Between (ctx : Context) : State → Prop :=
  (tracing ctx (Layers.root + 1) [Layers.root]).holds

theorem holds_start (ctx : Context) (widening : Widening) : Between ctx (.start widening) where
  standing := Standing.holds_start widening ctx
  traced :=
    { named := fun {i fields origins} hget => by
        have hcompound := (get_start widening i).1
        rw [show (State.start widening).arena.get i = _ from hget] at hcompound
        cases hcompound
      hosts := fun p hp => by cases hp
      uses := fun {layer} hu => by
        obtain ⟨i, l, _, _, hl, _⟩ := hu
        exact absurd hl ((get_start widening i).2 l)
      literal := fun {i l} hl => absurd hl ((get_start widening i).2 l) }
  accounted _ :=
    { reached := ⟨widening, .refl⟩
      calls := fun _ {layer n _ _ x _ _} _ hentry _ => by
        have hnone := get?_start layer n.id
        cases hnone.symm.trans hentry
      signatures := fun {i l _} hl _ => absurd hl ((get_start widening i).2 l) }
  stack := rfl
  bound_le := Nat.le_refl _

theorem does_bounded (h : (standing ctx).holds s) (n m : Nat) :
    (standing ctx).Does s (modify (·.bounded n m)) := by
  have harena : (standing ctx).Does s (modifyArena fun a => { a with frozenBelow := n }) :=
    Standing.runs_modifyArena h (goes_frozenBelow h.1.sound h.1.rooted n)
  have hlayers : (standing ctx).Does { s with arena := { s.arena with frozenBelow := n } }
      (modify fun s => { s with layers := { s.layers with frozenBelow := m } }) :=
    Standing.runs_frozenLayers harena.holds rfl
  exact ⟨hlayers.holds, (standing ctx).trans harena.leads hlayers.leads, trivial⟩

theorem holds_bounded (h : (tracing ctx bound K).holds s) (n m : Nat) :
    (tracing ctx bound K).holds (s.bounded n m) :=
  ⟨(does_bounded h.standing n m).holds, h.traced.bounded n m,
    fun hids => (h.accounted hids).bounded n m, h.stack, h.bound_le⟩

/-- A later state between the walks of a pass. -/
structure After (ctx : Context) (s s' : State) : Prop where
  between : Between ctx s'
  leads : (standing ctx).leads s s'

/-- What is kept from the end of the body on, when a generic analysis is noted. -/
theorem analyzeGeneric_keeps_of_entered (hlasts : Lasts ctx P) (h : Between ctx s)
    (method : ShapeId)
    (hP : P (enter ctx method none (s.bounded s.arena.shapes.size s.layers.layers.size)).2) :
    After ctx s (analyzeGeneric ctx method s).2 ∧ P (analyzeGeneric ctx method s).2 := by
  rw [analyzeGeneric_bounded]
  rw [enter] at hP ⊢
  dsimp only
  have hfrozen := holds_bounded h s.arena.shapes.size s.layers.layers.size
  obtain ⟨hentered, hleads, hoffers⟩ := enters_enterLambda ctx ctx.script.lambdas.length method none
    hfrozen fun p hp => absurd hp List.not_mem_nil
  replace hleads := (standing ctx).trans
    (does_bounded h.standing s.arena.shapes.size s.layers.layers.size).leads hleads.1
  generalize enterLambda ctx ctx.script.lambdas.length method none
    (s.bounded s.arena.shapes.size s.layers.layers.size) = entered at hentered hleads hoffers hP
  have hthawed := holds_bounded hentered s.arena.frozenBelow s.layers.frozenBelow
  replace hleads := (standing ctx).trans hleads
    (does_bounded hentered.standing s.arena.frozenBelow s.layers.frozenBelow).leads
  have hP' := hlasts.bounds s.arena.frozenBelow s.layers.frozenBelow hP
  have hoffers' (signature : Signature) (hfound : signature ∈ entered.1) :=
    (hoffers signature hfound).1.bounded s.arena.frozenBelow s.layers.frozenBelow
  change (standing ctx).leads s
    (entered.2.bounded s.arena.frozenBelow s.layers.frozenBelow) at hleads
  generalize entered.2.bounded s.arena.frozenBelow s.layers.frozenBelow = thawed at *
  have hchange : Change ctx (Layers.root + 1) thawed { thawed with
      arena := thawed.arena.modifyLambda method fun l => { l with generic := entered.1 } } :=
    .alters (.generic hoffers')
  have hnote : (standing ctx).Does thawed
      (modifyArena (·.modifyLambda method fun l => { l with generic := entered.1 })) :=
    Standing.runs_noteLambda hthawed.standing method (fun _ => rfl) fun _ => rfl
  exact
    ⟨⟨(of_standing hthawed hnote (.single hchange) rfl (.modifyLambda method fun _ => rfl)).holds,
      (standing ctx).trans hleads hnote.leads⟩,
    hlasts.change hthawed.sane.tidy hchange hP'⟩

theorem analyzeGeneric_keeps (hlasts : Lasts ctx P) (h : Between ctx s) (hP : P s)
    (method : ShapeId) :
    After ctx s (analyzeGeneric ctx method s).2 ∧ P (analyzeGeneric ctx method s).2 := by
  have hfrozen := holds_bounded h s.arena.shapes.size s.layers.layers.size
  have hentered := enters_enterLambda ctx ctx.script.lambdas.length method none hfrozen
    fun p hp => absurd hp List.not_mem_nil
  exact analyzeGeneric_keeps_of_entered hlasts h method
    (hentered.leads.2.keeps hfrozen.sane.tidy hlasts.change (hlasts.bounds _ _ hP))

theorem drain_keeps (hlasts : Lasts ctx P) (h : Between ctx s) (hP : P s) (budget : Nat) :
    After ctx s (drain ctx budget s).2 ∧ P (drain ctx budget s).2 := by
  have hstill : After ctx s s := ⟨h, (standing ctx).refl s⟩
  induction budget generalizing s with
  | zero => exact ⟨hstill, hP⟩
  | succ budget ih =>
    cases hp : s.pending with
    | nil =>
      rw [drain_of_empty hp]
      exact ⟨hstill, hP⟩
    | cons method rest =>
      have hc : Change ctx (Layers.root + 1) s { s with pending := rest } :=
        .aside rfl rfl rfl rfl rfl rfl id
      have hpop : (tracing ctx (Layers.root + 1) [Layers.root]).Does s
          (modify fun s : State => { s with pending := rest }) :=
        of_same h {} rfl rfl trivial
      have hnext := analyzeGeneric_keeps hlasts hpop.holds (hlasts.change h.sane.tidy hc hP) method
      obtain ⟨hrest, hPrest⟩ := ih hnext.1.between hnext.2 ⟨hnext.1.between, (standing ctx).refl _⟩
      rw [drain_of_cons hp]
      exact ⟨⟨hrest.between, (standing ctx).trans hpop.leads.1
        ((standing ctx).trans hnext.1.leads hrest.leads)⟩, hPrest⟩

/-- The walk of the script makes changes, and the first layer has a note for each expression that
has a value in it. -/
theorem runs_walked (ctx : Context) (widening : Widening) :
    Between ctx (.walked ctx widening) ∧
      (tracing ctx (Layers.root + 1) [Layers.root]).leads (.start widening) (.walked ctx widening) ∧
      (State.walked ctx widening).Covers ctx (Stmt.valuedOfAll ctx.script.body) Layers.root := by
  have hstart := holds_start ctx widening
  have hpush := runs_pushReturns hstart
  have W : (tracing ctx (Layers.root + 1) [Layers.root]).Walks (mark ctx [Layers.root]) ctx
      (enter ctx) ctx.script.sites ctx.script.pieces :=
    walks (enters_enterLambda ctx _) ctx.script.lists.declared (List.Subset.refl _)
  have hwalk := W.runs_stmts ctx.script.body false false (List.Subset.refl _) (List.Subset.refl _)
    hpush.holds
  have hpop := runs_popReturns hwalk.holds
  have hleads := (tracing ctx (Layers.root + 1) [Layers.root]).trans hpush.leads
    ((tracing ctx (Layers.root + 1) [Layers.root]).trans hwalk.leads hpop.leads)
  refine ⟨hpop.holds, hleads, fun hids hproblems e he => ?_⟩
  obtain ⟨x, hx⟩ := W.left_later hwalk.gives hwalk.holds hpop.leads e he
  exact ⟨x, hx hids hproblems Layers.root rfl⟩

/-- The events of the walk of the script are known when it ends. -/
theorem Watches.walked {ν : Type} {v : ν} {F : ν → State → Prop} {L : Lookout ν}
    (W : Watches ctx F L) {widening : Widening} (hv : v ∈ L.walked ctx widening) :
    F v (.walked ctx widening) := by
  have hpush := runs_pushReturns (holds_start ctx widening)
  have N := W.notices (K := [Layers.root]) (enters_enterLambda ctx _)
    (W.tells ctx.script.lambdas.length) (Nat.le_refl _) ctx.script.lists.declared
      (List.Subset.refl _)
  have hwalk := N.shows_stmts ctx.script.body false false (List.Subset.refl _) (List.Subset.refl _)
    hpush.holds
  exact W.later (Nat.le_refl _) hwalk.holds (runs_popReturns hwalk.holds).leads (hwalk.shown v hv)

theorem after_walked (ctx : Context) (budget : Nat) (widening : Widening) :
    After ctx (.walked ctx widening) (pass ctx budget (.start widening)).2 := by
  obtain ⟨hdrain, _⟩ := drain_keeps (P := fun _ => True)
    ⟨fun _ _ _ => trivial, fun _ _ _ => trivial⟩ (runs_walked ctx widening).1 trivial budget
  have hwarn : (tracing ctx (Layers.root + 1) [Layers.root]).Does _ warnUnread :=
    of_same hdrain.between {} rfl rfl trivial
  exact ⟨hwarn.holds, (standing ctx).trans hdrain.leads hwarn.leads.1⟩

theorem after_start (ctx : Context) (budget : Nat) (widening : Widening) :
    After ctx (.start widening) (pass ctx budget (.start widening)).2 :=
  have hafter := after_walked ctx budget widening
  ⟨hafter.between, (standing ctx).trans (runs_walked ctx widening).2.1.1 hafter.leads⟩

/-- What is kept from the walk of the script to the end of a pass. -/
theorem pass_keeps_of_walked (hlasts : Lasts ctx P) (budget : Nat) {widening : Widening}
    (hP : P (.walked ctx widening)) :
    (pass ctx budget (.start widening)).2.Tidy ∧ P (pass ctx budget (.start widening)).2 := by
  obtain ⟨hwalked, _⟩ := runs_walked ctx widening
  have hdrain := drain_keeps hlasts hwalked hP budget
  have hc : Change ctx (Layers.root + 1) (drain ctx budget (.walked ctx widening)).2
      (pass ctx budget (.start widening)).2 := .aside rfl rfl rfl rfl rfl rfl id
  have htidy := hdrain.1.between.sane.tidy
  exact ⟨htidy.change hc, hlasts.change htidy hc hdrain.2⟩

theorem pass_keeps (hlasts : Lasts ctx P) (budget : Nat) {widening : Widening}
    (hP : P (.start widening)) : P (pass ctx budget (.start widening)).2 :=
  (pass_keeps_of_walked hlasts budget ((runs_walked ctx widening).2.1.2.keeps
    (holds_start ctx widening).sane.tidy hlasts.change hP)).2

end Tracing

end HostScript.Analysis
