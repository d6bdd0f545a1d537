import HostScript.Proofs.Analysis.Events
import HostScript.Proofs.Analysis.Steps

/-!
# Quiet actions

Most actions of an analysis add no lambda shapes, and leave the analysis where it stands: in the
same scope, with the same layers, inside the same lambdas. An invariant that all of them keep is
kept by a whole walk if it is kept where a block is analyzed, a lambda shape made or a body entered.
-/

namespace HostScript

/-- All scopes are still there, and have the parents they had. -/
structure Scopes.Extends (s t : Scopes) : Prop where
  size : s.scopes.size ≤ t.scopes.size
  parents : t.Each fun id scope => ∀ old, s.scopes[id]? = some old → scope.parent = old.parent

namespace Scopes.Extends

variable {s t u : Scopes}

theorem refl (s : Scopes) : s.Extends s where
  size := Nat.le_refl _
  parents _ _ hscope _ hold := by rw [Option.some.inj (hscope.symm.trans hold)]

/-- A scope that was there is there. -/
theorem exists_scope (h : s.Extends t) {id : ScopeId} {old : Scope} (hold : s.scopes[id]? = some old) :
    ∃ scope, t.scopes[id]? = some scope ∧ scope.parent = old.parent := by
  have hlt := Nat.lt_of_lt_of_le (Array.getElem?_eq_some_iff.mp hold).1 h.size
  exact ⟨_, Array.getElem?_eq_getElem hlt, h.parents id _ (Array.getElem?_eq_getElem hlt) old hold⟩

theorem trans (h : s.Extends t) (h' : t.Extends u) : s.Extends u where
  size := h.size.trans h'.size
  parents id scope hscope old hold := by
    obtain ⟨mid, hmid, hparent⟩ := h.exists_scope hold
    exact (h'.parents id scope hscope mid hmid).trans hparent

theorem declare (h : s.Extends t) {name : String} {symbol : Symbol} {offset : Nat}
    (hdeclare : t.declare name symbol offset = .ok u) : s.Extends u where
  size := by
    rcases declare_eq_ok hdeclare with ⟨rfl, _⟩ | ⟨scope, _, _, _, rfl⟩
    · exact h.size
    · exact h.size.trans_eq (size_modifyScope ..).symm
  parents := Each.declare h.parents (fun _ hc => hc) hdeclare

theorem enter (h : s.Extends t) (kind : ScopeKind) : s.Extends (t.enter kind) where
  size := by
    rw [enter_scopes, Array.size_push, size_modifyScope]
    exact Nat.le_succ_of_le h.size
  parents := Each.enter (fun _ _ hc => hc) h.parents fun old hold =>
    absurd (Array.getElem?_eq_some_iff.mp hold).1 (Nat.not_lt.mpr h.size)

theorem close (h : s.Extends t) : s.Extends t.close :=
  ⟨h.size.trans_eq (size_close t).symm, Each.close (fun _ _ hc => hc) h.parents⟩

theorem reopen (h : s.Extends t) (id : ScopeId) : s.Extends (t.reopen id) :=
  ⟨h.size.trans_eq (size_reopen t id).symm, Each.reopen (fun _ _ hc => hc) h.parents fun _ hc => hc⟩

end Scopes.Extends

namespace Analysis

/-- The analysis stands where it stood before: in the same scope, layers and lambdas, with the same
lambdas under analysis and the same number of bodies that gather what they return. -/
structure State.Restores (s s' : State) : Prop where
  current : s'.scopes.current = s.scopes.current
  stack : s'.stack = s.stack
  enclosing : s'.enclosing = s.enclosing
  active : s'.active = s.active
  returns : s'.returns.length = s.returns.length
  scopes : s.scopes.Extends s'.scopes

/-- Where an analysis stands. -/
def State.place (s : State) : Scopes × List LayerId × List NodeId × List NodeId × List (List ShapeId) :=
  (s.scopes, s.stack, s.enclosing, s.active, s.returns)

theorem State.Restores.of_same {s s' : State} (h : s'.place = s.place) : s.Restores s' := by
  simp only [place, Prod.mk.injEq] at h
  obtain ⟨hscopes, hstack, henclosing, hactive, hreturns⟩ := h
  exact ⟨by rw [hscopes], hstack, henclosing, hactive, by rw [hreturns], by rw [hscopes]; exact .refl _⟩

theorem State.Restores.trans {s s' s'' : State} (h : s.Restores s') (h' : s'.Restores s'') :
    s.Restores s'' where
  current := h'.current.trans h.current
  stack := h'.stack.trans h.stack
  enclosing := h'.enclosing.trans h.enclosing
  active := h'.active.trans h.active
  returns := h'.returns.trans h.returns
  scopes := h.scopes.trans h'.scopes

variable {α β : Type} {ctx : Context} {s : State}

/-- An action leaves the literals of shapes and the queue as they are, and the analysis where it
is. -/
@[mk_iff quiet_iff]
structure Quiet (s : State) (m : Analyze α) : Prop where
  literals : (m s).2.arena.literal? = s.arena.literal?
  pending : (m s).2.pending = s.pending
  restores : s.Restores (m s).2

theorem State.Restores.declare {name : String} {symbol : Symbol} {offset : Nat} {scopes : Scopes}
    (h : s.scopes.declare name symbol offset = .ok scopes) : s.Restores { s with scopes } :=
  ⟨(Scopes.Stays.of_declare h).current, rfl, rfl, rfl, rfl, (Scopes.Extends.refl _).declare h⟩

namespace Quiet

variable {m : Analyze α} {f : α → Analyze β}

theorem skip (h : ((m s).2.arena, (m s).2.pending, (m s).2.place) = (s.arena, s.pending, s.place)) :
    Quiet s m := by
  simp only [Prod.mk.injEq] at h
  exact ⟨congrArg Arena.literal? h.1, h.2.1, .of_same h.2.2⟩

theorem pure (a : α) : Quiet s (Pure.pure a) :=
  .skip rfl

theorem bind (h : Quiet s m) (hf : ∀ a s', Quiet s' (f a)) : Quiet s (m >>= f) :=
  have hrest := hf (m s).1 (m s).2
  ⟨hrest.literals.trans h.literals, hrest.pending.trans h.pending, h.restores.trans hrest.restores⟩

theorem get {f : State → Analyze β} (h : Quiet s (f s)) : Quiet s (MonadState.get >>= f) :=
  ⟨h.literals, h.pending, h.restores⟩

theorem inArena {f : Arena → α × Arena} (h : ∀ a, (f a).2.literal? = a.literal?) :
    Quiet s (inArena f) :=
  ⟨h s.arena, rfl, .of_same rfl⟩

theorem modifyArena {f : Arena → Arena} (h : ∀ a, (f a).literal? = a.literal?) :
    Quiet s (modifyArena f) :=
  ⟨h s.arena, rfl, .of_same rfl⟩

end Quiet

theorem quiet_report (cause : Cause) (span : Span) : Quiet s (report cause span) :=
  .skip rfl

theorem quiet_record (node : NodeId) (x : ShapeId) (span : Span) : Quiet s (record node x span) := by
  refine .get ?_
  split
  · exact .skip rfl
  · exact quiet_report _ span

theorem quiet_noteUse (symbol : Symbol) : Quiet s (noteUse symbol) := by
  refine .get ?_
  dsimp only
  split
  · exact .skip rfl
  · exact .pure _

theorem quiet_readSymbol (symbol : Symbol) : Quiet s (readSymbol symbol) :=
  (quiet_noteUse symbol).bind fun _ _ => .bind (.skip rfl) fun _ _ => .get (.pure _)

theorem quiet_resolve? (node : Node) (name : String) : Quiet s (resolve? ctx node name) := by
  refine .get ?_
  dsimp only
  split
  · exact .bind (.skip rfl) fun _ _ => .pure _
  · exact (quiet_report _ _).bind fun _ _ => .pure _

theorem quiet_hostMemberShape (m : Member) (span : Span) : Quiet s (hostMemberShape m span) := by
  rw [hostMemberShape]
  split
  · exact .inArena fun a => Arena.literal?_push rfl
  · split
    · exact (quiet_report _ span).bind fun _ _ => .pure _
    · split
      · exact .inArena fun a => Arena.literal?_ofType a _
      · exact .pure _

theorem quiet_ident (node : Node) (name : String) : Quiet s (ident ctx node name) := by
  refine (quiet_resolve? node name).bind fun r s' => ?_
  split
  · exact quiet_readSymbol _
  · exact quiet_hostMemberShape _ _
  · exact .pure _

theorem quiet_namedPlace (node : Node) (name : String) : Quiet s (namedPlace ctx node name) := by
  refine (quiet_resolve? node name).bind fun r s' => ?_
  split
  · exact (quiet_noteUse _).bind fun _ _ => .pure _
  · exact .pure _
  · exact .pure _

theorem quiet_storeLocal (symbol : Symbol) (x : ShapeId) : Quiet s (storeLocal symbol x) := by
  refine .get ?_
  split
  · exact .pure _
  · refine .bind (.inArena fun a => Arena.literal?_derive a _ _) fun _ s' => .get ?_
    split
    · refine .bind (.skip rfl) fun layer s'' => ?_
      split
      · refine .get ?_
        split
        · exact .modifyArena fun a => Arena.literal?_of_shapes rfl
        · exact .pure _
      · exact .pure _
    · exact .pure _

theorem quiet_declare (name : String) (symbol : Symbol) (x : ShapeId) (span : Span) :
    Quiet s (declare name symbol x span) := by
  refine .get ((quiet_record _ _ span).bind fun _ s' => .get ?_)
  cases symbol with
  | var id =>
    dsimp only
    split
    next hscopes =>
      exact .bind ⟨rfl, rfl, .declare hscopes⟩ fun _ _ => .bind (.skip rfl) fun _ _ => .skip rfl
    next => exact (quiet_report _ span).bind fun _ _ => .bind (.skip rfl) fun _ _ => .skip rfl
  | parameter lambda index param =>
    dsimp only
    split
    next hscopes =>
      exact .bind ⟨rfl, rfl, .declare hscopes⟩ fun _ _ => .bind (.skip rfl) fun _ _ => .pure _
    next => exact (quiet_report _ span).bind fun _ _ => .bind (.skip rfl) fun _ _ => .pure _

theorem quiet_addReturn (x : ShapeId) : Quiet s (addReturn x) := by
  rw [quiet_iff, addReturn_run]
  cases hreturns : s.returns with
  | nil => exact ⟨rfl, rfl, .of_same rfl⟩
  | cons innermost outer => exact ⟨rfl, rfl, rfl, rfl, rfl, rfl, by rw [hreturns]; rfl, .refl _⟩

theorem quiet_declareParams (lambda : NodeId) (args : List ShapeId) (index : Nat)
    (params : List Param) : Quiet s (declareParams lambda args index params) := by
  induction params generalizing s index with
  | nil => exact .pure _
  | cons p rest ih =>
    exact (quiet_declare p.name _ _ _).bind fun _ s' => (ih (index + 1)).bind fun _ _ => .pure _

theorem quiet_newCall (method : ShapeId) (index : Nat) :
    Quiet s (inArena (·.newCall method index)) :=
  .inArena fun _ => Arena.literal?_push rfl

theorem quiet_useSignature (method : ShapeId) (span : Span) (found : Option Signature) :
    Quiet s (useSignature method span found) := by
  cases found with
  | none => exact .bind (.skip rfl) fun _ _ => .pure _
  | some signature =>
    refine .get ?_
    split
    · exact .pure _
    · exact .bind (.modifyArena fun a => Arena.literal?_modifyLambda a method (fun _ => rfl) fun _ => rfl)
        fun _ _ => quiet_newCall method _

/-! ### Walks -/

/-- An invariant that lets all shapes and symbols be used, and that quiet actions and blocks
keep. -/
structure Invariant.Ignores (J : Invariant) : Prop where
  valid : ∀ s x, J.valid s x
  known : ∀ s symbol, J.known s symbol
  quiet : ∀ {α s} {m : Analyze α}, J.holds s → Quiet s m → J.Does s m
  blocks : ∀ {s} {m : Analyze Unit}, J.holds s → (∀ s, J.holds s → J.Does s m) →
    J.Does s (do openScope .block; m; closeScope)

namespace Invariant.Ignores

variable {J : Invariant} {enter : Enter} {method : ShapeId} (I : J.Ignores)

include I

theorem runs {m : Analyze α} {Q : State → α → Prop} (hs : J.holds s) (h : Quiet s m)
    (hQ : ∀ s a, Q s a) : J.Runs s m Q :=
  (I.quiet hs h).imp fun s a _ => hQ s a

theorem finds {m : Analyze ShapeId} (hs : J.holds s) (h : Quiet s m) : J.Finds s m :=
  I.runs hs h I.valid

theorem runs_callLambda {l : LambdaShape} {args : List ShapeId} (hs : J.holds s)
    (henter : l.paramCount = args.length → J.Does s (enter method (some args))) (span : Span) :
    J.Finds s (callLambda enter method l args span) := by
  rw [callLambda]
  split
  · exact I.finds hs ((quiet_report _ span).bind fun _ _ => .pure _)
  · next harity =>
      refine .get ?_
      split
      · exact I.finds hs (quiet_newCall method _)
      · exact (henter (Decidable.not_not.mp harity)).bind fun found _ hs' _ _ =>
          I.finds hs' (quiet_useSignature method span found)

theorem helps : J.Helps where
  basic _ _ := I.valid _ _
  reports cause span _ hs := I.quiet hs (quiet_report cause span)
  warns _ _ hs := I.quiet hs (.skip rfl)
  returns x hs _ := I.quiet hs (quiet_addReturn x)
  bindsMethod _ hs := I.finds hs (.inArena fun _ => Arena.literal?_push rfl)
  ofType ty hs := I.finds hs (.inArena fun a => a.literal?_ofType ty)
  readsField record name hs :=
    I.runs hs (.inArena fun a => a.literal?_readField record name) fun _ _ _ _ => I.valid _ _
  readsElement array hs :=
    I.runs hs (.inArena fun a => a.literal?_readElement array) fun _ _ _ _ => I.valid _ _
  writesElement array x hs _ := I.quiet hs (.inArena fun a => a.literal?_writeElement array x)
  derives x y hs _ _ := I.finds hs (.inArena fun a => a.literal?_derive x y)
  reads symbol hs _ := I.finds hs (quiet_readSymbol symbol)
  stores symbol x hs _ _ := I.quiet hs (quiet_storeLocal symbol x)

theorem runs_noted {m : Analyze ShapeId} (hm : J.Does s m) (n : Node) :
    J.Runs s (do note n (← m)) fun s x => J.valid s x ∧ True :=
  hm.bind fun x _ hs _ _ => I.runs hs ((quiet_record n.id x n.span).bind fun _ _ => .pure _)
    fun _ _ => ⟨I.valid _ _, trivial⟩

/-- A walk that leaves no marks. -/
theorem walks {sites : List Site}
    (hliterals : ∀ {s} node params body, .literal ⟨node, params, body⟩ ∈ sites → J.holds s →
      J.Does s (lambdaLiteral node params))
    (hcalls : ∀ {s} method l args, .call args.length ∈ sites → J.holds s →
      s.arena.lambda? method = some l → l.paramCount = args.length →
      J.Does s (enter method (some args))) (pieces : List Piece) :
    J.Walks (fun _ _ _ => True) ctx enter sites pieces :=
  have hcall {s : State} (hs : J.holds s) (method : ShapeId) {args : List Expr} {xs : List ShapeId}
      (hsite : .call args.length ∈ sites) (hlength : args.length = xs.length) (span : Span) :
      J.Finds s (callShape enter method xs span) :=
    I.helps.runs_callShape_of hs span fun l hl => I.runs_callLambda hs
      (hcalls method l xs (hlength ▸ hsite) hs (lambda?_eq_some.mpr hl)) span
  { I.helps with
    later := fun _ _ _ => trivial
    records := fun e x span _ _ hs _ => I.runs hs (quiet_record e.id x span) fun _ _ _ => trivial
    writesField := fun record _ name x _ _ hs _ =>
      I.quiet hs (.inArena fun a => a.literal?_writeField record name x)
    newRecord := fun _ _ _ _ hs _ _ _ => I.finds hs (.inArena fun _ => Arena.literal?_push rfl)
    newArray := fun _ _ _ _ hs _ => I.finds hs (.inArena fun _ => Arena.literal?_push rfl)
    names := fun node name _ hs => I.finds hs (quiet_ident node name)
    places := fun node name _ hs => I.runs hs (quiet_namedPlace node name) fun s p => by
      cases p <;> simp [Reaches, I.valid, I.known]
    declares := fun id name span x _ hs _ => I.quiet hs (quiet_declare name (.var id) x span)
    blocks := fun hs hm => (I.blocks hs fun s hs => (hm s hs).does).imp fun _ _ _ _ _ => ⟨0, trivial⟩
    literals := fun node params body hsite _ hs =>
      I.runs_noted (hliterals node params body hsite hs) node
    calls := fun n _ _ c _ hsite _ hs _ hmarks _ _ =>
      I.runs_noted (hcall hs c hsite hmarks.length_eq n.span).does n
    memberCalls := fun n _ _ _ _ _ receiver _ hsite _ _ hs _ _ _ hmarks _ =>
      I.runs_noted (I.helps.runs_memberCallShape_of hs _ receiver (fun _ _ => I.valid _ _) n.span
        fun callee _ => hcall hs callee hsite hmarks.length_eq n.span).does n }

end Invariant.Ignores

end Analysis

end HostScript
