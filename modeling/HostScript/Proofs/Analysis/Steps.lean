import HostScript.Analysis.Lambda
import HostScript.Proofs.Scope.Chain
import HostScript.Proofs.Shape.Edits

/-!
# Steps of scopes and arenas

What the single changes that an analysis makes to its scopes and its arena leave as it was.
-/

namespace HostScript

namespace Scopes

/-- Each scope has a property that depends on its names and its parent only. -/
def Each (P : ScopeId → Scope → Prop) (s : Scopes) : Prop :=
  ∀ (id : ScopeId) (scope : Scope), s.scopes[id]? = some scope → P id scope

namespace Each

variable {P : ScopeId → Scope → Prop} {s : Scopes}

theorem modifyScope (h : s.Each P) {id : ScopeId} {f : Scope → Scope}
    (hf : ∀ scope, P id scope → P id (f scope)) : (s.modifyScope id f).Each P := by
  intro i scope hget
  rw [getElem?_modifyScope] at hget
  split at hget
  next hi =>
    subst hi
    obtain ⟨old, hold, rfl⟩ := Option.map_eq_some_iff.mp hget
    exact hf old (h id old hold)
  next => exact h i scope hget

theorem declare (h : s.Each P) {name : String} {symbol : Symbol} {offset : Nat} {t : Scopes}
    (hP : ∀ scope, P s.current scope →
      P s.current { scope with names := scope.names.insert name ⟨symbol, offset⟩ })
    (hdeclare : s.declare name symbol offset = .ok t) : t.Each P := by
  rcases declare_eq_ok hdeclare with ⟨rfl, _⟩ | ⟨scope, _, _, _, rfl⟩
  · exact h
  · exact h.modifyScope hP

variable (hP : ∀ {id scope} children alive, P id scope → P id { scope with children, alive })
include hP

theorem enter (h : s.Each P) {kind : ScopeKind}
    (hnew : P s.scopes.size { kind, parent := some s.current }) : (s.enter kind).Each P := by
  intro i scope hget
  rw [enter_scopes, Array.getElem?_push, size_modifyScope] at hget
  split at hget
  next hi =>
    cases hget
    exact hi ▸ hnew
  next => exact h.modifyScope (fun c hc => hP _ c.alive hc) i scope hget

theorem close (h : s.Each P) : s.close.Each P := by
  rw [Scopes.close]
  split
  · exact h
  · exact h.modifyScope fun c hc => hP c.children false hc

theorem retire (budget : Nat) (pending : List ScopeId) (h : s.Each P) :
    (Scopes.retire budget pending s).Each P := by
  induction budget generalizing pending s with
  | zero => exact h
  | succ budget ih =>
    cases pending with
    | nil => exact h
    | cons id rest =>
      rw [Scopes.retire]
      split
      · exact ih rest h
      · exact ih _ (h.modifyScope fun c hc => hP c.children false hc)

theorem reopen (h : s.Each P) {id : ScopeId}
    (hempty : ∀ scope, P id scope → P id { scope with names := {} }) : (s.reopen id).Each P := by
  have hclear : (s.clear id).Each P := h.modifyScope hempty
  have hdrop : ((s.clear id).dropChildren id).Each P := by
    rw [dropChildren]
    split
    · exact hclear
    · exact retire hP _ _ (hclear.modifyScope fun c hc => hP [] c.alive hc)
  exact hdrop.modifyScope fun c hc => hP c.children true hc

end Each

theorem size_close (t : Scopes) : t.close.scopes.size = t.scopes.size := by
  rw [close]
  split
  · rfl
  · exact size_modifyScope ..

theorem size_retire (budget : Nat) (ids : List ScopeId) (t : Scopes) :
    (retire budget ids t).scopes.size = t.scopes.size := by
  fun_induction retire budget ids t with
  | case1 | case2 => rfl
  | case3 budget id ids t hnone ih => exact ih
  | case4 budget id ids t scope hscope ih => rw [ih, size_modifyScope]

theorem size_reopen (t : Scopes) (id : ScopeId) : (t.reopen id).scopes.size = t.scopes.size := by
  have hdrop : ((t.clear id).dropChildren id).scopes.size = t.scopes.size := by
    rw [dropChildren]
    split
    · exact size_modifyScope ..
    · rw [size_retire, size_modifyScope, clear, size_modifyScope]
  exact (size_modifyScope ..).trans hdrop

/-- All names are kept at nodes in `storage`. -/
def Named (storage : NodeId → Prop) (s : Scopes) : Prop :=
  ∀ (id : ScopeId) (scope : Scope), s.scopes[id]? = some scope →
    ∀ d ∈ scope.names.values, storage d.symbol.node

end Scopes

namespace Scopes.Named

variable {storage : NodeId → Prop} {s : Scopes} {id : ScopeId}

theorem current (h : s.Named storage) (id : ScopeId) : ({ s with current := id } : Scopes).Named storage :=
  h

theorem enter (h : s.Named storage) (kind : ScopeKind) : (s.enter kind).Named storage :=
  Each.enter (fun _ _ h => h) h nofun

theorem close (h : s.Named storage) : s.close.Named storage :=
  Each.close (fun _ _ h => h) h

theorem reopen (h : s.Named storage) (id : ScopeId) : (s.reopen id).Named storage :=
  Each.reopen (fun _ _ h => h) h fun _ _ => nofun

theorem declare (h : s.Named storage) {name : String} {symbol : Symbol} {offset : Nat} {t : Scopes}
    (hsymbol : storage symbol.node) (hdeclare : s.declare name symbol offset = .ok t) :
    t.Named storage := by
  refine Each.declare h (fun scope hold d hd => ?_) hdeclare
  rcases OrderedMap.mem_values_insert hd with rfl | hd
  · exact hsymbol
  · exact hold d hd

theorem mem_outwards {scope : Scope} :
    ∀ {budget : Nat} {start : ScopeId}, (id, scope) ∈ s.outwards budget start →
      s.scopes[id]? = some scope
  | 0, _, h => by cases h
  | budget + 1, start, h => by
    rw [Scopes.outwards] at h
    split at h
    · cases h
    next first hfirst =>
      split at h
      · cases List.mem_singleton.mp h
        exact hfirst
      · rcases List.mem_cons.mp h with heq | h
        · cases heq
          exact hfirst
        · exact mem_outwards h

/-- A name that is found is kept at a node in `storage`. -/
theorem find? (h : s.Named storage) {name : String} {offset : Nat} {symbol : Symbol}
    (hfind : s.find? name offset = some (symbol, id)) : storage symbol.node := by
  rw [Scopes.find?, Scopes.findFrom?] at hfind
  obtain ⟨⟨i, scope⟩, hmem, hname⟩ := List.exists_of_findSome?_eq_some hfind
  dsimp only at hname
  split at hname
  next d hd =>
    split at hname
    · cases hname
      exact h _ scope (mem_outwards hmem) d (OrderedMap.mem_values hd)
    · cases hname
  next => cases hname

end Scopes.Named

namespace Arena

variable {a b : Arena} {x y : ShapeId} {shape : Shape}

/-! ### Changes of the arena -/

/-- A later arena in which all shapes that are referred to still are, and that has no new
lambdas. -/
structure Goes (a b : Arena) : Prop where
  later : a.Later b
  sound : b.Sound
  rooted : b.Rooted
  distinct : a.Distinct → b.Distinct
  hosts : ∀ p ∈ b.hosts.values, p ∈ a.hosts.values ∨ p < b.shapes.size
  lambda : ∀ {i l}, b.get i = .lambda l → ∃ l', a.get i = .lambda l' ∧ l.env = l'.env

section

variable (h : a.Sound)

include h

theorem Goes.refl (hr : a.Rooted) : Goes a a :=
  ⟨h.later_refl, h, hr, id, fun _ hp => .inl hp, fun hl => ⟨_, hl, rfl⟩⟩

theorem goes_of_keeps (hr : a.Rooted) (hkeeps : a.Keeps b) (he : Edited (fun _ => True) a b) :
    Goes a b where
  later := (he.remembers (h.based hr)).later_of_keeps h hkeeps
  sound := hkeeps.sound
  rooted := (he.based (h.based hr)).rooted
  distinct := he.distinct
  hosts := fun _ hp => .inl (hkeeps.evolves.hosts ▸ hp)
  lambda := fun hl => ⟨_, hkeeps.evolves.lambda_before hl, rfl⟩

theorem goes_of_shapes (hr : a.Rooted) (hs : b.shapes = a.shapes) (hh : b.hosts = a.hosts)
    (hrem : a.Remembers b) : Goes a b where
  later := hrem.later_of_resolve h (Nat.le_of_eq (congrArg Array.size hs).symm)
    fun _ => resolve_of_shapes hs _
  sound := h.of_shapes hs
  rooted := hr.of_remembers hrem fun hi => by rwa [get_of_shapes hs] at hi
  distinct := fun hd _ _ _ hi => hd ((get_of_shapes hs _).symm.trans hi)
  hosts := fun _ hp => .inl (hh ▸ hp)
  lambda := fun hl => ⟨_, (get_of_shapes hs _).symm.trans hl, rfl⟩

theorem goes_derive (hr : a.Rooted) (hx : x < a.shapes.size) (hy : y < a.shapes.size) :
    Goes a (a.derive x y).2 :=
  goes_of_keeps h hr (h.derive hx hy).toKeeps ((h.based hr).derive x y)

theorem goes_readField (hr : a.Rooted) (record : ShapeId) (name : String) :
    Goes a (a.readField record name).2 := by
  refine goes_of_shapes h hr ?_ ?_ (remembers_readField a record name)
  · rw [Arena.readField]
    split <;> rfl
  · rw [Arena.readField]
    split <;> rfl

theorem goes_readElement (hr : a.Rooted) (array : ShapeId) :
    Goes a (a.readElement array).2 := by
  refine goes_of_shapes h hr ?_ ?_ (remembers_readElement a array)
  · rw [Arena.readElement]
    split <;> rfl
  · rw [Arena.readElement]
    split <;> rfl

theorem goes_writeField (hr : a.Rooted) (record : ShapeId) (name : String)
    (hy : y < a.shapes.size) : Goes a (a.writeField record name y).2 :=
  goes_of_keeps h hr (h.writeField record name hy) ((h.based hr).writeField record trivial y)

theorem goes_writeElement (hr : a.Rooted) (array : ShapeId) (hy : y < a.shapes.size) :
    Goes a (a.writeElement array y).2 :=
  goes_of_keeps h hr (h.writeElement array hy) ((h.based hr).writeElement array y)

theorem later_push (shape : Shape) : a.Later (a.push shape).2 :=
  (remembers_push a shape).later_of_resolve h (by rw [size_push]; exact Nat.le_succ _)
    fun {i} hi => (h.resolves_push (h.grounded.resolves i) hi).resolve_eq

omit h in
theorem Distinct.push (h : a.Distinct)
    (hnames : ∀ fields origins, shape = .record fields origins → fields.keys.Nodup) :
    (a.push shape).2.Distinct := by
  intro i fields origins hi
  rw [get_push] at hi
  split at hi
  · exact hnames fields origins hi
  · exact h hi

theorem goes_push (hr : a.Rooted) (hsound : (a.push shape).2.Sound)
    (hnew : shape.isCompound = true → ∃ o, ((a.push shape).2.origins a.shapes.size).head? = some o)
    (hnames : ∀ fields origins, shape = .record fields origins → fields.keys.Nodup)
    (hlambda : ∀ l, shape ≠ .lambda l) : Goes a (a.push shape).2 where
  later := later_push h shape
  sound := hsound
  rooted := hr.push hnew
  distinct := fun hd => hd.push hnames
  hosts := fun _ hp => .inl hp
  lambda := fun {i l} hl => by
    rw [get_push] at hl
    split at hl
    · exact absurd hl (hlambda l)
    · exact ⟨l, hl, rfl⟩

theorem goes_newRecord (hr : a.Rooted) (origin : NodeId) {fields : OrderedMap String ShapeId}
    (hnames : fields.keys.Nodup) (hin : ∀ p ∈ fields.values, p < a.shapes.size) :
    Goes a (a.newRecord origin fields).2 := by
  refine goes_push h hr (h.push_data (fun p hp => ?_) rfl) (fun _ => ⟨origin, ?_⟩)
    (fun _ _ heq => ?_) fun _ => Shape.noConfusion
  · obtain ⟨name, q, hq, rfl⟩ := OrderedMap.mem_values_mapValues hp
    split
    · exact h.unknown_lt_size
    · exact hin q hq
  · rw [origins_of_record get_push_self]
    rfl
  · cases heq
    rw [OrderedMap.keys_mapValues]
    exact hnames

theorem goes_newArray (hr : a.Rooted) (origin : NodeId) (hx : x < a.shapes.size) :
    Goes a (a.newArray origin x).2 := by
  refine goes_push h hr (h.push_data (fun p hp => ?_) rfl) (fun _ => ⟨origin, ?_⟩)
    (fun _ _ heq => by cases heq) fun _ => Shape.noConfusion
  · rw [List.mem_singleton.mp hp]
    split
    · exact h.unknown_lt_size
    · exact hx
  · rw [origins_of_array get_push_self]
    rfl

theorem goes_push_simple (hr : a.Rooted) (hparts : shape.parts = [])
    (hcompound : shape.isCompound = false) (hlink : shape.isLink = false)
    (hlambda : ∀ l, shape ≠ .lambda l) : Goes a (a.push shape).2 := by
  refine goes_push h hr (h.push_data (fun p hp => ?_) hlink) (fun hc => ?_) (fun _ _ heq => ?_)
    hlambda
  · rw [hparts] at hp
    cases hp
  · rw [hcompound] at hc
    cases hc
  · rw [heq] at hcompound
    cases hcompound

theorem goes_newCall (hr : a.Rooted) (hx : x < a.shapes.size) {k : Nat} {sig : Signature}
    (hsig : a.signature? x k = some sig) : Goes a (a.newCall x k).2 :=
  goes_push h hr (h.newCall hx hsig) (fun hc => by cases hc) (fun _ _ heq => by cases heq)
    fun _ => Shape.noConfusion

theorem goes_host (hr : a.Rooted) (id : HostTypeId) : Goes a (a.host id).2 := by
  rw [Arena.host]
  split
  · exact .refl h hr
  · have hpush : Goes a (a.push (.concrete (.host id))).2 :=
      goes_push_simple h hr rfl rfl rfl fun _ => Shape.noConfusion
    let b : Arena := { (a.push (.concrete (.host id))).2 with
      hosts := a.hosts.insert id a.shapes.size }
    have hrem : (a.push (.concrete (.host id))).2.Remembers b :=
      .of_shapes rfl (fun _ hm => hm) (fun _ hm => hm) fun hu => hu
    have hlater : (a.push (.concrete (.host id))).2.Later b :=
      hrem.later_of_resolve hpush.sound (Nat.le_refl _) fun {i} _ =>
        resolve_of_shapes (b := b) (a := (a.push (.concrete (.host id))).2) rfl i
    refine ⟨hpush.later.trans hlater h, hpush.sound.of_shapes rfl,
      hpush.rooted.of_remembers hrem fun hi => hi, hpush.distinct, fun p hp => ?_, hpush.lambda⟩
    rcases OrderedMap.mem_values_insert hp with rfl | hp
    · exact .inr ((size_push a _).symm ▸ Nat.lt_succ_self _)
    · exact .inl hp

omit h in
theorem host_lt_size (hhosts : ∀ p ∈ a.hosts.values, p < a.shapes.size) (id : HostTypeId) :
    (a.host id).1 < (a.host id).2.shapes.size := by
  rw [Arena.host]
  split
  next shape hget =>
    exact hhosts shape (OrderedMap.mem_values hget)
  next => exact (size_push a _).symm ▸ Nat.lt_succ_self _

theorem goes_ofType (hr : a.Rooted) (ty : TypeRef) : Goes a (a.ofType ty).2 := by
  cases ty with
  | host id => exact goes_host h hr id
  | _ => exact .refl h hr

theorem ofType_lt_size (hhosts : ∀ p ∈ a.hosts.values, p < a.shapes.size) (ty : TypeRef) :
    (a.ofType ty).1 < (a.ofType ty).2.shapes.size := by
  cases ty with
  | host id => exact host_lt_size hhosts id
  | _ => exact h.lt_size (by simp only [Arena.ofType]; decide)

omit h in
theorem Distinct.modifyLambda (h : a.Distinct) (x : ShapeId) (f : LambdaShape → LambdaShape) :
    (a.modifyLambda x f).Distinct := by
  intro i fields origins hi
  rw [Arena.modifyLambda] at hi
  split at hi
  · rw [get_set] at hi
    split at hi
    · cases hi
    · exact h hi
  · exact h hi

theorem goes_modifyLambda (hr : a.Rooted) (x : ShapeId) {f : LambdaShape → LambdaShape}
    (hgrows : ∀ l, l.signatures <+: (f l).signatures) (henv : ∀ l, (f l).env = l.env)
    (hin : ∀ l, a.resolved x = .lambda l → ∀ p ∈ (Shape.lambda (f l)).parts, p < a.shapes.size) :
    Goes a (a.modifyLambda x f) where
  later := (remembers_modifyLambda a x f).later_of_resolve h
    (by rw [Arena.modifyLambda]; split <;> simp) fun _ => h.resolve_modifyLambda x hgrows _
  sound := h.modifyLambda x hgrows hin
  rooted := hr.of_remembers (remembers_modifyLambda a x f) fun {i} hi => by
    cases hget : a.get i with
    | lambda l =>
      rw [Arena.modifyLambda] at hi
      split at hi
      · rw [get_set] at hi
        split at hi
        · cases hi
        · rwa [hget] at hi
      · rwa [hget] at hi
    | _ =>
      rw [get_modifyLambda_of_ne (by simp [hget]), hget] at hi
      exact hi
  distinct := fun hd => hd.modifyLambda x f
  hosts := fun p hp => .inl (by
    rw [Arena.modifyLambda] at hp
    split at hp <;> exact hp)
  lambda := fun hl => by
    obtain ⟨l', hl', rfl | rfl⟩ := get_modifyLambda_lambda hl
    · exact ⟨_, hl', rfl⟩
    · exact ⟨_, hl', henv l'⟩

end

end Arena

end HostScript
