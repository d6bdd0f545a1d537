import HostScript.Scope
import HostScript.Proofs.OrderedMap

/-!
# Visible declarations

The declarations that can be seen from a scope form one list, the innermost first. Because no name
hides another one where it is declared, a look-up that finds a declaration finds the first one of
that name, whatever its offset.
-/

namespace HostScript.Scopes

/-- The declarations that can be seen from a scope, the innermost first. -/
inductive Chain (s : Scopes) : ScopeId → List (String × Declaration) → Prop where
  | root {id : ScopeId} {scope : Scope} :
      s.scopes[id]? = some scope → scope.names.keys.Nodup → scope.parent = none →
      Chain s id scope.names.entries.reverse
  | inner {id parent : ScopeId} {scope : Scope} {outer : List (String × Declaration)} :
      s.scopes[id]? = some scope → scope.names.keys.Nodup → scope.parent = some parent →
      parent < id → Chain s parent outer → Chain s id (scope.names.entries.reverse ++ outer)

/-- A declaration stands before the ones of its name further out. -/
def Unhidden (seen : List (String × Declaration)) : Prop :=
  seen.Pairwise fun x y => x.1 = y.1 → x.2.offset < y.2.offset

variable {s t : Scopes} {id k : ScopeId} {name : String} {offset : Nat}
  {seen : List (String × Declaration)}

theorem Chain.lt_size (h : s.Chain id seen) : id < s.scopes.size := by
  cases h with
  | root hid _ _ | inner hid _ _ _ _ => exact (Array.getElem?_eq_some_iff.mp hid).1

/-! ### Looking up -/

/-- The declaration of a name in one scope, if it stands at or before an offset. -/
def Scope.before? (name : String) (offset : Nat) (entry : ScopeId × Scope) :
    Option (Symbol × ScopeId) :=
  match entry.2.names.get? name with
  | some d => if d.offset ≤ offset then some (d.symbol, entry.1) else none
  | none => none

theorem before?_eq_some {entry : ScopeId × Scope} {found : Symbol × ScopeId}
    (h : Scope.before? name offset entry = some found) :
    ∃ d, entry.2.names.get? name = some d ∧ d.offset ≤ offset ∧ d.symbol = found.1 := by
  unfold Scope.before? at h
  split at h
  · next d hd =>
      split at h
      · next hle => exact ⟨d, hd, hle, by cases h; rfl⟩
      · cases h
  · cases h

theorem before?_eq_none {entry : ScopeId × Scope} {d : Declaration}
    (h : Scope.before? name offset entry = none) (hd : entry.2.names.get? name = some d) :
    offset < d.offset := by
  refine Nat.lt_of_not_le fun hle => ?_
  simp [Scope.before?, hd, hle] at h

theorem outwards_inner {scope : Scope} {parent : ScopeId} (budget : Nat)
    (hid : s.scopes[id]? = some scope) (hparent : scope.parent = some parent) :
    s.outwards (budget + 1) id = (id, scope) :: s.outwards budget parent := by
  simp [outwards, hid, hparent]

theorem outwards_root {scope : Scope} (budget : Nat)
    (hid : s.scopes[id]? = some scope) (hparent : scope.parent = none) :
    s.outwards (budget + 1) id = [(id, scope)] := by
  simp [outwards, hid, hparent]

/-- Where nothing is found, every declaration of the name stands behind the offset. -/
theorem Chain.lt_of_none {budget : Nat} (h : s.Chain id seen) (hbudget : id < budget)
    (hnone : (s.outwards budget id).findSome? (Scope.before? name offset) = none) :
    ∀ d, (name, d) ∈ seen → offset < d.offset := by
  induction h generalizing budget with
  | root hid hnodup hparent =>
    obtain ⟨budget, rfl⟩ := Nat.exists_eq_add_of_lt hbudget
    rw [outwards_root _ hid hparent, List.findSome?_eq_none_iff] at hnone
    intro d hd
    exact before?_eq_none (hnone _ (List.mem_singleton_self _))
      (OrderedMap.lookup_of_mem hnodup (List.mem_reverse.mp hd))
  | @inner id parent scope outer hid hnodup hparent hlt hchain ih =>
    obtain ⟨budget, rfl⟩ := Nat.exists_eq_add_of_lt hbudget
    rw [outwards_inner _ hid hparent, List.findSome?_eq_none_iff] at hnone
    intro d hd
    rcases List.mem_append.mp hd with hd | hd
    · exact before?_eq_none (hnone _ List.mem_cons_self)
        (OrderedMap.lookup_of_mem hnodup (List.mem_reverse.mp hd))
    · refine ih (Nat.lt_of_lt_of_le hlt (Nat.le_add_right id budget)) ?_ d hd
      rw [List.findSome?_eq_none_iff]
      exact fun entry he => hnone entry (List.mem_cons_of_mem _ he)

/-- What is found is the first declaration of the name. -/
theorem Chain.lookup_of_some {budget : Nat} {found : Symbol × ScopeId} (h : s.Chain id seen)
    (hseen : Unhidden seen) (hbudget : id < budget)
    (hsome : (s.outwards budget id).findSome? (Scope.before? name offset) = some found) :
    ∃ d, OrderedMap.lookup name seen = some d ∧ d.offset ≤ offset ∧ d.symbol = found.1 := by
  induction h generalizing budget with
  | root hid hnodup hparent =>
    obtain ⟨budget, rfl⟩ := Nat.exists_eq_add_of_lt hbudget
    rw [outwards_root _ hid hparent, List.findSome?_singleton] at hsome
    obtain ⟨d, hd, hle, heq⟩ := before?_eq_some hsome
    exact ⟨d, (OrderedMap.lookup_reverse hnodup name).trans hd, hle, heq⟩
  | @inner id parent scope outer hid hnodup hparent hlt hchain ih =>
    obtain ⟨budget, rfl⟩ := Nat.exists_eq_add_of_lt hbudget
    rw [outwards_inner _ hid hparent, List.findSome?_cons] at hsome
    rw [OrderedMap.lookup_append, OrderedMap.lookup_reverse hnodup]
    split at hsome
    · next hfound =>
        cases hsome
        obtain ⟨d, hd, hle, heq⟩ := before?_eq_some hfound
        exact ⟨d, by simp [show OrderedMap.lookup name scope.names.entries = some d from hd],
          hle, heq⟩
    · next hnone =>
        obtain ⟨d, hd, hle, heq⟩ := ih (List.pairwise_append.mp hseen).2.1
          (Nat.lt_of_lt_of_le hlt (Nat.le_add_right id budget)) hsome
        -- a declaration in the inner scope would stand before `d`, and be found
        have hinner : OrderedMap.lookup name scope.names.entries = none := by
          cases hin : OrderedMap.lookup name scope.names.entries with
          | none => rfl
          | some d' =>
            have hbehind := before?_eq_none hnone hin
            have hbefore := (List.pairwise_append.mp hseen).2.2 _
              (List.mem_reverse.mpr (OrderedMap.mem_of_lookup hin)) _
              (OrderedMap.mem_of_lookup hd) rfl
            simp only at hbefore
            omega
        exact ⟨d, by simp [hinner, hd], hle, heq⟩

/-! ### Changes -/

/-- The scopes below a number have the names and parents they had. -/
def SameBelow (k : ScopeId) (s t : Scopes) : Prop :=
  ∀ id < k, ∀ scope, s.scopes[id]? = some scope →
    ∃ scope', t.scopes[id]? = some scope' ∧ scope'.names = scope.names ∧
      scope'.parent = scope.parent

theorem SameBelow.chain (h : SameBelow k s t) (hk : id < k) (hchain : s.Chain id seen) :
    t.Chain id seen := by
  induction hchain with
  | root hid hnodup hparent =>
    obtain ⟨scope', hid', hnames, hparent'⟩ := h _ hk _ hid
    rw [← hnames] at hnodup ⊢
    exact .root hid' hnodup (hparent'.trans hparent)
  | inner hid hnodup hparent hlt _ ih =>
    obtain ⟨scope', hid', hnames, hparent'⟩ := h _ hk _ hid
    rw [← hnames] at hnodup ⊢
    exact .inner hid' hnodup (hparent'.trans hparent) hlt (ih (Nat.lt_trans hlt hk))

theorem SameBelow.trans {u : Scopes} (h : SameBelow k s t) (h' : SameBelow k t u) :
    SameBelow k s u := by
  intro id hid scope hscope
  obtain ⟨scope', hscope', hnames, hparent⟩ := h id hid scope hscope
  obtain ⟨scope'', hscope'', hnames', hparent'⟩ := h' id hid scope' hscope'
  exact ⟨scope'', hscope'', hnames'.trans hnames, hparent'.trans hparent⟩

theorem SameBelow.mono {j : ScopeId} (h : SameBelow k s t) (hj : j ≤ k) : SameBelow j s t :=
  fun id hid => h id (Nat.lt_of_lt_of_le hid hj)

/-- The same scope is current, and at most names were declared in it and scopes made inside it. -/
structure Stays (s t : Scopes) : Prop where
  current : t.current = s.current
  below : SameBelow s.current s t
  parent : ∀ scope, s.scopes[s.current]? = some scope →
    ∃ scope', t.scopes[s.current]? = some scope' ∧ scope'.parent = scope.parent

theorem Stays.refl (s : Scopes) : Stays s s :=
  ⟨rfl, fun _ _ scope h => ⟨scope, h, rfl, rfl⟩, fun scope h => ⟨scope, h, rfl⟩⟩

theorem Stays.trans {u : Scopes} (h : Stays s t) (h' : Stays t u) : Stays s u where
  current := h'.current.trans h.current
  below := h.below.trans (h.current ▸ h'.below)
  parent := by
    intro scope hscope
    obtain ⟨scope', hscope', hparent⟩ := h.parent scope hscope
    obtain ⟨scope'', hscope'', hparent'⟩ := h'.parent scope' (h.current ▸ hscope')
    exact ⟨scope'', h.current ▸ hscope'', hparent'.trans hparent⟩

theorem getElem?_modifyScope (s : Scopes) (id i : ScopeId) (f : Scope → Scope) :
    (s.modifyScope id f).scopes[i]? = if id = i then s.scopes[i]?.map f else s.scopes[i]? := by
  rw [modifyScope, Array.getElem?_modify]

/-- A change that keeps names and parents. -/
theorem sameBelow_modifyScope (s : Scopes) (k id : ScopeId) (f : Scope → Scope)
    (hf : ∀ c, (f c).names = c.names ∧ (f c).parent = c.parent) :
    SameBelow k s (s.modifyScope id f) := by
  intro i _ scope hscope
  rw [getElem?_modifyScope]
  split
  · exact ⟨f scope, by rw [hscope]; rfl, (hf scope).1, (hf scope).2⟩
  · exact ⟨scope, hscope, rfl, rfl⟩

theorem enter_scopes (s : Scopes) (kind : ScopeKind) :
    (s.enter kind).scopes =
      (s.modifyScope s.current fun p =>
        { p with children := p.children ++ [s.scopes.size] }).scopes.push
          { kind, parent := some s.current } :=
  rfl

theorem size_modifyScope (s : Scopes) (id : ScopeId) (f : Scope → Scope) :
    (s.modifyScope id f).scopes.size = s.scopes.size := by
  simp [modifyScope]

theorem sameBelow_enter (s : Scopes) (kind : ScopeKind) :
    SameBelow s.scopes.size s (s.enter kind) := by
  refine SameBelow.trans (t := s.modifyScope s.current fun p =>
    { p with children := p.children ++ [s.scopes.size] })
    (sameBelow_modifyScope _ _ _ _ fun _ => ⟨rfl, rfl⟩) fun id hid scope hscope => ?_
  refine ⟨scope, ?_, rfl, rfl⟩
  rw [enter_scopes, Array.getElem?_push_lt (by rwa [size_modifyScope]),
    ← Array.getElem?_eq_getElem]
  exact hscope

theorem getElem?_enter_current (s : Scopes) (kind : ScopeKind) :
    (s.enter kind).scopes[(s.enter kind).current]? = some { kind, parent := some s.current } := by
  rw [enter_scopes, Array.getElem?_push, size_modifyScope]
  exact if_pos rfl

/-- A new scope sees what the one around it sees. -/
theorem Chain.enter (h : s.Chain s.current seen) (kind : ScopeKind) :
    (s.enter kind).Chain (s.enter kind).current seen :=
  .inner (getElem?_enter_current s kind) List.nodup_nil rfl h.lt_size
    ((sameBelow_enter s kind).chain h.lt_size h)

theorem close_of_parent {scope : Scope} {parent : ScopeId}
    (hid : s.scopes[s.current]? = some scope) (hparent : scope.parent = some parent) :
    s.close.current = parent ∧ SameBelow k s s.close := by
  have hclose : s.close = { s.modifyScope s.current (fun c => { c with alive := false }) with
      current := parent } := by
    simp [close, hid, hparent]
  rw [hclose]
  exact ⟨rfl, sameBelow_modifyScope _ _ _ _ fun _ => ⟨rfl, rfl⟩⟩

/-- After a scope was entered and left again, the scope around it is as it was. -/
theorem enter_close {kind : ScopeKind} (h : Stays (s.enter kind) t) :
    t.close.current = s.current ∧ SameBelow s.scopes.size s t.close := by
  obtain ⟨scope, hscope, hparent⟩ := h.parent _ (getElem?_enter_current s kind)
  rw [← h.current] at hscope
  obtain ⟨hcurrent, hsame⟩ := close_of_parent (k := s.scopes.size) hscope hparent
  exact ⟨hcurrent, ((sameBelow_enter s kind).trans h.below).trans hsame⟩

theorem Stays.of_sameBelow (hsize : s.current < s.scopes.size)
    (h : t.current = s.current ∧ SameBelow s.scopes.size s t) : Stays s t where
  current := h.1
  below := h.2.mono (Nat.le_of_lt hsize)
  parent := fun scope hscope => by
    obtain ⟨scope', hscope', _, hparent⟩ := h.2 _ hsize scope hscope
    exact ⟨scope', hscope', hparent⟩

theorem Stays.lt_size (h : Stays s t) (hsize : s.current < s.scopes.size) :
    t.current < t.scopes.size := by
  obtain ⟨scope, hscope, _⟩ := h.parent _ (Array.getElem?_eq_getElem hsize)
  rw [h.current]
  exact (Array.getElem?_eq_some_iff.mp hscope).1

/-! ### Declaring -/

theorem declare_eq_ok {symbol : Symbol} (h : s.declare name symbol offset = .ok t) :
    t = s ∧ s.scopes[s.current]? = none ∨
    ∃ scope, s.scopes[s.current]? = some scope ∧ scope.names.get? name = none ∧
      (∀ parent, scope.parent = some parent → s.findFrom? parent name offset = none) ∧
      t = s.modifyScope s.current fun c =>
        { c with names := c.names.insert name ⟨symbol, offset⟩ } := by
  unfold declare at h
  split at h
  · next hnone => exact .inl ⟨(Except.ok.inj h).symm, hnone⟩
  · next scope hscope =>
      split at h
      · cases h
      · next hnew =>
          split at h
          · cases h
          · next hshadows =>
              refine .inr ⟨scope, hscope, by simpa [OrderedMap.contains] using hnew, ?_,
                (Except.ok.inj h).symm⟩
              intro parent hparent
              simpa [hparent] using hshadows

theorem Stays.of_declare {symbol : Symbol} (h : s.declare name symbol offset = .ok t) :
    Stays s t := by
  rcases declare_eq_ok h with ⟨rfl, _⟩ | ⟨scope, hscope, _, _, rfl⟩
  · exact .refl t
  · refine ⟨rfl, fun id hid c hc => ⟨c, ?_, rfl, rfl⟩, fun c hc =>
      ⟨{ c with names := c.names.insert name ⟨symbol, offset⟩ }, ?_, rfl⟩⟩
    · rw [getElem?_modifyScope, if_neg (Nat.ne_of_gt hid), hc]
    · rw [getElem?_modifyScope, if_pos rfl, hc]
      rfl

theorem getElem?_declared {scope : Scope} (hscope : s.scopes[s.current]? = some scope)
    (d : Declaration) :
    (s.modifyScope s.current fun c => { c with names := c.names.insert name d }).scopes[s.current]? =
      some { scope with names := scope.names.insert name d } := by
  rw [getElem?_modifyScope, if_pos rfl, hscope]
  rfl

theorem nodup_keys_insert {names : OrderedMap String Declaration} (d : Declaration)
    (hnew : names.get? name = none) (hnodup : names.keys.Nodup) :
    (names.insert name d).keys.Nodup := by
  have hnot := OrderedMap.lookup_eq_none.mp hnew
  rw [OrderedMap.keys, OrderedMap.entries_insert_of_new d hnew, List.map_append]
  refine List.nodup_append.mpr ⟨hnodup, by simp, ?_⟩
  rintro key hkey _ (_ | ⟨_, ⟨⟩⟩) rfl
  obtain ⟨entry, hentry, hk⟩ := List.mem_map.mp hkey
  exact hnot entry hentry hk

/-- A declaration stands in front of all that could be seen before. -/
theorem Chain.declare {symbol : Symbol} (h : s.declare name symbol offset = .ok t)
    (hchain : s.Chain s.current seen) (hseen : Unhidden seen) :
    t.Chain t.current ((name, ⟨symbol, offset⟩) :: seen) ∧
      Unhidden ((name, ⟨symbol, offset⟩) :: seen) := by
  have hstays := Stays.of_declare h
  obtain ⟨_, hnone⟩ | ⟨scope, hscope, hnew, houter, rfl⟩ := declare_eq_ok h
  · rw [Array.getElem?_eq_getElem hchain.lt_size] at hnone
    cases hnone
  -- in the current scope the name is new, further out it is declared behind
  have hown : ∀ d, (name, d) ∉ scope.names.entries.reverse := fun d hd =>
    OrderedMap.lookup_eq_none.mp hnew _ (List.mem_reverse.mp hd) rfl
  have hentries : (scope.names.insert name ⟨symbol, offset⟩).entries.reverse =
      (name, ⟨symbol, offset⟩) :: scope.names.entries.reverse := by
    rw [OrderedMap.entries_insert_of_new _ hnew, List.reverse_append]
    rfl
  rw [hstays.current]
  cases hchain with
  | root hid hnodup hparent =>
    cases hid.symm.trans hscope
    refine ⟨?_, List.pairwise_cons.mpr ⟨?_, hseen⟩⟩
    · have := Chain.root (getElem?_declared hscope ⟨symbol, offset⟩)
        (nodup_keys_insert ⟨symbol, offset⟩ hnew hnodup) hparent
      rwa [hentries] at this
    · rintro ⟨_, d⟩ hd rfl
      exact absurd hd (hown d)
  | inner hid hnodup hparent hlt houterChain =>
    cases hid.symm.trans hscope
    refine ⟨?_, List.pairwise_cons.mpr ⟨?_, hseen⟩⟩
    · have := Chain.inner (getElem?_declared hscope ⟨symbol, offset⟩)
        (nodup_keys_insert ⟨symbol, offset⟩ hnew hnodup) hparent hlt
        (hstays.below.chain hlt houterChain)
      rwa [hentries] at this
    · rintro ⟨_, d⟩ hd rfl
      rcases List.mem_append.mp hd with hd | hd
      · exact absurd hd (hown d)
      · exact houterChain.lt_of_none houterChain.lt_size (houter _ hparent) d hd

end HostScript.Scopes
