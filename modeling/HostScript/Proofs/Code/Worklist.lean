import HostScript.Proofs.Code.WellFormed

/-!
# Working off the queue

The queue is worked off after as many jobs as the lambdas have entries, because no entry is
generated twice. Every function that is called as an entry has its code then, and the operations
that decide at run time were counted once.
-/

namespace HostScript

namespace Tables

/-- The tables after the jobs in `done`, each with the function that it gave. The functions in
`busy` get the operations in `ops`, for the jobs in `current` if they are no root. -/
structure Tracks (a : Analysis) (done : List (Job × Function)) (current : List Job) (busy : List Nat)
    (ops : List Op) (t : Tables) : Prop where
  queued : t.Queued busy
  nonempty : 0 < t.functions.size
  current : ∀ j ∈ current, t.functionOf.get? j.key = some j.function
  kept : ∀ p ∈ done, t.functionOf.get? p.1.key = some p.1.function ∧
    t.functions[p.1.function]? = some p.2
  /-- What is done does not wait, and will not. -/
  left : ∀ p ∈ done, p.1.function ∉ t.waiting busy ∧
    ∀ {lambda}, t.functionOf.get? (lambda, .generic) = some p.1.function → lambda ∈ t.escaped
  asked : ∀ {lambda index f}, t.functionOf.get? (lambda, .signature index) = some f →
    (a.arena.signature? lambda index).isSome ∧ 0 < f ∧
      (f ∈ t.waiting busy ∨ ∃ p ∈ done, p.1.function = f)
  calls : ∀ {f args}, .callEntry f args ∈ ops ++ t.ops →
    ∃ lambda index, t.functionOf.get? (lambda, .signature index) = some f
  counted : t.dynamicOps = t.ops.countP Op.isDynamic

namespace Tracks

variable {a : Analysis} {done : List (Job × Function)} {current : List Job} {busy : List Nat}
  {ops more : List Op} {t t' : Tables} {key : ShapeId × Entry} {function : Function}

/-- Only calls of entries count among the operations at hand. -/
theorem withOps (h : t.Tracks a done current busy ops)
    (hmore : ∀ {f args}, .callEntry f args ∈ more → .callEntry f args ∈ ops ∨
      ∃ lambda index, t.functionOf.get? (lambda, .signature index) = some f) :
    t.Tracks a done current busy more := by
  refine { h with calls := fun {f args} hop => ?_ }
  rcases List.mem_append.mp hop with hop | hop
  · rcases hmore hop with hop | hentry
    · exact h.calls (List.mem_append_left _ hop)
    · exact hentry
  · exact h.calls (List.mem_append_right _ hop)

theorem extend (h : t.Tracks a done current busy ops) (hops : Op.Extends ops more) :
    t.Tracks a done current busy more :=
  h.withOps fun hop => .inl ((hops.2 _ hop).resolve_right id)

/-- The generic entry of a lambda that escapes is not done yet. -/
theorem escapeLambda (h : t.Tracks a done current busy ops) (lambda : ShapeId) :
    (t.escapeLambda lambda).Tracks a done current busy ops := by
  have hqueued := h.queued.escapeLambda lambda
  rcases t.escapeLambda_cases lambda with heq | ⟨hnew, more, heq, -, hmore⟩ <;> rw [heq] at hqueued ⊢
  · exact h
  have hwaiting : waiting busy { t with escaped := t.escaped ++ [lambda], jobs := t.jobs ++ more } =
      t.waiting busy ++ more.map Job.function := by
    simp [waiting]
  refine { h with queued := hqueued, left := fun p hp => ?_, asked := fun {other index f} hf => ?_ }
  · obtain ⟨hleft, hesc⟩ := h.left p hp
    refine ⟨fun hmem => ?_, fun hgeneric => List.mem_append_left _ (hesc hgeneric)⟩
    rcases List.mem_append.mp (hwaiting ▸ hmem) with hmem | hmem
    · exact hleft hmem
    · obtain ⟨j, hj, heq⟩ := List.mem_map.mp hmem
      obtain ⟨hkey, hget⟩ := hmore j hj
      exact hnew (hesc (heq ▸ hkey ▸ hget))
  · obtain ⟨hsig, hpos, hstate⟩ := h.asked hf
    rw [hwaiting]
    exact ⟨hsig, hpos, hstate.imp_left (List.mem_append_left _)⟩

theorem escape (layouts : Layouts) (rep : Rep) (h : t.Tracks a done current busy ops) :
    (t.escape layouts rep).Tracks a done current busy ops :=
  escape_keeps (fun lambda h => h.escapeLambda lambda)
    (fun _ h => { h with queued := { h.queued with } }) layouts rep h

/-- An entry gets a function without code, which waits if it is that of a signature. -/
theorem addEntry (h : t.Tracks a done current busy ops) (hg : Gains key function t t')
    (hasked : ∀ {lambda index}, key = (lambda, .signature index) →
      (a.arena.signature? lambda index).isSome ∧ t.functions.size ∈ t'.waiting busy) :
    t'.Tracks a done current busy ops := by
  have hops : t'.ops = t.ops ++ [.unreachable] := by rw [ops_push hg.functions, hg.blank]
  have hsize : t'.functions.size = t.functions.size + 1 := by rw [hg.functions, Array.size_push]
  have hbefore {p : Job × Function} (hp : p ∈ done) : p.1.function < t.functions.size :=
    (Array.getElem?_eq_some_iff.mp (h.kept p hp).2).1
  refine ⟨h.queued.gains hg, by omega, fun j hj => hg.keeps (h.current j hj), fun p hp => ?_,
    fun p hp => ⟨fun hwaits => ?_, fun {lambda} hget => ?_⟩, fun {lambda index f} hget => ?_,
    fun {f args} hop => ?_, ?_⟩
  · refine ⟨hg.keeps (h.kept p hp).1, ?_⟩
    rw [hg.functions, Array.getElem?_push, if_neg (Nat.ne_of_lt (hbefore hp))]
    exact (h.kept p hp).2
  · rcases List.mem_append.mp hwaits with hbusy | hmem
    · exact (h.left p hp).1 (List.mem_append_left _ hbusy)
    · obtain ⟨j, hmem, heq⟩ := List.mem_map.mp hmem
      rcases hg.mem_jobs hmem with hmem | rfl
      · exact (h.left p hp).1 (List.mem_append_right _ (List.mem_map.mpr ⟨j, hmem, heq⟩))
      · exact Nat.lt_irrefl _ (heq ▸ hbefore hp)
  · rw [hg.escaped]
    rcases hg.cases hget with hget | ⟨-, heq⟩
    · exact (h.left p hp).2 hget
    · exact absurd (heq ▸ hbefore hp) (Nat.lt_irrefl _)
  · rcases hg.cases hget with hget | ⟨hkey, rfl⟩
    · obtain ⟨hsig, hpos, hstate⟩ := h.asked hget
      refine ⟨hsig, hpos, hstate.imp_left fun hwaits => ?_⟩
      rcases List.mem_append.mp hwaits with hbusy | hmem
      · exact List.mem_append_left _ hbusy
      · exact List.mem_append_right _ (List.map_subset _ hg.old hmem)
    · obtain ⟨hsig, hwaits⟩ := hasked hkey.symm
      exact ⟨hsig, h.nonempty, .inl hwaits⟩
  · rw [hops, ← List.append_assoc, List.mem_append, List.mem_singleton] at hop
    obtain ⟨lambda, index, hget⟩ := h.calls (hop.resolve_right nofun)
    exact ⟨lambda, index, hg.keeps hget⟩
  · rw [hg.same]
    show t.dynamicOps = t'.ops.countP _
    rw [h.counted, hops, List.countP_append]
    rfl

/-! ### Jobs -/

theorem start {j : Job} {rest : List Job} (h : t.Tracks a done [] [] ops) (hjobs : t.jobs = j :: rest) :
    Tracks a done [j] [j.function] ops { t with jobs := rest } := by
  have hwaiting : waiting [j.function] { t with jobs := rest } = t.waiting [] := by
    simp [waiting, hjobs]
  refine { h with queued := h.queued.start hjobs, current := fun other hother => ?_,
                  left := fun p hp => ?_, asked := fun hget => ?_ }
  · rw [List.mem_singleton.mp hother]
    exact h.queued.jobs j (hjobs ▸ List.mem_cons_self)
  · rw [hwaiting]
    exact h.left p hp
  · rw [hwaiting]
    exact h.asked hget

/-- The function at hand gets its code. It is the root or that of the current job. -/
theorem finish {f : Nat} (h : t.Tracks a done current [f] ops) (hops : function.ops = ops.toArray)
    (hcurrent : ∀ j ∈ current, j.function = f) (hroot : f ≠ 0 → current ≠ []) :
    (t.setFunction f function).Tracks a (done ++ current.map fun j => (j, function)) [] [] [] := by
  have hblank := h.queued.blank f List.mem_cons_self
  have hnodup : (f :: t.jobs.map Job.function).Nodup := h.queued.nodup
  obtain ⟨before, after, hold, hnew⟩ := ops_setFunction hblank function
  have hother {p : Job × Function} (hp : p ∈ done) : f ≠ p.1.function :=
    fun heq => (h.left p hp).1 (heq ▸ List.mem_cons_self)
  refine ⟨h.queued.finish function, ?_, List.forall_mem_nil _, fun p hp => ?_, fun p hp => ?_,
    fun {lambda index g} hget => ?_, fun {g args} hop => ?_, ?_⟩
  · rw [setFunction, Array.size_setIfInBounds]
    exact h.nonempty
  · rcases List.mem_append.mp hp with hp | hp
    · exact ⟨(h.kept p hp).1, (Array.getElem?_setIfInBounds_ne (hother hp)).trans (h.kept p hp).2⟩
    · obtain ⟨j, hj, rfl⟩ := List.mem_map.mp hp
      refine ⟨h.current j hj, ?_⟩
      rw [hcurrent j hj]
      exact Array.getElem?_setIfInBounds_self_of_lt hblank.lt
  · rcases List.mem_append.mp hp with hp | hp
    · exact ⟨fun hmem => (h.left p hp).1 (List.mem_cons_of_mem f hmem), (h.left p hp).2⟩
    · obtain ⟨j, hj, rfl⟩ := List.mem_map.mp hp
      refine ⟨hcurrent j hj ▸ (List.nodup_cons.mp hnodup).1, fun {lambda} hget => ?_⟩
      by_contra hesc
      exact (h.queued.idle hget hesc).2 (hcurrent j hj ▸ List.mem_cons_self)
  · obtain ⟨hsig, hpos, hstate⟩ := h.asked hget
    refine ⟨hsig, hpos, ?_⟩
    rcases hstate with hwaits | ⟨p, hp, heq⟩
    · rcases List.mem_cons.mp hwaits with rfl | hwaits
      · obtain ⟨j, hj⟩ := List.exists_mem_of_ne_nil _ (hroot (Nat.ne_of_gt hpos))
        exact .inr ⟨(j, function), List.mem_append_right _ (List.mem_map_of_mem hj), hcurrent j hj⟩
      · exact .inl hwaits
    · exact .inr ⟨p, List.mem_append_left _ hp, heq⟩
  · have hbefore : .callEntry g args ∈ ops ++ t.ops := by
      rw [hnew, hops] at hop
      rw [hold]
      simp only [List.nil_append, List.mem_append, List.mem_cons] at hop ⊢
      tauto
    exact h.calls hbefore
  · show t.dynamicOps + function.ops.countP Op.isDynamic = _
    rw [h.counted, hold, hnew, List.countP_append, List.countP_append, List.countP_append,
      List.countP_cons, ← Array.countP_toList]
    simp only [Op.isDynamic, Bool.false_eq_true, if_false]
    omega

end Tracks

end Tables

/-! ### What generation keeps -/

namespace Generate

variable {b : Body} {done : List (Job × Function)} {current : List Job} {busy : List Nat}
  {ops : List Op} {t t' t₀ : Tables}

theorem signatureFunction_tracks {lambda : ShapeId} {index arity function : Nat}
    (h : t.Tracks b.analysis done current busy ops)
    (hsig : (b.analysis.arena.signature? lambda index).isSome)
    (hrun : signatureFunction lambda index arity t = .ok (function, t')) :
    t'.Tracks b.analysis done current busy (ops ++ [.callEntry function arity]) := by
  -- the call that follows is the only new one
  have hcall {t : Tables} (hget : t.functionOf.get? (lambda, .signature index) = some function)
      {f args : Nat} (hop : .callEntry f args ∈ ops ++ [.callEntry function arity]) :
      .callEntry f args ∈ ops ∨
        ∃ lambda index, t.functionOf.get? (lambda, .signature index) = some f := by
    rcases List.mem_append.mp hop with hop | hop
    · exact .inl hop
    · cases List.mem_singleton.mp hop
      exact .inr ⟨lambda, index, hget⟩
  rcases signatureFunction_ok hrun with ⟨hget, rfl⟩ | ⟨rfl, hg, hjobs, -⟩
  · exact h.withOps (hcall hget)
  · refine Tables.Tracks.withOps (h.addEntry hg fun heq => ?_) (hcall hg.entered)
    cases heq
    exact ⟨hsig, by simp [Tables.waiting, hjobs]⟩

theorem template_tracks {node : Node} {arity index : Nat} {lambda : ShapeId}
    (h : t.Tracks b.analysis done current busy ops)
    (hrun : template b node arity lambda t = .ok (index, t')) :
    t'.Tracks b.analysis done current busy ops := by
  rcases template_ok h.queued hrun with ⟨_, rfl⟩ | ⟨_, _, _, hg, _⟩
  · exact h
  · exact h.addEntry hg nofun

/-- While code is generated, the entries that are asked for are tracked. -/
def tracking (b : Body) (done : List (Job × Function)) (current : List Job) (busy : List Nat) :
    Invariant b ⟨Tables.code {} b.layouts none, 0, 0⟩ where
  strict := False
  suits := suits_of_lax
  holds ops t := t.Tracks b.analysis done current busy ops
  slots := False.elim
  extend h hops := h.extend hops
  adds h hadds _ := by
    rw [hadds.same]
    exact { h with queued := { h.queued with } }
  allows _ := True
  declares _ _ _ _ h := { h with queued := { h.queued with } }
  escapes rep h := h.escape b.layouts rep
  uses {ops t t' m use i op} h _ hrun hop := by
    rw [(member_adds hrun).1.same]
    refine { h.withOps fun hcall => .inl ?_ with queued := { h.queued with } }
    rcases List.mem_append.mp hcall with hcall | hcall
    · exact hcall
    · rw [← List.mem_singleton.mp hcall] at hop
      cases hop
  signatures h hsig _ hrun := ⟨signatureFunction_tracks h hsig hrun, False.elim⟩
  templates h _ hrun := ⟨template_tracks h hrun, False.elim⟩

theorem root_tracks (hrun : root b {} = .ok ((), t')) : t'.Tracks b.analysis [] [] [] [] := by
  obtain ⟨ops, t₁, hops, rfl⟩ := root_cases hrun
  have hstart : (tracking b [] [] [0]).holds ([] ++ []) blankRoot := by
    refine ⟨blankRoot_queued, Nat.one_pos, List.forall_mem_nil _, List.forall_mem_nil _,
      List.forall_mem_nil _, fun hget => ?_, fun hop => ?_, rfl⟩
    · cases hget
    · have hop : _ ∈ [Op.unreachable] := hop
      cases List.mem_singleton.mp hop
  obtain ⟨hstmts, -⟩ := emits_stmts _ (fun _ _ => False.elim) (fun _ _ => trivial) _ hstart hops
  have hend : Op.Extends ops (ops ++ [.pushNull, .ret]) :=
    (Op.Extends.refl ops).appendPlain (by simp)
  exact (Tables.Tracks.extend hstmts hend).finish rfl (List.forall_mem_nil _) (absurd rfl)

/-! ### Functions that return -/

mutual

/-- A statement that always returns has an operation that does. -/
theorem gives_ret_stmt : (s : Stmt) → s.alwaysReturns = true → ∀ start,
    Gives (stmt b start s) fun ops => .ret ∈ ops
  | .return _ (some e), _, start => by
    rw [stmt]
    refine (Gives.trivial _).bind fun f _ => (Gives.trivial _).bind fun v _ => .pure ?_
    simp
  | .return _ none, _, start => by
    rw [stmt]
    refine (Gives.trivial _).bind fun v _ => .pure ?_
    simp
  | .block _ body, h, start => by
    rw [stmt]
    exact gives_ret_stmts body h start
  | .branch _ c t (some e), h, start => by
    rw [Stmt.alwaysReturns, Bool.and_eq_true] at h
    rw [stmt]
    refine (Gives.trivial _).bind fun f _ => (Gives.trivial _).bind fun _ _ => ?_
    refine (Gives.trivial _).bind fun _ _ => (gives_ret_stmt e h.2 _).bind fun ops hops => .pure ?_
    simp [hops]

theorem gives_ret_stmts : (ss : List Stmt) → Stmt.anyReturns ss = true → ∀ start,
    Gives (stmts b start ss) fun ops => .ret ∈ ops
  | s :: rest, h, start => by
    rw [Stmt.anyReturns, Bool.or_eq_true] at h
    rw [stmts]
    rcases h with h | h
    · refine (gives_ret_stmt s h start).bind fun ops hops => (Gives.trivial _).bind fun _ _ => .pure ?_
      exact List.mem_append_left _ hops
    · refine (Gives.trivial _).bind fun _ _ => (gives_ret_stmts rest h _).bind fun ops hops => .pure ?_
      exact List.mem_append_right _ hops

end

theorem gives_ret (lambda : NodeId) (params : List Param) (reps : List Rep) (body : LambdaBody) :
    Gives (entryCode b lambda params reps body) fun r => .ret ∈ r.1 := by
  have hbody (start : Nat) : Gives (lambdaBody b start body) fun ops => .ret ∈ ops := by
    cases body with
    | expr value =>
      refine (Gives.trivial _).bind fun _ _ => (Gives.trivial _).bind fun _ _ => .pure ?_
      simp
    | block body =>
      by_cases hreturns : Stmt.anyReturns body = true
      · refine (gives_ret_stmts body hreturns start).bind fun ops hops => ?_
        rw [if_pos hreturns]
        exact .pure (List.mem_append_left _ hops)
      · refine (Gives.trivial _).bind fun ops _ => ?_
        rw [if_neg hreturns]
        refine (Gives.trivial _).bind fun _ _ => .pure ?_
        simp
  refine (Gives.trivial _).bind fun _ _ => (Gives.trivial _).bind fun cells _ => ?_
  refine (Gives.trivial _).bind fun _ _ => (hbody _).bind fun ops hops => ?_
  exact (Gives.trivial _).bind fun _ _ => .pure (List.mem_append_right _ hops)

theorem job_tracks {j : Job} {rest : List Job} (h : t.Tracks b.analysis done [] [] [])
    (hjobs : t.jobs = j :: rest) (hrun : job b j { t with jobs := rest } = .ok ((), t')) :
    ∃ function, t'.functions[j.function]? = some function ∧ .ret ∈ function.ops ∧
      t'.Tracks b.analysis (done ++ [(j, function)]) [] [] [] := by
  obtain ⟨stack, captures, ret, lambda, params, reps, body, name, ops, locals, t₁, hcode, rfl⟩ :=
    job_cases hrun
  have hstart (slots : NumberedMap Symbol Storage) (count : Nat) :
      Tables.Tracks b.analysis done [j] [j.function] []
        { t with jobs := rest, locals := slots, localCount := count } :=
    { h.start hjobs with queued := { (h.start hjobs).queued with } }
  obtain ⟨hend, -⟩ := entryCode_keeps (t := { t with jobs := rest })
    (tracking { b with stack, captures, ret } done [j] [j.function]) (fun _ _ => False.elim)
    (fun _ _ => trivial)
    (fun slots _ => hstart slots _) hcode
  refine ⟨_, Array.getElem?_setIfInBounds_self_of_lt
    (hend.queued.blank _ List.mem_cons_self).lt, ?_, hend.finish rfl ?_ nofun⟩
  · exact List.mem_toArray.mpr (gives_ret _ _ _ _ hcode)
  · simp

end Generate

/-! ### The number of entries -/

/-- The entries of a lambda. -/
def Shape.entries (i : ShapeId) : Shape → List (ShapeId × Entry)
  | .lambda l => (i, .generic) :: (List.range l.signatures.length).map fun k => (i, .signature k)
  | _ => []

/-- The entries of the lambdas in an arena. -/
def Arena.entries (a : Arena) : List (ShapeId × Entry) :=
  a.shapes.toList.zipIdx.flatMap fun p => p.1.entries p.2

namespace Arena

variable {a : Arena} {i : ShapeId} {l : LambdaShape}

theorem entryCount_eq (a : Arena) : Generate.entryCount a = a.entries.length := by
  have hsum (shapes : List Shape) (k n : Nat) :
      shapes.foldl (fun n shape =>
        match shape with
        | .lambda l => n + l.signatures.length + 1
        | _ => n) n =
      n + ((shapes.zipIdx k).flatMap fun p => p.1.entries p.2).length := by
    induction shapes generalizing k n with
    | nil => rfl
    | cons shape rest ih =>
      rw [List.foldl_cons, ih (k + 1), List.zipIdx_cons, List.flatMap_cons, List.length_append]
      cases shape <;> simp [Shape.entries]
      omega
  rw [Generate.entryCount, ← Array.foldl_toList]
  exact (hsum a.shapes.toList 0 0).trans (Nat.zero_add _)

theorem mem_entries (hl : a.get i = .lambda l) {entry : Entry}
    (hentry : ∀ k, entry = .signature k → k < l.signatures.length) : (i, entry) ∈ a.entries := by
  have hshape : a.shapes.toList[i]? = some (.lambda l) := by
    rw [Array.getElem?_toList]
    cases hget : a.shapes[i]? with
    | none => simp [Arena.get, hget] at hl
    | some shape => simpa [Arena.get, hget] using hl
  refine List.mem_flatMap.mpr ⟨(.lambda l, i), List.mk_mem_zipIdx_iff_getElem?.mpr hshape, ?_⟩
  cases entry with
  | generic => exact List.mem_cons_self
  | signature k =>
    exact List.mem_cons_of_mem _ (List.mem_map.mpr ⟨k, List.mem_range.mpr (hentry k rfl), rfl⟩)

end Arena

namespace Tables

variable {a : Analysis} {done : List (Job × Function)} {t : Tables} {key : ShapeId × Entry}

/-- A function stands for an entry that a lambda has. -/
theorem Tracks.mem_entries (h : t.Tracks a done [] [] []) (hlinked : t.Linked a) {f : Nat}
    (hget : t.functionOf.get? key = some f) : key ∈ a.arena.entries := by
  obtain ⟨_, l, _, hl, _⟩ := hlinked.entry hget
  refine Arena.mem_entries hl fun k hk => ?_
  obtain ⟨lambda, entry⟩ := key
  cases hk
  obtain ⟨signature, hsig⟩ := Option.isSome_iff_exists.mp (h.asked hget).1
  have hlambda : a.arena.lambda? lambda = some l := by
    rw [Analysis.lambda?_eq_some, Arena.resolved, Arena.resolve_of_data (by rw [hl]; rfl)]
    exact hl
  rw [Arena.signature?, hlambda] at hsig
  exact (List.getElem?_eq_some_iff.mp hsig).1

/-- The entry of a job that waits is not among those that are done. -/
theorem Tracks.key_not_mem (h : t.Tracks a done [] [] []) {j : Job} (hj : j ∈ t.jobs) :
    j.key ∉ done.map fun p => p.1.key := by
  intro hmem
  obtain ⟨p, hp, heq⟩ := List.mem_map.mp hmem
  have hsame := (h.kept p hp).1
  rw [heq, h.queued.jobs j hj] at hsame
  exact (h.left p hp).1 (Option.some.inj hsame ▸ List.mem_map_of_mem hj)

end Tables

/-! ### The queue -/

namespace Generate

variable {b : Body} {t t' t₀ : Tables} {done : List (Job × Function)}

/-- Jobs are taken from the front of the queue as long as there are any. The list has those that
were done, each with the function that it gave. -/
inductive WorksOff (b : Body) (t₀ : Tables) : List (Job × Function) → Tables → Prop where
  | start : WorksOff b t₀ [] t₀
  | step {done t j rest t' function} : WorksOff b t₀ done t → t.jobs = j :: rest →
      job b j { t with jobs := rest } = .ok ((), t') → t'.functions[j.function]? = some function →
      WorksOff b t₀ (done ++ [(j, function)]) t'

/-- The jobs that were done, and what is known after them. -/
structure Progress (b : Body) (c : Code) (t₀ : Tables) (done : List (Job × Function)) (t : Tables) :
    Prop where
  run : WorksOff b t₀ done t
  ready : t.Ready c b.analysis b.script
  tracks : t.Tracks b.analysis done [] [] []
  once : (done.map fun p => p.1.key).Nodup
  returns : ∀ p ∈ done, .ret ∈ p.2.ops

variable {ctx : Analysis.Context} {s : Analysis.State} {c : Code}

theorem Progress.job (h : Progress b c t₀ done t) (hb : b.Analyzed ctx s) (hsuits : b.Suits ⟨c, 0, 0⟩)
    {j : Job} {rest : List Job} (hjobs : t.jobs = j :: rest)
    (hrun : Generate.job b j { t with jobs := rest } = .ok ((), t')) :
    ∃ function, Progress b c t₀ (done ++ [(j, function)]) t' := by
  obtain ⟨function, hfunction, hret, htracks⟩ := job_tracks h.tracks hjobs hrun
  refine ⟨function, h.run.step hjobs hrun hfunction, job_ready hb hsuits h.ready hjobs hrun, htracks,
    ?_, fun p hp => ?_⟩
  · rw [List.map_append, List.nodup_append]
    refine ⟨h.once, List.nodup_singleton _, fun key hkey other hother heq => ?_⟩
    rw [List.map_singleton, List.mem_singleton] at hother
    exact h.tracks.key_not_mem (hjobs ▸ List.mem_cons_self) (hother ▸ heq ▸ hkey)
  · rcases List.mem_append.mp hp with hp | hp
    · exact h.returns p hp
    · rw [List.mem_singleton.mp hp]
      exact hret

/-- Where a job waits, not all entries are done. -/
theorem Progress.length_lt (h : Progress b c t₀ done t) (hjobs : t.jobs ≠ []) :
    done.length < entryCount b.analysis.arena := by
  obtain ⟨j, hj⟩ := List.exists_mem_of_ne_nil _ hjobs
  have hnodup : (j.key :: done.map fun p => p.1.key).Nodup :=
    List.nodup_cons.mpr ⟨h.tracks.key_not_mem hj, h.once⟩
  have hsubset : j.key :: (done.map fun p => p.1.key) ⊆ b.analysis.arena.entries := by
    refine List.cons_subset.mpr ⟨h.tracks.mem_entries h.ready.linked (h.tracks.queued.jobs j hj), ?_⟩
    intro key hkey
    obtain ⟨p, hp, rfl⟩ := List.mem_map.mp hkey
    exact h.tracks.mem_entries h.ready.linked (h.tracks.kept p hp).1
  have hle := (List.subperm_of_subset hnodup hsubset).length_le
  rwa [← Arena.entryCount_eq, List.length_cons, List.length_map] at hle

/-- The budget is enough: more of it changes nothing, and no job is left. -/
def Drains (b : Body) (c : Code) (t₀ : Tables) (budget : Nat) (t : Tables) : Prop :=
  (∀ more, Generate.drain b (budget + more) t = Generate.drain b budget t) ∧
    ∀ {t'}, Generate.drain b budget t = .ok ((), t') →
      t'.jobs = [] ∧ ∃ done', Progress b c t₀ done' t'

/-- A budget for the entries that are left is enough. -/
theorem Progress.drain (hb : b.Analyzed ctx s) (hsuits : b.Suits ⟨c, 0, 0⟩) (budget : Nat)
    (h : Progress b c t₀ done t) (hbudget : entryCount b.analysis.arena ≤ done.length + budget) :
    Drains b c t₀ budget t := by
  have hempty {t : Tables} {done : List (Job × Function)} {budget : Nat} (h : Progress b c t₀ done t)
      (hjobs : t.jobs = []) : Drains b c t₀ budget t := by
    refine ⟨fun more => ?_, fun hrun => ?_⟩
    · rw [drain_of_empty hjobs, drain_of_empty hjobs]
    · rw [drain_of_empty hjobs] at hrun
      cases hrun
      exact ⟨hjobs, done, h⟩
  induction budget generalizing t done with
  | zero =>
    refine hempty h (Classical.byContradiction fun hjobs => ?_)
    have hlt := h.length_lt hjobs
    omega
  | succ budget ih =>
    cases hjobs : t.jobs with
    | nil => exact hempty h hjobs
    | cons j rest =>
      have hstep (n : Nat) : Generate.drain b (n + 1) t =
          (Generate.job b j >>= fun _ => Generate.drain b n) { t with jobs := rest } := by
        rw [drain_succ, hjobs]
      cases hjob : Generate.job b j { t with jobs := rest } with
      | error problem =>
        have hfails (n : Nat) : Generate.drain b (n + 1) t = .error problem := by
          rw [hstep]
          show (Generate.job b j _ >>= fun _ => _) = _
          rw [hjob]
          rfl
        refine ⟨fun more => ?_, fun hrun => ?_⟩
        · rw [Nat.add_right_comm, hfails, hfails]
        · rw [hfails] at hrun
          cases hrun
      | ok r =>
        have hgoes (n : Nat) : Generate.drain b (n + 1) t = Generate.drain b n r.2 := by
          rw [hstep]
          show (Generate.job b j _ >>= fun p => Generate.drain b n p.2) = _
          rw [hjob]
          rfl
        obtain ⟨function, hnext⟩ := h.job hb hsuits hjobs hjob
        obtain ⟨hmore, hends⟩ := ih hnext (by rw [List.length_append, List.length_singleton]; omega)
        refine ⟨fun more => ?_, fun hrun => hends (hgoes budget ▸ hrun)⟩
        rw [Nat.add_right_comm, hgoes, hgoes]
        exact hmore more

end Generate

/-! ### Generated code -/

/-- Code as the jobs in `done` give it, each of which gave the function that comes with it. -/
structure Code.Compiled (b : Body) (done : List (Job × Function)) (c : Code) : Prop where
  /-- The jobs are those of the queue after the root, and the queue is empty then. -/
  run : ∃ t t', Generate.root b {} = .ok ((), t) ∧ Generate.WorksOff b t done t' ∧ t'.jobs = [] ∧
    c = t'.code b.layouts b.analysis.input
  once : (done.map fun p => p.1.key).Nodup
  /-- No function is replaced later, and none is blank. -/
  kept : ∀ p ∈ done, c.functions[p.1.function]? = some p.2 ∧ .ret ∈ p.2.ops
  calls : ∀ {f args}, .callEntry f args ∈ c.ops → ∃ p ∈ done, p.1.function = f
  counted : c.dynamicOps = c.ops.countP Op.isDynamic
  dynamic : c.usesDynamic = false ↔ ∀ op ∈ c.ops, op.isDynamic = false

theorem Generate.Progress.compiled {b : Body} {t₀ t : Tables} {done : List (Job × Function)} {c : Code}
    (h : Progress b c t₀ done t) (hroot : root b {} = .ok ((), t₀)) (hjobs : t.jobs = []) :
    (t.code b.layouts b.analysis.input).Compiled b done where
  run := ⟨t₀, t, hroot, h.run, hjobs, rfl⟩
  once := h.once
  kept p hp := ⟨(h.tracks.kept p hp).2, h.returns p hp⟩
  calls {f args} hop := by
    obtain ⟨lambda, index, hget⟩ := h.tracks.calls hop
    obtain ⟨_, _, hwaits | hdone⟩ := h.tracks.asked hget
    · rw [Tables.waiting, hjobs] at hwaits
      cases hwaits
    · exact hdone
  counted := h.tracks.counted
  dynamic := by
    have hcount : (t.code b.layouts b.analysis.input).dynamicOps =
        (t.code b.layouts b.analysis.input).ops.countP Op.isDynamic := h.tracks.counted
    rw [Code.usesDynamic, hcount, decide_eq_false_iff_not, Nat.not_lt, Nat.le_zero, List.countP_eq_zero]
    simp only [Bool.not_eq_true]

namespace Engine

variable {source : String} {script : Script} {types : Registry} {options : Options}
  {input : Option HostTypeId} {analyses : Nat} {analysis : Analysis}

/-- After an analysis without problems the queue is worked off: a larger budget gives no other
result. Each entry was generated at most once, whatever is called as an entry has its code, and the
operations that decide at run time were counted. -/
theorem generate_worksOff (hparse : parse source = .ok script)
    (hanalyze : script.analyze types options input analyses = some (.ok analysis)) :
    let b : Body := { script, analysis, types, layouts := .ofAnalysis analysis }
    (∀ {t} more, Generate.root b {} = .ok ((), t) →
      Generate.drain b (Generate.entryCount analysis.arena + more) t =
        Generate.drain b (Generate.entryCount analysis.arena) t) ∧
      ∀ {code}, analysis.generate script types = .ok code → ∃ done, code.Compiled b done := by
  intro b
  obtain ⟨s, hrecorded, harena, hlayers⟩ := Script.analyze_recorded hanalyze
  have hb : b.Analyzed _ s := ⟨hrecorded, nodup_ids hparse, harena, hlayers, rfl, rfl⟩
  have hsuits : b.Suits ⟨Tables.code {} b.layouts analysis.input, 0, 0⟩ :=
    ⟨Layouts.closed_ofAnalysis analysis, rfl, rfl, rfl, trivial⟩
  have hdrain {t : Tables} (hroot : Generate.root b {} = .ok ((), t)) :=
    Generate.Progress.drain hb hsuits (Generate.entryCount analysis.arena)
      ⟨.start, Generate.root_ready hb hsuits rfl hroot, Generate.root_tracks hroot, List.nodup_nil, nofun⟩
      (Nat.le_add_left ..)
  refine ⟨fun more hroot => (hdrain hroot).1 more, fun hcode => ?_⟩
  obtain ⟨t, t', hroot, hrun, rfl⟩ := Analysis.generate_eq_ok hcode
  obtain ⟨hjobs, done, hprogress⟩ := (hdrain hroot).2 hrun
  exact ⟨done, hprogress.compiled hroot hjobs⟩

/-- A lambda is called with a number and with a string, and escapes into a variable of any kind: its
three entries are generated, and one call decides at run time. -/
theorem generate_worksOff_escape :
    ∃ (script : Script) (analysis : Analysis) (code : Code) (done : List (Job × Function)),
      parse "var f = (x) => x; var a = f(1); var b = f(\"s\"); var g = f; g = 1; return g(a);" = .ok script ∧
      script.analyze (Engine.new {}).registry {} none 3 = some (.ok analysis) ∧
      code.Compiled { script, analysis, types := (Engine.new {}).registry, layouts := .ofAnalysis analysis }
        done ∧ code.functions.size = 4 ∧ code.dynamicOps = 1 := by
  obtain ⟨p, hp, hcheck⟩ := exists_compiled
    "var f = (x) => x; var a = f(1); var b = f(\"s\"); var g = f; g = 1; return g(a);" none 3 (.new {})
    (fun p => decide (p.code.functions.size = 4 ∧ p.code.dynamicOps = 1)) (by decide +kernel)
  obtain ⟨script, analysis, hparse, hanalyze, hgenerate⟩ := compile_eq_ok hp
  obtain ⟨done, hcompiled⟩ := (generate_worksOff hparse hanalyze).2 hgenerate
  exact ⟨script, analysis, p.code, done, hparse, hanalyze, hcompiled, of_decide_eq_true hcheck⟩

end Engine

end HostScript
