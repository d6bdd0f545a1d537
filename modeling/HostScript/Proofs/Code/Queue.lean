import HostScript.Proofs.Code.Ranges
import Mathlib.Data.List.Nodup

/-!
# The queue of entries

A function is blank until its code is generated. The functions that wait for their code wait once,
and a generic entry waits from the moment its lambda escapes. So code that was generated is never
replaced.
-/

namespace HostScript

variable {lambda : ShapeId} {index arity : Nat}

/-- The entry for which a job generates the code. -/
def Job.key (j : Job) : ShapeId × Entry :=
  (j.lambda, j.entry)

namespace Tables

/-- A function without code. -/
def Blank (t : Tables) (f : Nat) : Prop :=
  ∃ function, t.functions[f]? = some function ∧ function.ops = #[.unreachable]

/-- The functions whose code is being generated, and those that wait for theirs. -/
def waiting (busy : List Nat) (t : Tables) : List Nat :=
  busy ++ t.jobs.map Job.function

/-- The queue of the tables while the code of the functions in `busy` is generated. -/
structure Queued (busy : List Nat) (t : Tables) : Prop where
  nodup : (t.waiting busy).Nodup
  blank : ∀ f ∈ t.waiting busy, t.Blank f
  /-- The generic entry of a lambda that did not escape does not wait yet. -/
  idle : ∀ {lambda f}, t.functionOf.get? (lambda, .generic) = some f → lambda ∉ t.escaped →
    t.Blank f ∧ f ∉ t.waiting busy
  apart : ∀ {key other f}, t.functionOf.get? key = some f → t.functionOf.get? other = some f →
    key = other
  bound : ∀ {key f}, t.functionOf.get? key = some f → f < t.functions.size
  jobs : ∀ j ∈ t.jobs, t.functionOf.get? j.key = some j.function
  /-- A generic entry comes with a template. -/
  known : ∀ {lambda f}, t.functionOf.get? (lambda, .generic) = some f →
    t.templateOf.get? lambda ≠ none

variable {t t' : Tables} {busy : List Nat}

theorem Blank.lt {f : Nat} (h : t.Blank f) : f < t.functions.size := by
  obtain ⟨function, hf, -⟩ := h
  exact (Array.getElem?_eq_some_iff.mp hf).1

theorem Blank.push {f : Nat} (h : t.Blank f) (function : Function)
    (ht : t'.functions = t.functions.push function) : t'.Blank f := by
  have hlt := h.lt
  obtain ⟨old, hf, hops⟩ := h
  refine ⟨old, ?_, hops⟩
  rw [ht, Array.getElem?_push, if_neg (by omega)]
  exact hf

/-- A new function is blank. -/
theorem Blank.new {function : Function} (hops : function.ops = #[.unreachable])
    (ht : t'.functions = t.functions.push function) : t'.Blank t.functions.size := by
  refine ⟨function, ?_, hops⟩
  rw [ht, Array.getElem?_push_size]

theorem Blank.set {f g : Nat} (h : t.Blank g) (hne : f ≠ g)
    (function : Function) (ht : t'.functions = t.functions.setIfInBounds f function) :
    t'.Blank g := by
  obtain ⟨old, hold, hops⟩ := h
  refine ⟨old, ?_, hops⟩
  rw [ht, Array.getElem?_setIfInBounds_ne hne]
  exact hold

/-! ### New entries -/

/-- An entry of a lambda gets a function without code, which may wait for it. -/
structure Gains (key : ShapeId × Entry) (function : Function) (t t' : Tables) : Prop where
  new : t.functionOf.get? key = none
  blank : function.ops = #[.unreachable]
  functions : t'.functions = t.functions.push function
  functionOf : t'.functionOf = t.functionOf.insert key t.functions.size
  /-- A generic entry waits only if its lambda has escaped. -/
  jobs : t'.jobs = t.jobs ∨ t'.jobs = t.jobs ++ [⟨t.functions.size, key.1, key.2⟩] ∧
    (key.2 = .generic → key.1 ∈ t.escaped)
  known : ∀ {lambda}, t.templateOf.get? lambda ≠ none ∨ key = (lambda, .generic) →
    t'.templateOf.get? lambda ≠ none
  same : t' = { t with
    functions := t'.functions
    functionOf := t'.functionOf
    jobs := t'.jobs
    templates := t'.templates
    templateOf := t'.templateOf }

namespace Gains

variable {key other : ShapeId × Entry} {function : Function} {f : Nat}

theorem cases (h : Gains key function t t') (hget : t'.functionOf.get? other = some f) :
    t.functionOf.get? other = some f ∨ other = key ∧ f = t.functions.size :=
  OrderedMap.get?_insert_cases (h.functionOf ▸ hget)

theorem keeps (h : Gains key function t t') (hget : t.functionOf.get? other = some f) :
    t'.functionOf.get? other = some f :=
  h.functionOf ▸ OrderedMap.get?_insert_of_new _ h.new hget

theorem entered (h : Gains key function t t') : t'.functionOf.get? key = some t.functions.size :=
  h.functionOf ▸ OrderedMap.get?_insert_self ..

theorem escaped (h : Gains key function t t') : t'.escaped = t.escaped := by
  rw [h.same]

theorem old (h : Gains key function t t') : t.jobs ⊆ t'.jobs := by
  rcases h.jobs with heq | ⟨heq, -⟩ <;> rw [heq]
  · exact List.Subset.refl _
  · exact List.subset_append_left _ _

theorem mem_jobs (h : Gains key function t t') {j : Job} (hj : j ∈ t'.jobs) :
    j ∈ t.jobs ∨ j = ⟨t.functions.size, key.1, key.2⟩ := by
  rcases h.jobs with heq | ⟨heq, -⟩ <;> rw [heq] at hj
  · exact .inl hj
  · rwa [List.mem_append, List.mem_singleton] at hj

end Gains

/-! ### What escapes -/

/-- A lambda that escapes for the first time lets its generic entry wait, if it has one. -/
theorem escapeLambda_cases (t : Tables) (lambda : ShapeId) :
    t.escapeLambda lambda = t ∨ lambda ∉ t.escaped ∧ ∃ more,
      t.escapeLambda lambda =
        { t with escaped := t.escaped ++ [lambda], jobs := t.jobs ++ more } ∧
      (more.map Job.function).Nodup ∧
      ∀ j ∈ more, j.key = (lambda, .generic) ∧ t.functionOf.get? j.key = some j.function := by
  unfold escapeLambda
  split
  · exact .inl rfl
  next hnew =>
    refine .inr ⟨by simpa using hnew, ?_⟩
    dsimp only
    split
    next function hget =>
      refine ⟨[⟨function, lambda, .generic⟩], rfl, List.nodup_singleton _, fun j hj => ?_⟩
      rw [List.mem_singleton.mp hj]
      exact ⟨rfl, hget⟩
    next => exact ⟨[], by rw [List.append_nil], List.nodup_nil, List.forall_mem_nil _⟩

section

variable {P : Tables → Prop} (hlambda : ∀ {t} lambda, P t → P (t.escapeLambda lambda))
  (hsearched : ∀ {t : Tables} reps, P t → P { t with searched := reps })

include hlambda hsearched

theorem escapeWith_keeps (layouts : Layouts) (budget : Nat) (rep : Rep) (h : P t) :
    P (escapeWith layouts budget rep t) := by
  induction budget generalizing rep t with
  | zero => exact h
  | succ budget ih =>
    have hfold (fields : List (String × Rep)) {t : Tables} (ht : P t) :
        P (fields.foldl (fun t p => escapeWith layouts budget p.2 t) t) := by
      induction fields generalizing t with
      | nil => exact ht
      | cons field rest ihf => exact ihf (ih field.2 ht)
    rw [escapeWith.eq_def]
    dsimp only
    split
    next lambda => exact hlambda lambda h
    next layout =>
      split
      · exact h
      · exact hfold _ (hsearched _ h)
    next layout =>
      split
      · exact h
      · exact ih _ (hsearched _ h)
    next => exact h

/-- A property that is kept when a lambda escapes is kept when all closures within values of a
representation do. -/
theorem escape_keeps (layouts : Layouts) (rep : Rep) (h : P t) : P (t.escape layouts rep) :=
  escapeWith_keeps hlambda hsearched layouts _ rep h

end

namespace Queued

theorem not_mem_size (h : t.Queued busy) : t.functions.size ∉ t.waiting busy := by
  intro hmem
  exact Nat.lt_irrefl _ (h.blank _ hmem).lt

/-- A new entry waits once if it waits. -/
theorem gains (h : t.Queued busy) {key : ShapeId × Entry} {function : Function}
    (hg : Gains key function t t') : t'.Queued busy := by
  have hnew : t'.Blank t.functions.size := .new hg.blank hg.functions
  have hbound {other : ShapeId × Entry} {f : Nat} (hold : t.functionOf.get? other = some f) :
      f ≠ t.functions.size :=
    Nat.ne_of_lt (h.bound hold)
  have hwaiting : t'.waiting busy = t.waiting busy ∨
      t'.waiting busy = t.waiting busy ++ [t.functions.size] ∧ (key.2 = .generic → key.1 ∈ t.escaped) :=
    hg.jobs.imp (fun heq => by rw [waiting, heq, waiting]) (And.imp_left fun heq => by simp [waiting, heq])
  have hmem {f : Nat} (hf : f ∈ t'.waiting busy) : f ∈ t.waiting busy ∨ f = t.functions.size := by
    rcases hwaiting with heq | ⟨heq, -⟩ <;> rw [heq] at hf
    · exact .inl hf
    · rwa [List.mem_append, List.mem_singleton] at hf
  refine ⟨?_, fun f hf => ?_, fun {lambda f} hget hesc => ?_, fun {k k' f} hget hget' => ?_,
    fun {k f} hget => ?_, fun j hj => ?_, fun {lambda f} hget => ?_⟩
  · rcases hwaiting with heq | ⟨heq, -⟩ <;> rw [heq]
    · exact h.nodup
    · exact List.nodup_append_comm.mp (List.nodup_cons.mpr ⟨h.not_mem_size, h.nodup⟩)
  · rcases hmem hf with hold | rfl
    · exact (h.blank f hold).push function hg.functions
    · exact hnew
  · rw [hg.escaped] at hesc
    rcases hg.cases hget with hold | ⟨rfl, rfl⟩
    · obtain ⟨hblank, hidle⟩ := h.idle hold hesc
      exact ⟨hblank.push function hg.functions, fun hf => (hmem hf).elim hidle (hbound hold)⟩
    · rcases hwaiting with heq | ⟨-, hescaped⟩
      · exact ⟨hnew, heq ▸ h.not_mem_size⟩
      · exact absurd (hescaped rfl) hesc
  · rcases hg.cases hget with hold | ⟨rfl, rfl⟩ <;> rcases hg.cases hget' with hold' | ⟨rfl, heq⟩
    · exact h.apart hold hold'
    · exact absurd heq (hbound hold)
    · exact absurd rfl (hbound hold')
    · rfl
  · rw [hg.functions, Array.size_push]
    rcases hg.cases hget with hold | ⟨-, rfl⟩
    · exact Nat.lt_succ_of_lt (h.bound hold)
    · exact Nat.lt_succ_self _
  · rcases hg.mem_jobs hj with hold | rfl
    · exact hg.keeps (h.jobs j hold)
    · exact hg.entered
  · rcases hg.cases hget with hold | ⟨heq, -⟩
    · exact hg.known (.inl (h.known hold))
    · exact hg.known (.inr heq.symm)

/-! ### Taking from the queue -/

theorem start (h : t.Queued []) {job : Job} {rest : List Job} (hjobs : t.jobs = job :: rest) :
    Queued [job.function] { t with jobs := rest } := by
  have hwaiting : waiting [job.function] { t with jobs := rest } = t.waiting [] := by
    simp [waiting, hjobs]
  refine { h with
    nodup := hwaiting ▸ h.nodup
    blank := fun f hf => h.blank f (hwaiting ▸ hf)
    idle := fun hget hesc => ?_
    jobs := fun j hj => h.jobs j (hjobs ▸ List.mem_cons_of_mem _ hj) }
  rw [hwaiting]
  exact h.idle hget hesc

/-- The function for which code was generated is the only one that changes. -/
theorem finish {f : Nat} (h : t.Queued [f]) (function : Function) :
    Queued [] (t.setFunction f function) := by
  have hcons : t.waiting [f] = f :: t.waiting [] := rfl
  have hnodup := List.nodup_cons.mp (hcons ▸ h.nodup)
  refine { h with
    nodup := hnodup.2
    blank := fun g hg => ?_
    idle := fun {lambda g} hget hesc => ?_
    bound := fun {key g} hget => ?_ }
  · have hne : f ≠ g := fun heq => hnodup.1 (heq ▸ hg)
    exact (h.blank g (List.mem_cons_of_mem f hg)).set hne function rfl
  · obtain ⟨hblank, hidle⟩ := h.idle hget hesc
    rw [hcons, List.mem_cons, not_or] at hidle
    exact ⟨hblank.set (Ne.symm hidle.1) function rfl, hidle.2⟩
  · rw [Tables.setFunction, Array.size_setIfInBounds]
    exact h.bound hget

/-! ### Escaping -/

theorem escapeLambda (h : t.Queued busy) (lambda : ShapeId) :
    (t.escapeLambda lambda).Queued busy := by
  rcases t.escapeLambda_cases lambda with heq | ⟨hnew, more, heq, honce, hmore⟩ <;> rw [heq]
  · exact h
  have hidle {j : Job} (hj : j ∈ more) : t.Blank j.function ∧ j.function ∉ t.waiting busy :=
    h.idle ((hmore j hj).1 ▸ (hmore j hj).2) hnew
  have hwaiting : waiting busy { t with escaped := t.escaped ++ [lambda], jobs := t.jobs ++ more } =
      t.waiting busy ++ more.map Job.function := by
    simp [waiting]
  refine { h with
    nodup := ?_
    blank := fun f hf => ?_
    idle := fun {other f} hget hesc => ?_
    jobs := fun j hj => (List.mem_append.mp hj).elim (h.jobs j) fun hj => (hmore j hj).2 }
  · rw [hwaiting]
    refine List.nodup_append.mpr ⟨h.nodup, honce, fun f hf g hg hfg => ?_⟩
    obtain ⟨j, hj, rfl⟩ := List.mem_map.mp hg
    exact (hidle hj).2 (hfg ▸ hf)
  · rcases List.mem_append.mp (hwaiting ▸ hf) with hf | hf
    · exact h.blank f hf
    · obtain ⟨j, hj, rfl⟩ := List.mem_map.mp hf
      exact (hidle hj).1
  · obtain ⟨hblank, hrests⟩ := h.idle hget fun hmem => hesc (List.mem_append_left _ hmem)
    refine ⟨hblank, fun hf => ?_⟩
    rcases List.mem_append.mp (hwaiting ▸ hf) with hf | hf
    · exact hrests hf
    · obtain ⟨j, hj, rfl⟩ := List.mem_map.mp hf
      have hkey := h.apart hget (hmore j hj).2
      rw [(hmore j hj).1] at hkey
      cases hkey
      exact hesc (List.mem_append_right _ (List.mem_singleton_self lambda))

theorem escape (layouts : Layouts) (rep : Rep) (h : t.Queued busy) :
    (t.escape layouts rep).Queued busy :=
  escape_keeps (fun lambda h => h.escapeLambda lambda) (fun _ h => { h with }) layouts rep h

end Queued

end Tables

/-- The analysis with the shapes of an entry. -/
def Entry.analysis? (l : LambdaShape) : Entry → Option Signature
  | .signature index => l.signatures[index]?
  | .generic => l.generic

namespace Generate

variable {b : Body} {t t' : Tables} {busy : List Nat}

/-! ### Entries -/

/-- An entry has its function already, or gets one that waits. -/
theorem signatureFunction_ok {function : Nat}
    (hrun : signatureFunction lambda index arity t = .ok (function, t')) :
    t.functionOf.get? (lambda, .signature index) = some function ∧ t' = t ∨
      function = t.functions.size ∧
        Tables.Gains (lambda, .signature index)
          { name := "lambda#" ++ toString lambda, arity, locals := 0, ops := #[.unreachable] } t t' ∧
        t'.jobs = t.jobs ++ [⟨function, lambda, .signature index⟩] ∧ t'.templates = t.templates ∧
        t'.templateOf = t.templateOf := by
  obtain ⟨t₁, t₂, hget, hbody⟩ := bind_ok.mp hrun
  cases hget
  cases hold : t.functionOf.get? (lambda, .signature index) with
  | some old =>
    rw [hold] at hbody
    cases pure_ok.mp hbody
    exact .inl ⟨rfl, rfl⟩
  | none =>
    rw [hold] at hbody
    cases hbody
    exact .inr ⟨rfl, ⟨hold, rfl, rfl, rfl, .inr ⟨rfl, fun heq => by cases heq⟩, fun hor => hor.elim id nofun,
      rfl⟩, rfl, rfl, rfl⟩

theorem signatureFunction_cases {function : Nat}
    (hrun : signatureFunction lambda index arity t = .ok (function, t')) :
    t' = t ∨ ∃ key function, Tables.Gains key function t t' := by
  rcases signatureFunction_ok hrun with ⟨-, rfl⟩ | ⟨-, hg, -⟩
  · exact .inl rfl
  · exact .inr ⟨_, _, hg⟩

/-- The action changes no table, and what it gives is as `P` says. -/
def Reads {α : Type} (act : Generate α) (P : Tables → α → Prop) : Prop :=
  ∀ ⦃t a t'⦄, act t = .ok (a, t') → t' = t ∧ P t a

namespace Reads

variable {α β : Type} {act : Generate α} {f : α → Generate β} {P : Tables → α → Prop}
  {Q : Tables → β → Prop} {problem : CompilerProblem} {span : Span}

theorem pure {a : α} (h : ∀ t, P t a) : Reads (Pure.pure a) P := by
  intro t a' t' hrun
  cases pure_ok.mp hrun
  exact ⟨rfl, h t⟩

theorem bind (h : Reads act P) (hf : ∀ a, Reads (f a) fun t r => P t a → Q t r) :
    Reads (act >>= f) Q := by
  intro t r t' hrun
  obtain ⟨a, t₁, hact, hrest⟩ := bind_ok.mp hrun
  obtain ⟨rfl, ha⟩ := h hact
  obtain ⟨rfl, hr⟩ := hf a hrest
  exact ⟨rfl, hr ha⟩

theorem get : Reads MonadState.get fun t a => a = t := by
  intro t a t' hrun
  cases hrun
  exact ⟨rfl, rfl⟩

theorem fail : Reads (Generate.fail problem span : Generate α) P := by
  intro t a t' hrun
  cases hrun

theorem orFail {result : Option α} :
    Reads (Generate.orFail result problem span) fun _ a => result = some a := by
  cases result with
  | some a => exact .pure fun _ => rfl
  | none => exact .fail

theorem mapM (h : ∀ a, Reads (f a) Q) (items : List α) :
    Reads (items.mapM f) fun t rs => rs.length = items.length ∧ ∀ r ∈ rs, Q t r := by
  induction items with
  | nil =>
    rw [List.mapM_nil]
    exact .pure fun _ => ⟨rfl, fun _ hr => absurd hr List.not_mem_nil⟩
  | cons item rest ih =>
    rw [List.mapM_cons]
    refine (h item).bind fun first => ih.bind fun more => .pure fun t hmore hfirst => ?_
    exact ⟨congrArg (· + 1) hmore.1, List.forall_mem_cons.mpr ⟨hfirst, hmore.2⟩⟩

end Reads

theorem reads_captureSource (span : Span) (symbol : Symbol) :
    Reads (captureSource b span symbol) fun t source =>
      (∀ symbol storage, t.locals.get? symbol = some storage → storage.slot < t.localCount) →
        source.InRange t.localCount b.captures.length := by
  refine Reads.get.bind fun t => ?_
  split
  next storage hstorage =>
    split
    · refine .pure fun t' ht hslots => ?_
      subst ht
      exact hslots symbol storage hstorage
    · exact .fail
  next =>
    refine Reads.orFail.bind fun index => .pure fun _ hindex _ _ => ?_
    exact (List.findIdx?_eq_some_iff_getElem.mp hindex).1

/-- The innermost layer of an entry is that of its analysis. -/
theorem reads_entryFrame (lambda : ShapeId) (entry : Entry) (span : Span) :
    Reads (entryFrame b lambda entry span) fun _ frame => ∃ l signature,
      b.analysis.arena.lambda? lambda = some l ∧ entry.analysis? l = some signature ∧
        frame.1.getLast? = some signature.layer ∧ ∀ rep ∈ frame.2, ∃ shape, rep = b.repOf shape := by
  refine Reads.orFail.bind fun l => Reads.orFail.bind fun signature => Reads.orFail.bind fun _ => ?_
  refine .pure fun _ _ hsig hl => ⟨l, signature, hl, hsig, List.getLast?_concat, fun rep hrep => ?_⟩
  obtain ⟨_, _, rfl⟩ := List.mem_map.mp hrep
  exact ⟨_, rfl⟩

/-- A lambda has a template already, or gets its generic entry and a template. The entry waits if
the lambda has escaped. -/
theorem template_ok {node : Node} (h : t.Queued busy)
    (hrun : template b node arity lambda t = .ok (index, t')) :
    (t.templateOf.get? lambda = some index ∧ t' = t) ∨
      index = t.templates.length ∧ ∃ captures,
        (captures.length = ((b.analysis.captures.get? node.id).getD []).length ∧
          ((∀ symbol storage, t.locals.get? symbol = some storage → storage.slot < t.localCount) →
            ∀ source ∈ captures, source.InRange t.localCount b.captures.length)) ∧
        Tables.Gains (lambda, .generic)
          ⟨"lambda#" ++ toString node.id ++ "/generic", arity, 0, #[.unreachable]⟩ t t' ∧
        t'.templates = t.templates ++
          [⟨"lambda#" ++ toString node.id, lambda, t.functions.size, arity, captures⟩] ∧
        t'.templateOf = t.templateOf.insert lambda t.templates.length := by
  obtain ⟨t₁, t₂, hget, hbody⟩ := bind_ok.mp hrun
  cases hget
  cases hold : t.templateOf.get? lambda with
  | some old =>
    rw [hold] at hbody
    cases pure_ok.mp hbody
    exact .inl ⟨rfl, rfl⟩
  | none =>
    rw [hold] at hbody
    obtain ⟨captures, t₃, hcaptures, hnamed⟩ := bind_ok.mp hbody
    obtain ⟨hsame, hlength, hsources⟩ := Reads.mapM (reads_captureSource node.span) _ hcaptures
    rw [hsame] at hnamed
    obtain ⟨generic, t₄, hnew, hentered⟩ := bind_ok.mp hnamed
    cases hnew
    obtain ⟨_, t₅, hinsert, hqueued⟩ := bind_ok.mp hentered
    cases hinsert
    obtain ⟨t₆, t₇, hget, hdone⟩ := bind_ok.mp hqueued
    cases hget
    have hnone : t.functionOf.get? (lambda, .generic) = none := by
      by_contra hsome
      obtain ⟨f, hf⟩ := Option.ne_none_iff_exists'.mp hsome
      exact h.known hf hold
    have hknown {other : ShapeId} (hor : t.templateOf.get? other ≠ none ∨
        (lambda, Entry.generic) = (other, .generic)) :
        (t.templateOf.insert lambda t.templates.length).get? other ≠ none := by
      rw [OrderedMap.get?_insert]
      split
      · exact Option.some_ne_none _
      next hne => exact hor.resolve_right fun heq => hne (Prod.mk.inj heq).1.symm
    by_cases hesc : t.escaped.contains lambda = true
    · simp only [hesc, if_true] at hdone
      cases hdone
      exact .inr ⟨rfl, captures, ⟨hlength, fun hslots source hsource => hsources source hsource hslots⟩,
        ⟨hnone, rfl, rfl, rfl, .inr ⟨rfl, fun _ => by simpa using hesc⟩, hknown, rfl⟩, rfl, rfl⟩
    · simp only [hesc] at hdone
      cases hdone
      exact .inr ⟨rfl, captures, ⟨hlength, fun hslots source hsource => hsources source hsource hslots⟩,
        ⟨hnone, rfl, rfl, rfl, .inl rfl, hknown, rfl⟩, rfl, rfl⟩

theorem template_cases {node : Node} (h : t.Queued busy)
    (hrun : template b node arity lambda t = .ok (index, t')) :
    t' = t ∨ ∃ key function, Tables.Gains key function t t' := by
  rcases template_ok h hrun with ⟨-, rfl⟩ | ⟨-, _, -, hg, -⟩
  · exact .inl rfl
  · exact .inr ⟨_, _, hg⟩

end Generate

end HostScript
