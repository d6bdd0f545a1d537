import HostScript.Proofs.Analysis.Changes
import HostScript.Proofs.Code.Queue

/-!
# Links between the tables

Entries and templates are found under the shapes of lambdas. A function that stands for an entry
takes the arguments of its lambda, now and when its code is there. A template is made while code is
generated for the layer in which its lambda literal has its shape, and every layer has its turn
once: so the code that makes closures from a template is the code of the function in which the
template was made. -/

namespace HostScript

/-- The analysis for which an entry has code. -/
def Entry.index? : Entry → Option Nat
  | .signature index => some index
  | .generic => none

theorem Entry.analysis?_eq (entry : Entry) (l : LambdaShape) :
    entry.analysis? l = l.analysis? entry.index? := by
  cases entry <;> rfl

namespace Analysis

/-- The layer with the shapes in the body of an entry. -/
def HasLayer (a : Analysis) (key : ShapeId × Entry) (layer : LayerId) : Prop :=
  ∃ l signature, a.arena.get key.1 = .lambda l ∧ l.analysis? key.2.index? = some signature ∧
    signature.layer = layer

def captureCount (a : Analysis) (node : NodeId) : Nat :=
  ((a.captures.get? node).getD []).length

/-- A template is for a lambda whose literal has its shape in the layer. -/
def Describes (a : Analysis) (template : Template) (layer : LayerId) : Prop :=
  ∃ l, a.arena.get template.shape = .lambda l ∧ template.name = "lambda#" ++ toString l.node ∧
    template.arity = l.paramCount ∧ template.captures.length = a.captureCount l.node ∧
    l.env.getLast? = some layer

end Analysis

namespace Tables

/-- The code of an entry is there or is being generated. -/
structure Started (t : Tables) (key : ShapeId × Entry) (f : Nat) : Prop where
  entry : t.functionOf.get? key = some f
  taken : f ∉ t.jobs.map Job.function
  escaped : key.2 = .generic → key.1 ∈ t.escaped

/-- A layer had its turn, or has it, with a function. -/
def Opened (a : Analysis) (layer : LayerId) (f : Nat) (t : Tables) : Prop :=
  layer = Layers.root ∧ f = 0 ∨ ∃ key, t.Started key f ∧ a.HasLayer key layer

/-- The function of an entry takes the arguments of its lambda. -/
def Serves (a : Analysis) (key : ShapeId × Entry) (f : Nat) (t : Tables) : Prop :=
  0 < f ∧ ∃ l function, a.arena.get key.1 = .lambda l ∧ t.functions[f]? = some function ∧
    function.arity = l.paramCount ∧
    (key.2 = .generic → function.name = "lambda#" ++ toString l.node ++ "/generic")

structure Linked (a : Analysis) (t : Tables) : Prop where
  root : ∃ function, t.functions[0]? = some function ∧ function.name = "<root>" ∧ function.arity = 0
  entry : ∀ {key f}, t.functionOf.get? key = some f → t.Serves a key f
  made : ∀ template ∈ t.templates, (∃ layer f, a.Describes template layer ∧ t.Opened a layer f) ∧
    t.functionOf.get? (template.shape, .generic) = some template.generic
  found : ∀ {lambda k}, t.templateOf.get? lambda = some k →
    ∃ template, t.templates[k]? = some template ∧ template.shape = lambda

variable {a : Analysis} {t t' : Tables} {key other : ShapeId × Entry} {f : Nat} {layer : LayerId}

/-- Where a layer had its turn, it has had it later too. -/
theorem Opened.mono (h : t.Opened a layer f) (hkeeps : ∀ {key f}, t.Started key f → t'.Started key f) :
    t'.Opened a layer f := by
  rcases h with hroot | ⟨key, hstarted, hlayer⟩
  · exact .inl hroot
  · exact .inr ⟨key, hkeeps hstarted, hlayer⟩

/-- Only entries and the queue count. -/
theorem Opened.of_same (h : t.Opened a layer f) (ho : t'.functionOf = t.functionOf)
    (hj : t'.jobs = t.jobs) (he : t'.escaped = t.escaped) : t'.Opened a layer f :=
  h.mono fun hk => ⟨ho ▸ hk.entry, hj ▸ hk.taken, he ▸ hk.escaped⟩

namespace Linked

theorem size_pos (h : t.Linked a) : 0 < t.functions.size := by
  obtain ⟨_, hroot, _⟩ := h.root
  exact (Array.getElem?_eq_some_iff.mp hroot).1

theorem lt_size (h : t.Linked a) (hget : t.functionOf.get? key = some f) : f < t.functions.size := by
  obtain ⟨_, _, function, _, hf, _⟩ := h.entry hget
  exact (Array.getElem?_eq_some_iff.mp hf).1

/-- Templates are for layers that had their turn, now and later. -/
theorem made_later (h : t.Linked a) (hkeeps : ∀ {key f}, t.Started key f → t'.Started key f)
    (hentries : ∀ {key f}, t.functionOf.get? key = some f → t'.functionOf.get? key = some f) :
    ∀ template ∈ t.templates, (∃ layer f, a.Describes template layer ∧ t'.Opened a layer f) ∧
      t'.functionOf.get? (template.shape, .generic) = some template.generic := by
  intro template hmem
  obtain ⟨⟨layer, f, hdescribes, hopened⟩, hgeneric⟩ := h.made template hmem
  exact ⟨⟨layer, f, hdescribes, hopened.mono hkeeps⟩, hentries hgeneric⟩

/-- Only functions, entries, templates and the queue count. -/
theorem of_same (h : t.Linked a) (hf : t'.functions = t.functions)
    (ho : t'.functionOf = t.functionOf) (hj : t'.jobs = t.jobs) (he : t'.escaped = t.escaped)
    (ht : t'.templates = t.templates) (hto : t'.templateOf = t.templateOf) : t'.Linked a := by
  refine ⟨hf ▸ h.root, fun hget => ?_, ?_, fun hget => ?_⟩
  · rw [Serves, hf]
    exact h.entry (ho ▸ hget)
  · rw [ht]
    exact h.made_later (fun hk => ⟨ho ▸ hk.entry, hj ▸ hk.taken, he ▸ hk.escaped⟩) fun hget => ho ▸ hget
  · rw [ht]
    exact h.found (hto ▸ hget)

/-! ### Escaping -/

/-- The generic entry of a lambda starts to wait when the lambda escapes. -/
theorem escapeLambda (h : t.Linked a) {busy : List Nat} (hq : t.Queued busy) (lambda : ShapeId) :
    (t.escapeLambda lambda).Linked a ∧
      ∀ {key f}, t.Started key f → (t.escapeLambda lambda).Started key f := by
  rcases t.escapeLambda_cases lambda with heq | ⟨hnew, more, heq, -, hmore⟩ <;> rw [heq]
  · exact ⟨h, id⟩
  have hstarted {key : ShapeId × Entry} {f : Nat} (hk : t.Started key f) :
      Started { t with escaped := t.escaped ++ [lambda], jobs := t.jobs ++ more } key f := by
    refine ⟨hk.entry, fun hmem => ?_, fun hgeneric => List.mem_append_left _ (hk.escaped hgeneric)⟩
    rw [List.map_append, List.mem_append] at hmem
    rcases hmem with hmem | hmem
    · exact hk.taken hmem
    · -- the function that joins the queue has another key, because its lambda was not escaped
      obtain ⟨j, hj, rfl⟩ := List.mem_map.mp hmem
      obtain rfl := (hq.apart hk.entry (hmore j hj).2).trans (hmore j hj).1
      exact hnew (hk.escaped rfl)
  exact ⟨⟨h.root, h.entry, h.made_later hstarted id, h.found⟩, hstarted⟩

/-! ### New entries -/

variable {l : LambdaShape} {function : Function}

theorem started_add (h : t.Linked a) (hg : Gains key function t t') (hother : t.Started other f) :
    t'.Started other f := by
  refine ⟨hg.keeps hother.entry, fun hmem => ?_, hg.escaped ▸ hother.escaped⟩
  obtain ⟨job, hjob, rfl⟩ := List.mem_map.mp hmem
  rcases hg.mem_jobs hjob with hjob | rfl
  · exact hother.taken (List.mem_map_of_mem hjob)
  · exact Nat.lt_irrefl _ (h.lt_size hother.entry)

/-- A lambda gets an entry, and a template with its generic one. -/
theorem addEntry (h : t.Linked a) (hg : Gains key function t t') (hl : a.arena.get key.1 = .lambda l)
    (harity : function.arity = l.paramCount)
    (hname : key.2 = .generic → function.name = "lambda#" ++ toString l.node ++ "/generic")
    (hmade : ∀ template ∈ t'.templates, template ∈ t.templates ∨
      key = (template.shape, .generic) ∧ template.generic = t.functions.size ∧
        ∃ layer f, a.Describes template layer ∧ t.Opened a layer f)
    (hfound : ∀ {lambda k}, t'.templateOf.get? lambda = some k →
      ∃ template, t'.templates[k]? = some template ∧ template.shape = lambda) :
    t'.Linked a := by
  refine ⟨?_, fun {k f} hget => ?_, fun template hmem => ?_, hfound⟩
  · obtain ⟨root, hroot, hrest⟩ := h.root
    refine ⟨root, ?_, hrest⟩
    rw [hg.functions, Array.getElem?_push, if_neg (Nat.ne_of_lt h.size_pos)]
    exact hroot
  · rw [Serves, hg.functions]
    rcases hg.cases hget with hold | ⟨rfl, rfl⟩
    · have hlt := h.lt_size hold
      rw [Array.getElem?_push, if_neg (by omega)]
      exact h.entry hold
    · exact ⟨h.size_pos, l, function, hl, Array.getElem?_push_size, harity, hname⟩
  · rcases hmade template hmem with hold | ⟨rfl, hgeneric, layer, f, hdescribes, hopened⟩
    · exact h.made_later (h.started_add hg) hg.keeps template hold
    · exact ⟨⟨layer, f, hdescribes, hopened.mono (h.started_add hg)⟩, hgeneric ▸ hg.entered⟩

/-! ### Jobs -/

/-- A job that is taken from the queue starts its entry. -/
theorem start (h : t.Linked a) (hq : t.Queued []) {job : Job} {rest : List Job}
    (hjobs : t.jobs = job :: rest) :
    Linked a { t with jobs := rest } ∧
      Started { t with jobs := rest } (job.lambda, job.entry) job.function := by
  have hnodup : (job.function :: rest.map Job.function).Nodup := by
    have hwaiting := hq.nodup
    rwa [waiting, hjobs] at hwaiting
  have hstarted {key : ShapeId × Entry} {f : Nat} (hk : t.Started key f) :
      Started { t with jobs := rest } key f := by
    refine ⟨hk.entry, fun hmem => hk.taken ?_, hk.escaped⟩
    rw [hjobs]
    exact List.mem_cons_of_mem _ hmem
  have hget := hq.jobs job (hjobs ▸ List.mem_cons_self)
  refine ⟨⟨h.root, h.entry, h.made_later hstarted id, h.found⟩, hget, (List.nodup_cons.mp hnodup).1,
    fun hentry => ?_⟩
  by_contra hesc
  have hentry : job.entry = .generic := hentry
  rw [Job.key, hentry] at hget
  refine (hq.idle hget hesc).2 ?_
  rw [waiting, hjobs]
  exact List.mem_cons_self

/-- The layer of a job that waits did not have its turn yet. -/
theorem not_opened {busy : List Nat} (h : t.Queued busy)
    (happart : ∀ {key other layer}, a.HasLayer key layer → a.HasLayer other layer → key = other)
    (habove : ∀ {key layer}, a.HasLayer key layer → Layers.root < layer) {job : Job}
    (hjob : job ∈ t.jobs) (hlayer : a.HasLayer (job.lambda, job.entry) layer) :
    ¬ t.Opened a layer f := by
  rintro (⟨rfl, _⟩ | ⟨key, hstarted, hother⟩)
  · exact Nat.lt_irrefl _ (habove hlayer)
  · obtain rfl := happart hother hlayer
    cases hstarted.entry.symm.trans (h.jobs job hjob)
    exact hstarted.taken (List.mem_map_of_mem hjob)

theorem setFunction (h : t.Linked a)
    (hroot : f = 0 → function.name = "<root>" ∧ function.arity = 0)
    (hserves : ∀ {key}, t.functionOf.get? key = some f →
      ∃ l, a.arena.get key.1 = .lambda l ∧ function.arity = l.paramCount ∧
        (key.2 = .generic → function.name = "lambda#" ++ toString l.node ++ "/generic")) :
    Linked a (t.setFunction f function) := by
  refine ⟨?_, fun {k g} hk => ?_, h.made_later (fun hk => { hk with }) id, h.found⟩
  · by_cases hf : f = 0
    · subst hf
      exact ⟨function, Array.getElem?_setIfInBounds_self_of_lt h.size_pos, hroot rfl⟩
    · obtain ⟨old, hold, hrest⟩ := h.root
      exact ⟨old, (Array.getElem?_setIfInBounds_ne hf).trans hold, hrest⟩
  · by_cases hf : f = g
    · subst hf
      obtain ⟨l, hl, hrest⟩ := hserves hk
      exact ⟨(h.entry hk).1, l, function, hl, Array.getElem?_setIfInBounds_self_of_lt (h.lt_size hk), hrest⟩
    · obtain ⟨hpos, l, old, hl, hold, hrest⟩ := h.entry hk
      exact ⟨hpos, l, old, hl, (Array.getElem?_setIfInBounds_ne hf).trans hold, hrest⟩

end Linked

end Tables

/-! ### Names -/

theorem genericName (name : String) : name ++ "/" ++ "generic" = name ++ "/generic" := by
  rw [String.append_assoc]
  rfl

theorem toList_toString (n : Nat) : (toString n).toList = Nat.toDigits 10 n := by
  rw [Nat.toString_eq_ofList_toDigits, String.toList_ofList]

theorem ne_slash_of_mem_toDigits {n : Nat} {c : Char} (h : c ∈ Nat.toDigits 10 n) : c ≠ '/' := by
  have hdigit := Nat.isDigit_of_mem_toDigits (by decide) (by decide) h
  rintro rfl
  exact absurd hdigit (by decide)

/-- The name of an entry tells the lambda. -/
theorem eq_of_entryName {n m : NodeId} {entry entry' : String}
    (h : "lambda#" ++ toString n ++ "/" ++ entry = "lambda#" ++ toString m ++ "/" ++ entry') :
    n = m := by
  -- the number of the lambda is what stands before the first slash
  have hbefore (k : NodeId) (rest : String) :
      (Nat.toDigits 10 k ++ '/' :: rest.toList).takeWhile (· ≠ '/') = Nat.toDigits 10 k := by
    rw [List.takeWhile_append_of_pos]
    · simp
    · intro c hc
      simpa using ne_slash_of_mem_toDigits hc
  have hchars := congrArg String.toList h
  simp only [String.toList_append, List.append_assoc, List.append_cancel_left_eq,
    toList_toString] at hchars
  have hnumber : Nat.toDigits 10 n = Nat.toDigits 10 m := by
    rw [← hbefore n entry, ← hbefore m entry']
    exact congrArg (List.takeWhile (· ≠ '/')) hchars
  rw [← Nat.ofDigitChars_toDigits (b := 10) (n := n) (by decide) (by decide), hnumber,
    Nat.ofDigitChars_toDigits (by decide) (by decide)]

end HostScript
