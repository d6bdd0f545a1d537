import HostScript.Proofs.Scalar.Control

/-!
# Code for scalar statements

The code of settled scalar statements carries out what they do. The machine keeps every variable in
the slot of its declaration, and no two variables in scope share a slot.
-/

namespace HostScript

/-! ### Variables -/

theorem Variables.set_cons_self {x : String × Value} {vars : Variables} {name : String} {v : Value}
    (h : x.1 = name) : Variables.set name v (x :: vars) = (x.1, v) :: vars := by
  rw [Variables.set, if_pos h]

theorem Variables.set_cons_of_ne {x : String × Value} {vars : Variables} {name : String}
    {v : Value} (h : x.1 ≠ name) :
    Variables.set name v (x :: vars) = x :: Variables.set name v vars := by
  rw [Variables.set, if_neg h]

namespace Frame.Agrees

variable {b : Body} {f : Frame} {T : Tables} {vs : Visible} {vars : Variables} {s : Symbol}
  {storage : Storage} {content : Slot} {name : String} {v : Value}

/-- A store to the slot of one variable leaves the others as they are. -/
theorem store (h : f.Agrees T vs vars) (hT : T.Sound b) (hfew : T.localCount ≤ 65536)
    (hs : T.locals.get? s = some storage) (hne : ∀ x ∈ vs, x.2 ≠ s) : (f.store storage.slot content).Agrees T vs vars := by
  induction h with
  | nil => exact .nil
  | @cons x y vs vars hxy _ ih =>
    obtain ⟨hname, storage', content', hx, hlocal, hholds⟩ := hxy
    refine .cons ⟨hname, storage', content', hx, ?_, hholds⟩ (ih fun z hz => hne z (by simp [hz]))
    have hslot : storage.slot ≠ storage'.slot :=
      fun heq => hne x (by simp) (hT.slot_inj hfew hx hs heq.symm)
    simp [Frame.store, Array.getElem?_setIfInBounds_ne hslot, hlocal]

theorem getElem?_store {slot : Nat} (h : slot < f.locals.size) :
    (f.store slot content).locals[slot]? = some (.slot content) := by
  simp [Frame.store, h]

/-- A store to the slot of a variable sets the variable. -/
theorem set (h : f.Agrees T vs vars) (hT : T.Sound b) (hfew : T.localCount ≤ 65536)
    (hvs : (vs.map Prod.snd).Nodup)
    (hl : OrderedMap.lookup name vs = some s) (hs : T.locals.get? s = some storage)
    (hsize : storage.slot < f.locals.size) (hc : content.Holds storage.rep v) :
    (f.store storage.slot content).Agrees T vs (vars.set name v) := by
  induction h with
  | nil => simp [OrderedMap.lookup] at hl
  | @cons x y vs vars hxy hrest ih =>
    obtain ⟨hname, storage', content', hx, hlocal, hholds⟩ := hxy
    rw [List.map_cons, List.nodup_cons] at hvs
    by_cases hn : x.1 = name
    · have hxs : x.2 = s := by simpa [OrderedMap.lookup, hn] using hl
      subst hxs
      rw [Variables.set_cons_self (hname ▸ hn)]
      refine .cons ⟨hname, storage, content, hs, getElem?_store hsize, hc⟩ ?_
      exact store hrest hT hfew hs fun z hz heq => hvs.1 (heq ▸ List.mem_map_of_mem hz)
    · have hl' : OrderedMap.lookup name vs = some s := by
        simpa [OrderedMap.lookup, hn] using hl
      rw [Variables.set_cons_of_ne (hname ▸ hn)]
      refine .cons ⟨hname, storage', content', hx, ?_, hholds⟩ (ih hvs.2 hl')
      have hslot : storage.slot ≠ storage'.slot := by
        intro heq
        have hmem : s ∈ vs.map Prod.snd :=
          List.mem_map.mpr ⟨_, OrderedMap.mem_of_lookup hl', rfl⟩
        exact hvs.1 (hT.slot_inj hfew hs hx heq ▸ hmem)
      simp [Frame.store, Array.getElem?_setIfInBounds_ne hslot, hlocal]

end Frame.Agrees

/-- The frame has a slot for each variable. -/
def Frame.Fits (f : Frame) (T : Tables) : Prop :=
  f.locals.size = T.localCount ∧ T.localCount ≤ 65536

/-- The frame runs code with the constants of the tables, and has a slot for each variable. -/
structure Frame.Runs {σ : Type} (f : Frame) (m : Machine.Setting σ) (T : Tables) : Prop where
  uses : m.Uses T
  erases : f.erases = true
  fits : f.Fits T

theorem Frame.Like.runs {σ : Type} {f f' : Frame} {m : Machine.Setting σ} {T : Tables}
    (h : f'.Like f) (hr : f.Runs m T) : f'.Runs m T :=
  ⟨hr.uses, h.erases.trans hr.erases, h.size.trans hr.fits.1, hr.fits.2⟩

theorem Machine.reaches_storeLocal {σ : Type} {m : Machine.Setting σ} {f : Frame} {w : World σ}
    {ip slot : Nat} {s : Slot} {st : List Slot}
    (hop : f.function.ops[ip]? = some (.storeLocal slot)) :
    Machine.Reaches m 1 (f.at ip (s :: st)) w ((f.store slot s).at (ip + 1) st) w :=
  Machine.reaches_of_next hop rfl

/-! ### Statements one by one -/

/-- The code carries out what `exec` says, with the variables `vs` in scope before and `vs'` after
it. -/
def Follows (T : Tables) (vs vs' : Visible) (exec : Heap → Nat → Memory → Option Outcome)
    (start : Nat) (ops : List Op) : Prop :=
  ∀ (σ : Type) (m : Machine.Setting σ) (f : Frame) (w : World σ) (fuel : Nat) (mem : Memory),
    f.Runs m T → f.Agrees T vs mem.vars → f.Has start ops →
    Machine.Carries m T f w start [] (start + ops.length) vs' fuel mem.printed
      (exec w.heap fuel mem)

namespace Follows

open Outcome (ofEval andThen loop)

variable {T : Tables} {vs vs' vs'' inner : Visible} {start : Nat} {ops ops' c guard : List Op}
  {exec exec' : Heap → Nat → Memory → Option Outcome} {n : Node} {e condition : Expr} {rep : Rep}
  {eval : Heap → Variables → Except RuntimeError Value}

theorem nil : Follows T vs vs (fun _ _ mem => some (.next mem)) start [] :=
  fun _ _ f _ _ _ _ hagree _ => ⟨0, f, Frame.Like.refl f, hagree, Machine.Reaches.refl⟩

theorem seq (h : Follows T vs vs' exec start ops)
    (h' : Follows T vs' vs'' exec' (start + ops.length) ops') :
    Follows T vs vs'' (fun heap fuel mem => andThen (exec heap fuel mem) (exec' heap fuel)) start
      (ops ++ ops') := by
  intro σ m f w fuel mem hr hagree hf
  rw [List.length_append, ← Nat.add_assoc]
  refine (h σ m f w fuel mem hr hagree hf.left).andThen fun f' mem' hlike hagree' => ?_
  exact h' σ m f' w fuel mem' (hlike.runs hr) hagree' (hlike.has hf.right)

theorem store {slot : Nat} {set : Memory → Value → Memory} (hc : Computes T vs start ops rep eval)
    (hset : ∀ {f : Frame} {mem : Memory} {v : Value} {content : Slot},
      f.Fits T → f.Agrees T vs mem.vars → content.Holds rep v →
        (f.store slot content).Agrees T vs' (set mem v).vars)
    (hprint : ∀ mem v, (set mem v).printed = mem.printed) :
    Follows T vs vs'
      (fun heap _ mem => ofEval mem (eval heap mem.vars) fun v => some (.next (set mem v))) start
      (ops ++ [.storeLocal slot]) := by
  intro σ m f w fuel mem hr hagree hf
  have hval := hc σ m f (w.print mem.printed) [] mem.vars hr.uses hagree hf.left
  refine hval.carries fun v s hs => ?_
  refine ⟨1, f.store slot s, Frame.like_store slot s, hset hr.fits hagree hs, ?_⟩
  rw [hprint, List.length_append, ← Nat.add_assoc]
  exact Machine.reaches_storeLocal hf.right.head

theorem test_branches {σ : Type} {m : Machine.Setting σ} {f : Frame} {w : World σ}
    {mem : Memory} {stop : Nat} (hc : Computes T vs start c .bool (Computes.condition e.eval))
    (hr : f.Runs m T) (hagree : f.Agrees T vs mem.vars) (hf : f.Has start c)
    (hop : f.function.ops[start + c.length]? = some (.jumpIf false stop)) :
    Machine.Branches m f (w.print mem.printed) start (start + c.length + 1) stop
      (mem.test w.heap e) :=
  (hc σ m f (w.print mem.printed) [] mem.vars hr.uses hagree hf).branches hop

theorem branch {thenBranch : Stmt} (hc : Computes T vs start c .bool (Computes.condition condition.eval))
    (ht : Follows T vs vs (thenBranch.exec · · ·) (start + c.length + 1) ops) :
    Follows T vs vs ((Stmt.branch n condition thenBranch none).exec · · ·)
      start (c ++ .jumpIf false (start + c.length + 1 + ops.length) :: ops) := by
  intro σ m f w fuel mem hr hagree hf
  have hbranch : Machine.Branches m f (w.print mem.printed) start _ _ _ :=
    test_branches hc hr hagree hf.left hf.right.head
  have hend : start + (c ++ Op.jumpIf false (start + c.length + 1 + ops.length) :: ops).length =
      start + c.length + 1 + ops.length := by
    simp only [List.length_append, List.length_cons]
    omega
  rw [hend]
  beta_reduce
  rw [Stmt.exec]
  refine hbranch.carries ?_ ⟨0, f, Frame.Like.refl f, hagree, Machine.Reaches.refl⟩
  exact ht σ m f w fuel mem hr hagree hf.right.tail

theorem branchElse {thenBranch elseBranch : Stmt}
    (hc : Computes T vs start c .bool (Computes.condition condition.eval))
    (ht : Follows T vs vs (thenBranch.exec · · ·) (start + c.length + 1) ops)
    (he : Follows T vs vs (elseBranch.exec · · ·) (start + c.length + 1 + ops.length + 1) ops') :
    Follows T vs vs ((Stmt.branch n condition thenBranch (some elseBranch)).exec · · ·) start
      (c ++ .jumpIf false (start + c.length + 1 + ops.length + 1) :: ops ++
        .jump (start + c.length + 1 + ops.length + 1 + ops'.length) :: ops') := by
  intro σ m f w fuel mem hr hagree hf
  have hbranch : Machine.Branches m f (w.print mem.printed) start _ _ _ :=
    test_branches hc hr hagree hf.left.left hf.left.right.head
  have hmid : start + (c ++ Op.jumpIf false (start + c.length + 1 + ops.length + 1) :: ops).length =
      start + c.length + 1 + ops.length := by
    simp only [List.length_append, List.length_cons]
    omega
  have hjump := hf.right
  rw [hmid] at hjump
  rw [List.length_append, List.length_cons, ← Nat.add_assoc, hmid, Nat.add_comm ops'.length 1,
    ← Nat.add_assoc]
  beta_reduce
  rw [Stmt.exec]
  refine hbranch.carries ?_ (he σ m f w fuel mem hr hagree hjump.tail)
  -- the code of the first branch ends with a jump over the second one
  exact (ht σ m f w fuel mem hr hagree hf.left.right.tail).jump hjump.head

/-- The code goes on behind itself if the test holds, and else at another position. -/
def Tests (T : Tables) (vs : Visible) (test : Heap → Memory → Except RuntimeError Bool)
    (start stop : Nat) (guard : List Op) : Prop :=
  ∀ (σ : Type) (m : Machine.Setting σ) (f : Frame) (w : World σ) (mem : Memory),
    f.Runs m T → f.Agrees T vs mem.vars → f.Has start guard →
    Machine.Branches m f (w.print mem.printed) start (start + guard.length) stop (test w.heap mem)

theorem loop {test : Heap → Memory → Except RuntimeError Bool}
    (htest : Tests T vs test start (start + guard.length + ops.length + 1) guard)
    (hbody : Follows T vs vs exec (start + guard.length) ops) :
    Follows T vs vs (fun heap fuel mem => Outcome.loop (test heap) (exec heap fuel) fuel mem) start
      (guard ++ ops ++ [.jump start]) := by
  intro σ m f w fuel mem hr hagree hf
  have hback := hf.right.head
  rw [List.length_append, ← Nat.add_assoc] at hback
  rw [List.length_append, List.length_append, List.length_singleton, ← Nat.add_assoc,
    ← Nat.add_assoc]
  exact Machine.carries_loop hback
    (fun f' mem' hlike hagree' => htest σ m f' w mem' (hlike.runs hr) hagree' (hlike.has hf.left.left))
    (fun f' mem' hlike hagree' => hbody σ m f' w fuel mem' (hlike.runs hr) hagree'
      (hlike.has hf.left.right))
    fuel f mem (Nat.le_refl fuel) (Frame.Like.refl f) hagree

/-- The code of a condition with the jump behind it tests the condition. -/
theorem tests_guard {stop : Nat} (hc : Computes T vs start c .bool (Computes.condition e.eval)) :
    Tests T vs (fun heap mem => mem.test heap e) start stop (c ++ [.jumpIf false stop]) := by
  intro σ m f w mem hr hagree hf
  rw [List.length_append, List.length_singleton, ← Nat.add_assoc]
  exact test_branches hc hr hagree hf.left hf.right.head

theorem whileLoop {body : Stmt} (hc : Computes T vs start c .bool (Computes.condition condition.eval))
    (hbody : Follows T vs vs (body.exec · · ·) (start + c.length + 1) ops) :
    Follows T vs vs ((Stmt.while n condition body).exec · · ·) start
      (c ++ .jumpIf false (start + c.length + 1 + ops.length + 1) :: ops ++ [.jump start]) := by
  have hsplit : ∀ stop, c ++ Op.jumpIf false stop :: ops ++ [.jump start] =
      c ++ [.jumpIf false stop] ++ ops ++ [.jump start] := by simp
  have hlen : ∀ stop, start + (c ++ [Op.jumpIf false stop]).length = start + c.length + 1 := by
    simp [Nat.add_assoc]
  rw [hsplit]
  refine loop ?_ ((hlen _).symm ▸ hbody)
  rw [hlen]
  exact tests_guard hc

/-- The variables of a scope are forgotten at its end. -/
theorem scope (h : Follows T vs (inner ++ vs) exec start ops) :
    Follows T vs vs
      (fun heap fuel mem => andThen (exec heap fuel mem) fun mem' => some (.next (mem.leave mem')))
      start ops := by
  intro σ m f w fuel mem hr hagree hf
  refine (h σ m f w fuel mem hr hagree hf).andThen fun f' mem' _ hagree' => ?_
  refine ⟨0, f', Frame.Like.refl f', ?_, Machine.Reaches.refl⟩
  have hlen := hagree.length_eq
  have hlen' := hagree'.length_eq
  rw [List.length_append] at hlen'
  have hdrop := List.forall₂_drop (mem'.vars.length - mem.vars.length) hagree'
  have hcount : mem'.vars.length - mem.vars.length = inner.length := by omega
  rw [hcount, List.drop_left] at hdrop
  rw [Memory.leave, hcount]
  exact hdrop

theorem forLoop {init advance : Option Stmt} {condition : Option Expr} {body : Stmt} {i s : List Op}
    (hinit : Follows T vs (inner ++ vs)
      (Stmt.execOption · · init ·) start i)
    (htest : Tests T (inner ++ vs) (fun heap mem => mem.testOption heap condition) (start + i.length)
      (start + i.length + guard.length + (ops ++ s).length + 1) guard)
    (hbody : Follows T (inner ++ vs) (inner ++ vs) (body.exec · · ·)
      (start + i.length + guard.length) ops)
    (hadvance : Follows T (inner ++ vs) (inner ++ vs)
      (Stmt.execOption · · advance ·) (start + i.length + guard.length + ops.length) s) :
    Follows T vs vs ((Stmt.for n init condition advance body).exec · · ·) start
      (i ++ guard ++ ops ++ s ++ [.jump (start + i.length)]) := by
  simpa only [List.append_assoc, Stmt.exec] using (hinit.seq (loop htest (hbody.seq hadvance))).scope

theorem returnValue (hc : Computes T vs start ops .any e.eval) :
    Follows T vs vs ((Stmt.return n (some e)).exec · · ·) start (ops ++ [.ret]) := by
  intro σ m f w fuel mem hr hagree hf
  have hval := hc σ m f (w.print mem.printed) [] mem.vars hr.uses hagree hf.left
  beta_reduce
  rw [Stmt.exec]
  refine hval.carries fun v s hs => ⟨1, ?_⟩
  rw [← hs.value]
  exact Machine.ends_ret hf.right.head hr.erases

theorem returnNull : Follows T vs vs ((Stmt.return n none).exec · · ·) start [.pushNull, .ret] := by
  intro σ m f w fuel mem hr hagree hf
  beta_reduce
  rw [Stmt.exec]
  have hpush : Machine.Reaches m 1 (f.at start []) (w.print mem.printed)
      (f.at (start + 1) [.ref .null]) (w.print mem.printed) :=
    Machine.reaches_of_next hf.head rfl
  exact ⟨1 + 1, hpush.ends (Machine.ends_ret hf.tail.head hr.erases)⟩

theorem print (hc : Computes T vs start ops rep e.eval) :
    Follows T vs vs ((Stmt.print n e).exec · · ·) start (ops ++ [.print]) := by
  intro σ m f w fuel mem hr hagree hf
  have hval := hc σ m f (w.print mem.printed) [] mem.vars hr.uses hagree hf.left
  beta_reduce
  rw [Stmt.exec]
  refine hval.carries fun v s hs => ⟨1, f, Frame.Like.refl f, hagree, ?_⟩
  have hline : w.print (mem.print (v.display w.heap)).printed =
      { w.print mem.printed with
        printed := (w.print mem.printed).printed.push (s.value.display w.heap) } := by
    rw [hs.value]
    simp [World.print, Memory.print]
  rw [hline, List.length_append, ← Nat.add_assoc]
  exact Machine.reaches_of_next hf.right.head rfl

theorem discard (hc : Computes T vs start ops rep e.eval) :
    Follows T vs vs ((Stmt.expr n e).exec · · ·) start (ops ++ [.pop]) := by
  intro σ m f w fuel mem hr hagree hf
  have hval := hc σ m f (w.print mem.printed) [] mem.vars hr.uses hagree hf.left
  beta_reduce
  rw [Stmt.exec]
  refine hval.carries fun v s hs => ⟨1, f, Frame.Like.refl f, hagree, ?_⟩
  rw [List.length_append, ← Nat.add_assoc]
  exact Machine.reaches_pop hf.right.head

end Follows

/-! ### Variables in scope -/

namespace Stmt

variable {b : Body}

mutual

theorem visible_eq_append : (s : Stmt) → (vs : Visible) → ∃ inner, s.visible vs = inner ++ vs
  | .declare n name _ _, _ => ⟨[(name, .var n.id)], rfl⟩
  | .branch _ _ t e, vs => by
    obtain ⟨inner, ht⟩ := visible_eq_append t vs
    obtain ⟨more, he⟩ := visibleOption_eq_append e (t.visible vs)
    exact ⟨more ++ inner, by rw [Stmt.visible, he, ht, List.append_assoc]⟩
  | .while _ _ body, vs => visible_eq_append body vs
  | .block .., _ | .for .., _ | .return .., _ | .print .., _ | .expr .., _ | .assign .., _
  | .step .., _ => ⟨[], rfl⟩

theorem visibleOption_eq_append :
    (o : Option Stmt) → (vs : Visible) → ∃ inner, visibleOption vs o = inner ++ vs
  | none, _ => ⟨[], rfl⟩
  | some s, vs => visible_eq_append s vs

end

theorem visibleAll_eq_append (body : List Stmt) (vs : Visible) :
    ∃ inner, visibleAll vs body = inner ++ vs := by
  induction body generalizing vs with
  | nil => exact ⟨[], rfl⟩
  | cons s rest ih =>
    obtain ⟨inner, hs⟩ := visible_eq_append s vs
    obtain ⟨more, hrest⟩ := ih (s.visible vs)
    exact ⟨more ++ inner, by rw [List.append_assoc, ← hs, ← hrest]; rfl⟩

mutual

theorem Settled.nodup {vs : Visible} : (s : Stmt) → s.Settled b vs → (vs.map Prod.snd).Nodup →
    ((s.visible vs).map Prod.snd).Nodup
  | .declare n name _ _, h, hvs => by
    refine List.nodup_cons.mpr ⟨fun hmem => ?_, hvs⟩
    obtain ⟨v, hv, heq⟩ := List.mem_map.mp hmem
    exact h.1 v hv heq
  | .branch _ _ t e, h, hvs => SettledOption.nodup e h.2.2 (Settled.nodup t h.2.1 hvs)
  | .while _ _ body, h, hvs => Settled.nodup body h.2 hvs
  | .block .., _, hvs | .for .., _, hvs | .return .., _, hvs | .print .., _, hvs
  | .expr .., _, hvs | .assign .., _, hvs | .step .., _, hvs => hvs

theorem SettledOption.nodup {vs : Visible} : (o : Option Stmt) → SettledOption b vs o →
    (vs.map Prod.snd).Nodup → ((visibleOption vs o).map Prod.snd).Nodup
  | none, _, hvs => hvs
  | some s, h, hvs => Settled.nodup s h hvs

end

end Stmt

/-! ### Generation of statements -/

/-- The body of a script whose variables no lambda uses. -/
structure Body.IsRoot (b : Body) : Prop where
  ret : b.ret = .any
  captured : b.analysis.captured = []

/-- Variables have known representations, and no expression of the script has a null. -/
def Body.KindsKnown (b : Body) (ok : Expr → Bool) : Prop :=
  b.Typed ∧ ∀ e, ok e = true → e.hasNull = false

/-- What is known of the code of statements: no operation decides at run time if kinds are `known`,
and the code carries out the statements if they are `scalar`. -/
structure StmtCode (vs vs' : Visible) (known scalar : Prop)
    (exec : Heap → Nat → Memory → Option Outcome) (start : Nat) (T : Tables) (ops : List Op) :
    Prop where
  holds : T.Holds vs'
  direct : known → ops.any Op.isDynamic = false
  follows : scalar → Follows T vs vs' exec start ops

namespace Generate

open Outcome (ofEval)

variable {b : Body} {vs : Visible} {start : Nat} {t T : Tables} {ops : List Op} {s : Symbol}
  {name : String} {n : Node} {e : Expr} {ok : Expr → Bool} {given : Rep}

theorem succeeds_get :
    Succeeds b vs get fun T t => t.Sound b ∧ t.Holds vs ∧ t.Grows T :=
  fun t ht hvs => ⟨t, t, rfl, ht, .refl t, fun _ hg _ => ⟨ht, hvs, hg⟩⟩

/-- The tables with a slot for a new variable. -/
def withLocal (b : Body) (s : Symbol) (t : Tables) : Tables :=
  { t with
    locals := t.locals.insert s { slot := slotNumber t.localCount, rep := b.rep s.node, inCell := false }
    localCount := t.localCount + 1 }

theorem withLocal_get? {s' : Symbol} {storage : Storage}
    (h : (withLocal b s t).locals.get? s' = some storage) :
    (s' = s ∧ storage = { slot := slotNumber t.localCount, rep := b.rep s.node, inCell := false }) ∨
      t.locals.get? s' = some storage :=
  (NumberedMap.get?_insert_cases h).symm

theorem withLocal_sound (ht : t.Sound b) (hs : (b.rep s.node).isScalar) :
    (withLocal b s t).Sound b where
  rep h := by
    rcases withLocal_get? h with ⟨rfl, rfl⟩ | h
    · rfl
    · exact ht.rep h
  inCell h := by
    rcases withLocal_get? h with ⟨rfl, rfl⟩ | h
    · rfl
    · exact ht.inCell h
  scalar h := by
    rcases withLocal_get? h with ⟨rfl, rfl⟩ | h
    · exact hs
    · exact ht.scalar h
  slot_lt h := by
    rcases withLocal_get? h with ⟨rfl, rfl⟩ | h
    · exact Nat.lt_succ_of_le (Nat.mod_le ..)
    · exact Nat.lt_succ_of_lt (ht.slot_lt h)
  slot_inj hfew _ _ _ _ h h' heq := by
    have hnumber : slotNumber t.localCount = t.localCount := Nat.mod_eq_of_lt hfew
    rcases withLocal_get? h with ⟨rfl, rfl⟩ | hold <;>
      rcases withLocal_get? h' with ⟨rfl, rfl⟩ | hold'
    · rfl
    · exact absurd (hnumber.symm.trans heq) (Nat.ne_of_gt (ht.slot_lt hold'))
    · exact absurd (heq.trans hnumber) (Nat.ne_of_lt (ht.slot_lt hold))
    · exact ht.slot_inj (Nat.le_of_succ_le hfew) hold hold' heq

theorem succeeds_declareLocal (hb : b.IsRoot) (hs : (b.rep s.node).isScalar) :
    Succeeds b vs (declareLocal b s) fun T storage => T.locals.get? s = some storage := by
  intro t ht hvs
  rw [declareLocal, get_bind_run, hb.captured, List.contains_nil]
  cases hl : t.locals.get? s with
  | some storage => exact ⟨storage, t, rfl, ht, .refl t, fun T hT _ => hT.locals _ _ hl⟩
  | none =>
    refine ⟨_, withLocal b s t, rfl, withLocal_sound ht hs, ?_, fun T hT _ =>
      hT.locals _ _ ((NumberedMap.get?_insert ..).trans (if_pos rfl))⟩
    refine { Tables.Grows.refl t with locals := fun s' storage hs' => ?_ }
    have hne : s' ≠ s := by
      rintro rfl
      simp [hl] at hs'
    rw [withLocal, NumberedMap.get?_insert, if_neg hne, hs']

/-- A value that enters the representation of a variable in scope is stored in its slot. -/
theorem succeeds_storeSymbol (hlookup : OrderedMap.lookup name vs = some s) (hs : given.isScalar)
    (he : given.Enters (b.rep s.node)) (label : String) (span : Span) :
    Succeeds b vs (storeSymbol b s given label span) fun T store => ∀ {start ops eval known},
      Leaves T vs start given eval known ops →
        StmtCode vs vs known (vs.map Prod.snd).Nodup
          (fun heap _ mem => ofEval mem (eval heap mem.vars) fun v => some (.next (mem.assign name v)))
          start T (ops ++ store) := by
  refine Succeeds.bind succeeds_get fun t _ _ ⟨ht, hvs, _⟩ => ?_
  obtain ⟨storage, hl⟩ : ∃ storage, t.locals.get? s = some storage :=
    hvs _ (OrderedMap.mem_of_lookup hlookup)
  rw [← ht.rep hl] at he
  simp only [hl, ht.inCell hl]
  refine (succeeds_convert hs he label).bind fun conversion _ _ _ => ?_
  refine .pure fun T hT hvs' hconv ⟨_, _, hg⟩ start ops eval known hc => ?_
  have hsT := hg.locals _ _ hl
  refine ⟨hvs', fun hk => ?_, fun hnodup => ?_⟩
  · simpa [Op.isDynamic] using (hconv hc).direct hk
  · rw [← List.append_assoc]
    refine (Follows.store (hconv hc).computes (fun hfits hagree hcontent => ?_) fun _ _ => rfl)
    have hslot := hT.slot_lt hsT
    rw [← hfits.1] at hslot
    exact hagree.set hT hfits.2 hnodup hlookup hsT hslot hcontent

theorem succeeds_place (h : b.analysis.resolutions.get? n.id = some (.local s)) :
    Succeeds b vs (place b start (.ident n name)) fun _ r => r = (.local s, []) := by
  rw [place, namedPlace, h]
  exact .pure fun _ _ _ => rfl

section

variable (hok : OnlyScalar ok)

include hok

theorem succeeds_value (he : ok e = true) (h : e.Ready b vs) :
    Succeeds b vs (expr b start e) (ExprCode b vs e start (b.KindsKnown ok)) :=
  (succeeds_expr e (hok e he) h.1).mono fun _ _ hc => hc.mono fun hk => h.2 hk.1 (hk.2 e he)

/-- The code of a condition, and what comes after it. -/
theorem Succeeds.condition {α : Type} {f : List Op → Generate α} {R : Tables → α → Prop}
    (he : ok e = true) (h : e.ReadyCondition b vs)
    (hf : ∀ c, Succeeds b vs (f c) fun T r => Leaves T vs start .bool
      (Computes.condition e.eval) (b.KindsKnown ok) c → R T r) :
    Succeeds b vs (do f (← as b (← expr b start e) .bool "condition")) R :=
  (succeeds_value hok he h.1).test fun c => (hf c).mono fun _ _ hr hc =>
    hr ⟨hc.computes, fun hk => hc.direct ⟨hk, h.2 hk.1 (hk.2 e he)⟩⟩

theorem succeeds_optionalCondition {o : Option Expr} (ho : o.all ok = true)
    (hset : ∀ e ∈ o, e.ReadyCondition b vs) :
    Succeeds b vs (optionalCondition b start o) fun T c =>
      (b.KindsKnown ok → ∀ ops ∈ c, ops.any Op.isDynamic = false) ∧
      ∀ stop, Follows.Tests T vs (fun heap mem => mem.testOption heap o) start stop
        ((c.map fun c => c ++ [Op.jumpIf false stop]).getD []) := by
  cases o with
  | none =>
    exact .pure fun _ _ _ => ⟨fun _ _ h => (by cases h),
      fun _ _ _ _ _ _ _ _ _ => ⟨0, Machine.Reaches.refl⟩⟩
  | some e =>
    rw [optionalCondition]
    refine .condition hok ho (hset e rfl) fun c => .pure fun T _ _ hc => ⟨fun hk ops hops => ?_, ?_⟩
    · cases hops
      exact hc.direct hk
    · exact fun stop => Follows.tests_guard hc.computes

/-- The code of a declaration. Its variable is in scope afterwards. -/
theorem succeeds_declare (hb : b.IsRoot) {nameSpan : Span} (he : ok e = true)
    (hset : (Stmt.declare n name nameSpan (some e)).Settled b vs) :
    Succeeds b vs (stmt b start (.declare n name nameSpan (some e)))
      (StmtCode vs ((name, .var n.id) :: vs) (b.KindsKnown ok) True
        ((Stmt.declare n name nameSpan (some e)).exec · · ·) start) := by
  obtain ⟨hfresh, hscalar, e', he', hready, henters⟩ := hset
  cases he'
  rw [stmt]
  have hlocal : Succeeds b vs (declareLocal b (.var n.id)) _ := succeeds_declareLocal hb hscalar
  refine hlocal.bind fun storage T hT hstorage => ?_
  rw [if_neg (by simp [hT.inCell hstorage])]
  refine (succeeds_value hok he hready).bind fun code _ _ hcode => ?_
  have henters' : code.rep.Enters storage.rep := by rwa [hcode.rep, hT.rep hstorage]
  refine (succeeds_as hcode.scalar henters' name).bind fun ops _ _ _ => ?_
  refine .pure fun T hT hvs has hcode hstorage => ?_
  have hops := has hcode.leaves
  refine ⟨List.forall_mem_cons.mpr ⟨⟨storage, hstorage⟩, hvs⟩, fun hk => ?_, fun _ => ?_⟩
  · simp [hops.direct hk, Op.isDynamic]
  · simp only [Stmt.exec]
    refine Follows.store hops.computes (fun hfits hagree hc => ?_) fun _ _ => rfl
    have hslot := hT.slot_lt hstorage
    rw [← hfits.1] at hslot
    exact .cons ⟨rfl, storage, _, hstorage, Frame.Agrees.getElem?_store hslot, hc⟩
      (hagree.store hT hfits.2 hstorage hfresh)

theorem succeeds_assign {m : Node} {value : Expr} (he : ok value = true)
    (hset : (Stmt.assign n (.ident m name) value).Settled b vs) :
    Succeeds b vs (stmt b start (.assign n (.ident m name) value))
      (StmtCode vs vs (b.KindsKnown ok) (vs.map Prod.snd).Nodup
        ((Stmt.assign n (.ident m name) value).exec · · ·) start) := by
  obtain ⟨hready, s, hlookup, hres, henters⟩ := hset
  rw [stmt]
  refine (succeeds_place hres).bind fun r _ _ hr => ?_
  subst hr
  refine (succeeds_value hok he hready).bind fun v _ _ hv => ?_
  refine (succeeds_storeSymbol hlookup hv.scalar (hv.rep ▸ henters) "variable" m.span).bind
    fun store _ _ _ => .pure fun T _ _ hstore hv _ => ?_
  simp only [Stmt.exec]
  exact hstore hv.leaves

end

theorem binOp_arith (op : StepOp) : op.arith.binOp = op.binOp := by
  cases op <;> rfl

theorem succeeds_step {m : Node} {op : StepOp} (hset : (Stmt.step n (.ident m name) op).Settled b vs) :
    Succeeds b vs (stmt b start (.step n (.ident m name) op))
      (StmtCode vs vs (b.KindsKnown ok) (vs.map Prod.snd).Nodup
        ((Stmt.step n (.ident m name) op).exec · · ·) start) := by
  obtain ⟨s, hlookup, hres, henters⟩ := hset
  rw [stmt]
  refine (succeeds_place hres).bind fun r _ _ hr => ?_
  subst hr
  refine (succeeds_loadSymbol hlookup m.span).bind fun current _ _ hcurrent => ?_
  have hrep := hcurrent.1
  refine (succeeds_pushNumber 1.0).bind fun one _ _ _ => ?_
  have hstep : (arithOp op.arith current.rep .num).2 = Body.stepRep (b.rep s.node) := by
    rw [← hrep]
    simp only [arithOp, Body.stepRep]
    by_cases hnum : current.rep = .num <;> simp [hnum]
  have hscalar : (arithOp op.arith current.rep .num).2.isScalar := by
    unfold arithOp
    split <;> rfl
  show Succeeds b vs (do
    let store ← storeSymbol b s (arithOp op.arith current.rep .num).2 "variable" m.span
    return current.ops ++ [one, (arithOp op.arith current.rep .num).1] ++ store) _
  refine (succeeds_storeSymbol hlookup hscalar (hstep ▸ henters) "variable" m.span).bind
    fun store _ _ _ => .pure fun T _ _ hstore hone hcode _ => ?_
  have hload := hcode.2.2
  have hcomp : Leaves T vs start (arithOp op.arith current.rep .num).2
      (fun heap vars => Operator.arith heap op.binOp (vars.get name) (.number 1.0)) (b.KindsKnown ok)
      (current.ops ++ [one] ++ [(arithOp op.arith current.rep .num).1]) := by
    rw [← binOp_arith op]
    refine ⟨Computes.operate (fun heap => Operator.arith heap op.arith.binOp)
      (hload _ True).computes (hone _ True).computes
      fun m w sa sb a b ha hb => Machine.performs_arithOp op.arith ha.carries hb.carries, fun hk => ?_⟩
    -- a variable of a known kind takes what a step leaves only if it is a number
    have hnum : current.rep = .num := by
      rcases henters with hsame | hany
      · rw [Body.stepRep] at hsame
        split at hsame
        next hnum => exact hrep.trans hnum
        next => exact absurd hsame.symm (hk.1 _ _ hres)
      · exact absurd hany (hk.1 _ _ hres)
    have harith : (arithOp op.arith current.rep .num).1.isDynamic = false := by
      rw [hnum]
      rfl
    rw [List.any_append, List.any_append, (hload start _).direct hk, (hone start _).direct hk]
    simp [harith]
  have hsplit : current.ops ++ [one, (arithOp op.arith current.rep .num).1] ++ store =
      current.ops ++ [one] ++ [(arithOp op.arith current.rep .num).1] ++ store := by simp
  simp only [Stmt.exec, hsplit]
  exact hstore hcomp

/-- Where declarations may not stand, what is in scope stays. -/
theorem inner_follows {vs' : Visible} {known scalar : Prop}
    {exec : Heap → Nat → Memory → Option Outcome} (h : StmtCode vs vs' known scalar exec start T ops)
    (hvs : vs' = vs) (hs : scalar) : Follows T vs vs exec start ops := by
  subst hvs
  exact h.follows hs

mutual

/-- Statements are generated one after the other, each where the variables before it are in
scope. -/
theorem succeeds_stmt (hok : OnlyScalar ok) (hb : b.IsRoot) :
    ∀ (s : Stmt) {vs : Visible} {start : Nat}, s.isPlain ok = true → s.Settled b vs →
      Succeeds b vs (stmt b start s) (StmtCode vs (s.visible vs) (b.KindsKnown ok)
        ((∃ declares, s.isScalar declares = true) ∧ (vs.map Prod.snd).Nodup)
        (s.exec · · ·) start)
  | .block _ body, vs, _, hs, hset => by
    rw [stmt]
    refine (succeeds_stmts hok hb body hs hset).frame.mono fun T ops ⟨hvs, h⟩ => ?_
    refine ⟨hvs, h.direct, fun ⟨⟨_, hscalar⟩, hnodup⟩ => ?_⟩
    obtain ⟨inner, hinner⟩ := Stmt.visibleAll_eq_append body vs
    exact Follows.scope (hinner ▸ h.follows ⟨hscalar, hnodup⟩)
  | .declare _ _ _ (some _), _, _, hs, hset =>
    (succeeds_declare hok hb hs hset).mono fun _ _ h => ⟨h.holds, h.direct, fun _ => h.follows trivial⟩
  | .branch _ condition thenBranch none, vs, _, hs, hset => by
    simp only [Stmt.isPlain, Bool.and_eq_true] at hs
    rw [stmt]
    refine .condition hok hs.1.1 hset.1 fun c => ?_
    refine (succeeds_stmt hok hb thenBranch hs.1.2 hset.2.1).bind fun ops _ _ _ => ?_
    refine .pure fun T _ _ ht hc => ⟨ht.holds, fun hk => ?_, fun ⟨⟨_, hscalar⟩, hvs⟩ => ?_⟩
    · simp [hc.direct hk, ht.direct hk, Op.isDynamic]
    · simp only [Stmt.isScalar, Bool.and_eq_true] at hscalar
      have hthen := Stmt.visible_of_isScalar vs _ hscalar.1.2
      rw [Stmt.visible, Stmt.visibleOption, hthen]
      exact .branch hc.computes (inner_follows ht hthen ⟨⟨_, hscalar.1.2⟩, hvs⟩)
  | .branch _ condition thenBranch (some elseBranch), vs, _, hs, hset => by
    simp only [Stmt.isPlain, Stmt.isPlainOption, Bool.and_eq_true] at hs
    rw [stmt]
    refine .condition hok hs.1.1 hset.1 fun c => ?_
    refine (succeeds_stmt hok hb thenBranch hs.1.2 hset.2.1).andThen (fun _ _ h _ => h.holds)
      fun ops _ _ _ => ?_
    refine (succeeds_stmt hok hb elseBranch hs.2 hset.2.2).bind fun ops' _ _ _ => ?_
    refine .pure fun T _ _ he ht hc => ⟨he.holds, fun hk => ?_, fun ⟨⟨_, hscalar⟩, hvs⟩ => ?_⟩
    · simp [hc.direct hk, ht.direct hk, he.direct hk, Op.isDynamic]
    · simp only [Stmt.isScalar, Stmt.isScalarOption, Bool.and_eq_true] at hscalar
      have hthen := Stmt.visible_of_isScalar vs _ hscalar.1.2
      have helse := Stmt.visible_of_isScalar vs _ hscalar.2
      rw [hthen] at he
      rw [Stmt.visible, Stmt.visibleOption, hthen, helse]
      exact .branchElse hc.computes (inner_follows ht hthen ⟨⟨_, hscalar.1.2⟩, hvs⟩)
        (inner_follows he helse ⟨⟨_, hscalar.2⟩, hvs⟩)
  | .while _ condition body, vs, _, hs, hset => by
    simp only [Stmt.isPlain, Bool.and_eq_true] at hs
    rw [stmt]
    refine .condition hok hs.1 hset.1 fun c => ?_
    refine (succeeds_stmt hok hb body hs.2 hset.2).bind fun ops _ _ _ => ?_
    refine .pure fun T _ _ hbody hc => ⟨hbody.holds, fun hk => ?_, fun ⟨⟨_, hscalar⟩, hvs⟩ => ?_⟩
    · simp [hc.direct hk, hbody.direct hk, Op.isDynamic]
    · simp only [Stmt.isScalar, Bool.and_eq_true] at hscalar
      have hinside := Stmt.visible_of_isScalar vs _ hscalar.2
      rw [Stmt.visible, hinside]
      exact .whileLoop hc.computes (inner_follows hbody hinside ⟨⟨_, hscalar.2⟩, hvs⟩)
  | .for n init condition advance body, vs, start, hs, hset => by
    simp only [Stmt.isPlain, Bool.and_eq_true] at hs
    obtain ⟨⟨⟨hsi, hsc⟩, hsa⟩, hsb⟩ := hs
    obtain ⟨hseti, hsetc, hsetb, hseta⟩ := hset
    have hnodup := Stmt.SettledOption.nodup init hseti
    obtain ⟨inner, hinner⟩ := Stmt.visibleOption_eq_append init vs
    rw [hinner] at hsetc hsetb hseta hnodup
    have hall : Succeeds b vs (stmt b start (.for n init condition advance body)) fun T ops =>
        (b.KindsKnown ok → ops.any Op.isDynamic = false) ∧
        ((∃ declares, (Stmt.for n init condition advance body).isScalar declares = true) ∧
          (vs.map Prod.snd).Nodup → Follows T vs vs
            ((Stmt.for n init condition advance body).exec · · ·) start ops) := by
      rw [stmt]
      refine (succeeds_optionalStmt hok hb init hsi hseti).andThen (fun _ _ h _ => hinner ▸ h.holds)
        fun i _ _ _ => ?_
      refine (succeeds_optionalCondition hok hsc hsetc).bind fun c _ _ _ => ?_
      refine (succeeds_stmt hok hb body hsb hsetb).andThen (fun _ _ h _ => h.holds)
        fun ops _ _ _ => ?_
      refine (succeeds_optionalStmt hok hb advance hsa hseta).bind fun s _ _ _ => ?_
      refine .pure fun T _ _ ha hbody hc hi => ⟨fun hk => ?_, fun ⟨⟨_, hscalar⟩, hvs⟩ => ?_⟩
      · have hguard := hc.1 hk
        cases c with
        | none => simp [hi.direct hk, hbody.direct hk, ha.direct hk, Op.isDynamic]
        | some c => simp [hi.direct hk, hbody.direct hk, ha.direct hk, hguard c rfl, Op.isDynamic]
      · simp only [Stmt.isScalar, Bool.and_eq_true] at hscalar
        obtain ⟨⟨⟨hi', -⟩, ha'⟩, hb'⟩ := hscalar
        have hvs' := hnodup hvs
        have hinside := Stmt.visible_of_isScalar (inner ++ vs) _ hb'
        rw [hinside] at ha
        have hadvance := inner_follows ha (Stmt.visibleOption_of_isScalar _ _ ha') ⟨⟨_, ha'⟩, hvs'⟩
        have hbody' := inner_follows hbody hinside ⟨⟨_, hb'⟩, hvs'⟩
        have hinit := hi.follows ⟨⟨_, hi'⟩, hvs⟩
        rw [hinner] at hinit
        have hlen : ∀ stop, (c.map fun c => c.length + 1).getD 0 =
            ((c.map fun c => c ++ [Op.jumpIf false stop]).getD []).length := by
          intro stop
          cases c <;> simp
        have htest := hc.2
          (start + i.length + (c.map fun c => c.length + 1).getD 0 + ops.length + s.length + 1)
        rw [hlen (start + i.length + (c.map fun c => c.length + 1).getD 0 + ops.length + s.length + 1)]
          at hadvance hbody'
        refine Follows.forLoop hinit ?_ hbody' hadvance
        rw [← hlen, List.length_append, ← Nat.add_assoc]
        exact htest
    exact hall.frame.mono fun T ops h => ⟨h.1, h.2.1, h.2.2⟩
  | .return _ (some e), _, _, hs, hset => by
    rw [stmt]
    refine (succeeds_value hok hs (hset e rfl)).bind fun code _ _ hcode => ?_
    refine (succeeds_as hcode.scalar (.inr hb.ret) _).bind fun ops _ _ _ => ?_
    refine .pure fun T _ hvs has hcode => ⟨hvs, fun hk => ?_, fun _ => ?_⟩
    · simp [(has hcode.leaves).direct hk, Op.isDynamic]
    · exact .returnValue (hb.ret ▸ (has hcode.leaves).computes)
  | .return _ none, _, _, _, _ => by
    rw [stmt, hb.ret]
    exact .pure fun _ _ hvs => ⟨hvs, fun _ => rfl, fun _ => .returnNull⟩
  | .print _ e, _, _, hs, hset => by
    rw [stmt]
    refine (succeeds_value hok hs hset).bind fun code _ _ _ => .pure fun T _ hvs hcode => ?_
    exact ⟨hvs, fun hk => by simp [hcode.leaves.direct hk, Op.isDynamic],
      fun _ => .print hcode.leaves.computes⟩
  | .expr _ e, _, _, hs, hset => by
    rw [stmt]
    refine (succeeds_value hok hs hset).bind fun code _ _ _ => .pure fun T _ hvs hcode => ?_
    exact ⟨hvs, fun hk => by simp [hcode.leaves.direct hk, Op.isDynamic],
      fun _ => .discard hcode.leaves.computes⟩
  | .assign _ (.ident ..) _, _, _, hs, hset =>
    (succeeds_assign hok hs hset).mono fun _ _ h => ⟨h.holds, h.direct, fun hs => h.follows hs.2⟩
  | .step _ (.ident ..) _, _, _, _, hset =>
    (succeeds_step hset).mono fun _ _ h => ⟨h.holds, h.direct, fun hs => h.follows hs.2⟩

theorem succeeds_stmts (hok : OnlyScalar ok) (hb : b.IsRoot) :
    ∀ (body : List Stmt) {vs : Visible} {start : Nat}, Stmt.arePlain ok body = true →
      Stmt.AllSettled b vs body →
      Succeeds b vs (stmts b start body) (StmtCode vs (Stmt.visibleAll vs body) (b.KindsKnown ok)
        (Stmt.areScalar body = true ∧ (vs.map Prod.snd).Nodup)
        (Stmt.execAll · · body ·) start)
  | [], _, _, _, _ => by
    rw [stmts]
    exact .pure fun _ _ hvs => ⟨hvs, fun _ => rfl, fun _ => .nil⟩
  | s :: rest, _, _, hs, hset => by
    simp only [Stmt.arePlain, Bool.and_eq_true] at hs
    rw [stmts]
    refine (succeeds_stmt hok hb s hs.1 hset.1).andThen (fun _ _ h _ => h.holds) fun ops _ _ _ => ?_
    refine (succeeds_stmts hok hb rest hs.2 hset.2).bind fun more _ _ _ => ?_
    refine .pure fun T _ _ hmore hops => ⟨hmore.holds, fun hk => ?_, fun ⟨hscalar, hvs⟩ => ?_⟩
    · simp [hops.direct hk, hmore.direct hk]
    · rw [Stmt.areScalar, Bool.and_eq_true] at hscalar
      exact (hops.follows ⟨⟨_, hscalar.1⟩, hvs⟩).seq
        (hmore.follows ⟨hscalar.2, Stmt.Settled.nodup s hset.1 hvs⟩)

theorem succeeds_optionalStmt (hok : OnlyScalar ok) (hb : b.IsRoot) :
    ∀ (o : Option Stmt) {vs : Visible} {start : Nat}, Stmt.isPlainOption ok o = true →
      Stmt.SettledOption b vs o →
      Succeeds b vs (optionalStmt b start o) (StmtCode vs (Stmt.visibleOption vs o) (b.KindsKnown ok)
        ((∃ declares, Stmt.isScalarOption declares o = true) ∧ (vs.map Prod.snd).Nodup)
        (Stmt.execOption · · o ·) start)
  | none, _, _, _, _ => by
    rw [optionalStmt]
    exact .pure fun _ _ hvs => ⟨hvs, fun _ => rfl, fun _ => .nil⟩
  | some s, _, _, hs, hset => by
    rw [optionalStmt]
    exact succeeds_stmt hok hb s hs hset

end

end Generate

end HostScript
