import HostScript.Proofs.Analysis.Runs
import HostScript.Proofs.Code.Emission
import HostScript.Proofs.Script.Pieces

/-!
# Invariants through the trees of a script

Generating the code of an expression or a statement keeps every invariant of generation. Each part
of a tree adds its operations to those that are there. The code of an expression leaves one slot,
and the code of a statement leaves none. What analysis knows of calls and lambdas makes the numbers
of arguments fit.
-/

namespace HostScript

namespace Takes

variable {v : Bounds} {start n : Nat} {ops : List Op}

theorem beside (h : Takes v start ops 0 n) : Takes v start ops 1 (n + 1) := by
  rw [Nat.add_comm n 1]
  exact h.above 1

end Takes

namespace Generate

open Op (Extends)

variable {b : Body} {v : Bounds} {I : Invariant b v}

/-! ### Operators and literals -/

theorem fits_binaryOp (op : BinOp) (l r : Rep) :
    (binaryOp op l r).1.Plain ∧ ∀ start, Takes v start [(binaryOp op l r).1] 2 1 := by
  cases op <;> simp only [binaryOp, addOp, arithOp, equalOp, orderOp] <;> repeat' split
  all_goals exact ⟨by simp, fun _ => takes_op rfl trivial⟩

theorem fits_arithOp (op : ArithOp) (l r : Rep) :
    (arithOp op l r).1.Plain ∧ ∀ start, Takes v start [(arithOp op l r).1] 2 1 := by
  unfold arithOp
  split
  · exact ⟨by simp, fun _ => takes_op rfl trivial⟩
  · exact ⟨by simp, fun _ => takes_op rfl trivial⟩

theorem emits_literal (value : Literal) :
    Emits I [] (literal value) Fragment.ops fun f => ∀ start, Takes v start f.ops 0 1 := by
  cases value with
  | number x => exact (emits_pushNumber x).bind fun _ => .pure (.refl _) fun _ => id
  | str s => exact (emits_pushString s).bind fun _ => .pure (.refl _) fun _ => id
  | bool x | null => exact .pure (.nil (by simp)) fun _ start => takes_op rfl trivial

theorem extends_shortCircuit (start : Nat) (stop : Bool) (left right : List Op) :
    Extends (left ++ right) (shortCircuit start stop left right) :=
  ((Extends.refl left).appendPlain (by simp)).append (.refl right)

/-- The left side stays where the right side does not decide. -/
theorem takes_shortCircuit {start : Nat} (stop : Bool) {left right : List Op}
    (hleft : Takes v start left 0 1) (hright : Takes v (start + left.length + 3) right 0 1) :
    Takes v start (shortCircuit start stop left right) 0 1 := by
  have hdup : Takes v start (left ++ [.dup]) 0 2 := hleft.snoc rfl trivial
  have hlen : (left ++ [Op.dup]).length = left.length + 1 := List.length_append
  intro d
  have hpop : Checked v (start + (left ++ [Op.dup]).length + 1) (.pop :: right) (d + 1) (d + 1) := by
    have hrest : Takes v (start + (left ++ [Op.dup]).length + 1) (.pop :: right) 1 1 := by
      refine .cons rfl trivial ?_
      rw [hlen]
      exact hright
    exact hrest d
  have hall := (hdup d).append (hpop.skip stop)
  have htarget : start + (left ++ [Op.dup]).length + 1 + (Op.pop :: right).length =
      start + left.length + 3 + right.length := by
    rw [hlen, List.length_cons]
    omega
  rw [htarget, List.append_assoc] at hall
  rw [shortCircuit, List.append_assoc]
  exact hall

theorem emits_ident (node : Node) :
    Emits I [] (ident b node) Fragment.ops fun f => ∀ start, Takes v start f.ops 0 1 := by
  unfold ident
  split
  next symbol _ => exact emits_loadSymbol symbol node.span
  next m hm =>
    refine (emits_hostMember (.inr ⟨node.id, hm⟩)).bind fun value => ?_
    refine .pure (.cons rfl) fun _ hvalue start => ?_
    exact .cons rfl trivial (hvalue _)
  next => exact .fail

theorem emits_closure {n : Node} {params : List Param} {body : LambdaBody}
    (h : I.strict → b.Knows (.lambda n params body)) :
    Emits I [] (closure b n params.length) Fragment.ops fun f => ∀ start, Takes v start f.ops 0 1 := by
  have htemplate : Emits I [] (template b n params.length (b.analysis.arena.resolve (b.shape n.id)))
      (fun _ => []) fun k => (Op.makeClosure k).InRange v :=
    fun _ _ _ _ ht hrun => I.templates ht h hrun
  exact htemplate.bind fun _ => .pure (.nil (by simp)) fun _ hk start => takes_op rfl hk

/-! ### Calls -/

/-- The entry that a call names is there, and takes as many arguments as the call has. -/
def EntryCall.Fits (I : Invariant b v) (args : Nat) (call : EntryCall) : Prop :=
  (b.analysis.arena.signature? call.lambda call.signature).isSome ∧
    (I.strict → (∃ l, b.analysis.arena.get call.lambda = .lambda l ∧ l.paramCount = args) ∧
      ∀ rep ∈ call.params, b.layouts.Holds rep)

theorem reads_entryCall? {call : Node} {callee : Expr} {args : List Expr}
    (h : I.strict → b.Knows (.call call callee args)) (node : NodeId) :
    Reads (entryCall? b call node) fun _ known =>
      ∀ found ∈ known, EntryCall.Fits I args.length found := by
  unfold entryCall?
  dsimp only
  split
  next method k hget =>
    split
    · refine (reads_entryFrame _ _ _).bind fun frame => .pure fun _ hframe found hfound => ?_
      cases hfound
      obtain ⟨l, signature, hl, hsig, -, hreps⟩ := hframe
      refine ⟨?_, fun hs => ⟨?_, fun rep hrep => ?_⟩⟩
      · rw [Arena.signature?, hl]
        exact Option.isSome_of_eq_some hsig
      · obtain ⟨l', hl', hcount⟩ := (h hs).1 method k hget
        exact ⟨l', Analysis.lambda?_eq_some.mp hl', hcount⟩
      · obtain ⟨shape, rfl⟩ := hreps rep hrep
        exact (I.suits hs).closed.rep _ _
    · exact .pure fun _ found hfound => nomatch hfound
  next => exact .pure fun _ found hfound => nomatch hfound

/-- Converting an argument adds to its code. An argument that leaves one slot is converted in its
place. -/
def Converts (I : Invariant b v) (convert : ConvertArg) : Prop :=
  ∀ i arg, Emits I arg.ops (convert i arg) id fun ops =>
    ∀ {start}, Takes v start arg.ops 0 1 → Takes v start ops 0 1

theorem converts_args (rep : Rep) (label : String) (hrep : I.strict → b.layouts.Holds rep) :
    Converts I (convertArgs b rep label) :=
  fun _ arg => (emits_as arg rep label).mono fun _ h hs => h (hrep hs)

theorem converts_hostArgs (m : Member) : Converts I (convertHostArgs b m) := by
  intro i arg
  unfold convertHostArgs
  split
  next ty _ =>
    refine ((emits_hostValue ty arg.rep _).frame arg.ops).bind fun _ => .pure (.refl _) ?_
    exact fun _ hops _ harg => harg.append (hops _)
  next => exact (emits_as arg .any "argument").mono fun _ h _ => h trivial

theorem converts_callArgs {known : Option EntryCall} {args : Nat}
    (h : ∀ found ∈ known, EntryCall.Fits I args found) : Converts I (convertCallArgs b known) := by
  cases known with
  | some call =>
    intro i arg
    refine (emits_as arg _ "argument").mono fun _ hops hs => hops ?_
    cases hi : call.params[i]? with
    | some rep => exact ((h call rfl).2 hs).2 rep (List.mem_of_getElem? hi)
    | none => trivial
  | none => exact converts_args .any "argument" fun _ => trivial

theorem emits_hostReceiver (m : Member) (given : Rep) :
    Emits I [] (hostReceiver b m given) id fun ops => ∀ start, Takes v start ops 1 1 := by
  unfold hostReceiver
  split
  · exact emits_hostValue _ given "receiver"
  · exact (emits_convert given .any "receiver").mono fun _ h _ => h trivial
  · exact .pure (.refl []) fun _ start => .nil v start 1

theorem emits_callHostMember {m : Member} (args : Nat) (h : b.Offers m .call) :
    Emits I [] (callHostMember m args) Fragment.ops fun f =>
      ∀ start, Takes v start f.ops (args + 1) 1 := by
  refine (emits_member h (fun i =>
    if m.isExtension then .callStatic i (args + 1) else .callHost i args) ?_).bind fun _ =>
      .pure (.refl _) fun _ hi start => ?_
  · intro i
    split <;> rfl
  · dsimp only
    split
    · exact takes_op rfl hi
    · exact takes_op rfl hi

theorem offers_inputMethod? {callee : Expr} {m : Member} (h : inputMethod? b callee = some m) :
    b.Offers m .call := by
  unfold inputMethod? at h
  split at h
  next n _ =>
    split at h
    next m' hm =>
      split at h
      next hcallable =>
        cases h
        exact ⟨.inr ⟨n.id, hm⟩, fun _ => hcallable⟩
      next => cases h
    next => cases h
  next => cases h

theorem offers_memberCallee {object : NodeId} {memberName : String} {m : Member}
    (h : memberCallee b object memberName = .host m) : b.Offers m .call := by
  have htarget := reachable_target b object memberName
  unfold memberCallee at h
  split at h
  next m' hm =>
    rw [hm] at htarget
    split at h
    next hcallable =>
      cases h
      exact ⟨htarget, fun _ => hcallable⟩
    next => cases h
  next m' hm =>
    rw [hm] at htarget
    split at h
    next hcallable =>
      cases h
      exact ⟨htarget.1, fun _ => hcallable⟩
    next => cases h
  all_goals cases h

theorem emits_callValue {args : Nat} {known : Option EntryCall}
    (h : ∀ found ∈ known, EntryCall.Fits I args found) :
    Emits I [] (callValue b args known) Fragment.ops fun f =>
      ∀ start, Takes v start f.ops (args + 1) 1 := by
  cases known with
  | some call =>
    have hsignature : Emits I [] (signatureFunction call.lambda call.signature args)
        (fun function => [.callEntry function args]) fun f => (Op.callEntry f args).InRange v := by
      intro base t function t' ht hrun
      rw [List.append_nil] at ht
      exact I.signatures ht (h call rfl).1 (fun hs => ((h call rfl).2 hs).1) hrun
    exact hsignature.bind fun _ => .pure (.refl _) fun _ hf start => takes_op rfl hf
  | none => exact .pure (.nil (by simp)) fun _ start => takes_op rfl trivial

theorem holds_calleeRep (known : Option EntryCall) : b.layouts.Holds (calleeRep known) := by
  cases known <;> trivial

section

variable {args : List Expr} {n : Node} (hargs : ∀ {convert}, Converts I convert → ∀ start,
  Emits I [] (arguments b convert 0 start args) id fun ops => Takes v start ops 0 args.length)

include hargs

/-- A call of a member of an object for which code can be generated. -/
theorem emits_memberCall {object : Expr} {c : Node} {memberName : String} {span : Span}
    (h : I.strict → b.Knows (.call n (.member c object memberName span) args))
    (start : Nat)
    (hobject : ∀ start, Emits I [] (expr b start object) Fragment.ops fun f =>
      Takes v start f.ops 0 1) :
    Emits I [] (expr b start (.call n (.member c object memberName span) args)) Fragment.ops fun f =>
      Takes v start f.ops 0 1 := by
  have hrep (hs : I.strict) := (I.suits hs).holds_rep object.id
  rw [expr]
  split
  next m hm =>
    have hcall : b.Offers m .call := offers_memberCallee hm
    have hrest (receiver : List Op) : Emits I receiver (do
        let passed ← arguments b (convertHostArgs b m) 0 (start + receiver.length) args
        let call ← callHostMember m args.length
        return (⟨receiver ++ passed ++ call.ops, call.rep⟩ : Fragment)) Fragment.ops fun f =>
          Takes v start receiver 0 1 → Takes v start f.ops 0 1 := by
      refine ((hargs (converts_hostArgs m) _).frame receiver).bind fun passed => ?_
      refine ((emits_callHostMember args.length hcall).frame (receiver ++ passed)).bind fun _ => ?_
      refine .pure (.refl _) fun _ hcall hpassed hreceiver => ?_
      exact (hreceiver.append hpassed.beside).append (hcall _)
    refine (hobject start).bind fun o => ?_
    dsimp only
    split
    · refine ((emits_hostReceiver m o.rep).frame o.ops).bind fun receiver => ?_
      exact (hrest (o.ops ++ receiver)).mono fun f hf _ hreceiver ho => hf (ho.append (hreceiver _))
    · refine (emits_as o _ "receiver").bind fun receiver => ?_
      exact (hrest receiver).mono fun f hf hs hreceiver ho => hf (hreceiver (hrep hs) ho)
  next hm =>
    have hone (hs : I.strict) : args.length = 1 := by
      refine (h hs).2 c object memberName span rfl ?_
      unfold memberCallee at hm
      split at hm
      · split at hm <;> cases hm
      · split at hm <;> cases hm
      next htarget => exact htarget
      all_goals cases hm
    refine (hobject start).bind fun o => (emits_as o _ "array").bind fun array => ?_
    refine ((hargs (converts_args _ "element" fun hs => holds_elementRep (I.suits hs) _) _).frame
      array).bind fun passed => ?_
    refine .pure (.snoc rfl) fun hs hpassed harray ho => ?_
    have hboth := (harray (hrep hs) ho).append hpassed.beside
    rw [hone hs] at hboth
    exact hboth.snoc rfl trivial
  next =>
    refine (hobject start).bind fun o => (emits_as o .any "receiver").bind fun receiver => ?_
    refine ((hargs (converts_args .any "argument" fun _ => trivial) _).frame receiver).bind ?_
    intro passed
    refine ((emits_name memberName).frame (receiver ++ passed)).bind fun _ => .pure ?_ ?_
    · rw [List.append_nil]
      exact .snoc rfl
    · exact fun _ hname hpassed hreceiver ho =>
        ((hreceiver trivial ho).append hpassed.beside).snoc rfl hname
  next =>
    refine .bindReads (reads_entryCall? h c.id) fun known hknown => ?_
    refine .bindReads (reads_checkMember _ memberName c.span) fun _ _ => ?_
    refine (hobject start).bind fun o => ?_
    refine (emits_memberValue object.id o memberName (reachable_target b _ _)).bind fun value => ?_
    refine (emits_as value _ "callee").bind fun f => ?_
    refine ((hargs (converts_callArgs hknown) _).frame f).bind fun passed => ?_
    refine ((emits_callValue hknown).frame (f ++ passed)).bind fun call => .pure (.refl _) ?_
    intro _ hcall hpassed hf hvalue ho
    exact ((hf (holds_calleeRep known) (hvalue ho)).append hpassed.beside).append (hcall _)

theorem emits_call {callee : Expr} (h : I.strict → b.Knows (.call n callee args)) (start : Nat)
    (hcallee : ∀ start, Emits I [] (expr b start callee) Fragment.ops fun f =>
      Takes v start f.ops 0 1)
    (hother : ∀ c object memberName span, callee ≠ .member c object memberName span) :
    Emits I [] (expr b start (.call n callee args)) Fragment.ops fun f => Takes v start f.ops 0 1 := by
  rw [expr]
  · split
    next m hm =>
      have hcall : b.Offers m .call := offers_inputMethod? hm
      refine (emits_hostReceiver m _).bind fun receiver => ?_
      refine ((hargs (converts_hostArgs m) _).frame receiver).bind fun passed => ?_
      refine ((emits_callHostMember args.length hcall).frame (receiver ++ passed)).bind fun call => ?_
      refine .pure (.cons rfl) ?_
      intro _ hcall hpassed hreceiver
      have hinput : Takes v start (.loadInput :: receiver) 0 1 := .cons rfl trivial (hreceiver _)
      have hlen : start + (Op.loadInput :: receiver).length = start + 1 + receiver.length := by
        rw [List.length_cons]
        omega
      exact (hinput.append (hlen ▸ hpassed).beside).append (hcall _)
    next =>
      refine .bindReads (reads_entryCall? h callee.id) fun known hknown => ?_
      refine (hcallee start).bind fun f => (emits_as f _ "callee").bind fun ops => ?_
      refine ((hargs (converts_callArgs hknown) _).frame ops).bind fun passed => ?_
      refine ((emits_callValue hknown).frame (ops ++ passed)).bind fun call => .pure (.refl _) ?_
      intro _ hcall hpassed hops hf
      exact ((hops (holds_calleeRep known) hf).append hpassed.beside).append (hcall _)
  · exact fun c object memberName span h => hother c object memberName span h

end

/-! ### Trees -/

/-- If code is checked, analysis knows the expressions. -/
def Invariant.Knows (I : Invariant b v) (es : List Expr) : Prop :=
  ∀ e ∈ es, I.strict → b.Knows e

theorem Invariant.knows_append {xs ys : List Expr} : I.Knows (xs ++ ys) ↔ I.Knows xs ∧ I.Knows ys :=
  List.forall_mem_append

/-- The variables of the sites may be declared. -/
def Invariant.Allows (I : Invariant b v) (sites : List Site) : Prop :=
  ∀ id ∈ sites.filterMap Site.variable?, I.allows (.var id)

theorem Invariant.allows_append {xs ys : List Site} :
    I.Allows (xs ++ ys) ↔ I.Allows xs ∧ I.Allows ys := by
  rw [Allows, List.filterMap_append]
  exact List.forall_mem_append

theorem takes_concat (start k : Nat) : Takes v start (List.replicate k .concat) (k + 1) 1 := by
  induction k generalizing start with
  | zero => exact .nil v start 1
  | succ k ih =>
    have hfirst : Takes v start [.concat] 2 1 := takes_op rfl trivial
    exact (hfirst.above k).append (ih (start + 1))

mutual

theorem emits_expr : (e : Expr) → I.Knows e.valued → ∀ start,
    Emits I [] (expr b start e) Fragment.ops fun f => Takes v start f.ops 0 1
  | .literal _ value, _, start => by
    rw [expr]
    exact (emits_literal value).mono fun _ h _ => h start
  | .binary _ op left right, h, start => by
    simp only [Expr.valued, Invariant.knows_append] at h
    rw [expr]
    refine (emits_expr left h.1.1 start).bind fun l => ?_
    refine ((emits_expr right h.1.2 _).frame l.ops).bind fun r => ?_
    obtain ⟨hplain, htakes⟩ := fits_binaryOp (v := v) op l.rep r.rep
    refine .pure (.snoc hplain) fun _ hr hl => ?_
    exact (hl.append (hr.above 1)).append (htakes _)
  | .logical _ op left right, h, start => by
    simp only [Expr.valued, Invariant.knows_append] at h
    rw [expr]
    refine (emits_expr left h.1.1 start).bind fun l => (emits_as l .bool "condition").bind fun l => ?_
    refine ((emits_expr right h.1.2 _).frame l).bind fun r => ?_
    refine ((emits_as r .bool "condition").frameOn l).bind fun r => ?_
    refine .pure (extends_shortCircuit start _ l r) fun _ hright hr hleft hl => ?_
    exact takes_shortCircuit _ (hleft trivial hl) (hright trivial hr)
  | .unary _ .not operand, h, start => by
    simp only [Expr.valued, Invariant.knows_append] at h
    rw [expr]
    refine (emits_expr operand h.1 start).bind fun o => (emits_as o .bool "condition").bind fun o => ?_
    refine .pure (.snoc rfl) fun _ hops ho => ?_
    exact (hops trivial ho).snoc rfl trivial
  | .unary _ .neg operand, h, start => by
    simp only [Expr.valued, Invariant.knows_append] at h
    rw [expr]
    refine (emits_expr operand h.1 start).bind fun o => ?_
    split
    · exact .pure (.snoc rfl) fun _ ho => ho.snoc rfl trivial
    · exact .pure (.snoc rfl) fun _ ho => ho.snoc rfl trivial
  | .grouping _ inner, h, start => by
    simp only [Expr.valued, Invariant.knows_append] at h
    rw [expr]
    exact emits_expr inner h.1 start
  | .ident n _, _, start => by
    rw [expr]
    exact (emits_ident n).mono fun _ h _ => h start
  | .member n object memberName _, h, start => by
    simp only [Expr.valued, Invariant.knows_append] at h
    rw [expr]
    refine .bindReads (reads_checkMember _ memberName n.span) fun _ _ => ?_
    refine (emits_expr object h.1 start).bind fun o => ?_
    have htarget := reachable_target b object.id memberName
    exact (emits_memberValue object.id o memberName htarget).mono fun _ hvalue _ ho => hvalue ho
  | .index _ object key, h, start => by
    simp only [Expr.valued, Invariant.knows_append] at h
    rw [expr]
    refine .bindReads (reads_indexTarget object.id key.span) fun how hhow => ?_
    refine (emits_expr object h.1.1 start).bind fun o => (emits_as o _ _).bind fun ops => ?_
    refine ((emits_expr key h.1.2 _).frame ops).bind fun k => ?_
    refine ((emits_indexKey k how).frameOn ops).bind fun keyOps => ?_
    refine ((emits_indexValue hhow.1).frame (ops ++ keyOps)).bind fun value => .pure (.refl _) ?_
    intro hs hvalue hkey hk hops ho
    exact ((hops (hhow.2 (I.suits hs).closed) ho).append ((hkey hk).above 1)).append (hvalue _)
  | .call n callee args, h, start => by
    have hcall : I.strict → b.Knows (.call n callee args) := by
      refine h _ ?_
      cases callee <;> simp [Expr.valued]
    have hvalued : I.Knows (Expr.valuedOfAll args) := by
      intro x hx
      refine h x ?_
      cases callee <;> simp [Expr.valued, hx]
    have hargs {convert : ConvertArg} (hc : Converts I convert) := emits_arguments hc args hvalued 0
    have hcallee := emits_expr callee
    cases callee with
    | member c object memberName span =>
      refine emits_memberCall hargs hcall start (emits_expr object fun x hx => h x ?_)
      simp [Expr.valued, hx]
    | _ =>
      refine emits_call hargs hcall start (hcallee fun x hx => h x ?_) fun _ _ _ _ h => nomatch h
      rw [Expr.valued]
      · exact List.mem_append_left _ (List.mem_append_left _ hx)
      · exact fun _ _ _ _ h => nomatch h
  | .lambda n params body, h, start => by
    rw [expr]
    have hknown : I.strict → b.Knows (.lambda n params body) := h _ (by simp [Expr.valued])
    exact (emits_closure hknown).mono fun _ hf _ => hf start
  | .object n props, h, start => by
    simp only [Expr.valued, Invariant.knows_append] at h
    rw [expr]
    split
    next layout heq =>
      refine (emits_properties layout props h.1 _).bind fun fields => ?_
      refine .pure (.cons rfl) fun hs hfields => ?_
      have hrep := (I.suits hs).holds_rep n.id
      rw [heq] at hrep
      exact .cons rfl ((I.suits hs).inRange hrep) hfields
    next => exact .fail
  | .array n items, h, start => by
    simp only [Expr.valued, Invariant.knows_append] at h
    rw [expr]
    split
    next layout heq =>
      have hconverts : Converts I (convertArgs b (b.layouts.element layout) "element") :=
        converts_args _ "element" fun hs => (I.suits hs).closed.element layout
      refine (emits_arguments hconverts items h.1 0 start).bind fun ops => ?_
      refine .pure (.snoc rfl) fun hs hops => ?_
      have hrep := (I.suits hs).holds_rep n.id
      rw [heq] at hrep
      exact hops.snoc rfl ((I.suits hs).inRange hrep)
    next => exact .fail
  | .interpolated _ [], _, start => by
    rw [expr]
    exact (emits_pushString "").bind fun _ => .pure (.refl _) fun _ h => h start
  | .interpolated _ (p :: ps), h, start => by
    simp only [Expr.valued, Invariant.knows_append] at h
    rw [expr]
    · refine (emits_parts (p :: ps) h.1 start).bind fun ops => .pure ?_ fun _ hops => ?_
      · refine (Extends.refl ops).appendPlain fun op hop => ?_
        rw [List.eq_of_mem_replicate hop]
        simp
      · exact hops.append (takes_concat _ _)
    · exact fun h => nomatch h

theorem emits_arguments {convert : ConvertArg} (hc : Converts I convert) : (es : List Expr) →
    I.Knows (Expr.valuedOfAll es) → ∀ i start,
      Emits I [] (arguments b convert i start es) id fun ops => Takes v start ops 0 es.length
  | [], _, i, start => by
    rw [arguments]
    exact .pure (.refl []) fun _ => .nil v start 0
  | e :: rest, h, i, start => by
    simp only [Expr.valuedOfAll, Invariant.knows_append] at h
    rw [arguments]
    refine (emits_expr e h.1 start).bind fun f => (hc i f).bind fun first => ?_
    refine ((emits_arguments hc rest h.2 _ _).frame first).bind fun more => .pure (.refl _) ?_
    exact fun _ hmore hfirst hf => (hfirst hf).append hmore.beside

theorem emits_properties (layout : Nat) : (ps : List Property) →
    I.Knows (Property.valuedOfAll ps) → ∀ start,
      Emits I [] (properties b layout start ps) id fun ops => Takes v start ops 1 1
  | [], _, start => by
    rw [properties]
    exact .pure (.refl []) fun _ => .nil v start 1
  | .mk fieldName span value :: rest, h, start => by
    simp only [Property.valuedOfAll, Invariant.knows_append] at h
    rw [properties]
    refine .bindReads Reads.orFail fun found hfound => ?_
    refine (emits_expr value h.1 _).bind fun f => (emits_as f _ fieldName).bind fun ops => ?_
    refine ((emits_properties layout rest h.2 _).frame ops).bind fun more => .pure ?_ ?_
    · have hdup : Extends ops (.dup :: ops) := .cons rfl
      have hfirst : Extends ops (.dup :: ops ++ [.setField found.1]) := hdup.snocPlain rfl
      exact hfirst.append (.refl more)
    · intro hs hmore hops hf
      obtain ⟨hrep, hfield⟩ := (I.suits hs).field hfound
      have hset {start : Nat} : Takes v start [.setField found.1] 2 0 := takes_op rfl hfield
      have hdup : Takes v start (.dup :: ops) 1 3 := .cons rfl trivial ((hops hrep hf).above 2)
      exact (hdup.append (hset.above 1)).append hmore

theorem emits_parts : (ps : List Part) → I.Knows (Part.valuedOfAll ps) → ∀ start,
    Emits I [] (parts b start ps) id fun ops => Takes v start ops 0 ps.length
  | [], _, start => by
    rw [parts]
    exact .pure (.refl []) fun _ => .nil v start 0
  | .text s :: rest, h, start => by
    rw [parts]
    refine (emits_pushString s).bind fun op => ?_
    refine ((emits_parts rest h _).frame [op]).bind fun more => .pure (.refl _) ?_
    exact fun _ hmore hop => (hop start).append hmore.beside
  | .expr value :: rest, h, start => by
    simp only [Part.valuedOfAll, Invariant.knows_append] at h
    rw [parts]
    refine (emits_expr value h.1 start).bind fun f => ?_
    refine ((emits_parts rest h.2 _).frame f.ops).bind fun more => ?_
    have hfirst : Extends f.ops (if f.rep = .str then f.ops else f.ops ++ [.toStr]) ∧
        (Takes v start f.ops 0 1 →
          Takes v start (if f.rep = .str then f.ops else f.ops ++ [.toStr]) 0 1) := by
      split
      · exact ⟨.refl f.ops, id⟩
      · exact ⟨.snoc rfl, fun hf => hf.snoc rfl trivial⟩
    refine .pure (hfirst.1.append (.refl more)) fun _ hmore hf => ?_
    exact (hfirst.2 hf).append hmore.beside

end

/-! ### Statements -/

theorem emits_place (e : Expr) (h : I.Knows e.placed) (start : Nat) :
    Emits I [] (place b start e) Prod.snd fun r => r.1.InRange v b ∧ Takes v start r.2 0 r.1.width := by
  cases e with
  | ident n name =>
    rw [place]
    refine .bindReads (reads_namedPlace n) fun p hp => ?_
    split
    · exact .pure (.nil (by simp)) fun _ => ⟨trivial, takes_op rfl trivial⟩
    next hinput =>
      refine .pure (.refl []) fun _ => ?_
      rcases hp.2 with ⟨symbol, rfl⟩ | ⟨m, rfl⟩
      · exact ⟨trivial, .nil v start 0⟩
      · exact absurd rfl (hinput m)
  | member n object memberName span =>
    rw [place]
    refine .bindReads (reads_memberPlace object.id memberName n.span) fun p hp => ?_
    refine (emits_expr object h start).bind fun o => (emits_as o _ _).bind fun ops => ?_
    refine .pure (.refl _) fun hs hops ho => ⟨hp.2.2 v (I.suits hs), ?_⟩
    rw [hp.2.1]
    exact hops (hp.2.2 v (I.suits hs)).receiver ho
  | index n object key =>
    simp only [Expr.placed, Invariant.knows_append] at h
    rw [place]
    refine .bindReads (reads_indexTarget object.id n.span) fun how hhow => ?_
    refine (emits_expr object h.1 start).bind fun o => (emits_as o _ _).bind fun ops => ?_
    refine ((emits_expr key h.2 _).frame ops).bind fun k => ?_
    refine ((emits_indexKey k how).frameOn ops).bind fun keyOps => .pure (.refl _) ?_
    intro hs hkey hk hops ho
    obtain ⟨hwidth, hrange⟩ := fits_indexPlace (I.suits hs) how
    refine ⟨hrange, ?_⟩
    rw [hwidth]
    exact (hops (hhow.2 (I.suits hs).closed) ho).append ((hkey hk).above 1)
  | _ =>
    rw [place]
    · exact .fail
    all_goals simp

theorem gives_place (e : Expr) (start : Nat) :
    Gives (place b start e) fun r => r.1.Reachable b := by
  cases e with
  | ident n name =>
    rw [place]
    refine (reads_namedPlace n).gives.bind fun p hp => ?_
    split
    · exact .pure hp.1
    · exact .pure hp.1
  | member n object memberName span =>
    rw [place]
    refine (reads_memberPlace object.id memberName n.span).gives.bind fun p hp => ?_
    refine (Gives.trivial _).bind fun o _ => (Gives.trivial _).bind fun _ _ => ?_
    exact .pure hp.1
  | index n object key =>
    rw [place]
    refine (reads_indexTarget object.id n.span).gives.bind fun how hhow => ?_
    refine (Gives.trivial _).bind fun o _ => (Gives.trivial _).bind fun o _ => ?_
    refine (Gives.trivial _).bind fun k _ => (Gives.trivial _).bind fun k _ => ?_
    exact .pure (reachable_indexPlace hhow.1)
  | _ =>
    rw [place]
    · exact .fail
    all_goals simp

theorem plain_again (p : CodePlace) : ∀ op ∈ p.again, op.Plain := by
  cases p <;> simp [CodePlace.again]

/-- The code of an expression in the representation of a condition. -/
theorem emits_condition {α : Type} (e : Expr) (h : I.Knows e.valued) (start : Nat)
    {rest : List Op → Generate α} {post : α → List Op} {Q : α → Prop}
    (hrest : ∀ c, Emits I c (rest c) post fun r => Checked v start c 0 1 → Q r) :
    Emits I [] (do
      let c ← as b (← expr b start e) .bool "condition"
      rest c) post Q := by
  refine (emits_expr e h start).bind fun f => (emits_as f .bool "condition").bind fun c => ?_
  exact (hrest c).mono fun r hr _ hc hf => hr (hc trivial hf).checked

theorem checked_for {start : Nat} {init body step : List Op} {condition : Option (List Op)}
    (hinit : Checked v start init 0 0)
    (hcondition : ∀ c ∈ condition, Checked v (start + init.length) c 0 1)
    (hbody : Checked v (start + init.length + (condition.map fun c => c.length + 1).getD 0) body 0 0)
    (hstep : Checked v (start + init.length + (condition.map fun c => c.length + 1).getD 0 +
      body.length) step 0 0) :
    Checked v start (init ++ (condition.map fun c => c ++ [Op.jumpIf false (start + init.length +
      (condition.map fun c => c.length + 1).getD 0 + body.length + step.length + 1)]).getD [] ++
      body ++ step ++ [.jump (start + init.length)]) 0 0 := by
  have hboth := hbody.append hstep
  cases condition with
  | none =>
    have hall : Checked v start (init ++ (body ++ step ++ [.jump (start + init.length)])) 0 0 :=
      hinit.append hboth.forever
    simpa only [Option.map_none, Option.getD_none, List.append_nil, List.append_assoc] using hall
  | some c =>
    have hall := hinit.append ((hcondition c rfl).loop hboth)
    simpa only [Option.map_some, Option.getD_some, List.append_assoc, List.cons_append,
      List.nil_append, List.length_append, Nat.add_assoc] using hall

mutual

theorem emits_stmt : (s : Stmt) → I.Knows s.valued → I.Allows s.sites → ∀ start,
    Emits I [] (stmt b start s) id fun ops => Checked v start ops 0 0
  | .block _ body, h, hv, start => by
    rw [stmt]
    exact emits_stmts body h hv start
  | .declare n variableName _ init, h, hv, start => by
    rw [stmt]
    refine (emits_declareLocal (.var n.id) (hv _ (by simp [Stmt.sites, Site.variable?]))).bind fun storage => ?_
    have hmake (hslot : storage.slot < v.locals) (start : Nat) :
        Takes v start [.makeCell storage.slot] 1 0 := takes_op rfl hslot
    have hstore (hslot : storage.slot < v.locals) (start : Nat) :
        Takes v start [.storeLocal storage.slot] 1 0 := takes_op rfl hslot
    split
    · refine (emits_pushZero storage.rep).bind fun zero => ?_
      have hcell : Extends [zero] [zero, .makeCell storage.slot] :=
        .snoc rfl
      split
      next e =>
        refine ((emits_expr e h _).frame [zero]).bind fun f => ?_
        refine ((emits_as f storage.rep variableName).frameOn [zero]).bind fun ops => ?_
        refine .pure ((hcell.append (.refl ops)).snocPlain rfl) fun _ hops hf hzero hstorage => ?_
        have hmade := (hzero start).append (hmake hstorage.1 _)
        exact Takes.checked ((hmade.append (hops hstorage.2 hf)).snoc rfl hstorage.1)
      next =>
        exact .pure hcell fun _ hzero hstorage => ((hzero start).append (hmake hstorage.1 _)).checked
    · split
      next e =>
        refine (emits_expr e h start).bind fun f => ?_
        refine (emits_as f storage.rep variableName).bind fun ops => ?_
        refine .pure (.snoc rfl) fun _ hops hf hstorage => ?_
        exact ((hops hstorage.2 hf).append (hstore hstorage.1 _)).checked
      next =>
        refine (emits_pushZero storage.rep).bind fun zero => ?_
        refine .pure (.snoc rfl) fun _ hzero hstorage => ?_
        exact ((hzero start).append (hstore hstorage.1 _)).checked
  | .branch _ condition t none, h, hv, start => by
    simp only [Stmt.valued, Stmt.sites, Invariant.knows_append, Invariant.allows_append] at h hv
    rw [stmt]
    refine emits_condition condition h.1.1 start fun c => ?_
    refine ((emits_stmt t h.1.2 hv.1.2 _).frame c).bind fun ops => ?_
    refine .pure ((Extends.refl c).append (.cons rfl)) fun _ hops hc => ?_
    exact hc.append (hops.skip false)
  | .branch _ condition t (some e), h, hv, start => by
    simp only [Stmt.valued, Stmt.sites, Invariant.knows_append, Invariant.allows_append] at h hv
    rw [stmt]
    refine emits_condition condition h.1.1 start fun c => ?_
    refine ((emits_stmt t h.1.2 hv.1.2 _).frame c).bind fun thenOps => ?_
    refine ((emits_stmt e h.2 hv.2 _).frame (c ++ thenOps)).bind fun elseOps => .pure ?_ ?_
    · have hthen {target : Nat} : Extends (c ++ thenOps) (c ++ .jumpIf false target :: thenOps) :=
        (Extends.refl c).append (.cons rfl)
      exact hthen.append (.cons rfl)
    · intro _ helse hthen hc
      have hall := hc.append (hthen.choose false helse)
      rwa [← List.append_assoc] at hall
  | .while _ condition body, h, hv, start => by
    simp only [Stmt.valued, Stmt.sites, Invariant.knows_append, Invariant.allows_append] at h hv
    rw [stmt]
    refine emits_condition condition h.1 start fun c => ?_
    refine ((emits_stmt body h.2 hv.2 _).frame c).bind fun ops => .pure ?_ fun _ hops hc => hc.loop hops
    have hloop {target : Nat} : Extends (c ++ ops) (c ++ .jumpIf false target :: ops) :=
      (Extends.refl c).append (.cons rfl)
    exact hloop.snocPlain rfl
  | .for _ init condition step body, h, hv, start => by
    simp only [Stmt.valued, Stmt.sites, Invariant.knows_append, Invariant.allows_append] at h hv
    rw [stmt]
    refine (emits_optionalStmt init h.1.1.1 hv.1.1.1 start).bind fun i => ?_
    refine ((emits_optionalCondition condition h.1.1.2 _).frame i).bind fun c => ?_
    refine ((emits_stmt body h.2 hv.1.2 _).frame (i ++ c.getD [])).bind fun ops => ?_
    refine ((emits_optionalStmt step h.1.2 hv.2 _).frame (i ++ c.getD [] ++ ops)).bind fun s => ?_
    refine .pure ?_ fun _ hs hops hc hi => checked_for hi hc hops hs
    have hguard (stop : Nat) :
        Extends (c.getD []) ((c.map fun c => c ++ [Op.jumpIf false stop]).getD []) := by
      cases c with
      | none => exact .refl []
      | some c => exact .snoc rfl
    have hall (stop : Nat) :=
      (((Extends.refl i).append (hguard stop)).append (.refl ops)).append (.refl s)
    exact (hall _).snocPlain rfl
  | .return _ (some e), h, _, start => by
    rw [stmt]
    refine (emits_expr e h start).bind fun f => (emits_as f b.ret "return value").bind fun ops => ?_
    refine .pure (.snoc rfl) fun hs hops hf => ?_
    exact (hops (I.suits hs).ret hf).checked.append (.ret v _ 0)
  | .return _ none, h, _, start => by
    rw [stmt]
    refine (emits_convert .any b.ret "return value").bind fun ops => .pure ?_ fun hs hops => ?_
    · have hnull : Extends ops (.pushNull :: ops) := .cons rfl
      exact hnull.snocPlain rfl
    · have hnull : Takes v start (.pushNull :: ops) 0 1 :=
        .cons rfl trivial (hops (I.suits hs).ret _)
      exact hnull.checked.append (.ret v _ 0)
  | .print _ value, h, _, start | .expr _ value, h, _, start => by
    rw [stmt]
    refine (emits_expr value h start).bind fun f => ?_
    refine .pure (.snoc rfl) fun _ hf => ?_
    exact Takes.checked (hf.snoc rfl trivial)
  | .assign _ target value, h, _, start => by
    simp only [Stmt.valued, Invariant.knows_append] at h
    rw [stmt]
    refine (emits_place target h.1 start).bindGives (gives_place target start) fun r hr => ?_
    refine ((emits_expr value h.2 _).frame r.2).bind fun f => ?_
    refine ((emits_storePlace f.rep target.span hr).frame (r.2 ++ f.ops)).bind fun store => ?_
    refine .pure (.refl _) fun _ hstore hf hr => ?_
    exact ((hr.2.append (hf.above r.1.width)).append (hstore hr.1 _)).checked
  | .step _ target op, h, _, start => by
    rw [stmt]
    refine (emits_place target h start).bindGives (gives_place target start) fun r hr => ?_
    refine ((emits_loadPlace target.span hr).frame r.2).bind fun current => ?_
    refine ((emits_pushNumber 1.0).frame (r.2 ++ current.ops)).bind fun one => ?_
    refine ((emits_storePlace _ target.span hr).frame (r.2 ++ current.ops ++ [one])).bind ?_
    intro store
    obtain ⟨hplain, harith⟩ := fits_arithOp (v := v) op.arith current.rep .num
    refine .pure ?_ fun _ hstore hone hcurrent hr => ?_
    · have hagain : Extends r.2 (r.2 ++ r.1.again) :=
        (Extends.refl r.2).appendPlain (plain_again r.1)
      have hone : Extends [one] [one, (arithOp op.arith current.rep .num).1] :=
        .snoc hplain
      exact ((hagain.append (.refl current.ops)).append hone).append (.refl store)
    · have htwice := hr.2.append (r.1.takes_again v _)
      have hloaded := htwice.append ((hcurrent hr.1 _).above r.1.width)
      have hnext {start : Nat} : Takes v start [one, (arithOp op.arith current.rep .num).1] 1 1 :=
        ((hone start).above 1).append (harith _)
      exact ((hloaded.append (hnext.above r.1.width)).append (hstore hr.1 _)).checked

theorem emits_stmts : (ss : List Stmt) → I.Knows (Stmt.valuedOfAll ss) →
    I.Allows (Stmt.sitesOfAll ss) → ∀ start,
    Emits I [] (stmts b start ss) id fun ops => Checked v start ops 0 0
  | [], _, _, start => by
    rw [stmts]
    exact .pure (.refl []) fun _ => .nil v start 0
  | s :: rest, h, hv, start => by
    simp only [Stmt.valuedOfAll, Stmt.sitesOfAll, Invariant.knows_append, Invariant.allows_append] at h hv
    rw [stmts]
    refine (emits_stmt s h.1 hv.1 start).bind fun first => ?_
    refine ((emits_stmts rest h.2 hv.2 _).frame first).bind fun more => .pure (.refl _) ?_
    exact fun _ hmore hfirst => hfirst.append hmore

theorem emits_optionalStmt : (s : Option Stmt) → I.Knows (Stmt.valuedOfOption s) →
    I.Allows (Stmt.sitesOfOption s) → ∀ start,
    Emits I [] (optionalStmt b start s) id fun ops => Checked v start ops 0 0
  | none, _, _, start => by
    rw [optionalStmt]
    exact .pure (.refl []) fun _ => .nil v start 0
  | some s, h, hv, start => by
    rw [optionalStmt]
    exact emits_stmt s h hv start

theorem emits_optionalCondition : (e : Option Expr) → I.Knows (Expr.valuedOfOption e) → ∀ start,
    Emits I [] (optionalCondition b start e) (fun c => c.getD []) fun c =>
      ∀ ops ∈ c, Checked v start ops 0 1
  | none, _, start => by
    rw [optionalCondition]
    exact .pure (.refl []) fun _ _ hmem => nomatch hmem
  | some e, h, start => by
    rw [optionalCondition]
    refine emits_condition e h start fun c => .pure (.refl _) fun _ hc ops hmem => ?_
    cases hmem
    exact hc

end

/-! ### Bodies -/

theorem emits_lambdaBody (start : Nat) (body : LambdaBody) (h : I.Knows body.valued)
    (hv : I.Allows body.sites) :
    Emits I [] (lambdaBody b start body) id fun ops => Ends v start ops := by
  cases body with
  | expr value =>
    rw [lambdaBody]
    refine (emits_expr value h start).bind fun f => (emits_as f b.ret "return value").bind fun ops => ?_
    refine .pure (.snoc rfl) fun hs hops hf => ?_
    exact .ret (hops (I.suits hs).ret hf).checked
  | block body =>
    rw [lambdaBody]
    refine (emits_stmts body h hv start).bind fun ops => ?_
    split
    · exact .pure (.snoc rfl) fun _ hops => .unreachable hops
    · refine ((emits_convert .any b.ret "return value").frame ops).bind fun more => ?_
      refine .pure ?_ fun hs hmore hops => ?_
      · have hnull : Extends more (.pushNull :: more) := .cons rfl
        exact ((Extends.refl ops).append hnull).snocPlain rfl
      · have hnull {start : Nat} : Takes v start (.pushNull :: more) 0 1 :=
          .cons rfl trivial (hmore (I.suits hs).ret _)
        exact .ret (hops.append hnull.checked)

/-- Parameters have the first slots. -/
theorem declareParams_ok {t t' : Tables} {lambda : NodeId} {slot : Nat} {params : List Param} {reps : List Rep}
    {ops : List Op} (hrun : declareParams b lambda slot params reps t = .ok (ops, t')) :
    (∃ locals, t' = { t with locals }) ∧
      (∀ {symbol storage}, t'.locals.get? symbol = some storage →
        t.locals.get? symbol = some storage ∨
          storage.slot < slot + params.length ∧ storage.rep ∈ reps) ∧
      (∀ op ∈ ops, op.Plain) ∧
      (slot + params.length ≤ v.locals → ∀ start, Takes v start ops 0 0) := by
  induction params generalizing slot reps ops t with
  | nil =>
    rw [declareParams] at hrun
    · cases pure_ok.mp hrun
      exact ⟨⟨_, rfl⟩, .inl, by simp, fun _ start => .nil v start 0⟩
    · simp
  | cons p params ih =>
    cases reps with
    | nil =>
      rw [declareParams] at hrun
      · cases pure_ok.mp hrun
        exact ⟨⟨_, rfl⟩, .inl, by simp, fun _ start => .nil v start 0⟩
      · simp
    | cons rep reps =>
      rw [declareParams] at hrun
      obtain ⟨_, t₁, hset, hrun⟩ := bind_ok.mp hrun
      cases hset
      obtain ⟨more, t₂, hmore, hrun⟩ := bind_ok.mp hrun
      cases pure_ok.mp hrun
      obtain ⟨⟨locals, hlocals⟩, hslots, hplain, htakes⟩ := ih hmore
      refine ⟨⟨locals, hlocals⟩, fun {symbol storage} hget => ?_,
        List.forall_mem_append.mpr ⟨?_, hplain⟩, fun hle start => ?_⟩
      · simp only [List.length_cons]
        rcases hslots hget with hold | ⟨hslot, hrep⟩
        · rcases NumberedMap.get?_insert_cases hold with hold | ⟨_, rfl⟩
          · exact .inl hold
          · exact .inr ⟨Nat.lt_of_le_of_lt (Nat.mod_le ..) (by omega), List.mem_cons_self⟩
        · exact .inr ⟨by omega, List.mem_cons_of_mem _ hrep⟩
      · split <;> simp
      · simp only [List.length_cons] at hle
        have hslot : slotNumber slot < v.locals := Nat.lt_of_le_of_lt (Nat.mod_le ..) (by omega)
        refine Takes.append ?_ (htakes (by omega) _)
        split
        · have hmake {start : Nat} : Takes v start [.makeCell (slotNumber slot)] 1 0 := takes_op rfl hslot
          exact .cons rfl hslot hmake
        · exact .nil v start 0

/-- The code of an entry, and the number of its local slots. -/
def entryCode (b : Body) (lambda : NodeId) (params : List Param) (reps : List Rep)
    (body : LambdaBody) : Generate (List Op × Nat) := do
  clearLocals
  let cells ← declareParams b lambda 0 params reps
  modify fun t => { t with localCount := params.length }
  let ops ← lambdaBody b cells.length body
  return (cells ++ ops, (← get).localCount)

/-- Whatever the parameters are, an invariant that holds for a function in which they have the first
slots holds of its code. -/
theorem entryCode_keeps (I : Invariant b v) {t t' : Tables} {lambda : NodeId} {params : List Param}
    {reps : List Rep} {body : LambdaBody} {ops : List Op} {count : Nat}
    (hknows : I.Knows body.valued) (hallows : I.Allows body.sites)
    (hstart : ∀ locals, (∀ {symbol storage}, locals.get? symbol = some storage →
      storage.slot < params.length ∧ storage.rep ∈ reps) →
        I.holds [] { t with locals, localCount := params.length })
    (hrun : entryCode b lambda params reps body t = .ok ((ops, count), t')) :
    I.holds ops t' ∧ count = t'.localCount ∧
      (I.strict → v.Covers t' → v.code.Covers t ∧ Ends v 0 ops) := by
  obtain ⟨_, t₁, hclear, hrun⟩ := bind_ok.mp hrun
  cases hclear
  obtain ⟨cells, t₂, hcells, hrun⟩ := bind_ok.mp hrun
  obtain ⟨_, t₃, hcount, hrun⟩ := bind_ok.mp hrun
  cases hcount
  obtain ⟨rest, t₄, hbody, hrun⟩ := bind_ok.mp hrun
  obtain ⟨t₅, t₆, hget, hrun⟩ := bind_ok.mp hrun
  cases hget
  have hend := pure_ok.mp hrun
  simp only [Prod.mk.injEq] at hend
  obtain ⟨⟨rfl, rfl⟩, rfl⟩ := hend
  obtain ⟨⟨locals, hsame⟩, hslots, hplain, hmoves⟩ := declareParams_ok (v := v) hcells
  subst hsame
  have hholds := hstart locals fun {symbol storage} hget => by
    rcases hslots hget with hnone | ⟨hslot, hrep⟩
    · cases hnone
    · exact ⟨by omega, hrep⟩
  have hbefore : I.holds ([] ++ []) _ := hholds
  obtain ⟨hafter, hcovers⟩ := (emits_lambdaBody cells.length body hknows hallows) hbefore hbody
  refine ⟨I.extend hafter (.append (.nil hplain) (.refl rest)), rfl, fun hs hc => ?_⟩
  obtain ⟨hbefore, hends⟩ := hcovers hs hc
  have hcells : Takes v 0 cells 0 0 := hmoves (by rw [Nat.zero_add]; exact hbefore.locals) 0
  refine ⟨{ hbefore.code with }, .after hcells.checked ?_⟩
  rwa [Nat.zero_add]

end Generate

end HostScript
