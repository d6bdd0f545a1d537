import HostScript.Proofs.Analysis.Recorded
import HostScript.Proofs.Scalar.Correctness

/-!
# The fast path

A script of numbers, bools and strings whose variables all have known kinds is compiled, and no
operation of its code decides on kinds at run time. What analysis finds for an expression is what
code generation has on the stack, so an operation for known kinds is there wherever one is needed.
-/

namespace HostScript

/-- Whether the expression has operators, names and literals other than null only. -/
def Expr.isBasic (e : Expr) : Bool :=
  e.isScalar && !e.hasNull

def Script.isBasic (script : Script) : Bool :=
  Stmt.arePlain Expr.isBasic script.body

theorem Expr.isBasic_iff {e : Expr} : e.isBasic = true ↔ e.isScalar = true ∧ e.hasNull = false := by
  simp [Expr.isBasic]

/-- Whether the shape on record for a variable of the script is number, bool or string. -/
def Analysis.isScalarAt (a : Analysis) (node : NodeId) : Bool :=
  match a.arena.concrete? (a.shape [Layers.root] node) with
  | some .number | some .bool | some .string => true
  | _ => false

/-- A shape without contents has the representation of its kind, whatever layouts there are. -/
theorem Analysis.rep_ne_any {a : Analysis} {script : Script} {types : Registry} {node : NodeId}
    (h : a.isScalarAt node = true) : (a.root script types).rep node ≠ .any := by
  have hrep : (a.root script types).rep node =
      (Layouts.ofAnalysis a).rep a.arena (a.shape [Layers.root] node) := rfl
  rw [hrep, Layouts.ofAnalysis_eq]
  rw [isScalarAt, Arena.concrete?] at h
  generalize a.shape [Layers.root] node = x at h
  cases hshape : a.arena.resolved x with
  | concrete c =>
    have hnone : (Layouts.ofRequests a.arena a.layers.shapes).reps.get? (a.arena.resolve x) = none := by
      refine Option.eq_none_iff_forall_ne_some.mpr fun rep hsome => ?_
      have hkind := Layouts.sound_ofRequests.kind hsome
      rw [← Arena.resolved, hshape] at hkind
      cases hkind
    rw [Layouts.rep, hnone]
    show (a.arena.resolved x).directRep _ ≠ .any
    rw [hshape] at h ⊢
    cases c with
    | number | bool | string => exact Rep.noConfusion
    | host => cases h
  | _ => simp [hshape] at h

/-- The code of a basic script whose variables are numbers, bools and strings has no operation that
decides on kinds at run time. -/
theorem Script.generate_direct {source : String} {script : Script} {types : Registry}
    {options : Options} {input : Option HostTypeId} {budget : Nat} {a : Analysis}
    (hparse : Engine.parse source = .ok script) (hbasic : script.isBasic = true)
    (hanalyze : script.analyze types options input budget = some (.ok a))
    (hlocal : a.isLocal = true) (htyped : ∀ node ∈ script.stored, a.isScalarAt node = true) :
    ∃ code, a.generate script types = .ok code ∧ code.dynamicOps = 0 ∧
      ∀ f ∈ code.functions, ∀ op ∈ f.ops, op.isDynamic = false := by
  have hty : (a.root script types).Typed := by
    obtain ⟨s, hs, hresolutions⟩ := script.analyze_resolutions hanalyze
    intro id symbol hget
    rw [Analysis.root, hresolutions] at hget
    exact Analysis.rep_ne_any (htyped _ (hs hget))
  obtain ⟨hroot, hsettled⟩ := Script.settled_of_plain (fun _ h => (Expr.isBasic_iff.mp h).1) hbasic
    (Engine.nodup_ids hparse) hanalyze (.inr hty) hlocal
  obtain ⟨ops, t, hrun, hgrows, -, hcode⟩ := Analysis.generate_plain
    (fun _ h => (Expr.isBasic_iff.mp h).1) hbasic hroot hsettled
  have hdirect : (ops ++ [Op.pushNull, Op.ret]).any Op.isDynamic = false := by
    simp [hcode.direct ⟨hty, fun _ h => (Expr.isBasic_iff.mp h).2⟩, Op.isDynamic]
  refine ⟨_, hrun, ?_, fun f hf => ?_⟩
  · show t.dynamicOps + (ops ++ [Op.pushNull, Op.ret]).toArray.countP Op.isDynamic = 0
    rw [hgrows.dynamicOps, List.countP_toArray, List.countP_eq_zero.mpr (List.any_eq_false.mp hdirect)]
    rfl
  · have hmem : f ∈ (t.setFunction 0 (Generate.rootFunction ops t.localCount)).functions := hf
    rw [Generate.functions_setFunction hgrows, Array.mem_singleton] at hmem
    subst hmem
    intro op hop
    simpa using List.any_eq_false.mp hdirect op (List.mem_toArray.mp hop)

/-- Loops, a declaration that stands alone in a branch, texts and comparisons. -/
def Script.texts : String :=
  "var s = \"\"; for (var i = 0; i < 3; i++) \x7b s = s + \"$\x7bi * 2\x7d,\"; \x7d
        if (s == \"\" || !(1 < 2)) var ok = false; else print -1; return s;"

theorem Script.generate_direct_loop :
    ∃ (script : Script) (a : Analysis) (code : Code),
      Engine.parse texts = .ok script ∧
      script.isBasic = true ∧ script.analyze (Engine.new {}).registry {} none 0 = some (.ok a) ∧
      a.isLocal = true ∧ (∀ node ∈ script.stored, a.isScalarAt node = true) ∧
      a.generate script (Engine.new {}).registry = .ok code ∧ code.dynamicOps = 0 := by
  obtain ⟨script, a, hparse, hanalyze, hcheck⟩ := Engine.exists_analyzed texts (Engine.new {}).registry 0
    (fun script a => script.isBasic && a.isLocal && script.stored.all a.isScalarAt) (by decide +kernel)
  simp only [Bool.and_eq_true, List.all_eq_true] at hcheck
  obtain ⟨⟨hbasic, hlocal⟩, htyped⟩ := hcheck
  obtain ⟨code, hcode, hcount, -⟩ := Script.generate_direct hparse hbasic hanalyze hlocal htyped
  exact ⟨script, a, code, hparse, hbasic, hanalyze, hlocal, htyped, hcode, hcount⟩

end HostScript
