import HostScript.Proofs.Script.Nodes
import HostScript.Proofs.Script.Sites
import HostScript.Proofs.Script.Storage
import Mathlib.Data.List.Nodup

/-!
# The pieces of a script

The expressions and statements of a script, also those inside its lambdas. An expression is known by
its node, so what is kept for a node is kept for one expression. `valued` has the expressions of a
body that have a value when the body runs: a lambda is one of them, but what stands in it is not.
-/

namespace HostScript

/-- An expression or statement of a script. -/
inductive Piece where
  | expr (e : Expr)
  | stmt (s : Stmt)

mutual

/-- The expressions and statements of a tree. -/
def Expr.pieces : Expr → List Piece
  | .literal n value => [.expr (.literal n value)]
  | .ident n name => [.expr (.ident n name)]
  | .binary n op left right => left.pieces ++ right.pieces ++ [.expr (.binary n op left right)]
  | .logical n op left right => left.pieces ++ right.pieces ++ [.expr (.logical n op left right)]
  | .unary n op operand => operand.pieces ++ [.expr (.unary n op operand)]
  | .grouping n inner => inner.pieces ++ [.expr (.grouping n inner)]
  | .member n object name span => object.pieces ++ [.expr (.member n object name span)]
  | .index n object key => object.pieces ++ key.pieces ++ [.expr (.index n object key)]
  | .call n callee args =>
    callee.pieces ++ Expr.piecesOfAll args ++ [.expr (.call n callee args)]
  | .lambda n params body => body.pieces ++ [.expr (.lambda n params body)]
  | .object n properties => Property.piecesOfAll properties ++ [.expr (.object n properties)]
  | .array n items => Expr.piecesOfAll items ++ [.expr (.array n items)]
  | .interpolated n parts => Part.piecesOfAll parts ++ [.expr (.interpolated n parts)]

def Expr.piecesOfAll : List Expr → List Piece
  | [] => []
  | e :: rest => e.pieces ++ Expr.piecesOfAll rest

def LambdaBody.pieces : LambdaBody → List Piece
  | .expr value => value.pieces
  | .block body => Stmt.piecesOfAll body

def Property.piecesOfAll : List Property → List Piece
  | [] => []
  | .mk _ _ value :: rest => value.pieces ++ Property.piecesOfAll rest

def Part.piecesOfAll : List Part → List Piece
  | [] => []
  | .text _ :: rest => Part.piecesOfAll rest
  | .expr value :: rest => value.pieces ++ Part.piecesOfAll rest

def Stmt.pieces : Stmt → List Piece
  | .block n body => Stmt.piecesOfAll body ++ [.stmt (.block n body)]
  | .declare n name span init =>
    Expr.piecesOfOption init ++ [.stmt (.declare n name span init)]
  | .branch n condition t e =>
    condition.pieces ++ t.pieces ++ Stmt.piecesOfOption e ++ [.stmt (.branch n condition t e)]
  | .while n condition body =>
    condition.pieces ++ body.pieces ++ [.stmt (.while n condition body)]
  | .for n init condition step body =>
    Stmt.piecesOfOption init ++ Expr.piecesOfOption condition ++ Stmt.piecesOfOption step ++
      body.pieces ++ [.stmt (.for n init condition step body)]
  | .return n value => Expr.piecesOfOption value ++ [.stmt (.return n value)]
  | .print n value => value.pieces ++ [.stmt (.print n value)]
  | .expr n value => value.pieces ++ [.stmt (.expr n value)]
  | .assign n target value => target.pieces ++ value.pieces ++ [.stmt (.assign n target value)]
  | .step n target op => target.pieces ++ [.stmt (.step n target op)]

def Stmt.piecesOfAll : List Stmt → List Piece
  | [] => []
  | s :: rest => s.pieces ++ Stmt.piecesOfAll rest

def Expr.piecesOfOption : Option Expr → List Piece
  | none => []
  | some e => e.pieces

def Stmt.piecesOfOption : Option Stmt → List Piece
  | none => []
  | some s => s.pieces

end

def Script.pieces (script : Script) : List Piece :=
  Stmt.piecesOfAll script.body

theorem Expr.mem_pieces (e : Expr) : .expr e ∈ e.pieces := by
  cases e <;> simp [Expr.pieces]

theorem Stmt.mem_pieces (s : Stmt) : .stmt s ∈ s.pieces := by
  cases s <;> simp [Stmt.pieces]

def Property.name : Property → String
  | .mk name _ _ => name

/-- The name of the field that a statement may write. -/
def Stmt.writes : Stmt → List String
  | .assign _ (.member _ _ name _) _ => [name]
  | .step _ (.member _ _ name _) _ => [name]
  | _ => []

/-- The names of the fields that a piece may write. -/
def Piece.writes : Piece → List String
  | .expr (.object _ properties) => properties.map Property.name
  | .expr _ => []
  | .stmt s => s.writes

/-- The names of the fields that a script writes. -/
def Script.fieldNames (script : Script) : List String :=
  script.pieces.flatMap Piece.writes

/-- Neither a call nor a lambda. -/
def Expr.isPlain : Expr → Bool
  | .call .. | .lambda .. => false
  | _ => true

/-! ### Expressions with a value -/

mutual

/-- The expressions that have a value when an expression is evaluated. The member that a call names
is not read. -/
def Expr.valued : Expr → List Expr
  | .literal n value => [.literal n value]
  | .ident n name => [.ident n name]
  | .binary n op left right => left.valued ++ right.valued ++ [.binary n op left right]
  | .logical n op left right => left.valued ++ right.valued ++ [.logical n op left right]
  | .unary n op operand => operand.valued ++ [.unary n op operand]
  | .grouping n inner => inner.valued ++ [.grouping n inner]
  | .member n object name span => object.valued ++ [.member n object name span]
  | .index n object key => object.valued ++ key.valued ++ [.index n object key]
  | .call n (.member c object name span) args =>
    object.valued ++ Expr.valuedOfAll args ++ [.call n (.member c object name span) args]
  | .call n callee args => callee.valued ++ Expr.valuedOfAll args ++ [.call n callee args]
  | .lambda n params body => [.lambda n params body]
  | .object n properties => Property.valuedOfAll properties ++ [.object n properties]
  | .array n items => Expr.valuedOfAll items ++ [.array n items]
  | .interpolated n parts => Part.valuedOfAll parts ++ [.interpolated n parts]

def Expr.valuedOfAll : List Expr → List Expr
  | [] => []
  | e :: rest => e.valued ++ Expr.valuedOfAll rest

def Property.valuedOfAll : List Property → List Expr
  | [] => []
  | .mk _ _ value :: rest => value.valued ++ Property.valuedOfAll rest

def Part.valuedOfAll : List Part → List Expr
  | [] => []
  | .text _ :: rest => Part.valuedOfAll rest
  | .expr value :: rest => value.valued ++ Part.valuedOfAll rest

end

/-- The expressions that have a value when a place is found to store to. -/
def Expr.placed : Expr → List Expr
  | .member _ receiver _ _ => receiver.valued
  | .index _ receiver key => receiver.valued ++ key.valued
  | _ => []

def Expr.valuedOfOption : Option Expr → List Expr
  | none => []
  | some e => e.valued

mutual

def Stmt.valued : Stmt → List Expr
  | .block _ body => Stmt.valuedOfAll body
  | .declare _ _ _ init => Expr.valuedOfOption init
  | .branch _ condition t e => condition.valued ++ t.valued ++ Stmt.valuedOfOption e
  | .while _ condition body => condition.valued ++ body.valued
  | .for _ init condition update body =>
    Stmt.valuedOfOption init ++ Expr.valuedOfOption condition ++ Stmt.valuedOfOption update ++
      body.valued
  | .return _ value => Expr.valuedOfOption value
  | .print _ value => value.valued
  | .expr _ value => value.valued
  | .assign _ target value => target.placed ++ value.valued
  | .step _ target _ => target.placed

def Stmt.valuedOfAll : List Stmt → List Expr
  | [] => []
  | s :: rest => s.valued ++ Stmt.valuedOfAll rest

def Stmt.valuedOfOption : Option Stmt → List Expr
  | none => []
  | some s => s.valued

end

def LambdaBody.valued : LambdaBody → List Expr
  | .expr value => value.valued
  | .block body => Stmt.valuedOfAll body

/-! ### What is listed of a tree -/

def Piece.expr? : Piece → Option Expr
  | .expr e => some e
  | .stmt _ => none

/-- The nodes of the expressions among the pieces. -/
def Piece.values (pieces : List Piece) : List NodeId :=
  (pieces.filterMap Piece.expr?).map Expr.id

theorem Piece.values_append (pieces pieces' : List Piece) :
    Piece.values (pieces ++ pieces') = Piece.values pieces ++ Piece.values pieces' := by
  simp [Piece.values]

def Expr.isLambda : Expr → Bool
  | .lambda .. => true
  | _ => false

/-- The lambda literal as an expression. -/
def Lambda.expr (l : Lambda) : Expr :=
  .lambda l.node l.params l.body

/-- What is listed of the body of a lambda is listed of the tree that the lambda stands in. -/
structure Lambda.Inside (l : Lambda) (stored : List NodeId) (lambdas : List Lambda)
    (pieces : List Piece) : Prop where
  params : ∀ p ∈ l.params, p.node.id ∈ stored
  declared : ∀ id offset, .declaration id offset ∈ l.body.sites → id ∈ stored
  literals : ∀ m, .literal m ∈ l.body.sites → m ∈ lambdas
  pieces : l.body.pieces ⊆ pieces

theorem Lambda.Inside.mono {l : Lambda} {stored stored' : List NodeId} {lambdas lambdas' : List Lambda}
    {pieces pieces' : List Piece} (h : l.Inside stored lambdas pieces) (hstored : stored ⊆ stored')
    (hlambdas : lambdas ⊆ lambdas') (hpieces : pieces ⊆ pieces') : l.Inside stored' lambdas' pieces' where
  params p hp := hstored (h.params p hp)
  declared id offset hsite := hstored (h.declared id offset hsite)
  literals m hm := hlambdas (h.literals m hm)
  pieces := List.Subset.trans h.pieces hpieces

/-- The nodes of a tree, those that keep variables, and what stands in the tree. -/
structure Listed (ids stored : List NodeId) (sites : List Site) (lambdas : List Lambda)
    (pieces : List Piece) : Prop where
  apart : ∀ i, stored.count i + (Piece.values pieces).count i ≤ ids.count i
  declared : ∀ id offset, .declaration id offset ∈ sites → id ∈ stored
  literals : ∀ m, .literal m ∈ sites → m ∈ lambdas
  lambda : ∀ l, l ∈ lambdas ↔ .expr l.expr ∈ pieces
  inside : ∀ l ∈ lambdas, l.Inside stored lambdas pieces

namespace Listed

variable {ids ids' stored stored' : List NodeId} {sites sites' : List Site}
  {lambdas lambdas' : List Lambda} {pieces pieces' : List Piece}

theorem nil : Listed [] [] [] [] [] :=
  ⟨fun _ => Nat.le_refl _, by simp, by simp, by simp, by simp⟩

section

variable (h : Listed ids stored sites lambdas pieces)

include h

theorem append (h' : Listed ids' stored' sites' lambdas' pieces') :
    Listed (ids ++ ids') (stored ++ stored') (sites ++ sites') (lambdas ++ lambdas')
      (pieces ++ pieces') where
  apart i := by
    have hleft := h.apart i
    have hright := h'.apart i
    simp only [Piece.values_append, List.count_append]
    omega
  declared id offset hsite := List.mem_append.mpr
    ((List.mem_append.mp hsite).imp (h.declared id offset) (h'.declared id offset))
  literals m hm := List.mem_append.mpr
    ((List.mem_append.mp hm).imp (h.literals m) (h'.literals m))
  lambda l := by rw [List.mem_append, List.mem_append, h.lambda, h'.lambda]
  inside l hl := by
    rcases List.mem_append.mp hl with hl | hl
    · exact (h.inside l hl).mono (List.subset_append_left ..) (List.subset_append_left ..)
        (List.subset_append_left ..)
    · exact (h'.inside l hl).mono (List.subset_append_right ..) (List.subset_append_right ..)
        (List.subset_append_right ..)

/-- The tree itself is the last of its pieces. -/
theorem piece (n : NodeId) (p : Piece) (hn : Piece.values [p] = [n] ∨ Piece.values [p] = [])
    (hp : ∀ l : Lambda, p ≠ .expr l.expr) :
    Listed (ids ++ [n]) stored sites lambdas (pieces ++ [p]) where
  apart i := by
    have hold := h.apart i
    simp only [Piece.values_append, List.count_append]
    rcases hn with hn | hn <;> rw [hn]
    · omega
    · simp only [List.count_nil]
      omega
  declared := h.declared
  literals := h.literals
  lambda l := by simp [h.lambda, (hp l).symm]
  inside l hl := (h.inside l hl).mono (List.Subset.refl _) (List.Subset.refl _)
    (List.subset_append_left ..)

theorem value (e : Expr) (he : e.isLambda = false) :
    Listed (ids ++ [e.id]) stored sites lambdas (pieces ++ [.expr e]) :=
  h.piece e.id (.expr e) (.inl rfl) fun l hl => by cases hl; cases he

theorem stmt (n : NodeId) (s : Stmt) :
    Listed (ids ++ [n]) stored sites lambdas (pieces ++ [.stmt s]) :=
  h.piece n (.stmt s) (.inr rfl) fun _ hl => by cases hl

/-- Sites are listed in another order, or some of another kind are added. -/
theorem of_sites
    (hdeclared : ∀ id offset, .declaration id offset ∈ sites' → .declaration id offset ∈ sites)
    (hliterals : ∀ m, .literal m ∈ sites' → .literal m ∈ sites) :
    Listed ids stored sites' lambdas pieces :=
  { h with
    declared := fun id offset hsite => h.declared id offset (hdeclared id offset hsite)
    literals := fun m hm => h.literals m (hliterals m hm) }

theorem declare (n : NodeId) (offset : Nat) (s : Stmt) :
    Listed (ids ++ [n]) (stored ++ [n]) (sites ++ [.declaration n offset]) lambdas
      (pieces ++ [.stmt s]) where
  apart i := by
    have hold := h.apart i
    simp only [Piece.values_append, List.count_append,
      show Piece.values [.stmt s] = [] from rfl, List.count_nil]
    omega
  declared id o hsite := by
    rcases List.mem_append.mp hsite with hsite | hsite
    · exact List.mem_append_left _ (h.declared id o hsite)
    · cases List.mem_singleton.mp hsite
      exact List.mem_append_right _ (List.mem_singleton_self _)
  literals m hm := h.literals m (by simpa using hm)
  lambda l := by simp [h.lambda]
  inside l hl := (h.inside l hl).mono (List.subset_append_left ..) (List.Subset.refl _)
    (List.subset_append_left ..)

end

theorem literal (l : Lambda)
    (h : Listed l.body.ids l.body.stored l.body.sites l.body.lambdas l.body.pieces) :
    Listed (l.params.map (·.node.id) ++ l.body.ids ++ [l.node.id])
      (l.params.map (·.node.id) ++ l.body.stored) [.literal l] (l :: l.body.lambdas)
      (l.body.pieces ++ [.expr l.expr]) where
  apart i := by
    have hold := h.apart i
    simp only [Piece.values_append, List.count_append,
      show Piece.values [.expr l.expr] = [l.node.id] from rfl]
    omega
  declared id offset hsite := by simp at hsite
  literals m hm := by
    cases List.mem_singleton.mp hm
    exact List.mem_cons_self
  lambda m := by
    have hsame : m = l ↔ Piece.expr m.expr = .expr l.expr := by
      refine ⟨fun heq => heq ▸ rfl, fun heq => ?_⟩
      obtain ⟨n, params, body⟩ := m
      cases heq
      rfl
    rw [List.mem_cons, List.mem_append, List.mem_singleton, h.lambda, hsame, or_comm]
  inside m hm := by
    rcases List.mem_cons.mp hm with rfl | hm
    · exact ⟨fun p hp => List.mem_append_left _ (List.mem_map_of_mem hp),
        fun id offset hsite => List.mem_append_right _ (h.declared id offset hsite),
        fun m hm => List.mem_cons_of_mem _ (h.literals m hm), List.subset_append_left ..⟩
    · exact (h.inside m hm).mono (List.subset_append_right ..) (List.subset_cons_self ..)
        (List.subset_append_left ..)

end Listed

mutual

theorem Expr.lists : (e : Expr) → Listed e.ids e.stored e.sites e.lambdas e.pieces
  | .literal n value => Listed.nil.value (.literal n value) rfl
  | .ident n name =>
    (Listed.nil.value (.ident n name) rfl).of_sites (by simp [Expr.sites]) (by simp [Expr.sites])
  | .binary n op left right =>
    ((Expr.lists left).append (Expr.lists right)).value (.binary n op left right) rfl
  | .logical n op left right =>
    ((Expr.lists left).append (Expr.lists right)).value (.logical n op left right) rfl
  | .unary n op operand => (Expr.lists operand).value (.unary n op operand) rfl
  | .grouping n inner => (Expr.lists inner).value (.grouping n inner) rfl
  | .member n object name span => (Expr.lists object).value (.member n object name span) rfl
  | .index n object key =>
    ((Expr.lists object).append (Expr.lists key)).value (.index n object key) rfl
  | .call n callee args =>
    (((Expr.lists callee).append (Expr.listsOfAll args)).value (.call n callee args) rfl).of_sites
      (by simp [Expr.sites]) (by simp [Expr.sites])
  | .lambda n params body => Listed.literal ⟨n, params, body⟩ (LambdaBody.lists body)
  | .object n props => (Property.listsOfAll props).value (.object n props) rfl
  | .array n items => (Expr.listsOfAll items).value (.array n items) rfl
  | .interpolated n ps => (Part.listsOfAll ps).value (.interpolated n ps) rfl

theorem Expr.listsOfAll : (es : List Expr) → Listed (Expr.idsOfAll es) (Expr.storedOfAll es)
    (Expr.sitesOfAll es) (Expr.lambdasOfAll es) (Expr.piecesOfAll es)
  | [] => .nil
  | e :: rest => (Expr.lists e).append (Expr.listsOfAll rest)

theorem LambdaBody.lists : (b : LambdaBody) → Listed b.ids b.stored b.sites b.lambdas b.pieces
  | .expr value => Expr.lists value
  | .block body => Stmt.listsOfAll body

theorem Property.listsOfAll : (ps : List Property) → Listed (Property.idsOfAll ps)
    (Property.storedOfAll ps) (Property.sitesOfAll ps) (Property.lambdasOfAll ps)
    (Property.piecesOfAll ps)
  | [] => .nil
  | .mk _ _ value :: rest => (Expr.lists value).append (Property.listsOfAll rest)

theorem Part.listsOfAll : (ps : List Part) → Listed (Part.idsOfAll ps) (Part.storedOfAll ps)
    (Part.sitesOfAll ps) (Part.lambdasOfAll ps) (Part.piecesOfAll ps)
  | [] => .nil
  | .text _ :: rest => Part.listsOfAll rest
  | .expr value :: rest => (Expr.lists value).append (Part.listsOfAll rest)

theorem Stmt.lists : (s : Stmt) → Listed s.ids s.stored s.sites s.lambdas s.pieces
  | .block n _ => (Stmt.listsOfAll _).stmt n.id _
  | .declare n _ nameSpan init => (Expr.listsOfOption init).declare n.id nameSpan.start _
  | .branch n condition t e =>
    (((Expr.lists condition).append (Stmt.lists t)).append (Stmt.listsOfOption e)).stmt n.id _
  | .while n condition body => ((Expr.lists condition).append (Stmt.lists body)).stmt n.id _
  | .for n init condition step body =>
    -- the sites of the step stand after those of the body, which runs before it
    ((((Stmt.listsOfOption init).append (Expr.listsOfOption condition)).append
      (Stmt.listsOfOption step)).append (Stmt.lists body)).stmt n.id _ |>.of_sites
      (by simp only [Stmt.sites, List.mem_append]; grind)
      (by simp only [Stmt.sites, List.mem_append]; grind)
  | .return n value => (Expr.listsOfOption value).stmt n.id _
  | .print n value | .expr n value => (Expr.lists value).stmt n.id _
  | .assign n target value => ((Expr.lists target).append (Expr.lists value)).stmt n.id _
  | .step n target _ => (Expr.lists target).stmt n.id _

theorem Stmt.listsOfAll : (body : List Stmt) → Listed (Stmt.idsOfAll body) (Stmt.storedOfAll body)
    (Stmt.sitesOfAll body) (Stmt.lambdasOfAll body) (Stmt.piecesOfAll body)
  | [] => .nil
  | s :: rest => (Stmt.lists s).append (Stmt.listsOfAll rest)

theorem Expr.listsOfOption : (e : Option Expr) → Listed (Expr.idsOfOption e)
    (Expr.storedOfOption e) (Expr.sitesOfOption e) (Expr.lambdasOfOption e) (Expr.piecesOfOption e)
  | none => .nil
  | some e => Expr.lists e

theorem Stmt.listsOfOption : (s : Option Stmt) → Listed (Stmt.idsOfOption s)
    (Stmt.storedOfOption s) (Stmt.sitesOfOption s) (Stmt.lambdasOfOption s) (Stmt.piecesOfOption s)
  | none => .nil
  | some s => Stmt.lists s

end

theorem Script.lists (script : Script) :
    Listed script.ids script.stored script.sites script.lambdas script.pieces :=
  Stmt.listsOfAll script.body

/-- No expression has the node of a variable or parameter. -/
theorem Script.not_stored {script : Script} (h : script.ids.Nodup) {e : Expr}
    (he : .expr e ∈ script.pieces) : e.id ∉ script.stored := by
  intro hstored
  have hvalue : e.id ∈ Piece.values script.pieces :=
    List.mem_map_of_mem (List.mem_filterMap.mpr ⟨_, he, rfl⟩)
  have honce := List.nodup_iff_count_le_one.mp h e.id
  have hapart := script.lists.apart e.id
  have hs := List.count_pos_iff.mpr hstored
  have hv := List.count_pos_iff.mpr hvalue
  omega

/-- An expression is known by its node. -/
theorem Script.eq_of_id {script : Script} (hids : script.ids.Nodup) {e e' : Expr}
    (h : .expr e ∈ script.pieces) (h' : .expr e' ∈ script.pieces) (heq : e.id = e'.id) : e = e' := by
  have hvalues : (Piece.values script.pieces).Nodup := by
    rw [List.nodup_iff_count_le_one]
    intro i
    have honce := List.nodup_iff_count_le_one.mp hids i
    have hapart := script.lists.apart i
    omega
  exact List.inj_on_of_nodup_map hvalues (List.mem_filterMap.mpr ⟨_, h, rfl⟩)
    (List.mem_filterMap.mpr ⟨_, h', rfl⟩) heq

end HostScript
