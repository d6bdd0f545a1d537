import HostScript.Proofs.Engine
import HostScript.Proofs.Script.Nodes

/-!
# Numbers of nodes

The parser gives every node the next number: in post-order the numbers of a script are `0`, `1`,
`2` and so on, so no two nodes have the same one.
-/

namespace HostScript.Parser

variable {α β : Type} {old : List NodeId} {ids : α → List NodeId} {ids' : β → List NodeId}
  {p item : Parse α}

/-- A reader that is given trees with the numbers `old` adds the next numbers to them, in order and
with no gap. The problems found so far stay. -/
def Numbers (old : List NodeId) (ids : α → List NodeId) (p : Parse α) : Prop :=
  ∀ s, match p s with
    | .ok a t => s.problems <+: t.problems ∧
        ∃ n, t.nextId = s.nextId + n ∧ ids a = old ++ List.range' s.nextId n
    | .error _ t => s.problems <+: t.problems

theorem Numbers.bind {f : α → Parse β} (hp : Numbers old ids p)
    (hf : ∀ a, Numbers (ids a) ids' (f a)) : Numbers old ids' (p >>= f) := by
  intro s
  have h := hp s
  show match EStateM.bind p f s with | .ok a t => _ | .error _ t => _
  rw [EStateM.bind]
  cases hrun : p s with
  | error e t =>
    rw [hrun] at h
    exact h
  | ok a t =>
    rw [hrun] at h
    obtain ⟨hproblems, n, hnext, hids⟩ := h
    have h' := hf a t
    cases hrun' : f a t with
    | error e u =>
      simp only [hrun'] at h' ⊢
      exact hproblems.trans h'
    | ok b u =>
      simp only [hrun'] at h' ⊢
      obtain ⟨hproblems', m, hnext', hids'⟩ := h'
      refine ⟨hproblems.trans hproblems', n + m, by rw [hnext', hnext, Nat.add_assoc], ?_⟩
      rw [hids', hids, hnext, List.append_assoc, List.range'_append_1]

theorem Numbers.of_quiet (h : ∀ s, match p s with
      | .ok _ t | .error _ t => t.nextId = s.nextId ∧ t.problems = s.problems) :
    Numbers old (fun _ => old) p := by
  intro s
  have hs := h s
  cases hrun : p s with
  | error e t =>
    rw [hrun] at hs
    exact ⟨[], by rw [hs.2, List.append_nil]⟩
  | ok a t =>
    rw [hrun] at hs
    exact ⟨⟨[], by rw [hs.2, List.append_nil]⟩, 0, hs.1, (List.append_nil old).symm⟩

/-- A reader that is given more trees keeps them. -/
theorem Numbers.frame (h : Numbers [] ids p) (old : List NodeId) :
    Numbers old (fun a => old ++ ids a) p := by
  intro s
  have hs := h s
  cases hrun : p s with
  | error e t =>
    rw [hrun] at hs
    exact hs
  | ok a t =>
    rw [hrun] at hs
    obtain ⟨hproblems, n, hnext, hids⟩ := hs
    exact ⟨hproblems, n, hnext, congrArg (old ++ ·) hids⟩

theorem Numbers.pure {a : α} (h : ids a = old) : Numbers old ids (Pure.pure a) :=
  fun _ => ⟨List.prefix_rfl, 0, rfl, h.trans (List.append_nil old).symm⟩

theorem Numbers.fail {problem : ParseProblem} : Numbers old ids (fail problem) :=
  fun _ => List.prefix_rfl

theorem Numbers.throw {problem : Problem} : Numbers old ids (throw problem : Parse α) :=
  fun _ => List.prefix_rfl

theorem numbers_newNode (span : Span) : Numbers [] (fun n => [n.id]) (newNode span) :=
  fun _ => ⟨List.prefix_rfl, 1, rfl, rfl⟩

theorem Numbers.append {f : α → Parse β} (hp : Numbers [] ids p)
    (hf : ∀ a, Numbers (old ++ ids a) ids' (f a)) : Numbers old ids' (p >>= f) :=
  .bind (hp.frame old) hf

/-- A tree is built with a new node, which comes behind its parts. -/
theorem Numbers.node {span : Span} {f : Node → β} (h : ∀ node, ids' (f node) = old ++ [node.id]) :
    Numbers old ids' (newNode span >>= fun node => Pure.pure (f node)) :=
  .append (numbers_newNode span) fun node => .pure (h node)

/-! ### Tokens -/

theorem numbers_current : Numbers old (fun _ => old) current :=
  .of_quiet fun _ => ⟨rfl, rfl⟩

theorem numbers_currentSpan : Numbers old (fun _ => old) currentSpan :=
  .of_quiet fun _ => ⟨rfl, rfl⟩

theorem numbers_remaining : Numbers old (fun _ => old) remaining :=
  .of_quiet fun _ => ⟨rfl, rfl⟩

theorem numbers_advance : Numbers old (fun _ => old) advance :=
  .of_quiet fun _ => ⟨rfl, rfl⟩

/-! A reader that goes on behind a token or behind a tree. -/

theorem Numbers.peek {f : Token → Parse β} (h : ∀ found, Numbers old ids' (f found)) :
    Numbers old ids' (current >>= f) :=
  .bind numbers_current h

theorem Numbers.span {f : Span → Parse β} (h : ∀ span, Numbers old ids' (f span)) :
    Numbers old ids' (currentSpan >>= f) :=
  .bind numbers_currentSpan h

theorem Numbers.skip {f : Unit → Parse β} (h : Numbers old ids' (f ())) :
    Numbers old ids' (advance >>= f) :=
  .bind numbers_advance fun _ => h

theorem numbers_expect (token : Token) : Numbers old (fun _ => old) (expect token) := by
  refine .span fun _ => .peek fun found => ?_
  split
  · exact .skip <| .pure rfl
  · exact .fail

theorem Numbers.expected {token : Token} {f : Span → Parse β}
    (h : ∀ span, Numbers old ids' (f span)) : Numbers old ids' (expect token >>= f) :=
  .bind (numbers_expect token) h

theorem numbers_expectName : Numbers old (fun _ => old) expectName := by
  refine .span fun _ => .peek fun found => ?_
  split
  · exact .skip <| .pure rfl
  · exact .fail

theorem numbers_expectSemicolon : Numbers old (fun _ => old) expectSemicolon := by
  refine .span fun _ => .peek fun found => ?_
  split
  · exact .skip <| .pure rfl
  · exact .fail

theorem numbers_accept (token : Token) : Numbers old (fun _ => old) (accept token) := by
  refine .peek fun found => ?_
  split
  · exact .skip <| .pure rfl
  · exact .pure rfl

/-! ### Lists -/

theorem numbers_itemsFrom {close : Token} (h : Numbers [] ids item) :
    ∀ budget, Numbers [] (List.flatMap ids) (itemsFrom close item budget)
  | [] => .pure rfl
  | _ :: budget => by
    refine .peek fun found => ?_
    split
    · exact .pure rfl
    refine .bind h fun first => .bind (numbers_accept .comma) fun more => ?_
    split
    · refine .append (numbers_itemsFrom h budget) fun rest => .pure rfl
    · exact .pure (by simp)

theorem numbers_separatedFrom (h : Numbers [] ids item) :
    ∀ budget, Numbers [] (List.flatMap ids) (separatedFrom item budget)
  | [] => .pure rfl
  | _ :: budget => by
    refine .bind h fun first => .bind (numbers_accept .comma) fun more => ?_
    split
    · exact .append (numbers_separatedFrom h budget) fun rest => .pure rfl
    · exact .pure (by simp)

theorem numbers_itemsUntil {close : Token} (h : Numbers [] ids item) :
    Numbers [] (fun r => r.1.flatMap ids) (itemsUntil close item) :=
  .bind numbers_remaining fun budget => .bind (numbers_itemsFrom h budget) fun _ =>
    .expected fun _ => .pure rfl

theorem numbers_arguments (h : Numbers [] ids item) :
    Numbers [] (fun r => r.1.flatMap ids) (arguments item) := by
  refine .peek fun found => ?_
  split
  · exact .bind (.pure (rfl : List.flatMap ids [] = [])) fun _ => .expected fun _ => .pure rfl
  · exact .bind numbers_remaining fun budget => .bind (numbers_separatedFrom h budget) fun _ =>
      .expected fun _ => .pure rfl

theorem numbers_stmtsFrom {stmt : Parse Stmt} (h : Numbers [] Stmt.ids stmt) :
    ∀ budget, Numbers [] Stmt.idsOfAll (stmtsFrom stmt budget)
  | [] => .pure rfl
  | _ :: budget => by
    refine .peek fun found => ?_
    split
    · exact .pure rfl
    · exact .bind h fun first => .append (numbers_stmtsFrom h budget) fun _ => .pure rfl

/-! ### Expressions -/

/-- The rules of a level number the nodes they make. -/
structure Grammar.Numbers (g : Grammar) : Prop where
  expr : Parser.Numbers [] Expr.ids g.expr
  unary : Parser.Numbers [] Expr.ids g.unary
  stmt : Parser.Numbers [] Stmt.ids g.stmt

variable {g : Grammar}

theorem numbers_block (h : g.Numbers) : Numbers [] (fun r => Stmt.idsOfAll r.1) (block g) :=
  .expected fun _ => .bind numbers_remaining fun budget =>
    .bind (numbers_stmtsFrom h.stmt budget) fun _ => .expected fun _ => .pure rfl

theorem numbers_param : Numbers [] (fun p => [p.node.id]) param :=
  .bind numbers_expectName fun _ => .node fun _ => rfl

theorem numbers_params : Numbers [] (List.map fun p => p.node.id) params := by
  refine .bind (numbers_accept .lparen) fun parens => ?_
  split
  · refine .bind (numbers_arguments numbers_param) fun r => .pure ?_
    exact List.map_eq_flatMap
  · exact .bind numbers_param fun p => .pure rfl

section

variable (h : g.Numbers)

include h

theorem numbers_lambda : Numbers [] Expr.ids (lambda g) := by
  refine .span fun start => .bind numbers_params fun params =>
    .expected fun _ => .peek fun found => ?_
  split
  · exact .append (numbers_block h) fun r => .node fun _ => rfl
  · exact .append h.expr fun value => .node fun _ => rfl

theorem numbers_property : Numbers [] Property.ids (property g) := by
  refine .span fun keySpan => .peek fun found => ?_
  have hvalue : ∀ name, Numbers [] Property.ids (do
      advance
      let _ ← expect .colon
      let value ← g.expr
      return .mk name (keySpan.merge value.span) value) := fun name =>
    .skip <| .expected fun _ => .bind h.expr fun value => .pure rfl
  cases found with
  | ident name | str name => exact hvalue name
  | _ => exact .bind (show Numbers [] (fun _ => []) _ from .fail) hvalue

theorem numbers_object : Numbers [] Expr.ids (object g) :=
  .expected fun _ => .bind (numbers_itemsUntil (numbers_property h)) fun r =>
    .node fun _ => (by rw [Expr.ids, Property.idsOfAll_eq])

theorem numbers_array : Numbers [] Expr.ids (array g) :=
  .expected fun _ => .bind (numbers_itemsUntil h.expr) fun r =>
    .node fun _ => (by rw [Expr.ids, Expr.idsOfAll_eq])

omit h in
theorem numbers_onLexemes (h : Numbers old ids p) (lexemes : List Lexeme) :
    Numbers old ids (onLexemes lexemes p) := by
  intro s
  have hs := h { s with lexemes := lexemes }
  unfold onLexemes
  cases hrun : p { s with lexemes := lexemes } <;> rw [hrun] at hs <;> exact hs

theorem numbers_wholeExpr : Numbers [] Expr.ids (wholeExpr g) := by
  refine .bind h.expr fun value => .peek fun found => ?_
  split
  · exact .pure rfl
  · exact .fail

omit h in
theorem numbers_failWith (problems : List Problem) :
    Numbers old ids (failWith problems : Parse α) := by
  unfold failWith
  split
  · exact .fail
  · exact fun _ => List.prefix_append ..

theorem numbers_parts : ∀ segments, Numbers [] Part.idsOfAll (parts g segments)
  | [] => .pure rfl
  | .text value :: rest => .bind (numbers_parts rest) fun _ => .pure rfl
  | .code source offset :: rest => by
    rw [parts]
    split
    · exact numbers_failWith _
    · exact .bind (numbers_onLexemes (numbers_wholeExpr h) _) fun value =>
        .append (numbers_parts rest) fun _ => .pure rfl

omit h in
theorem numbers_literal (value : Literal) (span : Span) :
    Numbers [] Expr.ids (literal value span) :=
  .skip <| .node fun _ => rfl

theorem numbers_primary : Numbers [] Expr.ids (primary g) := by
  refine .bind (.of_quiet fun _ => ⟨rfl, rfl⟩) fun s => ?_
  split
  · exact numbers_lambda h
  refine .span fun span => .peek fun found => ?_
  split
  · exact numbers_literal _ _
  · exact numbers_literal _ _
  · exact numbers_literal _ _
  · exact numbers_literal _ _
  · exact numbers_literal _ _
  · exact .skip <| .node fun _ => rfl
  · exact .skip <| .bind h.expr fun inner => .expected fun _ => .node fun _ => rfl
  · exact numbers_object h
  · exact numbers_array h
  · exact .skip <| .bind (numbers_parts h _) fun ps => .node fun _ => rfl
  · exact .fail

/-! ### Suffixes and operators -/

theorem numbers_suffix? (e : Expr) :
    Numbers e.ids (fun o => (o.getD e).ids) (suffix? g e) := by
  refine .peek fun found => ?_
  split
  · exact .skip <| .bind numbers_expectName fun r => .node fun _ => rfl
  · exact .skip <| .append h.expr fun key => .expected fun _ => .node fun _ => rfl
  · refine .skip <| .append (numbers_arguments h.expr) fun r => .node fun _ => ?_
    rw [Option.getD_some, Expr.ids, Expr.idsOfAll_eq]
  · exact .pure rfl

theorem numbers_suffixesFrom :
    ∀ budget e, Numbers e.ids Expr.ids (suffixesFrom g budget e)
  | [], _ => .pure rfl
  | _ :: budget, e => by
    refine .bind (numbers_suffix? h e) fun o => ?_
    cases o with
    | some longer => exact numbers_suffixesFrom budget longer
    | none => exact .pure rfl

theorem numbers_suffixed : Numbers [] Expr.ids (suffixed g) :=
  .bind (numbers_primary h) fun e => .bind numbers_remaining fun budget =>
    numbers_suffixesFrom h budget e

theorem numbers_unary : Numbers [] Expr.ids (unary g) := by
  refine .peek fun found => ?_
  split
  · exact .span fun _ => .skip <| .bind h.unary fun operand => .node fun _ => rfl
  · exact numbers_suffixed h

omit h in
theorem Connective.ids_join (c : Connective) (node : Node) (left right : Expr) :
    (c.join node left right).ids = left.ids ++ right.ids ++ [node.id] := by
  cases c <;> rfl

omit h in
theorem numbers_joinFrom {level : Token → Option Connective} {operand : Parse Expr}
    (h : Numbers [] Expr.ids operand) :
    ∀ budget left, Numbers left.ids Expr.ids (joinFrom level operand budget left)
  | [], _ => .pure rfl
  | _ :: budget, left => by
    refine .peek fun found => ?_
    split
    · exact .pure rfl
    · refine .skip <| .append h fun right => .append (numbers_newNode _) fun node => ?_
      rw [← Connective.ids_join]
      exact numbers_joinFrom h budget _

omit h in
theorem numbers_joined {level : Token → Option Connective} {operand : Parse Expr}
    (h : Numbers [] Expr.ids operand) : Numbers [] Expr.ids (joined level operand) :=
  .bind h fun first => .bind numbers_remaining fun budget => numbers_joinFrom h budget first

theorem numbers_expr : Numbers [] Expr.ids (expr g) := by
  unfold expr
  induction levels with
  | nil => exact numbers_unary h
  | cons level rest ih => exact numbers_joined ih

/-! ### Statements -/

theorem numbers_declaration : Numbers [] Stmt.ids (declaration g) := by
  refine .expected fun _ => .bind numbers_expectName fun r =>
    .bind (numbers_accept .eq) fun init => ?_
  split
  · exact .bind (numbers_expr h) fun e => .node fun _ => rfl
  · exact .node fun _ => rfl

omit h in
theorem numbers_checkTarget (target : Expr) : Numbers old (fun _ => old) (checkTarget target) := by
  unfold checkTarget
  split
  · exact .throw
  · exact .pure rfl

omit h in
theorem numbers_stepTarget (target : Expr) (op : StepOp) :
    Numbers target.ids Stmt.ids (stepTarget target op) :=
  .bind (numbers_checkTarget target) fun _ => .span fun _ => .skip <| .node fun _ => rfl

theorem numbers_simpleStmt : Numbers [] Stmt.ids (simpleStmt g) := by
  refine .bind (numbers_expr h) fun target => .peek fun found => ?_
  split
  · exact .bind (numbers_checkTarget target) fun _ => .skip <|
      .append (numbers_expr h) fun value => .node fun _ => rfl
  · exact numbers_stepTarget target .increment
  · exact numbers_stepTarget target .decrement
  · exact .node fun _ => rfl

theorem numbers_condition : Numbers [] Expr.ids (condition g) :=
  .expected fun _ => .bind (numbers_expr h) fun _ => .expected fun _ => .pure rfl

theorem numbers_branch (start : Span) : Numbers [] Stmt.ids (branch g start) := by
  refine .skip <| .bind (numbers_condition h) fun condition =>
    .append h.stmt fun t => .bind (numbers_accept .kwElse) fun otherwise => ?_
  split
  · exact .append h.stmt fun e => .node fun _ => rfl
  · exact .node fun _ => (by simp [Stmt.ids, Stmt.idsOfOption])

theorem numbers_whileLoop (start : Span) :
    Numbers [] Stmt.ids (whileLoop g start) :=
  .skip <| .bind (numbers_condition h) fun _ => .append h.stmt fun _ => .node fun _ => rfl

omit h in
theorem numbers_optionalBefore {close : Token} {idsOfOption : Option α → List NodeId}
    (h : Numbers [] ids item) (hnone : idsOfOption none = [])
    (hsome : ∀ a, idsOfOption (some a) = ids a) :
    Numbers [] idsOfOption (optionalBefore close item) := by
  refine .peek fun found => ?_
  split
  · exact .pure hnone
  · exact .bind h fun a => .pure (hsome a)

theorem numbers_forInit : Numbers [] Stmt.ids (forInit g) := by
  refine .peek fun found => ?_
  split
  · exact numbers_declaration h
  · exact numbers_simpleStmt h

theorem numbers_optionalExpr (close : Token) :
    Numbers [] Expr.idsOfOption (optionalBefore close (expr g)) :=
  numbers_optionalBefore (numbers_expr h) rfl fun _ => rfl

omit h in
theorem numbers_optionalStmt {close : Token} {item : Parse Stmt} (h : Numbers [] Stmt.ids item) :
    Numbers [] Stmt.idsOfOption (optionalBefore close item) :=
  numbers_optionalBefore h rfl fun _ => rfl

theorem numbers_forLoop (start : Span) : Numbers [] Stmt.ids (forLoop g start) :=
  .skip <| .expected fun _ =>
    .bind (numbers_optionalStmt (numbers_forInit h)) fun _ => .bind numbers_expectSemicolon fun _ =>
    .append (numbers_optionalExpr h .semicolon) fun _ => .bind numbers_expectSemicolon fun _ =>
    .append (numbers_optionalStmt (numbers_simpleStmt h)) fun _ =>
    .expected fun _ => .append h.stmt fun _ =>
    .node fun _ => rfl

theorem numbers_stmt : Numbers [] Stmt.ids (stmt g) := by
  refine .span fun start => .peek fun found => ?_
  split
  · exact .bind (numbers_declaration h) fun _ => .bind numbers_expectSemicolon fun _ => .pure rfl
  · exact .bind (numbers_block h) fun _ => .node fun _ => rfl
  · exact numbers_branch h start
  · exact numbers_whileLoop h start
  · exact numbers_forLoop h start
  · exact .skip <| .bind (numbers_optionalExpr h .semicolon) fun _ =>
      .bind numbers_expectSemicolon fun _ => .node fun _ => rfl
  · exact .skip <| .bind (numbers_expr h) fun _ =>
      .bind numbers_expectSemicolon fun _ => .node fun _ => rfl
  · exact .bind (numbers_simpleStmt h) fun s => .bind numbers_expectSemicolon fun stop =>
      .pure (s.ids_stretch stop)

omit h in
theorem numbers_grammar : ∀ level, (grammar level).Numbers
  | 0 => ⟨.fail, .fail, .fail⟩
  | level + 1 => ⟨numbers_expr (numbers_grammar level), numbers_unary (numbers_grammar level),
      numbers_stmt (numbers_grammar level)⟩

/-! ### Scripts -/

theorem scriptFrom_problems :
    ∀ budget s, s.problems <+: (scriptFrom g budget s).2.problems
  | 0, _ => List.prefix_rfl
  | budget + 1, s => by
    have hstmt := h.stmt s
    rw [scriptFrom]
    split
    · exact List.prefix_rfl
    split <;> rename_i t hrun <;> rw [hrun] at hstmt
    · exact hstmt.1.trans (scriptFrom_problems budget t)
    · refine .trans ?_ (scriptFrom_problems budget _)
      exact hstmt.trans (List.prefix_append ..)

/-- The statements of a script without problems have all numbers that were given. -/
theorem scriptFrom_numbers :
    ∀ budget s, (scriptFrom g budget s).2.problems = [] →
      ∃ n, (scriptFrom g budget s).2.nextId = s.nextId + n ∧
        Stmt.idsOfAll (scriptFrom g budget s).1 = List.range' s.nextId n
  | 0, _ => fun _ => ⟨0, rfl, rfl⟩
  | budget + 1, s => by
    have hstmt := h.stmt s
    rw [scriptFrom]
    split
    · exact fun _ => ⟨0, rfl, rfl⟩
    split <;> rename_i first t hrun <;> rw [hrun] at hstmt <;> intro hnone
    · obtain ⟨_, n, hnext, hids⟩ := hstmt
      obtain ⟨m, hnext', hids'⟩ := scriptFrom_numbers budget t hnone
      refine ⟨n + m, hnext'.trans (by rw [hnext, Nat.add_assoc]), ?_⟩
      rw [Stmt.idsOfAll, hids, hids', hnext, List.nil_append, List.range'_append_1]
    -- a statement that failed leaves a problem
    · have hle := scriptFrom_problems h budget
        { t with problems := t.problems ++ [first], lexemes := afterSemicolon t.lexemes }
      rw [hnone, List.prefix_nil] at hle
      exact nomatch (List.append_eq_nil_iff.mp hle).2

end

end HostScript.Parser

namespace HostScript

theorem Script.ids_eq {lexemes : List Lexeme} {script : Script}
    (h : Script.parse lexemes = .ok script) : script.ids = List.range script.nodeCount := by
  simp only [Script.parse] at h
  split at h
  · next hrun =>
      cases h
      obtain ⟨n, hnext, hids⟩ := Parser.scriptFrom_numbers (Parser.numbers_grammar _) _ _
        (congrArg (·.2.problems) hrun)
      rw [hrun] at hnext hids
      dsimp only at hnext hids
      rw [Script.ids, hids, hnext, Nat.zero_add, List.range_eq_range']
  · cases h

/-- The nodes of a script, children before parents, have the numbers from zero in order; so no two
of them have the same one. -/
theorem Script.numbers_dense {lexemes : List Lexeme} {script : Script}
    (h : Script.parse lexemes = .ok script) :
    script.ids = List.range script.nodeCount ∧ script.ids.Nodup :=
  ⟨Script.ids_eq h, Script.ids_eq h ▸ List.nodup_range⟩

theorem Engine.parse_eq_ok {source : String} {script : Script} (h : Engine.parse source = .ok script) :
    ∃ lexemes, Lexer.scan source 0 = .ok lexemes ∧ Script.parse lexemes = .ok script := by
  cases hscan : Lexer.scan source 0 with
  | error problems => simp [Engine.parse, hscan, bind, Except.bind] at h
  | ok lexemes => exact ⟨lexemes, rfl, by simpa [Engine.parse, hscan, bind, Except.bind] using h⟩

/-- A counting loop around a lambda that gives an interpolated string: fifteen nodes. -/
theorem Script.numbers_dense_loop : ∃ lexemes script,
    Lexer.scan "for (var i = 0; i < 3; i++) g = (a) => $\"\x7ba\x7d: \x7bi\x7d\";" 0 = .ok lexemes ∧
    Script.parse lexemes = .ok script ∧ script.nodeCount = 15 ∧
    script.ids = List.range script.nodeCount ∧ script.ids.Nodup := by
  obtain ⟨script, hparsed, hcount⟩ := Engine.exists_parsed
    "for (var i = 0; i < 3; i++) g = (a) => $\"\x7ba\x7d: \x7bi\x7d\";" (·.nodeCount == 15)
    (by decide +kernel)
  obtain ⟨lexemes, hscan, hparse⟩ := Engine.parse_eq_ok hparsed
  obtain ⟨hids, hnodup⟩ := Script.numbers_dense hparse
  exact ⟨lexemes, script, hscan, hparse, eq_of_beq hcount, hids, hnodup⟩

theorem Engine.nodup_ids {source : String} {script : Script} (h : Engine.parse source = .ok script) :
    script.ids.Nodup := by
  obtain ⟨lexemes, _, hparse⟩ := Engine.parse_eq_ok h
  exact Script.ids_eq hparse ▸ List.nodup_range

end HostScript
