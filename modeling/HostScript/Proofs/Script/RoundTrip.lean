import HostScript.Proofs.Script.Reading

/-!
# Reading what was printed

The parser gives back every well-formed tree from its tokens, whatever the places of the tokens are.
An operand ends where the next token does not bind as tightly as the operators inside it, and a
level of nesting takes at least one token, so the levels suffice.
-/

namespace HostScript.Parser

variable {α β : Type} {text more : List Token} {after word : Token} {good : α → Prop}
  {good' : β → Prop}

/-! ### Primary expressions -/

/-- The rules of a level read all trees of at most `n` tokens. -/
structure Grammar.ReadsUpTo (g : Grammar) (n : Nat) : Prop where
  expr : ∀ (e : Expr) (after : Token), e.wellFormed → e.tokens.length ≤ n → after.grip = 0 →
    Reads g.expr e.tokens after (·.bare = e.bare)
  unary : ∀ (e : Expr) (after : Token), e.wellFormed → 7 ≤ e.strength → e.tokens.length ≤ n →
    after.grip < 7 → Reads g.unary e.tokens after (·.bare = e.bare)
  stmt : ∀ (s : Stmt) (after : Token), s.wellFormed → s.tokens.length ≤ n →
    (s.endsOpen → after ≠ .kwElse) → Reads g.stmt s.tokens after (·.bare = s.bare)

variable {g : Grammar} {n : Nat}

/-- The length of an item is at most that of the list. -/
theorem length_le_of_mem_listed {print : α → List Token} {items : List α} {a : α}
    (h : a ∈ items) : (print a).length ≤ (listed print items).length := by
  cases items with
  | nil => cases h
  | cons first rest =>
    rw [listed, List.length_append]
    rcases List.mem_cons.mp h with rfl | h
    · exact Nat.le_add_right _ _
    · obtain ⟨before, behind, rfl⟩ := List.append_of_mem h
      simp only [List.flatMap_append, List.flatMap_cons, List.length_append, List.length_cons]
      omega

theorem Grammar.ReadsUpTo.item (h : g.ReadsUpTo n) {close : Token} {items : List Expr}
    (hclose : close.grip = 0) (hstart : close.startsExpr = false)
    (hitems : ∀ e ∈ items, e.wellFormed) (hlen : (listed Expr.tokens items).length ≤ n)
    (e : Expr) (he : e ∈ items) : ReadsItem g.expr Expr.tokens Expr.bare close e where
  reads after hafter := h.expr e after (hitems e he)
    (Nat.le_trans (length_le_of_mem_listed he) hlen) (by rcases hafter with rfl | rfl; rfl; exact hclose)
  start := by
    obtain ⟨first, rest, hfirst, hexpr⟩ := e.tokens_start (hitems e he)
    refine ⟨first, rest, hfirst, ?_⟩
    rintro rfl
    rw [hexpr] at hstart
    cases hstart

theorem reads_literal (value : Literal) (span : Span) :
    Reads (literal value span) [word] after fun e => e.bare = .literal default value :=
  .skip <| .node fun _ => rfl

theorem reads_property (h : g.ReadsUpTo n) (p : Property) (hwf : p.wellFormed)
    (hlen : p.tokens.length ≤ n) (hafter : after.grip = 0) :
    Reads (property g) p.tokens after fun q => q.bare = p.bare := by
  obtain ⟨name, span, value⟩ := p
  rw [Property.tokens] at hlen ⊢
  refine .span fun _ => .peek <| .look (.pure rfl) fun key hkey => .skip <| .expected fun _ =>
      .last (h.expr value after hwf ?_ hafter) fun v hv => .pure ?_
  · simp only [List.length_cons] at hlen
    omega
  · rw [Property.bare, Property.bare, hv, ← hkey]

theorem Grammar.ReadsUpTo.property (h : g.ReadsUpTo n) {ps : List Property}
    (hps : ∀ p ∈ ps, p.wellFormed) (hlen : (listed Property.tokens ps).length ≤ n)
    (p : Property) (hp : p ∈ ps) :
    ReadsItem (property g) Property.tokens Property.bare .rbrace p where
  reads after hafter := reads_property h p (hps p hp)
    (Nat.le_trans (length_le_of_mem_listed hp) hlen) (by rcases hafter with rfl | rfl <;> rfl)
  start := by
    obtain ⟨name, _, value⟩ := p
    exact ⟨_, _, rfl, nofun⟩

/-- No statement starts with an `else`. -/
theorem tokensOfAll_headD_ne (hafter : after ≠ .kwElse) (body : List Stmt)
    (hwf : Stmt.allWellFormed body) : (Stmt.tokensOfAll body).headD after ≠ .kwElse := by
  cases body with
  | nil => exact hafter
  | cons s rest =>
    simp only [Stmt.allWellFormed, Bool.and_eq_true] at hwf
    obtain ⟨first, others, hfirst, hstart⟩ := s.tokens_start hwf.1
    rw [Stmt.tokensOfAll, hfirst]
    rintro rfl
    cases hstart

theorem reads_stmtsFrom (h : g.ReadsUpTo n) (body : List Stmt) :
    ∀ budget, Stmt.allWellFormed body → (Stmt.tokensOfAll body).length ≤ n → body.length < budget.length →
      Reads (stmtsFrom g.stmt budget) (Stmt.tokensOfAll body) .rbrace fun ss =>
        Stmt.bareAll ss = Stmt.bareAll body := by
  induction body with
  | nil =>
    intro budget _ _ hbudget
    obtain ⟨_, m, rfl⟩ := List.exists_cons_of_length_pos hbudget
    exact .when (.inl rfl) (.pure rfl)
  | cons s rest ih =>
    intro budget hwf hlen hbudget
    obtain ⟨_, m, rfl⟩ := List.exists_cons_of_length_pos (Nat.zero_lt_of_lt hbudget)
    simp only [Stmt.allWellFormed, Bool.and_eq_true] at hwf
    rw [Stmt.tokensOfAll, List.length_append] at hlen
    rw [Stmt.tokensOfAll]
    have hnext : (Stmt.tokensOfAll rest).headD .rbrace ≠ .kwElse :=
      tokensOfAll_headD_ne (by nofun) rest hwf.2
    refine .unless ?_ (.bind (h.stmt s _ hwf.1 (by omega) fun _ => hnext) fun s' hs' =>
      .last (ih m hwf.2 (by omega) (Nat.lt_of_succ_lt_succ hbudget)) fun ss hss => .pure ?_)
    · obtain ⟨first, others, hfirst, hstart⟩ := s.tokens_start hwf.1
      rw [hfirst, List.cons_append, List.headD_cons]
      rintro (rfl | rfl) <;> cases hstart
    · rw [Stmt.bareAll, Stmt.bareAll, hs', hss]

theorem length_le_tokensOfAll (body : List Stmt) (hwf : Stmt.allWellFormed body) :
    body.length ≤ (Stmt.tokensOfAll body).length := by
  induction body with
  | nil => exact Nat.zero_le _
  | cons s rest ih =>
    simp only [Stmt.allWellFormed, Bool.and_eq_true] at hwf
    obtain ⟨first, others, hfirst, _⟩ := s.tokens_start hwf.1
    have hrest := ih hwf.2
    rw [Stmt.tokensOfAll, List.length_append, hfirst, List.length_cons, List.length_cons]
    omega

theorem reads_block (h : g.ReadsUpTo n) (body : List Stmt) (hwf : Stmt.allWellFormed body)
    (hlen : (Stmt.tokensOfAll body).length ≤ n) :
    Reads (block g) (.lbrace :: (Stmt.tokensOfAll body ++ [.rbrace])) after fun r =>
      Stmt.bareAll r.1 = Stmt.bareAll body := by
  refine .expected fun _ => .budget fun budget hbudget => ?_
  rw [List.length_append, List.length_singleton] at hbudget
  have hbody := length_le_tokensOfAll body hwf
  exact .bind (reads_stmtsFrom h body budget hwf hlen (by omega)) fun ss hss =>
    .expected fun _ => .pure hss

theorem reads_param (p : Param) : Reads param p.tokens after fun q => q.name = p.name :=
  .take (reads_expectName p.name) fun _ hname => .node fun _ => hname

theorem reads_params (ps : List Param) :
    Reads params (.lparen :: (listed Param.tokens ps ++ [.rparen])) after fun qs =>
      qs.map Param.name = ps.map Param.name := by
  refine .take (reads_accept _) fun _ h => ?_
  rw [h]
  exact .last (reads_arguments ps fun p _ => ⟨fun _ _ => reads_param p, _, _, rfl,
    nofun⟩) fun _ hr => .pure hr

theorem Param.map_bare {ps qs : List Param} (h : qs.map Param.name = ps.map Param.name) :
    qs.map (fun p => (⟨default, p.name⟩ : Param)) = ps.map fun p => ⟨default, p.name⟩ := by
  have h' := congrArg (List.map fun name => (⟨default, name⟩ : Param)) h
  rwa [List.map_map, List.map_map] at h'

section

variable (h : g.ReadsUpTo n) {e : Expr} {node : Node} {ps : List Param} {body : LambdaBody}
  (he : e = .lambda node ps body) (hwf : body.wellFormed) (hlen : e.tokens.length ≤ n + 1)
  (hafter : (∃ stmts, body = .block stmts) ∨ after.grip = 0)

include h he hwf hlen hafter

/-- A lambda ends with its braces, or where its value ends. -/
theorem reads_lambda : Reads (lambda g) e.tokens after (·.bare = e.bare) := by
  subst he
  have htext : (Expr.lambda node ps body).tokens =
      (.lparen :: (listed Param.tokens ps ++ [.rparen])) ++ .fatArrow :: body.tokens := by
    simp [Expr.tokens]
  rw [htext] at hlen ⊢
  simp only [List.length_append, List.length_cons] at hlen
  refine .span fun start => .bind (reads_params ps) fun qs hqs => .expected fun _ => .peek ?_
  cases body with
  | block stmts =>
    rw [LambdaBody.tokens] at hlen ⊢
    simp only [List.length_append, List.length_cons] at hlen
    refine .last (reads_block h stmts hwf (by omega)) fun r hr => .node fun _ => ?_
    rw [Expr.bare, Expr.bare, Param.map_bare hqs, LambdaBody.bare, LambdaBody.bare, hr]
  | expr value =>
    simp only [LambdaBody.wellFormed, Bool.and_eq_true] at hwf
    rw [LambdaBody.tokens] at hlen ⊢
    obtain ⟨first, rest, hfirst, _⟩ := value.tokens_start hwf.1
    have hbrace : first ≠ .lbrace := by
      rintro rfl
      rw [hfirst] at hwf
      exact Bool.false_ne_true hwf.2
    have hvalue : Reads (do
        let value ← g.expr
        return Expr.lambda (← newNode (start.merge value.span)) qs (.expr value)) value.tokens
        after (·.bare = (Expr.lambda node ps (.expr value)).bare) := by
      refine .last (h.expr value after hwf.1 (by omega) (by simpa using hafter)) fun v hv =>
        .node fun _ => ?_
      rw [Expr.bare, Expr.bare, Param.map_bare hqs, LambdaBody.bare, LambdaBody.bare, hv]
    rw [hfirst, List.headD_cons]
    rw [hfirst] at hvalue
    split
    · rename_i heq
      exact absurd rfl hbrace
    · exact hvalue

theorem reads_primary_lambda : Reads (primary g) e.tokens after (·.bare = e.bare) := by
  refine .ahead fun s rest hs _ => ?_
  have hstarts : startsLambda s.lexemes = true := by
    rw [startsLambda_eq, hs, he, Expr.tokens]
    show closesParamTokens ((listed Param.tokens ps ++ .rparen :: .fatArrow :: body.tokens) ++ rest)
      = true
    rw [List.append_assoc]
    exact closesParamTokens_params ps _
  rw [if_pos hstarts]
  exact reads_lambda h he hwf hlen hafter

end

theorem reads_primary (h : g.ReadsUpTo n) (e : Expr) (he : e.isPrimary) (hwf : e.wellFormed)
    (hlen : e.tokens.length ≤ n + 1) (hafter : after ≠ .fatArrow) :
    Reads (primary g) e.tokens after (·.bare = e.bare) := by
  refine .ahead fun s rest hs hrest => ?_
  rw [startsLambda_eq, hs, startsLambdaTokens_primary e he rest (hrest ▸ hafter),
    if_neg Bool.false_ne_true]
  refine .span fun span => .peek ?_
  cases e with
  | literal _ value =>
    cases value with
    | bool b => cases b <;> exact reads_literal _ span
    | _ => exact reads_literal _ span
  | ident _ name =>
    exact .skip <| .node fun _ => rfl
  | grouping _ inner =>
    simp only [Expr.tokens, List.length_cons, List.length_append] at hlen
    refine .skip <| .bind (h.expr inner _ hwf (by omega) rfl) fun v hv =>
      .expected fun _ => .node fun _ => ?_
    rw [Expr.bare, Expr.bare, hv]
  | object _ ps =>
    rw [Expr.wellFormed, Property.allWellFormed_iff] at hwf
    rw [Expr.tokens, Property.tokensOfAll_eq] at hlen ⊢
    simp only [List.length_cons, List.length_append] at hlen
    refine .expected fun _ => .last (reads_itemsUntil
      Token.noConfusion ps (h.property hwf (by omega))) fun r hr => .node fun _ => ?_
    rw [Expr.bare, Expr.bare, Property.bareAll_eq, Property.bareAll_eq, hr]
  | array _ items =>
    rw [Expr.wellFormed, Expr.allWellFormed_iff] at hwf
    rw [Expr.tokens, Expr.tokensOfAll_eq] at hlen ⊢
    simp only [List.length_cons, List.length_append] at hlen
    refine .expected fun _ => .last (reads_itemsUntil
      Token.noConfusion items (h.item rfl rfl hwf (by omega))) fun r hr => .node fun _ => ?_
    rw [Expr.bare, Expr.bare, Expr.bareAll_eq, Expr.bareAll_eq, hr]
  | _ => simp [Expr.isPrimary] at he

/-! ### Suffixes -/

theorem reads_suffix_member (head : Expr) (name : String) :
    Reads (suffix? g head) [.dot, .ident name] after fun o =>
      ∃ e, o = some e ∧ e.bare = .member default head.bare name default :=
  .peek <| .skip <| .take (reads_expectName name) fun r hr =>
    .node fun _ => ⟨_, rfl, by rw [Expr.bare, hr]⟩

theorem reads_suffix_index (h : g.ReadsUpTo n) (head key : Expr) (hwf : key.wellFormed)
    (hlen : key.tokens.length ≤ n) :
    Reads (suffix? g head) (.lbracket :: (key.tokens ++ [.rbracket])) after fun o =>
      ∃ e, o = some e ∧ e.bare = .index default head.bare key.bare :=
  .peek <| .skip <| .bind (h.expr key _ hwf hlen rfl) fun k hk =>
    .expected fun _ => .node fun _ => ⟨_, rfl, by rw [Expr.bare, hk]⟩

theorem reads_suffix_call (h : g.ReadsUpTo n) (head : Expr) (args : List Expr)
    (hwf : Expr.allWellFormed args) (hlen : (Expr.tokensOfAll args).length ≤ n) :
    Reads (suffix? g head) (.lparen :: (Expr.tokensOfAll args ++ [.rparen])) after fun o =>
      ∃ e, o = some e ∧ e.bare = .call default head.bare (Expr.bareAll args) := by
  rw [Expr.allWellFormed_iff] at hwf
  rw [Expr.tokensOfAll_eq] at hlen ⊢
  refine .peek <| .skip <| .last
    (reads_arguments args (h.item rfl rfl hwf hlen)) fun r hr => .node fun _ => ⟨_, rfl, ?_⟩
  rw [Expr.bare, Expr.bareAll_eq, Expr.bareAll_eq, hr]

/-- Where reading goes on behind a suffix, it can start in front of it. -/
theorem reads_suffixesFrom {bare : Expr} {head : Expr} {good : Expr → Prop} {budget : List Lexeme}
    (htext : text ≠ [])
    (hsuffix : Reads (suffix? g head) text (more.headD after) fun o => ∃ e, o = some e ∧ e.bare = bare)
    (hmore : ∀ head budget, head.bare = bare → more.length ≤ budget.length →
      Reads (suffixesFrom g budget head) more after good)
    (hbudget : (text ++ more).length ≤ budget.length) :
    Reads (suffixesFrom g budget head) (text ++ more) after good := by
  have hpos := List.length_pos_iff.mpr htext
  rw [List.length_append] at hbudget
  cases budget with
  | nil => exact absurd hbudget (by rw [List.length_nil]; omega)
  | cons _ m =>
    rw [List.length_cons] at hbudget
    refine .bind hsuffix ?_
    rintro _ ⟨e, rfl, he⟩
    exact hmore e m he (by omega)

theorem reads_suffixed_primary {e : Expr} {good : Expr → Prop}
    (he : Reads (primary g) e.tokens (more.headD after) (·.bare = e.bare))
    (hmore : ∀ head budget, head.bare = e.bare → more.length ≤ budget.length →
      Reads (suffixesFrom g budget head) more after good) :
    Reads (suffixed g) (e.tokens ++ more) after good :=
  .bind he fun head hhead => .budget fun budget hbudget => hmore head budget hhead hbudget

/-- Suffixes are read one after the other: where reading goes on behind the expression, it can start
in front of it. -/
theorem reads_suffixed_onto (h : g.ReadsUpTo n) {good : Expr → Prop} :
    ∀ (e : Expr) (more : List Token), e.wellFormed → e.takesSuffix → e.tokens.length ≤ n + 1 →
      more.headD after ≠ .fatArrow →
      (∀ head budget, head.bare = e.bare → more.length ≤ budget.length →
        Reads (suffixesFrom g budget head) more after good) →
      Reads (suffixed g) (e.tokens ++ more) after good
  | .member _ object name _, more, hwf, _, hlen, _, hmore => by
    simp only [Expr.wellFormed, Bool.and_eq_true] at hwf
    simp only [Expr.tokens, List.length_append, List.length_cons] at hlen
    rw [Expr.tokens, List.append_assoc]
    exact reads_suffixed_onto h object _ hwf.1 hwf.2 (by omega) Token.noConfusion
      fun head _ hhead => reads_suffixesFrom (List.cons_ne_nil _ _)
        (reads_suffix_member head name) (by rw [hhead]; exact hmore)
  | .index _ object key, more, hwf, _, hlen, _, hmore => by
    simp only [Expr.wellFormed, Bool.and_eq_true] at hwf
    simp only [Expr.tokens, List.length_append, List.length_cons] at hlen
    rw [Expr.tokens, List.append_assoc]
    exact reads_suffixed_onto h object _ hwf.1.1 hwf.1.2 (by omega) Token.noConfusion
      fun head _ hhead => reads_suffixesFrom (List.cons_ne_nil _ _)
        (reads_suffix_index h head key hwf.2 (by omega)) (by rw [hhead]; exact hmore)
  | .call _ callee args, more, hwf, _, hlen, _, hmore => by
    simp only [Expr.wellFormed, Bool.and_eq_true] at hwf
    simp only [Expr.tokens, List.length_append, List.length_cons] at hlen
    rw [Expr.tokens, List.append_assoc]
    exact reads_suffixed_onto h callee _ hwf.1.1 hwf.1.2 (by omega) Token.noConfusion
      fun head _ hhead => reads_suffixesFrom (List.cons_ne_nil _ _)
        (reads_suffix_call h head args hwf.2 (by omega)) (by rw [hhead]; exact hmore)
  | .lambda node ps body, more, hwf, hsuffix, hlen, _, hmore => by
    have hblock : ∃ stmts, body = .block stmts := by
      cases body with
      | block stmts => exact ⟨stmts, rfl⟩
      | expr value => exact absurd hsuffix Bool.false_ne_true
    exact reads_suffixed_primary (reads_primary_lambda h rfl hwf hlen (.inl hblock)) hmore
  | .literal _ value, more, hwf, _, hlen, hafter, hmore
  | .ident _ name, more, hwf, _, hlen, hafter, hmore
  | .grouping _ inner, more, hwf, _, hlen, hafter, hmore
  | .object _ ps, more, hwf, _, hlen, hafter, hmore
  | .array _ items, more, hwf, _, hlen, hafter, hmore =>
    reads_suffixed_primary (reads_primary h _ rfl hwf hlen hafter) hmore
  | .unary .., _, _, hsuffix, _, _, _ => absurd hsuffix Bool.false_ne_true
  | .binary _ op _ _, _, _, hsuffix, _, _, _ | .logical _ op _ _, _, _, hsuffix, _, _, _ =>
    absurd hsuffix (by cases op <;> exact Bool.false_ne_true)
  | .interpolated .., _, hwf, _, _, _, _ => absurd hwf Bool.false_ne_true

theorem reads_suffixesFrom_nil (hafter : after.grip < 8) (head : Expr) (budget : List Lexeme) :
    Reads (suffixesFrom g budget head) [] after (· = head) := by
  cases budget with
  | nil => exact .pure rfl
  | cons _ m =>
    refine .look (.peek ?_) fun o (ho : o = none) => ?_
    · rw [List.headD_nil]
      revert hafter
      cases after <;> intro hafter <;> first | exact .pure rfl | exact absurd hafter (by decide)
    · rw [ho]
      exact .pure rfl

theorem reads_suffixed (h : g.ReadsUpTo n) (e : Expr) (hwf : e.wellFormed) (hsuffix : e.takesSuffix)
    (hlen : e.tokens.length ≤ n + 1) (hafter : after.grip < 8) :
    Reads (suffixed g) e.tokens after (·.bare = e.bare) := by
  have hreads : Reads (suffixed g) (e.tokens ++ []) after (·.bare = e.bare) :=
    reads_suffixed_onto h e [] hwf hsuffix hlen (by rintro rfl; exact absurd hafter (by decide))
      fun head budget hhead _ =>
        (reads_suffixesFrom_nil hafter head budget).mono fun _ ha => ha ▸ hhead
  rwa [List.append_nil] at hreads

/-! ### Operators -/

theorem unaryOp?_token (op : UnaryOp) : unaryOp? op.token = some op := by
  cases op <;> rfl

theorem unaryOp?_start (after : Token) : ∀ (e : Expr) (more : List Token), e.wellFormed → e.takesSuffix →
    unaryOp? ((e.tokens ++ more).headD after) = none
  | .member _ head _ _, more, hwf, _ | .index _ head _, more, hwf, _
  | .call _ head _, more, hwf, _ => by
    have hhead : head.wellFormed ∧ head.takesSuffix := by simp_all [Expr.wellFormed]
    rw [Expr.tokens, List.append_assoc]
    exact unaryOp?_start after head _ hhead.1 hhead.2
  | .literal _ value, _, _, _ => by
    cases value with
    | bool b => cases b <;> rfl
    | _ => rfl
  | .ident .., _, _, _ | .grouping .., _, _, _ | .lambda .., _, _, _ | .object .., _, _, _
  | .array .., _, _, _ => rfl
  | .unary .., _, _, hsuffix => absurd hsuffix Bool.false_ne_true
  | .binary _ op _ _, _, _, hsuffix | .logical _ op _ _, _, _, hsuffix =>
    absurd hsuffix (by cases op <;> exact Bool.false_ne_true)
  | .interpolated .., _, hwf, _ => absurd hwf Bool.false_ne_true

theorem reads_unary (h : g.ReadsUpTo n) (e : Expr) (hwf : e.wellFormed) (hstrength : 7 ≤ e.strength)
    (hlen : e.tokens.length ≤ n + 1) (hafter : after.grip < 7) :
    Reads (unary g) e.tokens after (·.bare = e.bare) := by
  refine .peek ?_
  by_cases hsuffix : e.takesSuffix
  · have hstart := unaryOp?_start after e [] hwf hsuffix
    rw [List.append_nil] at hstart
    rw [hstart]
    exact reads_suffixed h e hwf hsuffix hlen (Nat.lt_succ_of_lt hafter)
  cases e with
  | unary _ op operand =>
    simp only [Expr.wellFormed, Bool.and_eq_true, decide_eq_true_eq] at hwf
    rw [Expr.tokens, List.length_cons] at hlen
    rw [Expr.tokens, List.headD_cons, unaryOp?_token]
    refine .span fun _ => .skip <|
      .last (h.unary operand after hwf.1 hwf.2 (by omega) hafter) fun o ho => .node fun _ => ?_
    rw [Expr.bare, Expr.bare, ho]
  | binary _ op _ _ | logical _ op _ _ => exact absurd hstrength (Nat.not_le.mpr op.level_lt)
  | lambda => exact absurd hstrength (Nat.not_le.mpr (Nat.succ_pos 6))
  | _ => exact absurd rfl hsuffix

theorem reads_unary_lambda (h : g.ReadsUpTo n) {e : Expr} {node : Node} {ps : List Param}
    {body : LambdaBody} (he : e = .lambda node ps body) (hwf : body.wellFormed)
    (hlen : e.tokens.length ≤ n + 1) (hafter : after.grip = 0) :
    Reads (unary g) e.tokens after (·.bare = e.bare) := by
  have hreads : Reads (suffixed g) (e.tokens ++ []) after (·.bare = e.bare) :=
    reads_suffixed_primary (reads_primary_lambda h he hwf hlen (.inr hafter))
      fun head budget hhead _ =>
        (reads_suffixesFrom_nil (by omega) head budget).mono fun _ ha => ha ▸ hhead
  rw [List.append_nil] at hreads
  subst he
  exact .peek hreads

def Connective.token : Connective → Token
  | binary op => op.token
  | logical op => op.token

def Connective.level : Connective → Nat
  | binary op => op.level
  | logical op => op.level

/-- The operators of level `k` and no others. -/
structure IsLevel (k : Nat) (level : Token → Option Connective) : Prop where
  own : ∀ c : Connective, c.level = k → level c.token = some c
  other : ∀ token : Token, token.grip ≠ k → level token = none

theorem isLevel_levels : IsLevel 1 orLevel ∧ IsLevel 2 andLevel ∧ IsLevel 3 equalityLevel ∧
    IsLevel 4 orderingLevel ∧ IsLevel 5 sumLevel ∧ IsLevel 6 productLevel := by
  refine ⟨?_, ?_, ?_, ?_, ?_, ?_⟩
  all_goals
    refine ⟨fun c hc => ?_, fun token h => ?_⟩
    · rcases c with op | op <;> cases op <;> first | rfl | cases hc
    · cases token <;> first | rfl | exact absurd rfl h

theorem Connective.tokens_join (c : Connective) (node : Node) (left right : Expr) :
    (c.join node left right).tokens = left.tokens ++ c.token :: right.tokens := by
  cases c <;> rfl

theorem Connective.bare_join (c : Connective) (node : Node) (left right : Expr) :
    (c.join node left right).bare = c.join default left.bare right.bare := by
  cases c <;> rfl

theorem Connective.grip_token (c : Connective) : c.token.grip = c.level := by
  rcases c with op | op <;> cases op <;> rfl

/-- An expression of the strength of a level is two operands and an operator of that level. -/
theorem exists_join {e : Expr} (hwf : e.wellFormed) (hpos : 0 < e.strength)
    (hlt : e.strength < 7) :
    ∃ (c : Connective) (node : Node) (left right : Expr), e = c.join node left right ∧
      c.level = e.strength ∧ left.wellFormed ∧ right.wellFormed ∧ e.strength ≤ left.strength ∧
      e.strength < right.strength := by
  cases e with
  | binary node op left right =>
    simp only [Expr.wellFormed, Bool.and_eq_true, decide_eq_true_eq] at hwf
    exact ⟨.binary op, node, left, right, rfl, rfl, hwf.1.1.1, hwf.1.1.2, hwf.1.2, hwf.2⟩
  | logical node op left right =>
    simp only [Expr.wellFormed, Bool.and_eq_true, decide_eq_true_eq] at hwf
    exact ⟨.logical op, node, left, right, rfl, rfl, hwf.1.1.1, hwf.1.1.2, hwf.1.2, hwf.2⟩
  | lambda => exact absurd hpos (Nat.lt_irrefl 0)
  | _ => simp [Expr.strength] at hlt

/-- What an operand of level `k` must read: expressions that are held more tightly. -/
def ReadsAbove (k n : Nat) (operand : Parse Expr) : Prop :=
  ∀ (e : Expr) (after : Token), e.wellFormed → k < e.strength → e.tokens.length ≤ n →
    after.grip ≤ k → Reads operand e.tokens after (·.bare = e.bare)

variable {k : Nat} {level : Token → Option Connective} {operand : Parse Expr}

/-- Operands of a level are joined one after the other: where reading goes on behind the expression,
it can start in front of it. -/
theorem reads_joined_onto (hlevel : IsLevel k level) (hpos : 0 < k) (hlt : k < 7)
    (hoperand : ReadsAbove k n operand) {good : Expr → Prop} (size : Nat) :
    ∀ (e : Expr) (more : List Token), e.tokens.length = size → e.wellFormed → k ≤ e.strength →
      size ≤ n → (more.headD after).grip ≤ k →
      (∀ left budget, left.bare = e.bare → more.length ≤ budget.length →
        Reads (joinFrom level operand budget left) more after good) →
      Reads (joined level operand) (e.tokens ++ more) after good := by
  induction size using Nat.strongRecOn with
  | ind size ih =>
  intro e more hsize hwf hk hn hafter hmore
  rcases Nat.eq_or_lt_of_le hk with heq | hk
  · -- the last operator joins the left operand, read so far, with the right one
    obtain ⟨c, node, left, right, rfl, hc, hleft, hright, hleftk, hrightk⟩ :=
      exists_join hwf (heq ▸ hpos) (heq ▸ hlt)
    rw [← heq] at hc hleftk hrightk
    rw [c.tokens_join, List.length_append, List.length_cons] at hsize
    rw [c.tokens_join, List.append_assoc]
    refine ih _ (by omega) left _ rfl hleft hleftk (by omega) ?_ fun l budget hl hbudget => ?_
    · rw [List.cons_append, List.headD_cons, c.grip_token]
      exact Nat.le_of_eq hc
    rw [List.cons_append, List.length_cons, List.length_append] at hbudget
    obtain ⟨_, m, rfl⟩ := List.exists_cons_of_length_pos (l := budget) (by omega)
    rw [List.length_cons] at hbudget
    refine .peek ?_
    rw [List.cons_append, List.headD_cons, hlevel.own c hc]
    refine .skip <| .bind (hoperand right _ hright hrightk (by omega) hafter)
      fun r hr => .look (reads_newNode _) fun _ _ => hmore _ m ?_ (by omega)
    rw [c.bare_join, c.bare_join, hl, hr]
  · exact .bind (hoperand e _ hwf hk (hsize ▸ hn) hafter) fun l hl =>
      .budget fun budget hbudget => hmore l budget hl hbudget

theorem reads_joinFrom_nil (hafter : level after = none) (left : Expr) (budget : List Lexeme) :
    Reads (joinFrom level operand budget left) [] after (· = left) := by
  cases budget with
  | nil => exact .pure rfl
  | cons _ m =>
    refine .peek ?_
    rw [List.headD_nil, hafter]
    exact .pure rfl

/-- A level reads what its operands do and what its operators join. -/
theorem ReadsAbove.joined (hlevel : IsLevel (k + 1) level) (hlt : k + 1 < 7)
    (hoperand : ReadsAbove (k + 1) n operand) : ReadsAbove k n (joined level operand) := by
  intro e after hwf hk hn hafter
  have hreads : Reads (Parser.joined level operand) (e.tokens ++ []) after (·.bare = e.bare) :=
    reads_joined_onto hlevel (Nat.succ_pos k) hlt hoperand _ e [] rfl hwf hk hn
      (Nat.le_succ_of_le hafter) fun left budget hleft _ =>
        (reads_joinFrom_nil (hlevel.other after (by omega)) left budget).mono
          fun _ ha => ha ▸ hleft
  rwa [List.append_nil] at hreads

/-- Where no operator of the level follows, an operand stands alone. -/
theorem Reads.joined {good : Expr → Prop} (h : Reads operand text after good)
    (hafter : level after = none) : Reads (joined level operand) text after good :=
  .last h fun left hleft => .budget fun budget _ =>
    (reads_joinFrom_nil hafter left budget).mono fun _ ha => ha ▸ hleft

theorem reads_expr (h : g.ReadsUpTo n) (e : Expr) (hwf : e.wellFormed)
    (hlen : e.tokens.length ≤ n + 1) (hafter : after.grip = 0) :
    Reads (expr g) e.tokens after (·.bare = e.bare) := by
  obtain ⟨hor, hand, hequality, hordering, hsum, hproduct⟩ := isLevel_levels
  rcases Nat.eq_zero_or_pos e.strength with hzero | hpos
  · cases e with
    | lambda node ps body =>
      have hnone : ∀ {k level}, IsLevel (k + 1) level → level after = none := fun hlevel =>
        hlevel.other after (by omega)
      exact (((((reads_unary_lambda h rfl hwf hlen hafter).joined
        (hnone hproduct)).joined (hnone hsum)).joined
        (hnone hordering)).joined (hnone hequality)).joined (hnone hand)
        |>.joined (hnone hor)
    | binary _ op _ _ | logical _ op _ _ => cases op <;> cases hzero
    | _ => cases hzero
  · have hunary : ReadsAbove 6 (n + 1) (unary g) := fun e after hwf hk hn hafter =>
      reads_unary h e hwf hk hn (Nat.lt_succ_of_le hafter)
    have hexpr : ReadsAbove 0 (n + 1) (expr g) :=
      (((((hunary.joined hproduct (by decide)).joined hsum (by decide)).joined
        hordering (by decide)).joined hequality (by decide)).joined hand
        (by decide)).joined hor (by decide)
    exact hexpr e after hwf hpos hlen (Nat.le_of_eq hafter)

/-! ### Statements -/

theorem reads_declaration (h : g.ReadsUpTo n) (name : String) (init : Option Expr)
    (hwf : Expr.optionWellFormed init) (hlen : (Expr.tokensOfInit init).length ≤ n + 1) :
    Reads (declaration g) (.kwVar :: .ident name :: Expr.tokensOfInit init) .semicolon fun s =>
      s.bare = .declare default name default (Expr.bareOption init) := by
  refine .expected fun _ => .take (reads_expectName name) fun r hname => ?_
  obtain ⟨found, nameSpan⟩ := r
  cases hname
  cases init with
  | none =>
    refine .look (reads_accept_other nofun) fun _ hno => ?_
    rw [hno]
    exact .node fun _ => rfl
  | some e =>
    rw [Expr.tokensOfInit, List.length_cons] at hlen
    refine .take (reads_accept _) fun _ hyes => ?_
    rw [hyes]
    refine .last (reads_expr h e hwf (by omega) rfl) fun e' he' => .node fun _ => ?_
    rw [Stmt.bare, Expr.bareOption, Expr.bareOption, he']

theorem reads_checkTarget {target : Expr} (h : target.isTarget) :
    Reads (checkTarget target) [] after fun _ => True := by
  rw [checkTarget, h]
  exact .pure trivial

theorem reads_stepTarget {target : Expr} (h : target.isTarget) (op : StepOp) :
    Reads (stepTarget target op) [word] after fun s => s.bare = .step default target.bare op :=
  .look (reads_checkTarget h) fun _ _ => .span fun _ => .skip <| .node fun _ => rfl

theorem reads_simpleStmt (h : g.ReadsUpTo n) (s : Stmt) (hwf : s.plainWellFormed false)
    (hlen : s.plainTokens.length ≤ n + 1) (hafter : after = .semicolon ∨ after = .rparen) :
    Reads (simpleStmt g) s.plainTokens after (·.bare = s.bare) := by
  have hgrip : after.grip = 0 := by
    rcases hafter with rfl | rfl <;> rfl
  cases s with
  | expr _ value =>
    refine .last (reads_expr h value hwf hlen hgrip) fun e he => .peek ?_
    have hreads : Reads (newNode e.span >>= fun node => Pure.pure (Stmt.expr node e)) [] after
        (·.bare = (Stmt.expr default value).bare) :=
      .node fun _ => (by rw [Stmt.bare, Stmt.bare, he])
    rcases hafter with rfl | rfl <;> exact hreads
  | assign _ target value =>
    simp only [Stmt.plainWellFormed, Bool.and_eq_true] at hwf
    obtain ⟨⟨htarget, htargetWf⟩, hvalue⟩ := hwf
    simp only [Stmt.plainTokens, List.length_append, List.length_cons] at hlen
    refine .bind (reads_expr h target htargetWf (by omega) rfl) fun t ht => .peek ?_
    have ht' : t.isTarget := by rwa [← t.isTarget_bare, ht, target.isTarget_bare]
    refine .look (reads_checkTarget ht') fun _ _ => .skip <|
      .last (reads_expr h value hvalue (by omega) hgrip) fun v hv => .node fun _ => ?_
    rw [Stmt.bare, Stmt.bare, ht, hv]
  | step _ target op =>
    simp only [Stmt.plainWellFormed, Bool.and_eq_true] at hwf
    simp only [Stmt.plainTokens, List.length_append, List.length_cons] at hlen
    have hop : op.token.grip = 0 := by cases op <;> rfl
    refine .bind (reads_expr h target hwf.2 (by omega) hop) fun t ht => .peek ?_
    have ht' : t.isTarget := by
      rw [← t.isTarget_bare, ht, target.isTarget_bare]
      exact hwf.1
    have hreads : Reads (stepTarget t op) [op.token] after fun s =>
        s.bare = .step default target.bare op := ht ▸ reads_stepTarget ht' op
    cases op <;> exact hreads
  | _ => simp [Stmt.plainWellFormed] at hwf

theorem Reads.condition (h : g.ReadsUpTo n) (e : Expr) (hwf : e.wellFormed)
    (hlen : e.tokens.length ≤ n + 1) {f : Expr → Parse β}
    (hf : ∀ c, c.bare = e.bare → Reads (f c) more after good') :
    Reads (condition g >>= f) (.lparen :: (e.tokens ++ .rparen :: more)) after good' := by
  have hcondition : Reads (Parser.condition g) (.lparen :: (e.tokens ++ [.rparen]))
      (more.headD after) (·.bare = e.bare) :=
    .expected fun _ => .bind (reads_expr h e hwf hlen rfl) fun _ he => .expected fun _ => .pure he
  have hreads := hcondition.bind hf
  rwa [List.cons_append, List.append_assoc, List.singleton_append] at hreads

theorem reads_optionalBefore_none {item : Parse α} {close : Token} :
    Reads (optionalBefore close item) [] close (· = none) :=
  .when rfl (.pure rfl)

theorem reads_optionalBefore_some {item : Parse α} {close : Token}
    (hstart : text.headD after ≠ close) (h : Reads item text after good) :
    Reads (optionalBefore close item) text after fun r => ∃ a, r = some a ∧ good a :=
  .unless hstart (h.last fun a ha => .pure ⟨a, rfl, ha⟩)

theorem reads_optionalExpr (h : g.ReadsUpTo n) (value : Option Expr)
    (hwf : Expr.optionWellFormed value) (hlen : (Expr.tokensOfOption value).length ≤ n + 1) :
    Reads (optionalBefore .semicolon (expr g)) (Expr.tokensOfOption value) .semicolon fun r =>
      Expr.bareOption r = Expr.bareOption value := by
  cases value with
  | none => exact reads_optionalBefore_none.mono fun _ hr => hr ▸ rfl
  | some e =>
    have hstart : e.tokens.headD .semicolon ≠ .semicolon := by
      obtain ⟨first, rest, htokens, hfirst⟩ := e.tokens_start hwf
      rw [htokens]
      rintro rfl
      cases hfirst
    refine (reads_optionalBefore_some hstart (reads_expr h e hwf hlen rfl)).mono ?_
    rintro _ ⟨e', rfl, he'⟩
    rw [Expr.bareOption, Expr.bareOption, he']

theorem reads_forInit (h : g.ReadsUpTo n) (s : Stmt) (hwf : s.plainWellFormed true)
    (hlen : s.plainTokens.length ≤ n + 1) :
    Reads (forInit g) s.plainTokens .semicolon (·.bare = s.bare) := by
  obtain ⟨_, name, _, init, rfl, hinit⟩ | ⟨hplain, token, rest, htokens, htoken⟩ :=
    Stmt.plain_cases hwf
  · simp only [Stmt.plainTokens, List.length_cons] at hlen
    exact .peek (reads_declaration h name init hinit (by omega))
  · refine .peek ?_
    have hreads := reads_simpleStmt h s hplain hlen (.inl rfl)
    rw [htokens] at hreads ⊢
    cases token <;> first | exact hreads | cases htoken

/-- One of the two statements in the head of a loop, which may be missing. -/
theorem reads_optionalStmt {first : Bool} {item : Parse Stmt} {close : Token}
    (hclose : close.startsStmt = false) (s : Option Stmt) (hwf : Stmt.plainOptionWellFormed first s)
    (hitem : ∀ s : Stmt, s.plainWellFormed first → s.plainTokens.length ≤ n →
      Reads item s.plainTokens close (·.bare = s.bare))
    (hlen : (Stmt.plainTokensOfOption s).length ≤ n) :
    Reads (optionalBefore close item) (Stmt.plainTokensOfOption s) close fun r =>
      Stmt.bareOption r = Stmt.bareOption s := by
  cases s with
  | none => exact reads_optionalBefore_none.mono fun _ hr => hr ▸ rfl
  | some s =>
    have hstart : s.plainTokens.headD close ≠ close := by
      obtain ⟨token, rest, htokens, htoken⟩ := Stmt.plainTokens_start hwf
      rw [htokens, List.headD_cons]
      rintro rfl
      exact Bool.false_ne_true (hclose.symm.trans htoken)
    refine (reads_optionalBefore_some hstart (hitem s hwf hlen)).mono ?_
    rintro _ ⟨s', rfl, hs'⟩
    rw [Stmt.bareOption, Stmt.bareOption, hs']

section

variable (h : g.ReadsUpTo n) (start : Span) {s body : Stmt} {node : Node} {e : Expr}
  (hwf : s.wellFormed) (hlen : s.tokens.length ≤ n + 1) (hafter : s.endsOpen → after ≠ .kwElse)

include h hwf hlen hafter

theorem reads_branch {elseBranch : Option Stmt} (hs : s = .branch node e body elseBranch) :
    Reads (branch g start) s.tokens after (·.bare = s.bare) := by
  subst hs
  rw [Stmt.tokens] at hlen ⊢
  simp only [List.length_cons, List.length_append] at hlen
  cases elseBranch with
  | none =>
    simp only [Stmt.wellFormed, Bool.and_eq_true] at hwf
    have hnot : after ≠ .kwElse := hafter (by rw [Stmt.endsOpen])
    refine .skip <| .condition h e hwf.1 (by omega)
      fun c hc => .bind (h.stmt body _ hwf.2 (by omega) fun _ => hnot) fun t ht =>
        .look (reads_accept_other hnot) fun _ hno => ?_
    rw [hno]
    refine .node fun _ => ?_
    rw [Stmt.bare, Stmt.bare, hc, ht]
  | some other =>
    simp only [Stmt.wellFormed, Bool.and_eq_true, Bool.not_eq_true'] at hwf
    obtain ⟨⟨⟨he, hthen⟩, helse⟩, hclosed⟩ := hwf
    rw [Stmt.tokensOfElse, List.length_cons] at hlen
    refine .skip <| .condition h e he (by omega)
      fun c hc => .bind (h.stmt body _ hthen (by omega) ?_) fun t ht =>
        .take (reads_accept _) fun _ hyes => ?_
    · intro hopen
      exact absurd (hclosed.symm.trans hopen) Bool.false_ne_true
    rw [hyes]
    refine .last (h.stmt other after helse (by omega) ?_) fun o ho => .node fun _ => ?_
    · intro hopen
      exact hafter (by rw [Stmt.endsOpen, hopen])
    · rw [Stmt.bare, Stmt.bare, hc, ht, Stmt.bareOption, Stmt.bareOption, ho]

theorem reads_whileLoop (hs : s = .while node e body) :
    Reads (whileLoop g start) s.tokens after (·.bare = s.bare) := by
  subst hs
  rw [Stmt.tokens] at hlen ⊢
  simp only [List.length_cons, List.length_append] at hlen
  simp only [Stmt.wellFormed, Bool.and_eq_true] at hwf
  rw [Stmt.endsOpen] at hafter
  refine .skip <| .condition h e hwf.1 (by omega) fun c hc =>
    .last (h.stmt body after hwf.2 (by omega) hafter) fun b hb => .node fun _ => ?_
  rw [Stmt.bare, Stmt.bare, hc, hb]

theorem reads_forLoop {init step : Option Stmt} {condition : Option Expr}
    (hs : s = .for node init condition step body) :
    Reads (forLoop g start) s.tokens after (·.bare = s.bare) := by
  subst hs
  rw [Stmt.tokens] at hlen ⊢
  simp only [List.length_cons, List.length_append] at hlen
  simp only [Stmt.wellFormed, Bool.and_eq_true] at hwf
  obtain ⟨⟨⟨hinit, hcondition⟩, hstep⟩, hbody⟩ := hwf
  rw [Stmt.endsOpen] at hafter
  have hreadsInit := reads_optionalStmt rfl init hinit (reads_forInit h) (by omega)
  have hreadsStep := reads_optionalStmt (rfl : Token.rparen.startsStmt = false) step hstep
    (fun s hs hlen => reads_simpleStmt h s hs hlen (.inr rfl)) (by omega)
  refine .skip <| .expected fun _ =>
    .bind hreadsInit fun i hi => .take reads_expectSemicolon fun _ _ =>
    .bind (reads_optionalExpr h condition hcondition (by omega)) fun c hc =>
    .take reads_expectSemicolon fun _ _ => .bind hreadsStep fun s hs =>
    .expected fun _ => .last (h.stmt body after hbody (by omega) hafter) fun b hb =>
    .node fun _ => ?_
  rw [Stmt.bare, Stmt.bare, hi, hc, hs, hb]

end

/-- A statement that starts with an expression and not with a brace. -/
theorem reads_stmt_simple (h : g.ReadsUpTo n) (s : Stmt) (hwf : s.plainWellFormed false)
    (hlen : s.plainTokens.length ≤ n + 1) (hbrace : startsWithBrace s.plainTokens = false) :
    Reads (stmt g) (s.plainTokens ++ [.semicolon]) after (·.bare = s.bare) := by
  obtain ⟨_, _, _, _, rfl, _⟩ | ⟨_, token, rest, htokens, htoken⟩ := Stmt.plain_cases hwf
  · simp [Stmt.plainWellFormed] at hwf
  refine .span fun start => .peek ?_
  have hreads : Reads (do
      let s ← simpleStmt g
      let stop ← expectSemicolon
      return s.stretch stop) (s.plainTokens ++ [.semicolon]) after (·.bare = s.bare) :=
    .bind (reads_simpleStmt h s hwf hlen (.inl rfl)) fun s' hs' =>
      .take reads_expectSemicolon fun _ _ => .pure (by rw [Stmt.bare_stretch, hs'])
  have hother : token ≠ .lbrace := by
    rintro rfl
    simp [htokens, startsWithBrace] at hbrace
  rw [htokens] at hreads ⊢
  cases token <;> first | exact hreads | exact absurd rfl hother | cases htoken

theorem reads_stmt (h : g.ReadsUpTo n) (s : Stmt) (hwf : s.wellFormed)
    (hlen : s.tokens.length ≤ n + 1) (hafter : s.endsOpen → after ≠ .kwElse) :
    Reads (stmt g) s.tokens after (·.bare = s.bare) := by
  cases s with
  | block node body =>
    simp only [Stmt.tokens, List.length_cons, List.length_append] at hlen
    refine .span fun _ => .peek <| .last (reads_block h body hwf (by omega)) fun r hr =>
        .node fun _ => ?_
    rw [Stmt.bare, Stmt.bare, hr]
  | declare node name span init =>
    simp only [Stmt.tokens, List.length_cons, List.length_append] at hlen
    exact .span fun _ => .peek <| .bind (reads_declaration h name init hwf (by omega)) fun s hs =>
        .take reads_expectSemicolon fun _ _ => .pure hs
  | branch => exact .span fun start => .peek <| reads_branch h start hwf hlen hafter rfl
  | «while» => exact .span fun start => .peek <| reads_whileLoop h start hwf hlen hafter rfl
  | «for» => exact .span fun start => .peek <| reads_forLoop h start hwf hlen hafter rfl
  | «return» node value =>
    simp only [Stmt.tokens, List.length_cons, List.length_append] at hlen
    refine .span fun _ => .peek <| .skip <|
      .bind (reads_optionalExpr h value hwf (by omega)) fun v hv =>
        .take reads_expectSemicolon fun _ _ => .node fun _ => ?_
    rw [Stmt.bare, Stmt.bare, hv]
  | print node value =>
    simp only [Stmt.tokens, List.length_cons, List.length_append] at hlen
    refine .span fun _ => .peek <| .skip <|
      .bind (reads_expr h value hwf (by omega) rfl) fun v hv =>
        .take reads_expectSemicolon fun _ _ => .node fun _ => ?_
    rw [Stmt.bare, Stmt.bare, hv]
  | expr | assign | step =>
    obtain ⟨hplain, hbrace, htokens⟩ := Stmt.simple_of_wellFormed rfl hwf
    rw [htokens] at hlen ⊢
    rw [List.length_append] at hlen
    exact reads_stmt_simple h _ hplain (by omega) hbrace

/-! ### Scripts -/

/-- A tree has at least one token for each level of nesting. -/
theorem grammar_readsUpTo (n : Nat) : (grammar n).ReadsUpTo n := by
  induction n with
  | zero =>
    have hexpr : ∀ e : Expr, e.wellFormed → ¬ e.tokens.length ≤ 0 := by
      intro e he hlen
      obtain ⟨_, _, htokens, _⟩ := e.tokens_start he
      simp [htokens] at hlen
    refine ⟨fun e _ he hlen => absurd hlen (hexpr e he),
      fun e _ he _ hlen => absurd hlen (hexpr e he), fun s _ hs hlen => ?_⟩
    obtain ⟨_, _, htokens, _⟩ := s.tokens_start hs
    simp [htokens] at hlen
  | succ n ih =>
    exact ⟨fun e _ he hlen => reads_expr ih e he hlen,
      fun e _ he hstrength hlen => reads_unary ih e he hstrength hlen,
      fun s _ hs hlen => reads_stmt ih s hs hlen⟩

theorem scriptFrom_tokensOfAll (h : g.ReadsUpTo n) (body : List Stmt) :
    ∀ (budget : Nat) (s : State), Stmt.allWellFormed body → body.length ≤ budget →
      (Stmt.tokensOfAll body).length ≤ n →
      s.lexemes.map Lexeme.token = Stmt.tokensOfAll body ++ [.eof] →
      Stmt.bareAll (scriptFrom g budget s).1 = Stmt.bareAll body ∧
        (scriptFrom g budget s).2.problems = s.problems := by
  induction body with
  | nil =>
    intro budget s _ _ _ hs
    cases budget with
    | zero => exact ⟨rfl, rfl⟩
    | succ m =>
      obtain ⟨lexeme, hlexemes, htoken⟩ := List.map_eq_singleton_iff.mp hs
      rw [scriptFrom, if_pos (by rw [hlexemes]; exact htoken)]
      exact ⟨rfl, rfl⟩
  | cons first rest ih =>
    intro budget s hwf hbudget hlen hs
    obtain ⟨m, rfl⟩ := Nat.exists_eq_succ_of_ne_zero (Nat.ne_zero_of_lt hbudget)
    simp only [Stmt.allWellFormed, Bool.and_eq_true] at hwf
    rw [Stmt.tokensOfAll, List.length_append] at hlen
    rw [Stmt.tokensOfAll, List.append_assoc] at hs
    obtain ⟨own, others, hlexemes, hown, hothers⟩ := List.map_eq_append_iff.mp hs
    have hnext : upcoming others ≠ .kwElse := by
      have hupcoming : upcoming (others ++ []) = (Stmt.tokensOfAll rest).headD .eof := by
        rw [upcoming_append, hothers]
        cases Stmt.tokensOfAll rest <;> rfl
      rw [List.append_nil] at hupcoming
      rw [hupcoming]
      exact tokensOfAll_headD_ne (by nofun) rest hwf.2
    obtain ⟨a, t, hrun, ha, ht, hproblems⟩ := h.stmt first (upcoming others) hwf.1 (by omega)
      (fun _ => hnext) s own others hlexemes hown rfl
    obtain ⟨hbare, hrest⟩ := ih m t hwf.2 (Nat.le_of_succ_le_succ hbudget) (by omega)
      (by rw [ht, hothers])
    have hmore : ¬ (s.lexemes.head?.map Lexeme.token).getD .eof = .eof := by
      obtain ⟨word, words, hwords, hstart⟩ := first.tokens_start hwf.1
      show ¬ upcoming s.lexemes = .eof
      rw [hlexemes, upcoming_append, hown, hwords, List.headD_cons]
      rintro rfl
      cases hstart
    rw [scriptFrom, if_neg hmore, hrun]
    refine ⟨?_, hrest.trans hproblems⟩
    rw [Stmt.bareAll, Stmt.bareAll, ha, hbare]

theorem length_le_total (lexemes : List Lexeme) :
    lexemes.length ≤ total (lexemes.map fun l => tokenWeight l.token) := by
  induction lexemes with
  | nil => exact Nat.zero_le _
  | cons lexeme rest ih =>
    have hweight : 1 ≤ tokenWeight lexeme.token := by
      unfold tokenWeight
      split <;> omega
    rw [List.length_cons, List.map_cons, total, List.foldr_cons]
    rw [total] at ih
    omega

end HostScript.Parser

namespace HostScript

/-- A script is read back from its tokens, wherever these stand in the text. -/
theorem Script.parse_tokensOfAll (body : List Stmt) (hwf : Stmt.allWellFormed body)
    (lexemes : List Lexeme)
    (hlexemes : lexemes.map Lexeme.token = Stmt.tokensOfAll body ++ [.eof]) :
    ∃ script, Script.parse lexemes = .ok script ∧ Stmt.bareAll script.body = Stmt.bareAll body := by
  have hlength : lexemes.length = (Stmt.tokensOfAll body).length + 1 := by
    rw [← List.length_map (f := Lexeme.token), hlexemes, List.length_append, List.length_singleton]
  have hweight := Parser.length_le_total lexemes
  have hbody := Parser.length_le_tokensOfAll body hwf
  obtain ⟨hbare, hproblems⟩ := Parser.scriptFrom_tokensOfAll
    (Parser.grammar_readsUpTo (Parser.total (lexemes.map fun l => Parser.tokenWeight l.token) + 1))
    body lexemes.length ⟨lexemes, 0, []⟩ hwf (by omega) (by omega) hlexemes
  rw [Script.parse]
  generalize Parser.scriptFrom _ _ _ = result at hbare hproblems
  obtain ⟨parsed, rest, nodeCount, problems⟩ := result
  cases hproblems
  exact ⟨⟨parsed, nodeCount⟩, rfl, hbare⟩

/-- A loop whose head starts with an object, an `if` with an `else` around a loop, and a call of a
lambda with braces. -/
def Script.sampleBody : List Stmt :=
  [.for default (some (.assign default
        (.member default (.object default [.mk "a" default (.ident default "x")]) "a" default)
        (.literal default .null)))
      (some (.logical default .or (.ident default "x")
        (.binary default .lt (.ident default "y") (.unary default .neg (.ident default "z")))))
      (some (.step default (.ident default "x") .increment))
      (.branch default (.ident default "x") (.while default (.ident default "y")
          (.print default (.lambda default [⟨default, "p"⟩] (.expr (.ident default "p")))))
        (some (.return default none))),
    .expr default (.call default (.lambda default [⟨default, "p"⟩, ⟨default, "q"⟩]
        (.block [.return default (some (.ident default "q"))]))
      [.grouping default (.ident default "x")])]

theorem Script.parse_tokensOfAll_sampleBody :
    Stmt.allWellFormed Script.sampleBody ∧ ∃ script,
      Script.parse ((Stmt.tokensOfAll Script.sampleBody ++ [Token.eof]).map (⟨·, default⟩)) =
        .ok script ∧ Stmt.bareAll script.body = Script.sampleBody :=
  ⟨rfl, Script.parse_tokensOfAll Script.sampleBody rfl _
    (by rw [List.map_map]; exact List.map_id _)⟩

end HostScript
