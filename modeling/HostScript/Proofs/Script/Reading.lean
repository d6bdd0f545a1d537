import HostScript.Script.Parser
import HostScript.Proofs.Script.Printing

/-!
# Readers of token texts

A reader is described by the text that it takes and by the token that comes after it. `Reads` has a
rule for each way in which readers are put together: one after the other, looking ahead, in lists,
and with a budget that the text bounds.
-/

namespace HostScript.Parser

variable {α β : Type} {text more : List Token} {after word : Token} {good : α → Prop}
  {good' : β → Prop} {p : Parse α} {f : α → Parse β}

/-- The token that stands first. -/
def upcoming (lexemes : List Lexeme) : Token :=
  (lexemes.head?.map Lexeme.token).getD .eof

/-- The reader takes lexemes with the given tokens if the token `after` follows, and succeeds with a
good result and no further problem. -/
def Reads (p : Parse α) (text : List Token) (after : Token) (good : α → Prop) : Prop :=
  ∀ (s : State) (lexemes rest : List Lexeme), s.lexemes = lexemes ++ rest →
    lexemes.map Lexeme.token = text → upcoming rest = after →
    ∃ a t, p s = .ok a t ∧ good a ∧ t.lexemes = rest ∧ t.problems = s.problems

theorem upcoming_append (lexemes rest : List Lexeme) :
    upcoming (lexemes ++ rest) = (lexemes.map Lexeme.token).headD (upcoming rest) := by
  cases lexemes <;> rfl

/-! ### Sequences -/

theorem Reads.bind (hp : Reads p text (more.headD after) good)
    (hf : ∀ a, good a → Reads (f a) more after good') :
    Reads (p >>= f) (text ++ more) after good' := by
  intro s lexemes rest hs htext hafter
  obtain ⟨first, second, rfl, hfirst, hsecond⟩ := List.map_eq_append_iff.mp htext
  rw [List.append_assoc] at hs
  obtain ⟨a, t, hrun, ha, ht, hproblems⟩ := hp s first (second ++ rest) hs hfirst
    (by rw [upcoming_append, hsecond, hafter])
  obtain ⟨b, u, hrun', hb, hu, hproblems'⟩ := hf a ha t second rest ht hsecond hafter
  refine ⟨b, u, ?_, hb, hu, hproblems'.trans hproblems⟩
  show EStateM.bind p f s = _
  rw [EStateM.bind, hrun]
  exact hrun'

/-- What comes before the text is read without taking a token. -/
theorem Reads.look (hp : Reads p [] (text.headD after) good)
    (hf : ∀ a, good a → Reads (f a) text after good') : Reads (p >>= f) text after good' :=
  hp.bind hf

theorem Reads.take (hp : Reads p [word] (more.headD after) good)
    (hf : ∀ a, good a → Reads (f a) more after good') :
    Reads (p >>= f) (word :: more) after good' :=
  hp.bind hf

/-- The first reader takes the whole text. -/
theorem Reads.last (hp : Reads p text after good) (hf : ∀ a, good a → Reads (f a) [] after good') :
    Reads (p >>= f) text after good' := by
  have h := hp.bind hf
  rwa [List.append_nil] at h

theorem Reads.pure {a : α} (h : good a) : Reads (Pure.pure a) [] after good := by
  intro s lexemes rest hs htext _
  rw [List.map_eq_nil_iff] at htext
  subst htext
  exact ⟨a, s, rfl, h, hs, rfl⟩

theorem Reads.mono {wanted : α → Prop} (h : Reads p text after good)
    (hgood : ∀ a, good a → wanted a) : Reads p text after wanted := by
  intro s lexemes rest hs htext hafter
  obtain ⟨a, t, hrun, ha, ht⟩ := h s lexemes rest hs htext hafter
  exact ⟨a, t, hrun, hgood a ha, ht⟩

/-- The budget of a loop is at least as long as the text that is left. -/
theorem Reads.budget {f : List Lexeme → Parse β}
    (h : ∀ n, text.length ≤ n.length → Reads (f n) text after good') :
    Reads (remaining >>= f) text after good' := by
  intro s lexemes rest hs htext hafter
  refine h s.lexemes ?_ s lexemes rest hs htext hafter
  rw [hs, ← htext, List.length_map, List.length_append]
  exact Nat.le_add_right _ _

/-! ### Single tokens -/

theorem reads_currentToken : Reads current [] after (· = after) := by
  intro s lexemes rest hs htext hafter
  rw [List.map_eq_nil_iff] at htext
  subst htext
  exact ⟨_, s, rfl, by rw [← hafter, hs]; rfl, hs, rfl⟩

theorem reads_currentSpan : Reads currentSpan [] after fun _ => True := by
  intro s lexemes rest hs htext _
  rw [List.map_eq_nil_iff] at htext
  subst htext
  exact ⟨_, s, rfl, trivial, hs, rfl⟩

theorem reads_newNode (span : Span) : Reads (newNode span) [] after fun _ => True := by
  intro s lexemes rest hs htext _
  rw [List.map_eq_nil_iff] at htext
  subst htext
  exact ⟨_, _, rfl, trivial, hs, rfl⟩

theorem reads_advance : Reads advance [word] after fun _ => True := by
  intro s lexemes rest hs htext _
  obtain ⟨lexeme, rfl, _⟩ := List.map_eq_singleton_iff.mp htext
  exact ⟨(), _, rfl, trivial, congrArg List.tail hs, rfl⟩

/-- A reader that looks at the next token and then takes it. -/
theorem Reads.peek {f : Token → Parse β} (h : Reads (f (text.headD after)) text after good') :
    Reads (current >>= f) text after good' :=
  .look reads_currentToken fun _ hfound => hfound ▸ h

theorem Reads.span {f : Span → Parse β} (h : ∀ span, Reads (f span) text after good') :
    Reads (currentSpan >>= f) text after good' :=
  .look reads_currentSpan fun span _ => h span

theorem Reads.skip {f : Unit → Parse β} (h : Reads (f ()) more after good') :
    Reads (advance >>= f) (word :: more) after good' :=
  .take reads_advance fun _ _ => h

/-- A tree is built with a new node. -/
theorem Reads.node {span : Span} {f : Node → β} (h : ∀ node, good' (f node)) :
    Reads (newNode span >>= fun node => Pure.pure (f node)) [] after good' :=
  .look (reads_newNode span) fun node _ => .pure (h node)

theorem reads_expect (token : Token) : Reads (expect token) [token] after fun _ => True := by
  refine .span fun _ => .peek ?_
  rw [List.headD_cons, if_pos rfl]
  exact .skip <| .pure trivial

theorem Reads.expected {f : Span → Parse β} (h : ∀ span, Reads (f span) more after good') :
    Reads (expect word >>= f) (word :: more) after good' :=
  .take (reads_expect word) fun span _ => h span

theorem reads_expectName (name : String) :
    Reads expectName [.ident name] after fun r => r.1 = name :=
  .span fun _ => .peek <| .skip <| .pure rfl

theorem reads_expectSemicolon : Reads expectSemicolon [.semicolon] after fun _ => True :=
  .span fun _ => .peek <| .skip <| .pure trivial

theorem reads_accept (token : Token) : Reads (accept token) [token] after (· = true) := by
  refine .peek ?_
  rw [List.headD_cons, if_pos rfl]
  exact .skip <| .pure rfl

theorem reads_accept_other (h : after ≠ word) : Reads (accept word) [] after (· = false) := by
  refine .peek ?_
  rw [List.headD_nil, if_neg h]
  exact .pure rfl

theorem Reads.when {P : Token → Prop} [DecidablePred P] {p q : Parse β}
    (hP : P (text.headD after)) (h : Reads p text after good') :
    Reads (current >>= fun found => if P found then p else q) text after good' :=
  .peek (by rwa [if_pos hP])

theorem Reads.unless {P : Token → Prop} [DecidablePred P] {p q : Parse β}
    (hP : ¬ P (text.headD after)) (h : Reads q text after good') :
    Reads (current >>= fun found => if P found then p else q) text after good' :=
  .peek (by rwa [if_neg hP])

/-! ### Lists -/

section Lists

variable {γ : Type} {item : Parse α} {print : α → List Token} {key : α → γ} {close : Token}

/-- What the reader of an item must do for lists that end with the token `close`. -/
structure ReadsItem (item : Parse α) (print : α → List Token) (key : α → γ) (close : Token)
    (a : α) : Prop where
  reads : ∀ after, after = .comma ∨ after = close →
    Reads item (print a) after fun b => key b = key a
  start : ∃ first rest, print a = first :: rest ∧ first ≠ close

theorem ReadsItem.start_ne {a : α} (h : ReadsItem item print key close a) (more : List Token) :
    (print a ++ more).headD after ≠ close := by
  obtain ⟨first, rest, hprint, hfirst⟩ := h.start
  rwa [hprint]

/-- A reader of lists that reads an item first, and goes on behind a comma. -/
theorem reads_listed {reader : List Lexeme → Parse (List α)}
    (hreader : ∀ l n a more after good, ReadsItem item print key close a →
      Reads (do
        let first ← item
        if ← accept .comma then
          return first :: (← reader n)
        return [first]) (print a ++ more) after good →
      Reads (reader (l :: n)) (print a ++ more) after good)
    (hclose : close ≠ .comma) (rest : List α) :
    ∀ first budget, (∀ a ∈ first :: rest, ReadsItem item print key close a) →
      rest.length < budget.length →
      Reads (reader budget) (listed print (first :: rest)) close fun bs =>
        bs.map key = (first :: rest).map key := by
  induction rest with
  | nil =>
    intro first budget hitems hbudget
    obtain ⟨l, n, rfl⟩ := List.exists_cons_of_length_pos hbudget
    have hfirst := hitems first List.mem_cons_self
    refine hreader l n first _ _ _ hfirst (.bind (hfirst.reads close (.inr rfl)) fun b hb =>
      .look (reads_accept_other hclose) fun _ h => ?_)
    rw [h]
    exact .pure (by simp [hb])
  | cons second rest ih =>
    intro first budget hitems hbudget
    obtain ⟨l, n, rfl⟩ := List.exists_cons_of_length_pos (Nat.zero_lt_of_lt hbudget)
    have hfirst := hitems first List.mem_cons_self
    refine hreader l n first _ _ _ hfirst (.bind (hfirst.reads .comma (.inl rfl)) fun b hb =>
      .take (reads_accept .comma) fun _ h => ?_)
    rw [h]
    refine (ih second n (fun a ha => hitems a (List.mem_cons_of_mem _ ha))
      (Nat.lt_of_succ_lt_succ hbudget)).last fun bs hbs => .pure ?_
    rw [List.map_cons, hb, hbs, ← List.map_cons]

/-- The commas of a list and the token behind it. -/
theorem length_lt_listed (print : α → List Token) (close : Token) (first : α) (rest : List α) :
    rest.length < (listed print (first :: rest) ++ [close]).length := by
  have h : rest.length ≤ (rest.flatMap fun a => Token.comma :: print a).length := by
    induction rest with
    | nil => exact Nat.zero_le _
    | cons a rest ih =>
      rw [List.flatMap_cons, List.length_append, List.length_cons, List.length_cons]
      omega
  rw [listed, List.length_append, List.length_append, List.length_singleton]
  omega

theorem reads_itemsUntil (hclose : close ≠ .comma) (items : List α)
    (hitems : ∀ a ∈ items, ReadsItem item print key close a) :
    Reads (itemsUntil close item) (listed print items ++ [close]) after fun r =>
      r.1.map key = items.map key := by
  refine .budget fun n hn => ?_
  have hlist : Reads (itemsFrom close item n) (listed print items) close fun bs =>
      bs.map key = items.map key := by
    cases items with
    | nil =>
      obtain ⟨l, n, rfl⟩ := List.exists_cons_of_length_pos hn
      exact .when rfl (.pure rfl)
    | cons first rest =>
      refine reads_listed ?_ hclose rest first n hitems
        (Nat.lt_of_lt_of_le (length_lt_listed print close first rest) hn)
      exact fun _ _ _ _ _ _ ha h => .unless (ha.start_ne _) h
  exact hlist.bind fun bs hbs => .expected fun _ => .pure hbs

theorem reads_arguments (items : List α)
    (hitems : ∀ a ∈ items, ReadsItem item print key .rparen a) :
    Reads (arguments item) (listed print items ++ [.rparen]) after fun r =>
      r.1.map key = items.map key := by
  cases items with
  | nil =>
    refine .when rfl (.look (.pure rfl) fun bs (hbs : [] = bs) => .take (reads_expect _)
      fun _ _ => .pure ?_)
    rw [← hbs]
  | cons first rest =>
    refine .unless ?_ (.budget fun n hn => ?_)
    · rw [listed, List.append_assoc]
      exact (hitems first List.mem_cons_self).start_ne _
    · exact .bind (reads_listed (fun _ _ _ _ _ _ _ h => h) (fun h => Token.noConfusion h) rest first n
        hitems (Nat.lt_of_lt_of_le (length_lt_listed print .rparen first rest) hn)) fun bs hbs =>
          .expected fun _ => .pure hbs

end Lists

/-! ### Lambdas and parentheses -/

/-- `closesParams` on tokens. -/
def closesParamTokens : List Token → Bool
  | .rparen :: .fatArrow :: _ => true
  | .ident _ :: rest => closesParamTokens rest
  | .comma :: rest => closesParamTokens rest
  | _ => false

theorem closesParams_eq (lexemes : List Lexeme) :
    closesParams lexemes = closesParamTokens (lexemes.map Lexeme.token) := by
  fun_induction closesParams lexemes with
  | case1 => rfl
  | case2 _ _ rest ih | case3 _ rest ih => exact ih
  | case4 lexemes h1 h2 h3 =>
    symm
    unfold closesParamTokens
    split
    · rename_i heq
      obtain ⟨⟨_, _⟩, _, rfl, rfl, h⟩ := List.map_eq_cons_iff.mp heq
      obtain ⟨⟨_, _⟩, _, rfl, rfl, _⟩ := List.map_eq_cons_iff.mp h
      exact absurd rfl (h1 _ _ _)
    · rename_i heq
      obtain ⟨⟨_, _⟩, _, rfl, rfl, _⟩ := List.map_eq_cons_iff.mp heq
      exact absurd rfl (h2 _ _ _)
    · rename_i heq
      obtain ⟨⟨_, _⟩, _, rfl, rfl, _⟩ := List.map_eq_cons_iff.mp heq
      exact absurd rfl (h3 _ _)
    · rfl

/-- No expression starts like a list of parameters that ends behind it. -/
theorem closesParamTokens_expr : ∀ (e : Expr) (more : List Token),
    closesParamTokens more = false → closesParamTokens (e.tokens ++ more) = false
  | .literal _ value, _, _ => by
    cases value with
    | bool b => cases b <;> rfl
    | _ => rfl
  | .ident .., _, h => h
  | .binary _ op left _, _, _ | .logical _ op left _, _, _ => by
    rw [Expr.tokens, List.append_assoc]
    exact closesParamTokens_expr left _ (by cases op <;> rfl)
  | .unary _ op _, _, _ => by cases op <;> rfl
  | .member _ head _ _, _, _ | .index _ head _, _, _ | .call _ head _, _, _ => by
    rw [Expr.tokens, List.append_assoc]
    exact closesParamTokens_expr head _ rfl
  | .grouping .., _, _ | .lambda .., _, _ | .object .., _, _ | .array .., _, _ => rfl
  | .interpolated .., _, h => h

theorem closesParamTokens_params (params : List Param) (more : List Token) :
    closesParamTokens (listed Param.tokens params ++ .rparen :: .fatArrow :: more) = true := by
  have hrest : ∀ rest : List Param, closesParamTokens
      ((rest.flatMap fun p => Token.comma :: p.tokens) ++ .rparen :: .fatArrow :: more) = true := by
    intro rest
    induction rest with
    | nil => rfl
    | cons p rest ih => exact ih
  cases params with
  | nil => rfl
  | cons p rest =>
    rw [listed, List.append_assoc]
    exact hrest rest

/-- `startsLambda` on tokens. -/
def startsLambdaTokens : List Token → Bool
  | .ident _ :: .fatArrow :: _ => true
  | .lparen :: rest => closesParamTokens rest
  | _ => false

theorem startsLambda_eq (lexemes : List Lexeme) :
    startsLambda lexemes = startsLambdaTokens (lexemes.map Lexeme.token) := by
  fun_cases startsLambda lexemes with
  | case1 => rfl
  | case2 _ rest => exact closesParams_eq rest
  | case3 _ h1 h2 =>
    symm
    unfold startsLambdaTokens
    split
    · rename_i heq
      obtain ⟨⟨_, _⟩, _, rfl, rfl, h⟩ := List.map_eq_cons_iff.mp heq
      obtain ⟨⟨_, _⟩, _, rfl, rfl, _⟩ := List.map_eq_cons_iff.mp h
      exact absurd rfl (h1 _ _ _ _)
    · rename_i heq
      obtain ⟨⟨_, _⟩, _, rfl, rfl, _⟩ := List.map_eq_cons_iff.mp heq
      exact absurd rfl (h2 _ _)
    · rfl

/-- Behind a primary expression stands no arrow, so it is not read as a lambda. -/
theorem startsLambdaTokens_primary (e : Expr) (he : e.isPrimary) (more : List Token)
    (hmore : more.headD .eof ≠ .fatArrow) : startsLambdaTokens (e.tokens ++ more) = false := by
  have harrow : ∀ rest, more ≠ .fatArrow :: rest := by
    rintro rest rfl
    exact hmore rfl
  cases e with
  | literal _ value =>
    cases value with
    | bool b => cases b <;> rfl
    | _ => rfl
  | ident _ name =>
    show startsLambdaTokens (.ident name :: more) = false
    unfold startsLambdaTokens
    split
    · rename_i heq
      exact absurd (List.cons.inj heq).2 (harrow _)
    · rename_i heq
      exact Token.noConfusion (List.cons.inj heq).1
    · rfl
  | grouping _ inner =>
    show closesParamTokens ((inner.tokens ++ [.rparen]) ++ more) = false
    rw [List.append_assoc]
    refine closesParamTokens_expr inner _ ?_
    show closesParamTokens (.rparen :: more) = false
    unfold closesParamTokens
    split
    · rename_i heq
      exact absurd (List.cons.inj heq).2 (harrow _)
    · rename_i heq
      exact Token.noConfusion (List.cons.inj heq).1
    · rename_i heq
      exact Token.noConfusion (List.cons.inj heq).1
    · rfl
  | object | array => rfl
  | _ => simp [Expr.isPrimary] at he

theorem Reads.ahead {f : State → Parse β}
    (h : ∀ s rest, s.lexemes.map Lexeme.token = text ++ rest → rest.headD .eof = after →
      Reads (f s) text after good') : Reads (get >>= f) text after good' := by
  intro s lexemes rest hs htext hafter
  refine h s (rest.map Lexeme.token) ?_ ?_ s lexemes rest hs htext hafter
  · rw [hs, List.map_append, htext]
  · rw [← hafter]
    cases rest <;> rfl

end HostScript.Parser
