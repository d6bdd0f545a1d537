import HostScript.Token.Lexer
import Mathlib.Data.List.Infix
import Mathlib.Data.List.TakeWhile
import Mathlib.Data.String.Basic

/-!
# Lexemes tile their text

The text of a script is cut into lexemes with blanks and complete comments between them. Each lexeme
is read from its own text alone, wherever it stands. If a piece of a script is refused, the problems
lie inside it.
-/

namespace HostScript.Lexer

open String (utf8Len)

theorem utf8Len_eq_length {cs : List Char} (h : ∀ c ∈ cs, c.utf8Size = 1) :
    utf8Len cs = cs.length := by
  induction cs with
  | nil => rfl
  | cons c cs ih =>
    rw [List.forall_mem_cons] at h
    rw [String.utf8Len_cons, h.1, ih h.2, List.length_cons]

/-- The span lies between two places. -/
def Within (low high : Nat) (p : Problem) : Prop :=
  low ≤ p.span.start ∧ p.span.start ≤ p.span.stop ∧ p.span.stop ≤ high

theorem Within.mono {low low' high high' : Nat} {p : Problem} (h : Within low high p)
    (hlow : low' ≤ low) (hhigh : high ≤ high') : Within low' high' p :=
  ⟨hlow.trans h.1, h.2.1, h.2.2.trans hhigh⟩

/-! ### What stands between lexemes -/

/-- Blanks and complete comments in front of a text. A comment of one line ends with the line or
with the whole text; a block comment ends at the first mark that closes it. -/
inductive Skipped : List Char → List Char → Prop where
  | nil {rest} : Skipped [] rest
  | blank {c gap rest} : isBlank c = true → Skipped gap rest → Skipped (c :: gap) rest
  | line {text gap rest} : '\n' ∉ text → (∀ c ∈ (gap ++ rest).head?, c = '\n') →
      Skipped gap rest → Skipped ('/' :: '/' :: (text ++ gap)) rest
  | block {text gap rest} : ¬ ['*', '/'] <:+: text → Skipped gap rest →
      Skipped ('/' :: '*' :: (text ++ '*' :: '/' :: gap)) rest

/-- What is skipped from the middle of a gap. -/
def Gap.Skips : Gap → List Char → List Char → Prop
  | .blank, gap, rest => Skipped gap rest
  | .line, gap, rest => ∃ text tail, gap = text ++ tail ∧ '\n' ∉ text ∧
      (∀ c ∈ (tail ++ rest).head?, c = '\n') ∧ Skipped tail rest
  | .block _, gap, rest => ∃ text tail, gap = text ++ '*' :: '/' :: tail ∧
      ¬ ['*', '/'] <:+: text ∧ Skipped tail rest

theorem utf8Size_of_isBlank {c : Char} (h : isBlank c = true) : c.utf8Size = 1 := by
  simp only [isBlank, Bool.or_eq_true, beq_iff_eq] at h
  rcases h with ((rfl | rfl) | rfl) | rfl <;> rfl

/-- A comment that was opened is inside the text. -/
def Gap.From (low offset : Nat) : Gap → Prop
  | .block start => low ≤ start ∧ start ≤ offset
  | _ => low ≤ offset

/-- The reader of gaps took a gap in front of what it left. -/
def Gap.Cut (mode : Gap) (low offset : Nat) (cs : List Char) (r : Cursor × Option Problem) : Prop :=
  ∃ gap, cs = gap ++ r.1.rest ∧ r.1.offset = offset + utf8Len gap ∧
    (r.2 = none → mode.Skips gap r.1.rest) ∧ (∀ p ∈ r.2, Within low r.1.offset p) ∧
    ∀ c ∈ r.1.rest.head?, isBlank c = false

theorem Gap.Cut.prepend {mode mode' : Gap} {low offset offset' : Nat} {cs : List Char}
    {r : Cursor × Option Problem} (front : List Char) (h : mode'.Cut low offset' cs r)
    (hoffset : offset' = offset + utf8Len front)
    (hskips : ∀ gap, cs = gap ++ r.1.rest → mode'.Skips gap r.1.rest →
      mode.Skips (front ++ gap) r.1.rest) : mode.Cut low offset (front ++ cs) r := by
  obtain ⟨gap, hcut, hstop, hgap, hinside, hhead⟩ := h
  refine ⟨front ++ gap, by rw [hcut, List.append_assoc], ?_, hskips gap hcut ∘ hgap, hinside, hhead⟩
  rw [hstop, hoffset, String.utf8Len_append, Nat.add_assoc]

theorem skipGap_cut {low : Nat} (mode : Gap) (cs : List Char) (offset : Nat)
    (hmode : mode.From low offset) : mode.Cut low offset cs (skipGap mode cs offset) := by
  fun_induction skipGap mode cs offset with
  | case1 cs offset ih =>
    refine (ih (Nat.le_add_right_of_le hmode)).prepend ['/', '/'] rfl fun gap _ hgap => ?_
    obtain ⟨text, tail, rfl, htext, hend, htail⟩ := hgap
    show Skipped ('/' :: '/' :: (text ++ tail)) _
    exact .line htext hend htail
  | case2 cs offset ih =>
    refine (ih ⟨hmode, Nat.le_add_right ..⟩).prepend ['/', '*'] rfl fun gap _ hgap => ?_
    obtain ⟨text, tail, rfl, htext, htail⟩ := hgap
    exact Skipped.block htext htail
  | case3 c cs offset hline hblock hblank ih =>
    have hsize := utf8Size_of_isBlank hblank
    refine (ih (Nat.le_add_right_of_le hmode)).prepend [c] (by simp [hsize]) fun gap _ hgap => ?_
    exact Skipped.blank hblank hgap
  | case4 c cs offset hline hblock hblank =>
    exact ⟨[], rfl, rfl, fun _ => .nil, by simp, by simpa using hblank⟩
  | case5 c cs offset ih =>
    have hlow : low ≤ offset + c.utf8Size := Nat.le_add_right_of_le hmode
    by_cases hc : c = '\n'
    · subst hc
      rw [if_pos (beq_self_eq_true _)] at ih ⊢
      refine (ih hlow).prepend ['\n'] rfl fun gap _ hgap => ?_
      exact ⟨[], '\n' :: gap, rfl, nofun, by simp, .blank rfl hgap⟩
    · simp only [beq_iff_eq, hc, if_false] at ih ⊢
      refine (ih hlow).prepend [c] (by simp) fun gap _ hgap => ?_
      obtain ⟨text, tail, rfl, htext, hend, htail⟩ := hgap
      exact ⟨c :: text, tail, rfl, by simp [htext, Ne.symm hc], hend, htail⟩
  | case6 start cs offset ih =>
    have hlow : low ≤ offset := hmode.1.trans hmode.2
    refine (ih (Nat.le_add_right_of_le hlow)).prepend ['*', '/'] rfl fun gap _ hgap => ?_
    exact ⟨[], gap, rfl, by simp, hgap⟩
  | case7 start c cs offset hclose ih =>
    have hstart : start ≤ offset + c.utf8Size := Nat.le_add_right_of_le hmode.2
    refine (ih ⟨hmode.1, hstart⟩).prepend [c] (by simp) fun gap hcut hgap => ?_
    obtain ⟨text, tail, rfl, htext, htail⟩ := hgap
    refine ⟨c :: text, tail, rfl, ?_, htail⟩
    -- a mark that starts at `c` would have closed the comment
    rw [List.infix_cons_iff, not_or]
    refine ⟨?_, htext⟩
    rintro ⟨after, hafter⟩
    cases text with
    | nil => cases hafter
    | cons d text =>
      cases hafter
      exact hclose _ rfl hcut
  | case8 start offset =>
    refine ⟨[], rfl, rfl, nofun, ?_, by simp⟩
    rintro p ⟨⟩
    exact ⟨hmode.1, hmode.2, le_rfl⟩
  | case9 mode offset hopen =>
    refine ⟨[], rfl, rfl, fun _ => ?_, by simp, by simp⟩
    cases mode with
    | blank => exact .nil
    | line => exact ⟨[], [], rfl, nofun, nofun, .nil⟩
    | block start => exact absurd rfl (hopen start)

/-! ### Strings -/

/-- A reader took the front `text` of `cs`, and its problems lie inside what it read. -/
structure Taken (low offset : Nat) (cs text : List Char) (problems : List Problem)
    (cursor : Cursor) : Prop where
  cut : cs = text ++ cursor.rest
  stop : cursor.offset = offset + utf8Len text
  inside : ∀ p ∈ problems, Within low cursor.offset p

variable {low offset offset' : Nat} {cs text : List Char} {problems : List Problem}
  {cursor : Cursor}

theorem Taken.prepend (front : List Char) (h : Taken low offset' cs text problems cursor)
    (hoffset : offset' = offset + utf8Len front) :
    Taken low offset (front ++ cs) (front ++ text) problems cursor where
  cut := by rw [h.cut, List.append_assoc]
  stop := by rw [h.stop, hoffset, String.utf8Len_append, Nat.add_assoc]
  inside := h.inside

theorem Taken.report (h : Taken low offset cs text problems cursor) {p : Problem}
    (hp : Within low cursor.offset p) : Taken low offset cs text (p :: problems) cursor :=
  { h with inside := List.forall_mem_cons.mpr ⟨hp, h.inside⟩ }

theorem Taken.none (rest : List Char) : Taken low offset rest [] [] ⟨rest, offset⟩ :=
  ⟨rfl, rfl, List.forall_mem_nil _⟩

/-- The same body in front of another rest. -/
def Body.before (rest : List Char) (body : Body) : Body :=
  { body with cursor.rest := rest }

theorem utf8Len_escape (offset : Nat) (c : Char) :
    offset + 1 + c.utf8Size = offset + utf8Len ['\\', c] := by
  show _ = offset + (0 + c.utf8Size + 1)
  omega

/-- What stands before the closing quote of a string is read the same in front of any rest. -/
theorem stringBody_taken (cs : List Char) (offset : Nat) (hlow : low ≤ offset) :
    ∃ text, Taken low offset cs text (stringBody cs offset).problems (stringBody cs offset).cursor ∧
      ((stringBody cs offset).cursor.rest.head? = some '"' → ∀ tail,
        stringBody (text ++ '"' :: tail) offset = (stringBody cs offset).before ('"' :: tail)) := by
  fun_induction stringBody cs offset with
  | case1 offset => exact ⟨[], .none [], nofun⟩
  | case2 offset => exact ⟨['\\'], ⟨rfl, rfl, List.forall_mem_nil _⟩, nofun⟩
  | case3 c cs offset stop e he ih =>
    obtain ⟨text, htaken, hagain⟩ := ih (by omega)
    refine ⟨'\\' :: c :: text, htaken.prepend ['\\', c] (utf8Len_escape offset c), ?_⟩
    intro hquote tail
    rw [List.cons_append, List.cons_append, stringBody, he]
    exact congrArg (Body.push e) (hagain hquote tail)
  | case4 c cs offset stop he ih =>
    obtain ⟨text, htaken, hagain⟩ := ih (by omega)
    have hstop := htaken.stop
    refine ⟨'\\' :: c :: text, (htaken.prepend ['\\', c] (utf8Len_escape offset c)).report
      ⟨hlow, by grind, by grind⟩, fun hquote tail => ?_⟩
    rw [List.cons_append, List.cons_append, stringBody, he]
    exact congrArg (fun body => Body.report _ (body.push c)) (hagain hquote tail)
  | case5 c cs offset hsingle hescape hend =>
    refine ⟨[], .none _, fun hquote tail => ?_⟩
    cases hquote
    rfl
  | case6 c cs offset hsingle hescape hend ih =>
    obtain ⟨text, htaken, hagain⟩ := ih (by omega)
    refine ⟨c :: text, htaken.prepend [c] (by simp), fun hquote tail => ?_⟩
    have hc : c ≠ '\\' := by
      rintro rfl
      cases cs with
      | nil => exact hsingle rfl rfl
      | cons d cs => exact hescape d cs rfl rfl
    rw [List.cons_append, stringBody, if_neg hend, hagain hquote tail]
    · rfl
    · exact fun h => absurd h hc
    · exact fun _ _ h => absurd h hc

/-- Code that was opened is inside the text. -/
def Part.From (low offset : Nat) : Part → Prop
  | .text _ => low ≤ offset
  | .code start _ _ => low ≤ start - 1 ∧ start - 1 ≤ offset

def Segments.before (rest : List Char) (s : Segments) : Segments :=
  { s with cursor.rest := rest }

theorem Segments.before_pushText (rest collected : List Char) (s : Segments) :
    (s.pushText collected).before rest = (s.before rest).pushText collected := by
  unfold Segments.pushText
  split <;> rfl

@[simp] theorem Segments.cursor_pushText (collected : List Char) (s : Segments) :
    (s.pushText collected).cursor = s.cursor := by
  unfold Segments.pushText
  split <;> rfl

@[simp] theorem Segments.problems_pushText (collected : List Char) (s : Segments) :
    (s.pushText collected).problems = s.problems := by
  unfold Segments.pushText
  split <;> rfl

theorem interpolatedBody_taken (part : Part) (cs : List Char) (offset : Nat)
    (hpart : part.From low offset) :
    ∃ text, Taken low offset cs text (interpolatedBody part cs offset).problems
        (interpolatedBody part cs offset).cursor ∧
      ((interpolatedBody part cs offset).cursor.rest.head? = some '"' → ∀ tail,
        interpolatedBody part (text ++ '"' :: tail) offset =
          (interpolatedBody part cs offset).before ('"' :: tail)) := by
  fun_induction interpolatedBody part cs offset with
  | case1 collected offset =>
    simp only [Segments.problems_pushText, Segments.cursor_pushText]
    exact ⟨[], .none [], nofun⟩
  | case2 collected offset =>
    simp only [Segments.problems_pushText, Segments.cursor_pushText]
    exact ⟨['\\'], ⟨rfl, rfl, List.forall_mem_nil _⟩, nofun⟩
  | case3 collected c cs offset stop e he ih =>
    obtain ⟨text, htaken, hagain⟩ := ih (by grind [Part.From])
    refine ⟨'\\' :: c :: text, htaken.prepend ['\\', c] (utf8Len_escape offset c), ?_⟩
    intro hquote tail
    rw [List.cons_append, List.cons_append, interpolatedBody, he]
    exact hagain hquote tail
  | case4 collected c cs offset stop he ih =>
    obtain ⟨text, htaken, hagain⟩ := ih (by grind [Part.From])
    have hstop := htaken.stop
    refine ⟨'\\' :: c :: text, (htaken.prepend ['\\', c] (utf8Len_escape offset c)).report
      ⟨hpart, by grind, by grind⟩, fun hquote tail => ?_⟩
    rw [List.cons_append, List.cons_append, interpolatedBody, he]
    exact congrArg (Segments.report _) (hagain hquote tail)
  | case5 collected c cs offset hsingle hescape hopen ih =>
    obtain rfl := eq_of_beq hopen
    obtain ⟨text, htaken, hagain⟩ := ih (by simpa [Part.From] using hpart)
    simp only [Segments.problems_pushText, Segments.cursor_pushText, Segments.before_pushText]
    refine ⟨'\x7b' :: text, htaken.prepend ['\x7b'] rfl, fun hquote tail => ?_⟩
    rw [List.cons_append, interpolatedBody, if_pos (beq_self_eq_true _), hagain hquote tail]
    · exact fun h => absurd h (by decide)
    · exact fun _ _ h => absurd h (by decide)
  | case6 collected c cs offset hsingle hescape hopen hend =>
    simp only [Segments.problems_pushText, Segments.cursor_pushText, Segments.before_pushText]
    refine ⟨[], .none _, fun hquote tail => ?_⟩
    cases hquote
    rfl
  | case7 collected c cs offset hsingle hescape hopen hend ih =>
    obtain ⟨text, htaken, hagain⟩ := ih (Nat.le_add_right_of_le hpart)
    refine ⟨c :: text, htaken.prepend [c] (by simp), fun hquote tail => ?_⟩
    have hc : c ≠ '\\' := by
      rintro rfl
      cases cs with
      | nil => exact hsingle rfl rfl
      | cons d cs => exact hescape d cs rfl rfl
    rw [List.cons_append, interpolatedBody, if_neg hopen, if_neg hend, hagain hquote tail]
    · exact fun h => absurd h hc
    · exact fun _ _ h => absurd h hc
  | case8 start depth collected offset =>
    exact ⟨[], (Taken.none []).report ⟨hpart.1, hpart.2, le_rfl⟩, nofun⟩
  | case9 start collected c cs offset hclose ih =>
    obtain rfl := eq_of_beq hclose
    obtain ⟨text, htaken, hagain⟩ := ih (Nat.le_add_right_of_le (hpart.1.trans hpart.2))
    refine ⟨'\x7d' :: text, htaken.prepend ['\x7d'] rfl, fun hquote tail => ?_⟩
    exact congrArg (Segments.push _) (hagain hquote tail)
  | case10 start collected c cs offset hclose depth ih =>
    obtain rfl := eq_of_beq hclose
    obtain ⟨text, htaken, hagain⟩ := ih ⟨hpart.1, Nat.le_add_right_of_le hpart.2⟩
    exact ⟨'\x7d' :: text, htaken.prepend ['\x7d'] rfl, hagain⟩
  | case11 start depth collected c cs offset hclose hend =>
    refine ⟨[], (Taken.none _).report ⟨hpart.1, hpart.2, le_rfl⟩, fun hquote tail => ?_⟩
    cases hquote
    rfl
  | case12 start depth collected c cs offset hclose hend depth' ih =>
    obtain ⟨text, htaken, hagain⟩ := ih ⟨hpart.1, Nat.le_add_right_of_le hpart.2⟩
    refine ⟨c :: text, htaken.prepend [c] (by simp), fun hquote tail => ?_⟩
    rw [List.cons_append, interpolatedBody.eq_def]
    dsimp only
    rw [if_neg hclose, if_neg hend]
    exact hagain hquote tail

theorem closeString_quote (start : Nat) (rest : List Char) (offset : Nat) :
    closeString start ⟨'"' :: rest, offset⟩ = (⟨rest, offset + 1⟩, []) := rfl

theorem closeString_taken (start : Nat) (h : Taken low offset cs text problems cursor)
    (hstart : low ≤ start) (hle : start ≤ offset) :
    ∃ text', Taken low offset cs text' (problems ++ (closeString start cursor).2)
        (closeString start cursor).1 ∧
      (problems ++ (closeString start cursor).2 = [] → problems = [] ∧
        cursor.rest.head? = some '"' ∧ text' = text ++ ['"'] ∧
        (closeString start cursor).1.offset = cursor.offset + 1) := by
  unfold closeString
  split
  · next rest hrest =>
    refine ⟨text ++ ['"'], ⟨?_, ?_, ?_⟩, ?_⟩
    · rw [h.cut, hrest, List.append_assoc]
      rfl
    · rw [h.stop, String.utf8Len_append, Nat.add_assoc]
      rfl
    · rw [List.append_nil]
      exact fun p hp => (h.inside p hp).mono le_rfl (Nat.le_add_right ..)
    · rw [List.append_nil, hrest]
      exact fun hnone => ⟨hnone, rfl, rfl, rfl⟩
  · refine ⟨text, ⟨h.cut, h.stop, ?_⟩, by simp⟩
    have hstop := h.stop
    simp only [List.mem_append, List.mem_singleton]
    rintro p (hp | rfl)
    · exact h.inside p hp
    · exact ⟨hstart, by grind, le_rfl⟩

/-! ### One step -/

/-- A step took a text that starts with `c`. If it met no problem it gives a token, and reading the
text again where nothing follows gives the same one. -/
def Step.Cut (c : Char) (cs : List Char) (offset : Nat) (s : Step)
    (again : List Char → Step) : Prop :=
  ∃ text, Taken offset offset (c :: cs) (c :: text) s.problems s.cursor ∧
    (s.problems = [] → ∃ token, s.lexeme = some ⟨token, offset, s.cursor.offset⟩ ∧
      again text = .token token offset s.cursor.offset [])

variable {c : Char} {again again' : List Char → Step}

theorem Step.Cut.of_again {s : Step} (h : s.Cut c cs offset again)
    (heq : ∀ text, text <+: cs → again' text = again text) : s.Cut c cs offset again' := by
  obtain ⟨text, htaken, htoken⟩ := h
  refine ⟨text, htaken, fun hnone => ?_⟩
  rw [heq text ⟨_, (List.cons_inj_right c).mp htaken.cut.symm⟩]
  exact htoken hnone

theorem Step.Cut.token (token : Token) (text : List Char) {rest : List Char} {stop : Nat}
    (hcut : cs = text ++ rest) (hstop : stop = offset + utf8Len (c :: text))
    (hagain : again text = .token token offset stop []) :
    (Step.token token offset stop rest).Cut c cs offset again :=
  ⟨text, ⟨by rw [hcut]; rfl, hstop, List.forall_mem_nil _⟩, fun _ => ⟨token, rfl, hagain⟩⟩

theorem Step.Cut.problem (problem : LexProblem) {stop : Nat} (hstop : stop = offset + c.utf8Size) :
    (Step.problem problem offset stop cs).Cut c cs offset again := by
  refine ⟨[], ⟨rfl, by simp [Step.problem, hstop], ?_⟩, nofun⟩
  simp [Step.problem, Within, hstop]

theorem utf8Size_of_isWordChar (h : isWordChar c = true) : c.utf8Size = 1 := by
  rw [Char.utf8Size_eq_one_iff]
  unfold isWordChar Char.isAlphanum Char.isAlpha Char.isUpper Char.isLower Char.isDigit at h
  simp only [Bool.or_eq_true, Bool.and_eq_true, decide_eq_true_eq, beq_iff_eq] at h
  rcases h with ((h | h) | h) | rfl
  · exact UInt32.le_trans h.2 (by decide)
  · exact UInt32.le_trans h.2 (by decide)
  · exact UInt32.le_trans h.2 (by decide)
  · decide

theorem isWordChar_of_isDigit (h : c.isDigit = true) : isWordChar c = true := by
  simp [isWordChar, Char.isAlphanum, h]

theorem isWordChar_of_isWordStart (h : isWordStart c = true) : isWordChar c = true := by
  simp only [isWordStart, Bool.or_eq_true] at h
  rcases h with h | h <;> simp [isWordChar, Char.isAlphanum, h]

theorem utf8Size_of_single? {token : Token} (h : single? c = some token) : c.utf8Size = 1 := by
  unfold single? at h
  split at h
  case h_20 => cases h
  all_goals rfl

theorem utf8Size_of_double? {d : Char} {token : Token} (h : double? c d = some token) :
    c.utf8Size = 1 ∧ d.utf8Size = 1 := by
  unfold double? at h
  split at h
  case h_10 => cases h
  all_goals decide

theorem word_cut (hc : isWordStart c = true) :
    (word (c :: cs) offset).Cut c cs offset fun text => word (c :: text) offset := by
  have hword := isWordChar_of_isWordStart hc
  have htext : ∀ d ∈ c :: cs.takeWhile isWordChar, isWordChar d = true :=
    List.forall_mem_cons.mpr ⟨hword, fun _ => List.mem_takeWhile_imp⟩
  have hlength := utf8Len_eq_length fun d hd => utf8Size_of_isWordChar (htext d hd)
  simp only [word, List.takeWhile_cons_of_pos hword, List.dropWhile_cons_of_pos hword]
  refine .token _ (cs.takeWhile isWordChar) List.takeWhile_append_dropWhile.symm
    (by rw [hlength]) ?_
  rw [List.takeWhile_idem, List.dropWhile_eq_nil_iff.mpr fun _ => List.mem_takeWhile_imp]

theorem number_cut (hc : c.isDigit = true) :
    (number (c :: cs) offset).Cut c cs offset fun text => number (c :: text) offset := by
  have hdigits : ∀ {ds : List Char}, ∀ d ∈ ds.takeWhile Char.isDigit, d.isDigit = true :=
    fun _ => List.mem_takeWhile_imp
  have hlength : ∀ ds : List Char,
      utf8Len (ds.takeWhile Char.isDigit) = (ds.takeWhile Char.isDigit).length := fun ds =>
    utf8Len_eq_length fun d hd => utf8Size_of_isWordChar (isWordChar_of_isDigit (hdigits d hd))
  have hsize := utf8Size_of_isWordChar (isWordChar_of_isDigit hc)
  have hcs := List.takeWhile_append_dropWhile (p := Char.isDigit) (l := cs)
  -- digits alone, where no fraction follows
  have hwhole : (Step.token (.number (Number.ofDigits (c :: cs.takeWhile Char.isDigit) [])) offset
      (offset + (c :: cs.takeWhile Char.isDigit).length)
      (cs.dropWhile Char.isDigit)).Cut c cs offset fun text => number (c :: text) offset := by
    refine .token _ (cs.takeWhile Char.isDigit) hcs.symm (by simp [hlength, hsize]) ?_
    simp [number, hc, List.takeWhile_idem, List.dropWhile_eq_nil_iff.mpr hdigits]
  have hfraction : ∀ d more, cs.dropWhile Char.isDigit = '.' :: d :: more → d.isDigit = true →
      (Step.token (.number (Number.ofDigits (c :: cs.takeWhile Char.isDigit)
        ((d :: more).takeWhile Char.isDigit))) offset
        (offset + (c :: cs.takeWhile Char.isDigit).length + 1 +
          ((d :: more).takeWhile Char.isDigit).length)
        ((d :: more).dropWhile Char.isDigit)).Cut c cs offset
      fun text => number (c :: text) offset := by
    intro d more hrest hd
    refine .token _ (cs.takeWhile Char.isDigit ++ '.' :: (d :: more).takeWhile Char.isDigit)
      ?_ ?_ ?_
    · rw [List.append_assoc, List.cons_append, List.takeWhile_append_dropWhile, ← hrest, hcs]
    · rw [String.utf8Len_cons, String.utf8Len_append, String.utf8Len_cons, hlength, hlength, hsize,
        List.length_cons, show '.'.utf8Size = 1 from rfl]
      omega
    · simp [number, hc, hd, List.takeWhile_append_of_pos hdigits,
        List.dropWhile_append_of_pos hdigits, List.takeWhile_idem,
        List.dropWhile_eq_nil_iff.mpr hdigits]
  generalize (fun text => number (c :: text) offset) = again at *
  simp only [number, List.takeWhile_cons_of_pos hc, List.dropWhile_cons_of_pos hc]
  split
  · next d more hrest =>
    split
    · next hd => exact hfraction d more hrest hd
    · exact hrest ▸ hwhole
  · exact hwhole

theorem string_cut (cs : List Char) (offset : Nat) :
    (string cs offset).Cut '"' cs offset fun text => string text offset := by
  obtain ⟨body, hbody, hagain⟩ := stringBody_taken cs (offset + 1) (Nat.le_succ offset)
  obtain ⟨text, htaken, hclosed⟩ := closeString_taken offset hbody le_rfl (Nat.le_succ offset)
  refine ⟨text, htaken.prepend ['"'] rfl, fun hnone => ?_⟩
  obtain ⟨hproblems, hquote, rfl, hstop⟩ := hclosed hnone
  refine ⟨_, rfl, ?_⟩
  simp [string, hagain hquote, Body.before, closeString_quote, hproblems, hstop, Step.token]

theorem interpolated_cut (cs : List Char) (offset : Nat) :
    (interpolated cs offset).Cut '$' ('"' :: cs) offset fun text => step '$' text offset := by
  have hlow : offset ≤ offset + 2 := Nat.le_add_right ..
  obtain ⟨body, hbody, hagain⟩ := interpolatedBody_taken (.text []) cs (offset + 2) hlow
  obtain ⟨text, htaken, hclosed⟩ := closeString_taken offset hbody le_rfl hlow
  refine ⟨'"' :: text, htaken.prepend ['$', '"'] rfl, fun hnone => ?_⟩
  obtain ⟨hproblems, hquote, rfl, hstop⟩ := hclosed hnone
  refine ⟨_, rfl, ?_⟩
  show interpolated (body ++ ['"']) offset = _
  simp [interpolated, hagain hquote, Segments.before, closeString_quote, hproblems, hstop,
    Step.token]

theorem step_cut (c : Char) (cs : List Char) (offset : Nat) :
    (step c cs offset).Cut c cs offset fun text => step c text offset := by
  -- a part of the text starts with the same characters, so it is read by the same rule
  have hprefix : ∀ text, text <+: cs → cs.head?.bind (double? c) = none →
      text.head?.bind (double? c) = none := by
    rintro text ⟨rest, rfl⟩ hdouble
    cases text with
    | nil => rfl
    | cons d text => exact hdouble
  generalize hagain : (fun text => step c text offset) = again
  unfold step
  split
  · next token htoken =>
    obtain ⟨d, hd, hdouble⟩ := Option.bind_eq_some_iff.mp htoken
    obtain ⟨rest, rfl⟩ := List.head?_eq_some_iff.mp hd
    obtain ⟨hc, hd⟩ := utf8Size_of_double? hdouble
    refine .token token [d] rfl (by simp [hc, hd]) ?_
    rw [← hagain]
    simp [step, hdouble]
  next hdouble =>
  split
  · next token htoken =>
    refine .token token [] rfl (by simp [utf8Size_of_single? htoken]) ?_
    rw [← hagain]
    simp [step, htoken]
  next hsingle =>
  split
  · next hc => exact .problem _ (by rw [eq_of_beq hc]; rfl)
  next hbar =>
  split
  · next hc => exact .problem _ (by rw [eq_of_beq hc]; rfl)
  next hampersand =>
  split
  · next hdollar =>
    rw [Bool.and_eq_true, beq_iff_eq, beq_iff_eq, List.head?_eq_some_iff] at hdollar
    obtain ⟨rfl, rest, rfl⟩ := hdollar
    exact hagain ▸ interpolated_cut rest offset
  next hdollar =>
  have hdollar' : ∀ text, text <+: cs → ¬ (c == '$' && text.head? == some '"') = true := by
    rintro text ⟨rest, rfl⟩
    cases text with
    | nil => simp
    | cons d text => exact hdollar
  split
  · next hquote =>
    obtain rfl := eq_of_beq hquote
    refine (string_cut cs offset).of_again fun text htext => ?_
    rw [← hagain]
    show step '"' text offset = _
    rw [step, hprefix text htext hdouble]
    rfl
  next hquote =>
  split
  · next hdigit =>
    refine (number_cut hdigit).of_again fun text htext => ?_
    simp only [← hagain, step, hprefix text htext hdouble, hsingle, hbar, hampersand,
      hdollar' text htext, hquote, hdigit, if_true]
    simp
  next hdigit =>
  split
  · next hword =>
    refine (word_cut hword).of_again fun text htext => ?_
    simp only [← hagain, step, hprefix text htext hdouble, hsingle, hbar, hampersand,
      hdollar' text htext, hquote, hdigit, hword, if_true]
    simp
  · exact .problem _ rfl

theorem step_slash (cs : List Char) (offset : Nat) :
    step '/' cs offset = .token .slash offset (offset + 1) cs := by
  cases cs <;> rfl

/-! ### The whole text -/

/-- The text from byte `base` on is cut into lexemes. Each of them is what its own text gives alone,
and blanks and comments stand between them. -/
inductive Tiles : Nat → List Char → List Lexeme → Prop where
  | last {base gap} : Skipped gap [] →
      Tiles base gap [⟨.eof, base + utf8Len gap, base + utf8Len gap⟩]
  | cons {base gap text rest token lexemes} {start stop : Nat} : Skipped gap (text ++ rest) →
      text ≠ [] → start = base + utf8Len gap → stop = start + utf8Len text →
      scan (String.ofList text) start = .ok [⟨token, start, stop⟩, ⟨.eof, stop, stop⟩] →
      Tiles stop rest lexemes → Tiles base (gap ++ text ++ rest) (⟨token, start, stop⟩ :: lexemes)

/-- A token that its text gives at the end of a text is all that this text gives. -/
theorem scan_of_step {token : Token} {stop : Nat} (hblank : isBlank c = false)
    (hstep : step c text offset = .token token offset stop []) :
    scan (String.ofList (c :: text)) offset = .ok [⟨token, offset, stop⟩, ⟨.eof, stop, stop⟩] := by
  have hgap : skipGap .blank (c :: text) offset = (⟨c :: text, offset⟩, none) := by
    by_cases hslash : c = '/'
    · -- a slash is read alone, so no comment starts with it
      subst hslash
      rw [step_slash] at hstep
      cases hstep
      rfl
    · rw [skipGap, if_neg (by simp [hblank])]
      · exact fun _ h => absurd h hslash
      · exact fun _ h => absurd h hslash
  simp [scan, run, hgap, hstep, Step.token, skipGap]

/-- Without problems the lexemes tile the text; else the problems lie inside it. -/
theorem run_tiles (budget : Nat) (cs : List Char) (offset : Nat) (h : cs.length < budget) :
    (∀ p ∈ (run budget ⟨cs, offset⟩).2, Within offset (offset + utf8Len cs) p) ∧
      ((run budget ⟨cs, offset⟩).2 = [] → Tiles offset cs (run budget ⟨cs, offset⟩).1) := by
  induction budget generalizing cs offset with
  | zero => cases h
  | succ budget ih =>
    obtain ⟨gap, hcut, hstop, hgap, hinside, hhead⟩ := skipGap_cut .blank cs offset (le_refl offset)
    rw [run]
    generalize skipGap .blank cs offset = r at *
    obtain ⟨⟨rest, start⟩, open?⟩ := r
    dsimp only at *
    subst hcut hstop
    cases rest with
    | nil =>
      rw [List.append_nil] at *
      refine ⟨by simpa using hinside, fun hnone => .last (hgap (by simpa using hnone))⟩
    | cons c rest =>
      obtain ⟨text, htaken, htoken⟩ := step_cut c rest (offset + utf8Len gap)
      dsimp only
      generalize step c rest (offset + utf8Len gap) = s at *
      obtain ⟨lexeme, problems, ⟨rest', stop⟩⟩ := s
      dsimp only at *
      obtain ⟨hcut, hstop, hproblems⟩ := htaken
      dsimp only at *
      rw [hcut] at h ⊢
      obtain ⟨hafter, htiles⟩ := ih rest' stop (by grind)
      refine ⟨?_, fun hnone => ?_⟩
      · have hle : stop + utf8Len rest' = offset + utf8Len (gap ++ (c :: text ++ rest')) := by
          rw [hstop, String.utf8Len_append, String.utf8Len_append, ← Nat.add_assoc, ← Nat.add_assoc]
        simp only [List.mem_append, Option.mem_toList]
        rintro p ((hp | hp) | hp)
        · exact (hinside p hp).mono le_rfl (by omega)
        · exact (hproblems p hp).mono (by omega) (by omega)
        · exact (hafter p hp).mono (by omega) (by omega)
      · simp only [List.append_eq_nil_iff, Option.toList_eq_nil_iff] at hnone
        obtain ⟨token, rfl, hagain⟩ := htoken hnone.1.2
        have hscan := scan_of_step (hhead c rfl) hagain
        rw [← List.append_assoc]
        exact .cons (hcut ▸ hgap hnone.1.1) (List.cons_ne_nil _ _) rfl hstop hscan (htiles hnone.2)

theorem Tiles.spans {base : Nat} {lexemes : List Lexeme} (h : Tiles base cs lexemes) :
    ∃ front, lexemes = front ++ [⟨.eof, base + utf8Len cs, base + utf8Len cs⟩] ∧
      (∀ l ∈ front, base ≤ l.span.start ∧ l.span.start < l.span.stop ∧
        l.span.stop ≤ base + utf8Len cs) ∧
      lexemes.Pairwise fun l m => l.span.stop ≤ m.span.start := by
  induction h with
  | last => exact ⟨[], rfl, nofun, List.pairwise_singleton ..⟩
  | @cons base gap text rest token lexemes start stop _ htext hstart hstop _ _ ih =>
    obtain ⟨front, hlexemes, hfront, hordered⟩ := ih
    have hpos : 0 < utf8Len text := Nat.pos_of_ne_zero fun hzero =>
      htext (String.utf8Len_eq_zero.mp hzero)
    have hend : stop + utf8Len rest = base + utf8Len (gap ++ text ++ rest) := by
      rw [String.utf8Len_append, String.utf8Len_append, hstop, hstart]
      omega
    refine ⟨⟨token, start, stop⟩ :: front, by rw [hlexemes, hend]; rfl, ?_, ?_⟩
    · rw [← hend]
      rintro l (_ | ⟨_, hl⟩)
      · exact ⟨by dsimp only; omega, by dsimp only; omega, Nat.le_add_right ..⟩
      · obtain ⟨hlow, hwide, hhigh⟩ := hfront l hl
        exact ⟨by omega, hwide, hhigh⟩
    · refine List.pairwise_cons.mpr ⟨fun l hl => ?_, hordered⟩
      rw [hlexemes, List.mem_append, List.mem_singleton] at hl
      rcases hl with hl | rfl
      · exact (hfront l hl).1
      · exact Nat.le_add_right ..

/-- Reading a piece of a script cuts it into lexemes that are ordered and not empty, up to the end
of the piece, or gives problems inside it. -/
theorem scan_tiles (source : String) (base : Nat) :
    match scan source base with
    | .ok lexemes => Tiles base source.toList lexemes ∧
        ∃ front, lexemes =
            front ++ [⟨.eof, base + source.utf8ByteSize, base + source.utf8ByteSize⟩] ∧
          (∀ l ∈ front, base ≤ l.span.start ∧ l.span.start < l.span.stop ∧
            l.span.stop ≤ base + source.utf8ByteSize) ∧
          lexemes.Pairwise fun l m => l.span.stop ≤ m.span.start
    | .error problems => problems ≠ [] ∧
        ∀ p ∈ problems, Within base (base + source.utf8ByteSize) p := by
  obtain ⟨hinside, htiles⟩ := run_tiles _ source.toList base (Nat.lt_succ_self _)
  rw [scan, ← String.utf8Len_toList]
  generalize run (source.toList.length + 1) ⟨source.toList, base⟩ = r at *
  obtain ⟨lexemes, problems⟩ := r
  cases problems with
  | nil => exact ⟨htiles rfl, (htiles rfl).spans⟩
  | cons p problems => exact ⟨List.cons_ne_nil _ _, hinside⟩

end HostScript.Lexer
