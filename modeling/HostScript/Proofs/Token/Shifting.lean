import HostScript.Proofs.Token.Tiling

/-!
# Places in a piece of a script

A piece of a script that is read at an offset gives what it gives alone, with every place moved by
that offset. Code in an interpolated string stands in the script at the place that it carries, and
its lexemes stand there too.
-/

namespace HostScript

open String (utf8Len)

variable (base : Nat)

/-! ### Moving places -/

def Span.shift (s : Span) : Span :=
  ⟨base + s.start, base + s.stop⟩

def Segment.shift : Segment → Segment
  | text value => text value
  | code source offset => code source (base + offset)

/-- The segments of an interpolated string. Other tokens have none. -/
def Token.segments : Token → List Segment
  | interpolated segments => segments
  | _ => []

def Token.shift : Token → Token
  | interpolated segments => interpolated (segments.map (·.shift base))
  | token => token

def Lexeme.shift (l : Lexeme) : Lexeme :=
  ⟨l.token.shift base, l.span.shift base⟩

def Problem.shift (p : Problem) : Problem :=
  { p with span := p.span.shift base }

namespace Lexer

def Cursor.shift (cursor : Cursor) : Cursor :=
  { cursor with offset := base + cursor.offset }

def Gap.shift : Gap → Gap
  | .blank => .blank
  | .line => .line
  | .block start => .block (base + start)

def Body.shift (body : Body) : Body :=
  ⟨body.text, body.problems.map (·.shift base), body.cursor.shift base⟩

def Part.shift : Part → Part
  | .text collected => .text collected
  | .code start depth collected => .code (base + start) depth collected

def Segments.shift (s : Segments) : Segments :=
  ⟨s.segments.map (·.shift base), s.problems.map (·.shift base), s.cursor.shift base⟩

def Step.shift (s : Step) : Step :=
  ⟨s.lexeme.map (·.shift base), s.problems.map (·.shift base), s.cursor.shift base⟩

theorem skipGap_shift (gap : Gap) (cs : List Char) (offset : Nat) :
    skipGap (gap.shift base) cs (base + offset) =
      ((skipGap gap cs offset).1.shift base, (skipGap gap cs offset).2.map (·.shift base)) := by
  fun_induction skipGap gap cs offset with
  | case1 cs offset ih => exact ih
  | case2 cs offset ih => exact ih
  | case3 c cs offset hline hblock hblank ih =>
    rw [Gap.shift, skipGap, if_pos hblank]
    · exact ih
    · exact hline
    · exact hblock
  | case4 c cs offset hline hblock hblank =>
    rw [Gap.shift, skipGap, if_neg hblank]
    · rfl
    · exact hline
    · exact hblock
  | case5 c cs offset ih =>
    rw [← ih, ← Nat.add_assoc, Gap.shift, skipGap]
    split <;> rfl
  | case6 start cs offset ih => exact ih
  | case7 start c cs offset hclose ih =>
    rw [← ih, ← Nat.add_assoc, Gap.shift, skipGap]
    exact hclose
  | case8 start offset => rfl
  | case9 gap offset hopen => cases gap with
    | block start => exact absurd rfl (hopen start)
    | _ => rfl

theorem shift_escape (offset : Nat) (c : Char) :
    base + offset + 1 + c.utf8Size = base + (offset + 1 + c.utf8Size) := by
  simp only [Nat.add_assoc]

theorem stringBody_shift (cs : List Char) (offset : Nat) :
    stringBody cs (base + offset) = (stringBody cs offset).shift base := by
  fun_induction stringBody cs offset with
  | case1 offset => rfl
  | case2 offset => rfl
  | case3 c cs offset stop e he ih =>
    rw [stringBody, he, shift_escape]
    exact congrArg (Body.push e) ih
  | case4 c cs offset stop he ih =>
    rw [stringBody, he, shift_escape]
    exact congrArg (fun body => Body.report _ (body.push c)) ih
  | case5 c cs offset hsingle hescape hend =>
    rw [stringBody, if_pos hend]
    · rfl
    · exact hsingle
    · exact hescape
  | case6 c cs offset hsingle hescape hend ih =>
    rw [stringBody, if_neg hend, Nat.add_assoc]
    · exact congrArg (Body.push c) ih
    · exact hsingle
    · exact hescape

theorem Segments.shift_pushText (collected : List Char) (s : Segments) :
    (s.pushText collected).shift base = (s.shift base).pushText collected := by
  unfold Segments.pushText
  split <;> rfl

/-- Code starts behind its brace. -/
def Part.Opened : Part → Prop
  | .text _ => True
  | .code start _ _ => 0 < start

theorem interpolatedBody_shift (part : Part) (hpart : part.Opened) (cs : List Char) (offset : Nat) :
    interpolatedBody (part.shift base) cs (base + offset) =
      (interpolatedBody part cs offset).shift base := by
  fun_induction interpolatedBody part cs offset with
  | case1 collected offset => rw [Segments.shift_pushText]; rfl
  | case2 collected offset => rw [Segments.shift_pushText]; rfl
  | case3 collected c cs offset stop e he ih =>
    rw [← ih hpart, Part.shift, interpolatedBody, he, shift_escape]
    rfl
  | case4 collected c cs offset stop he ih =>
    rw [Part.shift, interpolatedBody, he, shift_escape]
    exact congrArg (Segments.report _) (ih hpart)
  | case5 collected c cs offset hsingle hescape hopen ih =>
    rw [Segments.shift_pushText, ← ih (Nat.succ_pos _), Part.shift, Part.shift, interpolatedBody,
      if_pos hopen]
    · rfl
    · exact hsingle
    · exact hescape
  | case6 collected c cs offset hsingle hescape hopen hend =>
    rw [Segments.shift_pushText, Part.shift, interpolatedBody, if_neg hopen, if_pos hend]
    · rfl
    · exact hsingle
    · exact hescape
  | case7 collected c cs offset hsingle hescape hopen hend ih =>
    rw [← ih hpart, Part.shift, interpolatedBody, if_neg hopen, if_neg hend, Nat.add_assoc]
    · rfl
    · exact hsingle
    · exact hescape
  | case8 start depth collected offset =>
    simp [interpolatedBody, Part.shift, Segments.shift, Problem.shift, Span.shift, Cursor.shift,
      Nat.add_sub_assoc hpart]
  | case9 start collected c cs offset hclose ih =>
    obtain rfl := eq_of_beq hclose
    exact congrArg (Segments.push _) (ih trivial)
  | case10 start collected c cs offset hclose depth ih =>
    obtain rfl := eq_of_beq hclose
    exact ih hpart
  | case11 start depth collected c cs offset hclose hend =>
    rw [Part.shift, interpolatedBody.eq_def]
    simp [hclose, hend, Segments.shift, Problem.shift, Span.shift, Cursor.shift,
      Nat.add_sub_assoc hpart]
  | case12 start depth collected c cs offset hclose hend depth' ih =>
    rw [← ih hpart, Part.shift, interpolatedBody.eq_def]
    dsimp only
    rw [if_neg hclose, if_neg hend, Nat.add_assoc]
    rfl

theorem closeString_shift (start : Nat) (cursor : Cursor) :
    closeString (base + start) (cursor.shift base) =
      ((closeString start cursor).1.shift base,
        (closeString start cursor).2.map (·.shift base)) := by
  obtain ⟨rest, offset⟩ := cursor
  unfold closeString Cursor.shift
  dsimp only
  split <;> rfl

theorem string_shift (cs : List Char) (start : Nat) :
    string cs (base + start) = (string cs start).shift base := by
  have hbody := stringBody_shift base cs (start + 1)
  have hclose := closeString_shift base start (stringBody cs (start + 1)).cursor
  simp only [string, Nat.add_assoc, hbody]
  rw [Body.shift, hclose]
  simp [Step.shift, Lexeme.shift, Token.shift, Span.shift, Cursor.shift]

theorem interpolated_shift (cs : List Char) (start : Nat) :
    interpolated cs (base + start) = (interpolated cs start).shift base := by
  have hbody := interpolatedBody_shift base (.text []) trivial cs (start + 2)
  have hclose := closeString_shift base start (interpolatedBody (.text []) cs (start + 2)).cursor
  rw [Part.shift] at hbody
  simp only [interpolated, Nat.add_assoc, hbody]
  rw [Segments.shift, hclose]
  simp [Step.shift, Lexeme.shift, Token.shift, Span.shift, Cursor.shift]

variable {c d : Char} {token : Token}

theorem Step.shift_token (h : token.segments = []) (start stop : Nat) (rest : List Char) :
    (Step.token token start stop rest).shift base =
      .token token (base + start) (base + stop) rest := by
  cases token with
  | interpolated segments =>
    cases h
    rfl
  | _ => rfl

theorem segments_single? (h : single? c = some token) : token.segments = [] := by
  unfold single? at h
  split at h <;> cases h <;> rfl

theorem segments_double? (h : double? c d = some token) : token.segments = [] := by
  unfold double? at h
  split at h <;> cases h <;> rfl

theorem segments_ofWord (name : String) : (Token.ofWord name).segments = [] := by
  unfold Token.ofWord
  split <;> rfl

theorem number_shift (cs : List Char) (offset : Nat) :
    number cs (base + offset) = (number cs offset).shift base := by
  simp only [number, Nat.add_assoc]
  split
  · split <;> rfl
  · rfl

theorem word_shift (cs : List Char) (offset : Nat) :
    word cs (base + offset) = (word cs offset).shift base := by
  rw [word, word, Step.shift_token base (segments_ofWord _), Nat.add_assoc]

theorem step_shift (c : Char) (cs : List Char) (offset : Nat) :
    step c cs (base + offset) = (step c cs offset).shift base := by
  unfold step
  cases hdouble : cs.head?.bind (double? c) with
  | some token =>
    obtain ⟨d, -, hd⟩ := Option.bind_eq_some_iff.mp hdouble
    dsimp only
    rw [Step.shift_token base (segments_double? hd)]
    rfl
  | none => cases hsingle : single? c with
    | some token =>
      dsimp only
      rw [Step.shift_token base (segments_single? hsingle)]
      rfl
    | none =>
      dsimp only
      split_ifs
      · rfl
      · rfl
      · exact interpolated_shift base _ offset
      · exact string_shift base cs offset
      · exact number_shift base _ offset
      · exact word_shift base _ offset
      · rw [Nat.add_assoc]
        rfl

theorem run_shift (budget : Nat) (cursor : Cursor) :
    run budget (cursor.shift base) =
      ((run budget cursor).1.map (·.shift base), (run budget cursor).2.map (·.shift base)) := by
  induction budget generalizing cursor with
  | zero => rfl
  | succ budget ih =>
    have hgap := skipGap_shift base .blank cursor.rest cursor.offset
    rw [Gap.shift] at hgap
    simp only [run, Cursor.shift] at hgap ⊢
    rw [hgap]
    obtain ⟨⟨rest, offset⟩, open?⟩ := skipGap .blank cursor.rest cursor.offset
    cases rest with
    | nil => cases open? <;> rfl
    | cons c cs =>
      simp only [step_shift, Step.shift, ih]
      simp [List.map_append, Option.toList_map]

theorem scan_shift (source : String) :
    scan source base = match scan source 0 with
      | .ok lexemes => .ok (lexemes.map (·.shift base))
      | .error problems => .error (problems.map (·.shift base)) := by
  have hrun := run_shift base (source.toList.length + 1) ⟨source.toList, 0⟩
  simp only [Cursor.shift, Nat.add_zero] at hrun
  simp only [scan, hrun]
  obtain ⟨lexemes, problems⟩ := run (source.toList.length + 1) ⟨source.toList, 0⟩
  cases problems <;> rfl

/-! ### Code in a script -/

/-- A text stands at byte `offset` in another one, which starts at byte `base`. -/
def Stands (whole : List Char) (offset : Nat) (text : List Char) : Prop :=
  ∃ before after, whole = before ++ text ++ after ∧ offset = base + utf8Len before

variable {base} {whole text inner cs : List Char} {offset start : Nat} {part : Part} {s : Segments}
  {code : String} {place : Nat}

theorem Stands.trans (h : Stands base whole offset text) (hi : Stands offset text start inner) :
    Stands base whole start inner := by
  obtain ⟨before, after, rfl, rfl⟩ := h
  obtain ⟨front, back, rfl, rfl⟩ := hi
  refine ⟨before ++ front, back ++ after, by simp, ?_⟩
  rw [String.utf8Len_append, Nat.add_assoc]

theorem Stands.drop (front : List Char) (h : Stands base whole offset (front ++ text)) :
    Stands base whole (offset + utf8Len front) text :=
  h.trans ⟨front, [], by simp, rfl⟩

/-- The reader of an interpolated string is inside the text. -/
def Part.Inside (base : Nat) (whole cs : List Char) (offset : Nat) : Part → Prop
  | .text _ => Stands base whole offset cs
  | .code start _ collected => Stands base whole start (collected.reverse ++ cs) ∧
      offset = start + utf8Len collected.reverse

theorem mem_pushText {collected : List Char} :
    .code code place ∈ (s.pushText collected).segments ↔ .code code place ∈ s.segments := by
  unfold Segments.pushText
  split
  · rfl
  · simp [Segments.push]

/-- Code that is read further. -/
theorem Part.Inside.char {depth : Nat} {collected : List Char} {c : Char}
    (h : (Part.code start depth collected).Inside base whole (c :: cs) offset) (depth' : Nat) :
    (Part.code start depth' (c :: collected)).Inside base whole cs (offset + c.utf8Size) := by
  refine ⟨?_, ?_⟩
  · rw [List.reverse_cons, List.append_assoc]
    exact h.1
  · rw [h.2, List.reverse_cons, String.utf8Len_append, String.utf8Len_cons, String.utf8Len_nil]
    omega

theorem interpolatedBody_stands (hpart : part.Inside base whole cs offset)
    (hcode : .code code place ∈ (interpolatedBody part cs offset).segments) :
    Stands base whole place code.toList := by
  fun_induction interpolatedBody part cs offset with
  | case1 collected offset => simp [mem_pushText] at hcode
  | case2 collected offset => simp [mem_pushText] at hcode
  | case3 collected c cs offset stop e he ih =>
    have hrest := Stands.drop ['\\', c] hpart
    rw [← utf8Len_escape] at hrest
    exact ih hrest hcode
  | case4 collected c cs offset stop he ih =>
    have hrest := Stands.drop ['\\', c] hpart
    rw [← utf8Len_escape] at hrest
    exact ih hrest hcode
  | case5 collected c cs offset hsingle hescape hopen ih =>
    obtain rfl := eq_of_beq hopen
    exact ih ⟨Stands.drop ['\x7b'] hpart, rfl⟩ (mem_pushText.mp hcode)
  | case6 collected c cs offset hsingle hescape hopen hend => simp [mem_pushText] at hcode
  | case7 collected c cs offset hsingle hescape hopen hend ih =>
    have hrest := Stands.drop [c] hpart
    rw [String.utf8Len_cons, String.utf8Len_nil, Nat.zero_add] at hrest
    exact ih hrest hcode
  | case8 start depth collected offset => cases hcode
  | case9 start collected c cs offset hclose ih =>
    obtain rfl := eq_of_beq hclose
    obtain ⟨hstands, rfl⟩ := hpart
    rcases List.mem_cons.mp hcode with hhere | hrest
    · cases hhere
      rw [String.toList_ofList]
      exact hstands.trans ⟨[], '\x7d' :: cs, rfl, rfl⟩
    · refine ih ?_ hrest
      exact (hstands.drop collected.reverse).drop ['\x7d']
  | case10 start collected c cs offset hclose depth ih =>
    obtain rfl := eq_of_beq hclose
    exact ih (hpart.char depth) hcode
  | case11 start depth collected c cs offset hclose hend => cases hcode
  | case12 start depth collected c cs offset hclose hend depth' ih =>
    exact ih (hpart.char _) hcode

theorem step_stands {l : Lexeme} (hl : l ∈ (step c cs offset).lexeme)
    (hcode : .code code place ∈ l.token.segments) :
    Stands offset (c :: cs) place code.toList := by
  unfold step at hl
  split at hl
  · next token htoken =>
    obtain ⟨d, -, hd⟩ := Option.bind_eq_some_iff.mp htoken
    cases hl
    exact absurd hcode (segments_double? hd ▸ List.not_mem_nil)
  split at hl
  · next token htoken =>
    cases hl
    exact absurd hcode (segments_single? htoken ▸ List.not_mem_nil)
  split_ifs at hl with _ _ hdollar
  · cases hl
  · cases hl
  · rw [Bool.and_eq_true, beq_iff_eq, beq_iff_eq, List.head?_eq_some_iff] at hdollar
    obtain ⟨rfl, rest, rfl⟩ := hdollar
    have hbody : (Part.text []).Inside offset ('$' :: '"' :: rest) rest (offset + 2) :=
      ⟨['$', '"'], [], by simp, rfl⟩
    cases hl
    exact interpolatedBody_stands hbody hcode
  · cases hl
    cases hcode
  · simp only [number] at hl
    split at hl
    · split at hl <;> cases hl <;> cases hcode
    · cases hl
      cases hcode
  · cases hl
    exact absurd hcode (segments_ofWord _ ▸ List.not_mem_nil)
  · cases hl

theorem run_stands (budget : Nat) {l : Lexeme} (hl : l ∈ (run budget ⟨cs, offset⟩).1)
    (hcode : .code code place ∈ l.token.segments) : Stands offset cs place code.toList := by
  induction budget generalizing cs offset with
  | zero => cases hl
  | succ budget ih =>
    obtain ⟨gap, hcut, hstop, -⟩ := skipGap_cut .blank cs offset (le_refl offset)
    rw [run] at hl
    generalize skipGap .blank cs offset = r at *
    obtain ⟨⟨rest, start⟩, open?⟩ := r
    dsimp only at *
    subst hcut hstop
    cases rest with
    | nil =>
      cases List.mem_singleton.mp hl
      cases hcode
    | cons c rest =>
      have hrest : Stands offset (gap ++ c :: rest) _ (c :: rest) := ⟨gap, [], by simp, rfl⟩
      rcases List.mem_append.mp hl with hl | hl
      · exact hrest.trans (step_stands (Option.mem_toList.mp hl) hcode)
      · obtain ⟨text, htaken, -⟩ := step_cut c rest (offset + utf8Len gap)
        refine hrest.trans (.trans ⟨c :: text, [], ?_, htaken.stop⟩ (ih hl))
        rw [List.append_nil]
        exact htaken.cut

/-- The span of the lexeme covers its own text, which gives this lexeme and nothing else. The end
has no text. -/
def Fits (base : Nat) (whole : List Char) (l : Lexeme) : Prop :=
  ∃ text, Stands base whole l.span.start text ∧ l.span.stop = l.span.start + utf8Len text ∧
    (l.token = .eof ∧ text = [] ∨
      scan (String.ofList text) l.span.start = .ok [l, ⟨.eof, l.span.stop, l.span.stop⟩])

theorem Tiles.fits {lexemes : List Lexeme} (h : Tiles base cs lexemes) :
    ∀ l ∈ lexemes, Fits base cs l := by
  induction h with
  | @last base gap _ =>
    intro l hl
    cases List.mem_singleton.mp hl
    exact ⟨[], ⟨gap, [], by simp, rfl⟩, rfl, .inl ⟨rfl, rfl⟩⟩
  | @cons base gap text rest token lexemes start stop _ _ hstart hstop hscan _ ih =>
    subst hstart hstop
    rintro l (_ | ⟨_, hl⟩)
    · exact ⟨text, ⟨gap, rest, rfl, rfl⟩, rfl, .inr hscan⟩
    · obtain ⟨text', hstands, hrest⟩ := ih l hl
      refine ⟨text', .trans ⟨gap ++ text, [], by simp, ?_⟩ hstands, hrest⟩
      rw [String.utf8Len_append, Nat.add_assoc]

/-- A piece of a script gives at any place what it gives at the start, with its places moved. If it
can be read, code in it stands where it says, and so do the lexemes of that code. -/
theorem scan_shifted (source : String) (base : Nat) :
    scan source base = (match scan source 0 with
      | .ok lexemes => .ok (lexemes.map (·.shift base))
      | .error problems => .error (problems.map (·.shift base))) ∧
    ∀ lexemes, scan source base = .ok lexemes →
      ∀ l ∈ lexemes, ∀ code place, .code code place ∈ l.token.segments →
        Stands base source.toList place code.toList ∧
          match scan code place with
          | .ok inner => ∀ m ∈ inner, Fits base source.toList m
          | .error problems => ∀ p ∈ problems, Within place (place + code.utf8ByteSize) p := by
  refine ⟨scan_shift base source, fun lexemes hscan l hl code place hcode => ?_⟩
  have hstands : Stands base source.toList place code.toList := by
    refine run_stands (source.toList.length + 1) ?_ hcode
    simp only [scan] at hscan
    split at hscan
    · next hrun =>
      cases hscan
      rw [hrun]
      exact hl
    · cases hscan
  refine ⟨hstands, ?_⟩
  have htiles := scan_tiles code place
  cases hinner : scan code place with
  | ok inner =>
    rw [hinner] at htiles
    intro m hm
    obtain ⟨text, htext, hrest⟩ := htiles.1.fits m hm
    exact ⟨text, hstands.trans htext, hrest⟩
  | error problems =>
    rw [hinner] at htiles
    exact htiles.2

/-- Code behind a letter of two bytes. -/
theorem scan_shifted_code :
    ∃ lexemes, scan "$\"é\x7bx\x7d\"" 3 = .ok lexemes ∧
      ∃ l ∈ lexemes, .code "x" 8 ∈ l.token.segments ∧
        Stands 3 ['$', '"', 'é', '\x7b', 'x', '\x7d', '"'] 8 ['x'] := by
  refine ⟨_, rfl, _, List.mem_cons_self, List.mem_cons_of_mem _ List.mem_cons_self, ?_⟩
  exact ((scan_shifted "$\"é\x7bx\x7d\"" 3).2 _ rfl _ List.mem_cons_self "x" 8
    (List.mem_cons_of_mem _ List.mem_cons_self)).1

end Lexer

end HostScript
