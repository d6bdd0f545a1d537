import HostScript.Proofs.Token.Tiling
import Mathlib.Data.List.Chain

/-!
# Quoting

Every text can be written as a string, and every list of texts and pieces of code as an interpolated
string. The reader takes what was written and gives it back, with the place of each piece of code.
-/

namespace HostScript

open String (utf8Len)

namespace Lexer

/-! ### Texts -/

/-- A character as it is written inside quotes. An opening brace is escaped where code may stand. -/
def escape (codeAllowed : Bool) (c : Char) : List Char :=
  if c = '\n' then ['\\', 'n']
  else if c = '\\' ∨ c = '"' ∨ c = '\x7b' ∧ codeAllowed = true then ['\\', c]
  else [c]

def escapeText (codeAllowed : Bool) (s : String) : List Char :=
  s.toList.flatMap (escape codeAllowed)

/-- The text as a string. -/
def quote (s : String) : String :=
  String.ofList ('"' :: escapeText false s ++ ['"'])

theorem escape?_of_special {c : Char} (h : c = '\\' ∨ c = '"' ∨ c = '\x7b') :
    escape? c = some c := by
  rcases h with rfl | rfl | rfl <;> rfl

theorem stringBody_escape (c : Char) (rest : List Char) (offset : Nat) :
    stringBody (escape false c ++ rest) offset =
      (stringBody rest (offset + utf8Len (escape false c))).push c := by
  unfold escape
  split_ifs with hline hspecial
  · subst hline
    rfl
  · have hescape : escape? c = some c := escape?_of_special (by grind)
    rw [List.cons_append, List.cons_append, stringBody, hescape, ← utf8Len_escape]
    rfl
  · simp only [not_or] at hspecial
    rw [List.singleton_append, stringBody, if_neg (by simp [hspecial, hline]), String.utf8Len_cons,
      String.utf8Len_nil, Nat.zero_add]
    · exact fun h => absurd h hspecial.1
    · exact fun _ _ h => absurd h hspecial.1

theorem stringBody_escapes (cs rest : List Char) (offset : Nat) :
    stringBody (cs.flatMap (escape false) ++ '"' :: rest) offset =
      ⟨cs, [], '"' :: rest, offset + utf8Len (cs.flatMap (escape false))⟩ := by
  induction cs generalizing offset with
  | nil => rfl
  | cons c cs ih =>
    rw [List.flatMap_cons, List.append_assoc, stringBody_escape, ih, String.utf8Len_append,
      Nat.add_assoc]
    rfl

theorem interpolatedBody_escape (collected : List Char) (c : Char) (rest : List Char)
    (offset : Nat) :
    interpolatedBody (.text collected) (escape true c ++ rest) offset =
      interpolatedBody (.text (c :: collected)) rest (offset + utf8Len (escape true c)) := by
  unfold escape
  split_ifs with hline hspecial
  · subst hline
    rfl
  · have hescape : escape? c = some c := escape?_of_special (by grind)
    rw [List.cons_append, List.cons_append, interpolatedBody, hescape, ← utf8Len_escape]
    rfl
  · simp only [not_or, and_true] at hspecial
    rw [List.singleton_append, interpolatedBody, if_neg (by simp [hspecial]),
      if_neg (by simp [hspecial, hline]), String.utf8Len_cons, String.utf8Len_nil, Nat.zero_add]
    · exact fun h => absurd h hspecial.1
    · exact fun _ _ h => absurd h hspecial.1

theorem interpolatedBody_escapes (collected cs rest : List Char) (offset : Nat) :
    interpolatedBody (.text collected) (cs.flatMap (escape true) ++ rest) offset =
      interpolatedBody (.text (cs.reverse ++ collected)) rest
        (offset + utf8Len (cs.flatMap (escape true))) := by
  induction cs generalizing collected offset with
  | nil => rfl
  | cons c cs ih =>
    rw [List.flatMap_cons, List.append_assoc, interpolatedBody_escape, ih, String.utf8Len_append,
      Nat.add_assoc, List.reverse_cons, List.append_assoc]
    rfl

/-! ### Code -/

/-- Code that may stand between braces: on one line, without quotes, and its braces nest. -/
inductive Nested : List Char → Prop where
  | nil : Nested []
  | char {c cs} : c ∉ ['\x7b', '\x7d', '"', '\n'] → Nested cs → Nested (c :: cs)
  | braces {inner cs} : Nested inner → Nested cs → Nested ('\x7b' :: (inner ++ '\x7d' :: cs))

/-- Nested code is collected up to the brace behind it. -/
theorem Nested.collects {code : List Char} (h : Nested code) (start depth : Nat)
    (collected rest : List Char) (offset : Nat) :
    interpolatedBody (.code start depth collected) (code ++ rest) offset =
      interpolatedBody (.code start depth (code.reverse ++ collected)) rest
        (offset + utf8Len code) := by
  induction h generalizing depth collected rest offset with
  | nil => rfl
  | @char c cs hc _ ih =>
    simp only [List.mem_cons, List.not_mem_nil, or_false, not_or] at hc
    rw [List.cons_append, interpolatedBody.eq_def]
    simp only [beq_iff_eq, hc, if_false, Bool.or_eq_true, or_self]
    rw [ih, List.reverse_cons, List.append_assoc, String.utf8Len_cons]
    simp [Nat.add_assoc, Nat.add_comm]
  | @braces inner cs _ _ ihInner ihRest =>
    have hopen (tail : List Char) :
        interpolatedBody (.code start depth collected) ('\x7b' :: tail) offset =
          interpolatedBody (.code start (depth + 1) ('\x7b' :: collected)) tail
            (offset + 1) := rfl
    have hclose (collected tail : List Char) (offset : Nat) :
        interpolatedBody (.code start (depth + 1) collected) ('\x7d' :: tail) offset =
          interpolatedBody (.code start depth ('\x7d' :: collected)) tail
            (offset + 1) := rfl
    rw [List.cons_append, hopen, List.append_assoc, ihInner, List.cons_append, hclose, ihRest]
    have hsize : utf8Len ('\x7b' :: (inner ++ '\x7d' :: cs)) =
        1 + utf8Len inner + 1 + utf8Len cs := by
      simp only [String.utf8Len_cons, String.utf8Len_append, show '\x7b'.utf8Size = 1 from rfl,
        show '\x7d'.utf8Size = 1 from rfl]
      omega
    rw [hsize]
    simp [Nat.add_assoc]

end Lexer

/-! ### Segments -/

open Lexer

namespace Segment

def isText : Segment → Bool
  | text _ => true
  | code .. => false

/-- The segment as it stands in an interpolated string. -/
def written : Segment → List Char
  | text value => escapeText true value
  | code source _ => '\x7b' :: (source.toList ++ ['\x7d'])

/-- The segment can be written. Nothing would be left of an empty text. -/
def Writable : Segment → Prop
  | text value => value ≠ ""
  | code source _ => Nested source.toList

/-- The segment with the place that its written form gives to code. -/
def placed (start : Nat) : Segment → Segment
  | text value => text value
  | code source _ => code source (start + 1)

end Segment

namespace Lexer

/-- The segments as they are placed when the first of them starts at `start`. -/
def place : Nat → List Segment → List Segment
  | _, [] => []
  | start, s :: segments => s.placed start :: place (start + utf8Len s.written) segments

/-- The segments as an interpolated string. -/
def interpolate (segments : List Segment) : String :=
  String.ofList ('$' :: '"' :: segments.flatMap Segment.written ++ ['"'])

theorem pushText_reverse {value : String} (h : value ≠ "") (s : Segments) :
    s.pushText value.toList.reverse = s.push (.text value) := by
  simp [Segments.pushText, h]

/-- Texts that are not adjacent do not run into each other. -/
theorem interpolatedBody_written {segments : List Segment} (hwritable : ∀ s ∈ segments, s.Writable)
    (happart : segments.IsChain fun s t => s.isText = true → t.isText = false)
    (collected rest : List Char) (offset : Nat)
    (hfirst : collected ≠ [] → ∀ s ∈ segments.head?, s.isText = false) :
    interpolatedBody (.text collected) (segments.flatMap Segment.written ++ '"' :: rest) offset =
      Segments.pushText collected ⟨place offset segments, [], '"' :: rest,
        offset + utf8Len (segments.flatMap Segment.written)⟩ := by
  induction segments generalizing collected offset with
  | nil => rfl
  | cons s segments ih =>
    rw [List.forall_mem_cons] at hwritable
    have hrest := ih hwritable.2 happart.tail
    rw [List.flatMap_cons, List.append_assoc, String.utf8Len_append, ← Nat.add_assoc]
    cases s with
    | text value =>
      obtain rfl : collected = [] := by
        by_contra hne
        exact nomatch hfirst hne _ rfl
      have hnext : ∀ s ∈ segments.head?, s.isText = false := by
        intro s hs
        exact (List.isChain_cons.mp happart).1 s hs rfl
      rw [Segment.written, escapeText, interpolatedBody_escapes, List.append_nil,
        hrest _ _ fun _ => hnext, pushText_reverse hwritable.1]
      rfl
    | code source place =>
      have hcode : Nested source.toList := hwritable.1
      have hopen (tail : List Char) : interpolatedBody (.text collected) ('\x7b' :: tail) offset =
          (interpolatedBody (.code (offset + 1) 0 []) tail (offset + 1)).pushText collected := rfl
      have hclose (source tail : List Char) (start offset : Nat) :
          interpolatedBody (.code start 0 source.reverse) ('\x7d' :: tail) offset =
            (interpolatedBody (.text []) tail (offset + 1)).push
              (.code (String.ofList source) start) := by
        rw [interpolatedBody, if_pos (beq_self_eq_true _), List.reverse_reverse]
      have hsize : utf8Len (Segment.code source place).written = 1 + utf8Len source.toList + 1 := by
        simp only [Segment.written, String.utf8Len_cons, String.utf8Len_append, String.utf8Len_nil,
          show '\x7b'.utf8Size = 1 from rfl, show '\x7d'.utf8Size = 1 from rfl]
        omega
      simp only [Lexer.place, hsize, Segment.placed, ← Nat.add_assoc]
      rw [Segment.written, List.cons_append, hopen, List.append_assoc, hcode.collects,
        List.append_nil, List.singleton_append, hclose, hrest _ _ fun h => absurd rfl h,
        String.ofList_toList]
      rfl

/-! ### Reading what was written -/

theorem step_quote (cs : List Char) (offset : Nat) : step '"' cs offset = string cs offset := by
  cases cs <;> rfl

/-- A text between quotes is read as that text, and segments in an interpolated string are read as
these segments, each piece of code at the place where it stands. -/
theorem scan_written (base : Nat) :
    (∀ s : String,
      let stop := base + (quote s).utf8ByteSize
      scan (quote s) base = .ok [⟨.str s, base, stop⟩, ⟨.eof, stop, stop⟩]) ∧
    ∀ segments : List Segment, (∀ s ∈ segments, s.Writable) →
      (segments.IsChain fun s t => s.isText = true → t.isText = false) →
      let stop := base + (interpolate segments).utf8ByteSize
      scan (interpolate segments) base =
        .ok [⟨.interpolated (place (base + 2) segments), base, stop⟩, ⟨.eof, stop, stop⟩] := by
  constructor
  · intro s stop
    refine scan_of_step rfl ?_
    rw [step_quote]
    simp [string, escapeText, stringBody_escapes, closeString_quote, Step.token, stop, quote,
      ← String.utf8Len_toList, show '"'.utf8Size = 1 from rfl]
    omega
  · intro segments hwritable happart stop
    refine scan_of_step rfl ?_
    show interpolated _ base = _
    simp [interpolated, interpolatedBody_written hwritable happart [] [] _ (absurd rfl),
      closeString_quote, Step.token, Segments.pushText, stop, interpolate, ← String.utf8Len_toList,
      show '"'.utf8Size = 1 from rfl, show '$'.utf8Size = 1 from rfl]
    omega

/-- Braces in a text, in code and around code that is empty. -/
theorem scan_written_braces :
    let segments : List Segment := [.text "\x7bé", .code "\x7bx\x7d" 0, .code "" 0, .text "\n"]
    (∀ s ∈ segments, s.Writable) ∧
      (segments.IsChain fun s t => s.isText = true → t.isText = false) ∧
      scan (interpolate segments) 0 = .ok [⟨.interpolated
        [.text "\x7bé", .code "\x7bx\x7d" 7, .code "" 12, .text "\n"], 0, 16⟩, ⟨.eof, 16, 16⟩] := by
  intro segments
  have hcode : Nested ['\x7b', 'x', '\x7d'] :=
    show Nested ('\x7b' :: (['x'] ++ '\x7d' :: [])) from .braces (.char (by decide) .nil) .nil
  have hwritable : ∀ s ∈ segments, s.Writable := by
    simp [segments, Segment.Writable, hcode, Nested.nil]
  have happart : segments.IsChain fun s t => s.isText = true → t.isText = false := by
    simp [segments, Segment.isText]
  exact ⟨hwritable, happart,
    ((scan_written 0).2 segments hwritable happart).trans (congrArg Except.ok (by decide))⟩

end Lexer

end HostScript
