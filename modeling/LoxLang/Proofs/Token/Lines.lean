/-
# Lines

The line of a token or an error, told from where it stands in the source. Every segment
has a place, which is the segment with all the text before it, and the line of what it
yields is one more than the newlines up to that place. Which text that is depends on the
segment: a token is on the line on which it ends, a stray character on the line on which
it stands, and a string that is never closed on the last line of the source, since
it takes all that is left.

A newline is either a blank of its own, also where it ends a comment, or it is inside a
string. No other segment has one, so each newline is passed exactly once.
-/

import Mathlib.Data.List.Forall2
import LoxLang.Proofs.Token.Scanning

namespace LoxLang

namespace Spelling

variable {kind : TokenKind} {text : List Char}

/-! ## Where newlines are -/

theorem not_digit_newline : ¬ Digit '\n' := by
  unfold Digit
  decide

theorem not_letter_newline : ¬ Letter '\n' := by
  unfold Letter
  decide

/-- Strings are the only tokens that span lines. -/
theorem Lexeme.newline (h : Lexeme kind text) (newline : '\n' ∈ text) : kind = .string := by
  rcases h.mem newline with string | listed | letter | digit | point
  · exact string
  · have all : ∀ entry ∈ operators, '\n' ∉ entry.1 := by decide
    exact absurd newline (all _ listed)
  · exact absurd letter not_letter_newline
  · exact absurd digit not_digit_newline
  · cases point

theorem not_stray_newline : ¬ Spelled .stray ['\n'] := by
  intro h
  cases h with
  | proper proper => cases proper
  | stray none => exact none .blank [] (.blank (by simp))

/-- A segment with a newline in it is that newline and no more, or it is a string. -/
theorem Spelled.newline {kind : SegmentKind} (h : Spelled kind text) (newline : '\n' ∈ text) :
    (kind = .blank ∧ text = ['\n']) ∨ kind = .lexeme .string ∨ kind = .openString := by
  cases h with
  | stray none =>
      obtain rfl := List.mem_singleton.1 newline
      exact absurd (.stray none) not_stray_newline
  | proper proper =>
      cases proper with
      | blank =>
          obtain rfl := List.mem_singleton.1 newline
          exact .inl ⟨rfl, rfl⟩
      | comment noNewline => simp [noNewline] at newline
      | lexeme lexeme => exact .inr (.inl (congrArg _ (lexeme.newline newline)))
      | openString => exact .inr (.inr rfl)

end Spelling

open Spelling

/-! ## Places -/

/-- A segment and the text before it. -/
structure Place where
  before : List Char
  segment : Segment

namespace Place

/-- The places of segments that stand after a text. -/
def ofSegments (before : List Char) : List Segment → List Place
  | [] => []
  | segment :: segments => ⟨before, segment⟩ :: ofSegments (before ++ segment.text) segments

/-- Whether the segment at the place is more than space between tokens. -/
def yields (place : Place) : Bool :=
  place.segment.kind != .blank && place.segment.kind != .comment

/-- The item is what a place in the source yields, and it has its line from there. -/
inductive Numbers (source : List Char) : Place → ScanItem → Prop
  | /-- The line on which the lexeme ends. -/
    token {before : List Char} {token : Token} :
      token.line = lineAfter (before ++ token.lexeme.toList) →
        Numbers source ⟨before, .lexeme token.kind, token.lexeme.toList⟩ (.ok token)
  | /-- The line of the character. -/
    unexpectedCharacter {before : List Char} {c : Char} {error : LexError} :
      error.diagnostic = .lexical "Unexpected character." (lineAfter before) →
        Numbers source ⟨before, .stray, [c]⟩ (.error error)
  | /-- The last line of the source. -/
    unterminatedString {before text : List Char} {error : LexError} :
      error.diagnostic = .lexical "Unterminated string." (lineAfter source) →
        Numbers source ⟨before, .openString, text⟩ (.error error)

variable {before text : List Char} {place : Place} {segment : Segment}
  {segments : List Segment} {items : List ScanItem}

open Segment (characters Tokenisation)

/-- A place has one of the segments, and the text is what stands before it, the segment and
what follows. -/
theorem mem_ofSegments (member : place ∈ ofSegments before segments) :
    place.segment ∈ segments ∧
      ∃ after, before ++ characters segments = place.before ++ place.segment.text ++ after := by
  induction segments generalizing before with
  | nil => cases member
  | cons segment segments ih =>
      rcases List.mem_cons.1 member with rfl | later
      · exact ⟨List.mem_cons_self, characters segments, by simp⟩
      · obtain ⟨among, after, whole⟩ := ih later
        refine ⟨List.mem_cons_of_mem segment among, after, ?_⟩
        rw [← whole, Segment.characters_cons, List.append_assoc]

/-- A stray character is no newline, so the line is the same before it and after it. -/
theorem lineAfter_stray (h : Spelled .stray text) :
    lineAfter (before ++ text) = lineAfter before := by
  have none : text.count '\n' = 0 := by
    refine List.count_eq_zero.2 fun newline => ?_
    rcases h.newline newline with ⟨blank, -⟩ | string | openString
    · cases blank
    · cases string
    · cases openString
  rw [lineAfter_append, none, Nat.add_zero]

/-- What segments yield is numbered by their places, up to the one token for the end. -/
theorem numbers_of_yields (h : Yields before segments items)
    (tokenised : Tokenisation (characters segments) segments) :
    ∃ numbered, items = numbered ++ [.ok (.eof (lineAfter (before ++ characters segments)))] ∧
      List.Forall₂ (Numbers (before ++ characters segments))
        ((ofSegments before segments).filter yields) numbered := by
  induction h with
  | @done before => exact ⟨[], by simp [characters], .nil⟩
  | blank _ ih =>
      rw [Segment.characters_cons, ← List.append_assoc]
      exact ih tokenised.tail
  | comment _ ih =>
      rw [Segment.characters_cons, ← List.append_assoc]
      exact ih tokenised.tail
  | @lexeme before text segments items kind payload _ _ ih =>
      rw [Segment.characters_cons, ← List.append_assoc]
      obtain ⟨numbered, rfl, each⟩ := ih tokenised.tail
      refine ⟨_ :: numbered, rfl, .cons ?_ each⟩
      have token := @Numbers.token (before ++ text ++ characters segments) before
        ⟨kind, String.ofList text, payload, lineAfter (before ++ text)⟩
        (by rw [String.toList_ofList])
      rwa [String.toList_ofList] at token
  | @stray before text segments items error worded _ ih =>
      rw [Segment.characters_cons, ← List.append_assoc]
      obtain ⟨numbered, rfl, each⟩ := ih tokenised.tail
      have spelled := tokenised.head.spelled
      rw [lineAfter_stray spelled] at worded
      cases spelled with
      | proper proper => cases proper
      | stray => exact ⟨_ :: numbered, rfl, .cons (.unexpectedCharacter worded) each⟩
  | @openString before text segments items error worded _ ih =>
      rw [Segment.characters_cons, ← List.append_assoc]
      obtain ⟨numbered, rfl, each⟩ := ih tokenised.tail
      -- Nothing follows the string, so the line on which it ends is the last one.
      obtain rfl : segments = [] := tokenised.openStrings [] _ segments rfl rfl
      refine ⟨_ :: numbered, rfl, .cons (.unterminatedString ?_) each⟩
      rw [worded, characters, List.flatMap_nil, List.append_nil]

/-- What follows a comment is a newline that is a segment of its own. -/
theorem newline_of_comment {front : List Segment} {comment : Segment}
    (h : Tokenisation text (front ++ comment :: segment :: segments))
    (isComment : comment.kind = .comment) : segment = ⟨.blank, ['\n']⟩ := by
  have next := h.longest (front ++ [comment]) segment segments (by simp)
  obtain ⟨first, others, begins⟩ := List.exists_cons_of_ne_nil next.spelled.ne_nil
  have newline : first = '\n' := by
    refine h.comments front comment (segment :: segments) rfl isComment first ?_
    rw [Segment.characters_cons, begins]
    rfl
  have whole : segment.text ++ characters segments = '\n' :: (others ++ characters segments) := by
    rw [begins, newline]
    rfl
  exact congrArg Prod.fst (next.eq_cut whole).symm

/-- A place of the source with a newline in it is the blank that this newline is, or it is
a string. -/
theorem newline (tokenised : Tokenisation text segments)
    (member : place ∈ ofSegments before segments) (newline : '\n' ∈ place.segment.text) :
    place.segment = ⟨.blank, ['\n']⟩ ∨ place.segment.kind = .lexeme .string ∨
      place.segment.kind = .openString := by
  have spelled := tokenised.spelled _ (mem_ofSegments member).1
  rcases spelled.newline newline with ⟨kind, blank⟩ | string
  · refine .inl ?_
    rw [← kind, ← blank]
  · exact .inr string

end Place

open Segment Place

/-- Every line of a scan is one more than the newlines of the source up to a place, and
each newline of the source is counted at one place. -/
theorem Token.scan_lines (source : String) :
    ∃ segments, Tokenisation source.toList segments ∧
      (∃ items, Token.scan source = items ++ [.ok (.eof (lineAfter source.toList))] ∧
        List.Forall₂ (Numbers source.toList) ((ofSegments [] segments).filter yields) items) ∧
      (∀ place ∈ ofSegments [] segments,
        (∃ after, source.toList = place.before ++ place.segment.text ++ after) ∧
        ('\n' ∈ place.segment.text → place.segment = ⟨.blank, ['\n']⟩ ∨
          place.segment.kind = .lexeme .string ∨ place.segment.kind = .openString)) ∧
      ∀ front comment segment back, segments = front ++ comment :: segment :: back →
        comment.kind = .comment → segment = ⟨.blank, ['\n']⟩ := by
  have tokenised := ofText_tokenises source.toList
  have yielded := scanSegments_yields [] tokenised.spelled
  refine ⟨Segment.ofText source.toList, tokenised, ?_, ?_, ?_⟩
  · have numbered := numbers_of_yields yielded (tokenised.whole.symm ▸ tokenised)
    rwa [tokenised.whole] at numbered
  · intro place member
    obtain ⟨-, after, whole⟩ := mem_ofSegments member
    rw [tokenised.whole] at whole
    exact ⟨⟨after, whole⟩, Place.newline tokenised member⟩
  · intro front comment segment back equal isComment
    rw [equal] at tokenised
    exact newline_of_comment tokenised isComment

end LoxLang
