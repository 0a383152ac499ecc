/-
# Tokenisations

A tokenisation of a text is a list of segments that together are the text, each the
longest spelling that what is left of the text begins with. Every text has one and no
more than one, the one that is cut.
-/

import LoxLang.Proofs.Token.LongestMatch

namespace LoxLang

open Spelling

namespace Segment

variable {segment : Segment} {rest text before : List Char} {segments : List Segment}

/-! ## Where comments and open strings end -/

/-- A comment takes all of its line. -/
theorem Longest.comment_ends (h : segment.Longest rest) (comment : segment.kind = .comment) :
    ∀ c, rest.head? = some c → c = '\n' := by
  intro c first
  obtain ⟨kind, text⟩ := segment
  obtain rfl : kind = .comment := comment
  obtain ⟨tail, rfl⟩ := List.head?_eq_some_iff.1 first
  by_contra other
  cases h.spelled with
  | proper proper =>
      cases proper with
      | @comment words noNewline =>
          have longer : Spelled .comment ('/' :: '/' :: (words ++ [c])) :=
            .proper (.comment (by simp [noNewline, Ne.symm other]))
          have bound := h.longest _ _ longer ⟨tail, by simp⟩
          simp only [List.length_cons, List.length_append, List.length_nil] at bound
          omega

/-- A string that is never closed takes all that is left. -/
theorem Longest.openString_ends (h : segment.Longest rest)
    (openString : segment.kind = .openString) : rest = [] := by
  obtain ⟨kind, text⟩ := segment
  obtain rfl : kind = .openString := openString
  cases rest with
  | nil => rfl
  | cons c tail =>
      cases h.spelled with
      | proper proper =>
          cases proper with
          | @openString contents noQuote =>
              have longer : ∃ kind, Spelled kind ('"' :: (contents ++ [c])) := by
                by_cases quote : c = '"'
                · rw [quote]
                  exact ⟨_, spelled_lexeme (.string noQuote)⟩
                · exact ⟨_, .proper (.openString (by simp [noQuote, Ne.symm quote]))⟩
              obtain ⟨kind, spelled⟩ := longer
              have bound := h.longest _ _ spelled ⟨tail, by simp⟩
              simp only [List.length_cons, List.length_append, List.length_nil] at bound
              omega

/-! ## Tokenisations -/

/-- The characters of the segments, in order. -/
def characters (segments : List Segment) : List Char :=
  segments.flatMap (·.text)

@[simp]
theorem characters_cons (segment : Segment) (segments : List Segment) :
    characters (segment :: segments) = segment.text ++ characters segments := rfl

/-- The segments are what the text falls into when each takes as much as it can. -/
structure Tokenisation (text : List Char) (segments : List Segment) : Prop where
  /-- The segments are the text, with nothing left over. -/
  whole : characters segments = text
  /-- Each is the longest spelling, of whatever kind, that the remaining text begins with. -/
  longest : ∀ front segment back, segments = front ++ segment :: back →
    segment.Longest (characters back)
  /-- A comment runs up to the next newline or the end. -/
  comments : ∀ front segment back, segments = front ++ segment :: back →
    segment.kind = .comment → ∀ c, (characters back).head? = some c → c = '\n'
  /-- Only the last segment can be a string that is never closed. -/
  openStrings : ∀ front segment back, segments = front ++ segment :: back →
    segment.kind = .openString → back = []

namespace Tokenisation

theorem nil : Tokenisation [] [] where
  whole := rfl
  longest front segment back equal := by simp at equal
  comments front segment back equal := by simp at equal
  openStrings front segment back equal := by simp at equal

/-- The longest spelling in front of what is tokenised. -/
theorem cons (first : segment.Longest text) (h : Tokenisation text segments) :
    Tokenisation (segment.text ++ text) (segment :: segments) := by
  have longest : ∀ front other back, segment :: segments = front ++ other :: back →
      other.Longest (characters back) := by
    intro front other back equal
    cases front with
    | nil =>
        obtain ⟨rfl, rfl⟩ := List.cons.inj equal
        exact h.whole ▸ first
    | cons _ front => exact h.longest front other back (List.cons.inj equal).2
  refine ⟨by rw [characters_cons, h.whole], longest, ?_, ?_⟩
  · exact fun front other back equal => (longest front other back equal).comment_ends
  · intro front other back equal openString
    have none := (longest front other back equal).openString_ends openString
    cases back with
    | nil => rfl
    | cons next back =>
        have nextSpelled := (longest (front ++ [other]) next back (by simp [equal])).spelled
        have nextEmpty : next.text = [] := (List.append_eq_nil_iff.1 none).1
        exact absurd nextEmpty nextSpelled.ne_nil

theorem head (h : Tokenisation text (segment :: segments)) :
    segment.Longest (characters segments) :=
  h.longest [] segment segments rfl

theorem tail (h : Tokenisation text (segment :: segments)) :
    Tokenisation (characters segments) segments where
  whole := rfl
  longest front other back equal := h.longest (segment :: front) other back (by simp [equal])
  comments front other back equal := h.comments (segment :: front) other back (by simp [equal])
  openStrings front other back equal :=
    h.openStrings (segment :: front) other back (by simp [equal])

theorem spelled (h : Tokenisation text segments) :
    ∀ segment ∈ segments, Spelled segment.kind segment.text := by
  intro segment member
  obtain ⟨front, back, equal⟩ := List.append_of_mem member
  exact (h.longest front segment back equal).spelled

end Tokenisation

/-- Cutting a text tokenises it. -/
theorem ofText_tokenises (text : List Char) : Tokenisation text (ofText text) := by
  induction text using ofText.induct with
  | case1 =>
      rw [ofText]
      exact .nil
  | case2 c rest ih =>
      have step := ih.cons (cut_longest c rest)
      rwa [cut_text, ← ofText] at step

/-- Any tokenisation of a text is what is cut. -/
theorem Tokenisation.eq_ofText (h : Tokenisation text segments) : segments = ofText text := by
  induction segments generalizing text with
  | nil =>
      obtain rfl : [] = text := h.whole
      rw [ofText]
  | cons segment segments ih =>
      have whole := h.whole
      cases text with
      | nil => exact absurd (List.append_eq_nil_iff.1 whole).1 h.head.spelled.ne_nil
      | cons c rest =>
          rw [ofText, h.head.eq_cut whole, ← ih h.tail]

theorem tokenisation_iff : Tokenisation text segments ↔ segments = ofText text :=
  ⟨Tokenisation.eq_ofText, fun equal => equal ▸ ofText_tokenises text⟩

end Segment

end LoxLang
