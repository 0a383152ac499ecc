/-
# Longest match

The segment cut off the front of a text is the longest prefix of it that is spelled as a
segment of any kind, and it is the only segment that is: two segments are never spelled
by the same characters. So how a text is cut follows from the spellings alone.

Two facts carry this. What is cut is spelled as its kind says; and from a text that
begins with some spelling, at least that spelling is cut, and with its kind if the text
is that spelling and no more.
-/

import LoxLang.Proofs.Token.Spelling
import Mathlib.Data.List.TakeWhile

namespace LoxLang

open Spelling

/-! ## How spellings begin -/

namespace Spelling

/-- The characters that begin segments and are neither letters nor digits. -/
def marks : List Char :=
  ['(', ')', '{', '}', ',', '.', '-', '+', ';', '*', '!', '=', '<', '>', '/', '"', ' ', '\t',
    '\r', '\n']

variable {kind : SegmentKind} {text : List Char} {c : Char}

theorem Letter.not_digit (h : Letter c) : ¬ Digit c := by
  rintro ⟨-, high⟩
  rcases h with ⟨low, -⟩ | ⟨low, -⟩ | rfl
  · exact absurd (Char.le_trans low high) (by decide)
  · exact absurd (Char.le_trans low high) (by decide)
  · exact absurd high (by decide)

theorem Word.letter_of_head? (h : Word text) (first : text.head? = some c) : Letter c := by
  cases text with
  | nil => cases h
  | cons other others =>
      cases first
      exact h.1

theorem Digits.digit_of_head? (h : Digits text) (first : text.head? = some c) : Digit c :=
  h.2 c (List.mem_of_mem_head? first)

theorem Lexeme.begins {token : TokenKind} (h : Lexeme token text)
    (first : text.head? = some c) : c ∈ marks ∨ Digit c ∨ Letter c := by
  cases h with
  | operator listed =>
      have all : ∀ entry ∈ operators, entry.1.head?.all (marks.contains ·) = true := by decide
      have mark := all _ listed
      rw [first] at mark
      exact .inl (List.contains_iff_mem.1 mark)
  | string =>
      cases first
      exact .inl (by decide)
  | whole digits => exact .inr (.inl (digits.digit_of_head? first))
  | @fractional whole part digits =>
      have start : whole.head? = some c := by
        simpa [List.head?_append, List.head?_eq_some_head digits.1] using first
      exact .inr (.inl (digits.digit_of_head? start))
  | keyword keyword => exact .inr (.inr ((word_keyword keyword).letter_of_head? first))
  | identifier word => exact .inr (.inr (word.letter_of_head? first))

/-- Any segment that is not stray begins with a mark, a digit or a letter. -/
theorem Proper.begins (h : Proper kind text) (first : text.head? = some c) :
    c ∈ marks ∨ Digit c ∨ Letter c := by
  cases h with
  | blank listed =>
      cases first
      simp only [List.mem_cons, List.not_mem_nil, or_false] at listed
      rcases listed with rfl | rfl | rfl | rfl <;> exact .inl (by decide)
  | comment =>
      cases first
      exact .inl (by decide)
  | lexeme lexeme => exact lexeme.begins first
  | openString =>
      cases first
      exact .inl (by decide)

theorem Spelled.ne_nil (h : Spelled kind text) : text ≠ [] := by
  cases h with
  | stray => simp
  | proper proper =>
      cases proper with
      | blank => simp
      | comment => simp
      | openString => simp
      | lexeme lexeme =>
          cases lexeme with
          | operator listed =>
              have all : ∀ entry ∈ operators, entry.1 ≠ [] := by decide
              exact all _ listed
          | string => simp
          | whole digits => exact digits.1
          | fractional => simp
          | keyword keyword => cases keyword <;> decide
          | identifier word => rintro rfl; exact word

end Spelling

namespace Segment

variable {c : Char} {rest more : List Char}

/-! ## What is cut is spelled -/

theorem cut_digit (h : Digit c) : cut c rest = numeral c rest := by
  have digit := (isDigit_iff c).2 h
  unfold cut
  split <;> simp_all

theorem cut_letter (h : Letter c) : cut c rest = word c rest := by
  have start := (isWordStart_iff c).2 h
  have noDigit : ¬ c.isDigit = true := mt (isDigit_iff c).1 h.not_digit
  unfold cut
  split <;> simp_all [isWordStart]

theorem spelled_lexeme {kind : TokenKind} {text : List Char} (h : Lexeme kind text) :
    Spelled (.lexeme kind) text :=
  .proper (.lexeme h)

theorem spelled_operator {text : List Char} {kind : TokenKind}
    (listed : (text, kind) ∈ operators) : Spelled (.lexeme kind) text :=
  spelled_lexeme (.operator listed)

theorem single_spelled {kind : TokenKind} (listed : ([c], kind) ∈ operators) :
    Spelled (single kind c rest).1.kind (single kind c rest).1.text :=
  spelled_operator listed

theorem extensible_spelled {short long : TokenKind} (one : ([c], short) ∈ operators)
    (two : ([c, '='], long) ∈ operators) :
    Spelled (extensible short long c rest).1.kind (extensible short long c rest).1.text := by
  unfold extensible
  split
  · exact spelled_operator two
  · exact spelled_operator one

theorem slashOrComment_spelled :
    Spelled (slashOrComment rest).1.kind (slashOrComment rest).1.text := by
  unfold slashOrComment
  split
  · exact .proper (.comment fun member => by simpa using List.mem_takeWhile_imp member)
  · exact single_spelled (by decide)

theorem quoted_spelled : Spelled (quoted rest).1.kind (quoted rest).1.text := by
  have inside : '"' ∉ rest.takeWhile (· != '"') :=
    fun member => by simpa using List.mem_takeWhile_imp member
  unfold quoted
  split
  next quote after found =>
    have closes : quote = '"' := by
      have stop := List.head?_dropWhile_not (· != '"') rest
      rw [found] at stop
      simpa using stop
    rw [closes]
    exact spelled_lexeme (.string inside)
  next => exact .proper (.openString inside)

theorem digits_takeWhile (h : Digit c) (rest : List Char) :
    Digits (c :: rest.takeWhile Char.isDigit) := by
  refine ⟨by simp, fun digit member => ?_⟩
  rcases List.mem_cons.1 member with rfl | later
  · exact h
  · exact (isDigit_iff digit).1 (List.mem_takeWhile_imp later)

/-- A fraction is empty, or a point and digits. -/
theorem fraction_cases (text : List Char) :
    (fraction text).1 = [] ∨ ∃ part, Digits part ∧ (fraction text).1 = '.' :: part := by
  unfold fraction
  split
  next digit others =>
    split
    next isDigit =>
      exact .inr ⟨_, digits_takeWhile ((isDigit_iff digit).1 isDigit) others, rfl⟩
    next => exact .inl rfl
  next => exact .inl rfl

theorem numeral_spelled (h : Digit c) :
    Spelled (numeral c rest).1.kind (numeral c rest).1.text := by
  have whole := digits_takeWhile h rest
  refine spelled_lexeme ?_
  simp only [numeral]
  rcases fraction_cases (rest.dropWhile Char.isDigit) with none | ⟨part, digits, equal⟩
  · rw [none, List.append_nil]
    exact .whole whole
  · rw [equal]
    exact .fractional whole digits

theorem word_spelled (h : Letter c) : Spelled (word c rest).1.kind (word c rest).1.text :=
  spelled_lexeme (lexeme_wordKind
    ⟨h, fun other member => (isWordPart_iff other).1 (List.mem_takeWhile_imp member)⟩)

/-- What is cut is spelled as its kind says. -/
theorem cut_spelled (c : Char) (rest : List Char) :
    Spelled (cut c rest).1.kind (cut c rest).1.text := by
  unfold cut
  split
  case h_1 | h_2 | h_3 | h_4 | h_5 | h_6 | h_7 | h_8 | h_9 | h_10 =>
    exact single_spelled (by decide)
  case h_11 | h_12 | h_13 | h_14 => exact extensible_spelled (by decide) (by decide)
  case h_15 => exact slashOrComment_spelled
  case h_16 => exact quoted_spelled
  case h_17 | h_18 | h_19 | h_20 => exact .proper (.blank (by decide))
  case h_21 =>
    split
    next digit => exact numeral_spelled ((isDigit_iff c).1 digit)
    next noDigit =>
      split
      next start => exact word_spelled ((isWordStart_iff c).1 start)
      next noStart =>
        -- no mark, no digit and no letter, so nothing else begins with it
        refine .stray fun kind tail proper => ?_
        rcases proper.begins rfl with mark | digit | letter
        · simp_all [marks]
        · exact noDigit ((isDigit_iff c).2 digit)
        · exact noStart ((isWordStart_iff c).2 letter)

/-! ## Spellings are cut whole -/

theorem all_ne {text : List Char} (h : c ∉ text) : ∀ other ∈ text, (other != c) = true := by
  intro other member
  simpa using ne_of_mem_of_not_mem member h

theorem all_isDigit {text : List Char} (h : Digits (c :: text)) :
    ∀ other ∈ text, other.isDigit = true :=
  fun other member => (isDigit_iff other).2 (h.2 other (List.mem_cons_of_mem c member))

theorem cut_blank (h : c ∈ [' ', '\t', '\r', '\n']) : cut c rest = (⟨.blank, [c]⟩, rest) := by
  simp only [List.mem_cons, List.not_mem_nil, or_false] at h
  rcases h with rfl | rfl | rfl | rfl <;> rfl

theorem cut_comment {words : List Char} (h : '\n' ∉ words) :
    cut '/' ('/' :: (words ++ more)) =
      (⟨.comment, '/' :: '/' :: (words ++ more.takeWhile (· != '\n'))⟩,
        more.dropWhile (· != '\n')) := by
  have inside := all_ne h
  change slashOrComment ('/' :: (words ++ more)) = _
  simp only [slashOrComment, List.takeWhile_append_of_pos inside,
    List.dropWhile_append_of_pos inside]

theorem cut_string {contents : List Char} (h : '"' ∉ contents) :
    cut '"' (contents ++ '"' :: more) =
      (⟨.lexeme .string, '"' :: (contents ++ ['"'])⟩, more) := by
  have inside := all_ne h
  change quoted (contents ++ '"' :: more) = _
  simp [quoted, List.takeWhile_append_of_pos inside, List.dropWhile_append_of_pos inside]

theorem cut_openString {contents : List Char} (h : '"' ∉ contents) :
    cut '"' contents = (⟨.openString, '"' :: contents⟩, []) := by
  have inside := all_ne h
  have taken := List.takeWhile_eq_self_iff.2 inside
  have dropped := List.dropWhile_eq_nil_iff.2 inside
  change quoted contents = _
  simp [quoted, taken, dropped]

theorem cut_word {others : List Char} (h : Word (c :: others)) :
    cut c (others ++ more) =
      (⟨.lexeme (wordKind (c :: (others ++ more.takeWhile isWordPart))),
        c :: (others ++ more.takeWhile isWordPart)⟩, more.dropWhile isWordPart) := by
  have inside : ∀ c ∈ others, isWordPart c = true :=
    fun c member => (isWordPart_iff c).2 (h.2 c member)
  rw [cut_letter h.1]
  simp only [word, List.takeWhile_append_of_pos inside, List.dropWhile_append_of_pos inside]

theorem fraction_digits {part : List Char} (h : Digits part) :
    fraction ('.' :: (part ++ more)) =
      ('.' :: (part ++ more.takeWhile Char.isDigit), more.dropWhile Char.isDigit) := by
  cases part with
  | nil => exact absurd rfl h.1
  | cons digit others =>
      have first : digit.isDigit = true := (isDigit_iff digit).2 (h.2 digit (by simp))
      have inside := all_isDigit h
      simp [fraction, first, List.takeWhile_append_of_pos inside,
        List.dropWhile_append_of_pos inside]

theorem cut_digits {others : List Char} (h : Digits (c :: others)) :
    cut c (others ++ more) =
      (⟨.lexeme .number,
        c :: (others ++ (more.takeWhile Char.isDigit ++
          (fraction (more.dropWhile Char.isDigit)).1))⟩,
        (fraction (more.dropWhile Char.isDigit)).2) := by
  have inside := all_isDigit h
  rw [cut_digit (h.2 c (by simp))]
  simp [numeral, List.takeWhile_append_of_pos inside, List.dropWhile_append_of_pos inside]

theorem cut_fractional {others part : List Char} (whole : Digits (c :: others))
    (digits : Digits part) :
    cut c (others ++ '.' :: (part ++ more)) =
      (⟨.lexeme .number, c :: (others ++ '.' :: (part ++ more.takeWhile Char.isDigit))⟩,
        more.dropWhile Char.isDigit) := by
  rw [cut_digits whole]
  simp [fraction_digits digits]

/-- What is cut begins with the character that it is cut at. -/
theorem singleton_prefix_cut (c : Char) (rest : List Char) : [c] <+: (cut c rest).1.text := by
  have parts := cut_text c rest
  cases equal : (cut c rest).1.text with
  | nil => exact absurd equal (cut_text_ne_nil c rest)
  | cons first others =>
      rw [equal, List.cons_append] at parts
      exact ⟨others, by rw [(List.cons.inj parts).1, List.singleton_append]⟩

theorem operator_prefix_cut {text : List Char} {kind : TokenKind}
    (h : (text, kind) ∈ operators) (equal : text ++ more = c :: rest) :
    text <+: (cut c rest).1.text := by
  have sizes : ∀ entry ∈ operators, entry.1.length = 1 ∨
      entry.1 ∈ [['!', '='], ['=', '='], ['>', '='], ['<', '=']] := by decide
  rcases sizes _ h with one | two
  · obtain ⟨first, rfl⟩ := List.length_eq_one_iff.1 one
    cases equal
    exact singleton_prefix_cut _ _
  · simp only [List.mem_cons, List.not_mem_nil, or_false] at two
    rcases two with rfl | rfl | rfl | rfl <;> cases equal <;> exact List.prefix_rfl

theorem word_prefix_cut {text : List Char} (h : Word text) (equal : text ++ more = c :: rest) :
    text <+: (cut c rest).1.text := by
  cases text with
  | nil => cases h
  | cons =>
      cases equal
      simp [cut_word h]

theorem openString_prefix_cut {contents : List Char} (h : '"' ∉ contents) :
    ('"' :: contents) <+: (cut '"' (contents ++ more)).1.text := by
  have inside := all_ne h
  change ('"' :: contents) <+: (quoted (contents ++ more)).1.text
  unfold quoted
  split <;> simp [List.takeWhile_append_of_pos inside]

theorem lexeme_prefix_cut {kind : TokenKind} {text : List Char} (h : Lexeme kind text)
    (equal : text ++ more = c :: rest) : text <+: (cut c rest).1.text := by
  cases h with
  | operator listed => exact operator_prefix_cut listed equal
  | string noQuote =>
      cases equal
      simp [cut_string noQuote]
  | whole digits =>
      cases text with
      | nil => exact absurd rfl digits.1
      | cons =>
          cases equal
          simp [cut_digits digits]
  | @fractional first part whole digits =>
      cases first with
      | nil => exact absurd rfl whole.1
      | cons =>
          cases equal
          simp [cut_fractional whole digits]
  | keyword keyword => exact word_prefix_cut (word_keyword keyword) equal
  | identifier word => exact word_prefix_cut word equal

/-- Whatever spelling a text begins with, at least that is cut off it. -/
theorem prefix_cut {kind : SegmentKind} {text : List Char} (h : Spelled kind text)
    (equal : text ++ more = c :: rest) : text <+: (cut c rest).1.text := by
  cases h with
  | stray =>
      cases equal
      exact singleton_prefix_cut _ _
  | proper proper =>
      cases proper with
      | blank =>
          cases equal
          exact singleton_prefix_cut _ _
      | comment noNewline =>
          cases equal
          simp [cut_comment noNewline]
      | lexeme lexeme => exact lexeme_prefix_cut lexeme equal
      | openString noQuote =>
          cases equal
          exact openString_prefix_cut noQuote

/-! ## Kinds -/

theorem kind_cut_word (h : Word (c :: rest)) :
    (cut c rest).1.kind = .lexeme (wordKind (c :: rest)) := by
  have whole : cut c (rest ++ []) = _ := cut_word h
  rw [List.append_nil] at whole
  simp [whole]

theorem lexeme_kind_cut {kind : TokenKind} {text : List Char} (h : Lexeme kind text)
    (equal : text = c :: rest) : (cut c rest).1.kind = .lexeme kind := by
  cases h with
  | operator listed =>
      have all : ∀ entry ∈ operators,
          (entry.1.head?.map fun c => (cut c entry.1.tail).1.kind) = some (.lexeme entry.2) := by
        decide
      have kinds := all _ listed
      rw [equal] at kinds
      exact Option.some.inj kinds
  | string noQuote =>
      cases equal
      rw [cut_string noQuote]
  | whole digits =>
      rw [equal] at digits
      rw [cut_digit (digits.2 c (by simp))]
      rfl
  | @fractional whole part digits =>
      have first : whole.head? = some c := by
        have start := congrArg List.head? equal
        simpa [List.head?_append, List.head?_eq_some_head digits.1] using start
      rw [cut_digit (digits.digit_of_head? first)]
      rfl
  | keyword keyword =>
      have word := word_keyword keyword
      rw [equal] at word
      rw [kind_cut_word word, ← equal, wordKind_word]
  | identifier word noKeyword =>
      rw [equal] at word
      rw [kind_cut_word word, ← equal, wordKind_of_identifier noKeyword]

/-- A text that is one spelling is cut as what it spells. -/
theorem kind_cut {kind : SegmentKind} (h : Spelled kind (c :: rest)) :
    (cut c rest).1.kind = kind := by
  cases h with
  | stray none =>
      have spelled := cut_spelled c []
      obtain ⟨others, equal⟩ := singleton_prefix_cut c []
      rw [← equal, List.singleton_append] at spelled
      generalize (cut c []).1.kind = kind at spelled ⊢
      cases spelled with
      | proper proper => exact absurd proper (none kind others)
      | stray => rfl
  | proper proper =>
      generalize equal : c :: rest = text at proper
      cases proper with
      | blank listed =>
          cases equal
          rw [cut_blank listed]
      | @comment words noNewline =>
          cases equal
          have whole : cut '/' ('/' :: (words ++ [])) = _ := cut_comment noNewline
          rw [List.append_nil] at whole
          rw [whole]
      | lexeme lexeme => exact lexeme_kind_cut lexeme equal.symm
      | openString noQuote =>
          cases equal
          rw [cut_openString noQuote]

/-! ## The longest spelling -/

/-- No spelling that the remaining text begins with is longer than the segment. -/
structure Longest (segment : Segment) (rest : List Char) : Prop where
  spelled : Spelled segment.kind segment.text
  longest : ∀ kind text, Spelled kind text → text <+: segment.text ++ rest →
    text.length ≤ segment.text.length

/-- What is cut is the longest spelling. -/
theorem cut_longest (c : Char) (rest : List Char) : (cut c rest).1.Longest (cut c rest).2 where
  spelled := cut_spelled c rest
  longest kind text spelled begins := by
    obtain ⟨more, equal⟩ := begins
    rw [cut_text] at equal
    exact (prefix_cut spelled equal).length_le

/-- One text is spelled as one kind of segment only. -/
theorem kind_unique {first second : SegmentKind} {text : List Char} (h : Spelled first text)
    (h' : Spelled second text) : first = second := by
  cases text with
  | nil => exact absurd rfl h.ne_nil
  | cons c rest => exact (kind_cut h).symm.trans (kind_cut h')

/-- The longest spelling is what is cut. -/
theorem Longest.eq_cut {segment : Segment} (h : segment.Longest rest) {after : List Char}
    (equal : segment.text ++ rest = c :: after) : cut c after = (segment, rest) := by
  have spelled := cut_spelled c after
  have within := (prefix_cut h.spelled equal).length_le
  have parts : (cut c after).1.text ++ (cut c after).2 = segment.text ++ rest :=
    (cut_text c after).trans equal.symm
  have longer := h.longest _ _ spelled ⟨_, parts⟩
  obtain ⟨texts, rests⟩ := List.append_inj parts (Nat.le_antisymm longer within)
  rw [texts] at spelled
  have kinds := kind_unique spelled h.spelled
  have segments : (⟨(cut c after).1.kind, (cut c after).1.text⟩ : Segment) =
      ⟨segment.kind, segment.text⟩ := by rw [kinds, texts]
  exact Prod.ext segments rests

end Segment

end LoxLang
