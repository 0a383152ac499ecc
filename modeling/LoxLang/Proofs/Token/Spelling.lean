/-
# Spellings

How the pieces of a source are spelled, apart from how they are found: the language of
each kind of token, and those of blanks, comments and strings that are never closed.
A piece is spelled by its own characters alone. Where it ends in a source is not said
here, and many a spelling is the beginning of another.

A character is stray if no piece of any other kind begins with it.
-/

import LoxLang.Token.Scan

namespace LoxLang

namespace Spelling

/-- The characters from zero to nine. -/
def Digit (c : Char) : Prop :=
  '0' ≤ c ∧ c ≤ '9'

/-- The letters from a to z in either case, and the underscore. -/
def Letter (c : Char) : Prop :=
  ('a' ≤ c ∧ c ≤ 'z') ∨ ('A' ≤ c ∧ c ≤ 'Z') ∨ c = '_'

/-- At least one digit and nothing else. -/
def Digits (text : List Char) : Prop :=
  text ≠ [] ∧ ∀ c ∈ text, Digit c

/-- A letter, and letters or digits after it. -/
def Word : List Char → Prop
  | [] => False
  | first :: others => Letter first ∧ ∀ c ∈ others, Letter c ∨ Digit c

/-- The operators and the punctuation. -/
def operators : List (List Char × TokenKind) :=
  [(['('], .leftParen), ([')'], .rightParen), (['{'], .leftBrace), (['}'], .rightBrace),
    ([','], .comma), (['.'], .dot), (['-'], .minus), (['+'], .plus), ([';'], .semicolon),
    (['/'], .slash), (['*'], .star), (['!'], .bang), (['!', '='], .bangEqual), (['='], .equal),
    (['=', '='], .equalEqual), (['>'], .greater), (['>', '='], .greaterEqual), (['<'], .less),
    (['<', '='], .lessEqual)]

/-- The texts of the tokens of each kind. The end of the source is no text. -/
inductive Lexeme : TokenKind → List Char → Prop
  | operator {text : List Char} {kind : TokenKind} :
      (text, kind) ∈ operators → Lexeme kind text
  | /-- Any characters between two quotes, newlines among them. -/
    string {contents : List Char} :
      '"' ∉ contents → Lexeme .string ('"' :: (contents ++ ['"']))
  | whole {text : List Char} :
      Digits text → Lexeme .number text
  | fractional {whole part : List Char} :
      Digits whole → Digits part → Lexeme .number (whole ++ '.' :: part)
  | keyword (keyword : Keyword) :
      Lexeme (.keyword keyword) keyword.word.toList
  | identifier {text : List Char} :
      Word text → (∀ keyword : Keyword, text ≠ keyword.word.toList) → Lexeme .identifier text

/-- The texts of the segments of each kind, stray characters apart. -/
inductive Proper : SegmentKind → List Char → Prop
  | blank {c : Char} :
      c ∈ [' ', '\t', '\r', '\n'] → Proper .blank [c]
  | comment {words : List Char} :
      '\n' ∉ words → Proper .comment ('/' :: '/' :: words)
  | lexeme {kind : TokenKind} {text : List Char} :
      Lexeme kind text → Proper (.lexeme kind) text
  | openString {contents : List Char} :
      '"' ∉ contents → Proper .openString ('"' :: contents)

/-- The texts of the segments of each kind. -/
inductive Spelled : SegmentKind → List Char → Prop
  | proper {kind : SegmentKind} {text : List Char} :
      Proper kind text → Spelled kind text
  | /-- No segment of another kind begins with the character. -/
    stray {c : Char} :
      (∀ kind tail, ¬ Proper kind (c :: tail)) → Spelled .stray [c]

/-! ## Characters -/

theorem isDigit_iff (c : Char) : c.isDigit = true ↔ Digit c := by
  simp [Digit, Char.isDigit, Char.le_def]

theorem isAlpha_iff (c : Char) :
    c.isAlpha = true ↔ ('A' ≤ c ∧ c ≤ 'Z') ∨ ('a' ≤ c ∧ c ≤ 'z') := by
  have upper : c.isUpper = true ↔ 'A' ≤ c ∧ c ≤ 'Z' := decide_eq_true_iff
  have lower : c.isLower = true ↔ 'a' ≤ c ∧ c ≤ 'z' := by
    change (decide ('a' ≤ c) && decide (c ≤ 'z')) = true ↔ _
    rw [Bool.and_eq_true, decide_eq_true_iff, decide_eq_true_iff]
  change (c.isUpper || c.isLower) = true ↔ _
  rw [Bool.or_eq_true, upper, lower]

theorem isWordStart_iff (c : Char) : isWordStart c = true ↔ Letter c := by
  simp only [isWordStart, Bool.or_eq_true, beq_iff_eq, isAlpha_iff, Letter]
  exact (or_congr_left or_comm).trans or_assoc

theorem isWordPart_iff (c : Char) : isWordPart c = true ↔ Letter c ∨ Digit c := by
  rw [← isWordStart_iff, ← isDigit_iff]
  simp only [isWordPart, isWordStart, Char.isAlphanum, Bool.or_eq_true]
  exact or_right_comm

/-! ## Reserved words -/

theorem ofWord?_word (keyword : Keyword) : Keyword.ofWord? keyword.word = some keyword := by
  cases keyword <;> rfl

theorem word_of_ofWord? {text : String} {keyword : Keyword}
    (h : Keyword.ofWord? text = some keyword) : keyword.word = text := by
  have found := List.find?_some h
  simpa using found

/-- A reserved word is a word. -/
theorem word_keyword (keyword : Keyword) : Word keyword.word.toList := by
  have spelled : ∃ first others, keyword.word.toList = first :: others ∧
      isWordStart first = true ∧ others.all isWordPart = true := by
    cases keyword <;> exact ⟨_, _, rfl, by decide, by decide⟩
  obtain ⟨first, others, equal, start, parts⟩ := spelled
  rw [equal]
  exact ⟨(isWordStart_iff first).1 start, fun c member =>
    (isWordPart_iff c).1 (List.all_eq_true.1 parts c member)⟩

/-- A word has the kind of the reserved word that it is, or that of identifiers. -/
theorem lexeme_wordKind {text : List Char} (h : Word text) : Lexeme (wordKind text) text := by
  unfold wordKind
  split
  next keyword found =>
    have equal : keyword.word.toList = text := by
      rw [word_of_ofWord? found, String.toList_ofList]
    rw [← equal]
    exact .keyword keyword
  next missing =>
    refine .identifier h fun keyword equal => ?_
    rw [equal, String.ofList_toList, ofWord?_word] at missing
    cases missing

@[simp]
theorem wordKind_word (keyword : Keyword) :
    wordKind keyword.word.toList = .keyword keyword := by
  simp [wordKind, ofWord?_word]

theorem wordKind_of_identifier {text : List Char}
    (h : ∀ keyword : Keyword, text ≠ keyword.word.toList) : wordKind text = .identifier := by
  unfold wordKind
  split
  next keyword found =>
    have equal := congrArg String.toList (word_of_ofWord? found)
    rw [String.toList_ofList] at equal
    exact absurd equal.symm (h keyword)
  next => rfl

/-! ## The characters of tokens -/

theorem Word.mem {text : List Char} {c : Char} (h : Word text) (hc : c ∈ text) :
    Letter c ∨ Digit c := by
  cases text with
  | nil => cases h
  | cons first others =>
      rcases List.mem_cons.mp hc with rfl | hlater
      · exact .inl h.1
      · exact h.2 c hlater

/-- Only strings are made of any characters. The other tokens are operators, or have letters,
digits and points in them. -/
theorem Lexeme.mem {kind : TokenKind} {text : List Char} {c : Char} (h : Lexeme kind text)
    (hc : c ∈ text) :
    kind = .string ∨ (text, kind) ∈ operators ∨ Letter c ∨ Digit c ∨ c = '.' := by
  cases h with
  | operator hlisted => exact .inr (.inl hlisted)
  | string => exact .inl rfl
  | whole hdigits => exact .inr (.inr (.inr (.inl (hdigits.2 c hc))))
  | fractional hwhole hpart =>
      rcases List.mem_append.mp hc with hbefore | hafter
      · exact .inr (.inr (.inr (.inl (hwhole.2 c hbefore))))
      · rcases List.mem_cons.mp hafter with hpoint | hdigit
        · exact .inr (.inr (.inr (.inr hpoint)))
        · exact .inr (.inr (.inr (.inl (hpart.2 c hdigit))))
  | keyword keyword => exact .inr (.inr ((word_keyword keyword).mem hc |>.imp_right .inl))
  | identifier hword => exact .inr (.inr (hword.mem hc |>.imp_right .inl))

end Spelling

end LoxLang
