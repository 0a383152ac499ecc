/-
# Texts in parentheses

A text in parentheses is a word, or a list of such texts with blanks between them and
parentheses around them. If no word is empty or has a blank or a parenthesis in it, what a text
stands for can be read off it, and where it ends: two that begin the same characters are the
same, as long as no character after them could belong to a word.
-/

import LoxLang.Proofs.Token.Spacing

namespace LoxLang

open Spelling

/-- A word, or a list in parentheses. -/
inductive Sexp
  | atom (word : String)
  | list (items : List Sexp)

namespace Sexp

mutual

/-- The text on one line. -/
def text : Sexp → String
  | .atom word => word
  | .list [] => "()"
  | .list (first :: others) => "(" ++ first.text ++ textEach others ++ ")"

/-- The texts of the items, each after a blank. -/
def textEach : List Sexp → String
  | [] => ""
  | first :: others => " " ++ first.text ++ textEach others

end

/-- The characters that are in no word. -/
def delimiters : List Char :=
  [' ', '(', ')']

/-- The word is not empty and has no delimiter in it. -/
def Solid (word : String) : Prop :=
  word.toList ≠ [] ∧ ∀ c ∈ word.toList, c ∉ delimiters

/-- All words in the text are solid. -/
inductive Proper : Sexp → Prop
  | atom {word : String} : Solid word → Proper (.atom word)
  | list {items : List Sexp} : (∀ item ∈ items, Proper item) → Proper (.list items)

@[simp]
theorem proper_atom {word : String} : (atom word).Proper ↔ Solid word :=
  ⟨fun (.atom h) => h, .atom⟩

@[simp]
theorem proper_list {items : List Sexp} : (list items).Proper ↔ ∀ item ∈ items, item.Proper :=
  ⟨fun (.list h) => h, .list⟩

/-- A list that begins with a word. -/
theorem Proper.headed {word : String} {items : List Sexp} (hword : Solid word)
    (h : ∀ item ∈ items, item.Proper) : (Sexp.list (.atom word :: items)).Proper :=
  .list (List.forall_mem_cons.mpr ⟨.atom hword, h⟩)

/-- No word can go on into the text. -/
def Delimited (rest : List Char) : Prop :=
  ∀ c ∈ rest.head?, c ∈ delimiters

variable {word other : String} {first second : Sexp} {items others : List Sexp}
  {rest later : List Char}

/-! ## Words -/

theorem Solid.takeWhile_append (h : Solid word) (hrest : Delimited rest) :
    (word.toList ++ rest).takeWhile (· ∉ delimiters) = word.toList := by
  rw [List.takeWhile_append_of_pos, Segment.takeWhile_of_head?, List.append_nil]
  · exact fun c hc => decide_eq_false (not_not.mpr (hrest c hc))
  · exact fun c hc => decide_eq_true (h.2 c hc)

/-- Where a word ends is told by the delimiter after it. -/
theorem Solid.append_inj (h : Solid word) (hother : Solid other) (hrest : Delimited rest)
    (hlater : Delimited later) (heq : word.toList ++ rest = other.toList ++ later) :
    word = other ∧ rest = later := by
  have hword : word.toList = other.toList := by
    rw [← h.takeWhile_append hrest, heq, hother.takeWhile_append hlater]
  rw [hword] at heq
  exact ⟨String.toList_inj.mp hword, List.append_cancel_left heq⟩

theorem Solid.append_ne_cons (h : Solid word) {c : Char} (hc : c ∈ delimiters) :
    word.toList ++ rest ≠ c :: later := by
  obtain ⟨hnonempty, hnone⟩ := h
  obtain ⟨head, tail, hword⟩ := List.exists_cons_of_ne_nil hnonempty
  rw [hword, List.cons_append]
  rintro heq
  obtain ⟨rfl, -⟩ := List.cons.inj heq
  exact hnone head (by simp [hword]) hc

theorem not_mem_delimiters {c : Char} (h : Letter c ∨ Digit c ∨ c = '.') : c ∉ delimiters := by
  intro hc
  simp only [delimiters, List.mem_cons, List.not_mem_nil, or_false] at hc
  unfold Letter Digit at h
  revert h
  rcases hc with rfl | rfl | rfl <;> decide

/-- The texts of tokens are solid words, but for strings and parentheses. -/
theorem solid_of_lexeme {kind : TokenKind} {word : String} (h : Lexeme kind word.toList)
    (hkind : kind ∉ [.string, .leftParen, .rightParen]) : Solid word := by
  refine ⟨(Segment.spelled_lexeme h).ne_nil, fun c hc => ?_⟩
  rcases h.mem hc with rfl | hlisted | h
  · exact absurd hkind (by decide)
  · have hall : ∀ entry ∈ operators, entry.2 ∉ [.string, .leftParen, .rightParen] →
        entry.1.all (· ∉ delimiters) = true := by decide
    exact of_decide_eq_true (List.all_eq_true.mp (hall _ hlisted hkind) c hc)
  · exact not_mem_delimiters h

/-! ## Lists -/

/-- A list of words has blanks between them. -/
theorem text_words (words : List String) :
    (list (words.map atom)).text = "(" ++ " ".intercalate words ++ ")" := by
  have heach (word : String) (words : List String) :
      word ++ textEach (words.map atom) = " ".intercalate (word :: words) := by
    induction words generalizing word with
    | nil => rw [List.map_nil, textEach, String.append_empty, String.intercalate_singleton]
    | cons next words ih =>
        rw [String.intercalate_cons_cons, ← ih, List.map_cons, textEach, text]
        simp only [String.append_assoc]
  cases words with
  | nil => rfl
  | cons word words =>
      rw [← heach, List.map_cons, text, text]
      simp only [String.append_assoc]

theorem text_cons : (list (first :: items)).text.toList ++ rest =
    '(' :: (first.text.toList ++ ((textEach items).toList ++ ')' :: rest)) := by
  simp [text]

theorem textEach_cons : (textEach (first :: items)).toList ++ rest =
    ' ' :: (first.text.toList ++ ((textEach items).toList ++ rest)) := by
  simp [textEach]

/-- The items are followed by a blank or the parenthesis that closes the list. -/
theorem delimited_textEach : Delimited ((textEach items).toList ++ ')' :: rest) := by
  cases items with
  | nil =>
      rintro c ⟨⟩
      decide
  | cons first others =>
      rw [textEach_cons]
      rintro c ⟨⟩
      decide

/-- No text begins with the parenthesis that closes a list. -/
theorem Proper.append_ne_closing (h : first.Proper) :
    first.text.toList ++ rest ≠ ')' :: later := by
  cases h with
  | atom hword =>
      rw [text]
      exact hword.append_ne_cons (by decide)
  | @list items _ =>
      cases items with
      | nil => simp [text]
      | cons first others => simp [text_cons]

mutual

/-- A text can be read in one way, and what comes after it begins where it ends. -/
theorem text_append_inj : ∀ {first second : Sexp} {rest later : List Char},
    first.Proper → second.Proper → Delimited rest → Delimited later →
    first.text.toList ++ rest = second.text.toList ++ later → first = second ∧ rest = later
  | .atom _, .atom _, _, _, .atom hword, .atom hother, hrest, hlater, heq => by
      rw [text, text] at heq
      obtain ⟨rfl, rfl⟩ := hword.append_inj hother hrest hlater heq
      exact ⟨rfl, rfl⟩
  | .atom _, .list [], _, _, .atom hword, _, _, _, heq =>
      absurd heq (hword.append_ne_cons (by decide))
  | .atom _, .list (_ :: _), _, _, .atom hword, _, _, _, heq =>
      absurd (heq.trans text_cons) (hword.append_ne_cons (by decide))
  | .list [], .atom _, _, _, _, .atom hword, _, _, heq =>
      absurd heq.symm (hword.append_ne_cons (by decide))
  | .list (_ :: _), .atom _, _, _, _, .atom hword, _, _, heq =>
      absurd (heq.symm.trans text_cons) (hword.append_ne_cons (by decide))
  | .list [], .list [], _, _, _, _, _, _, heq => ⟨rfl, List.append_cancel_left heq⟩
  | .list [], .list (_ :: _), _, _, _, .list hothers, _, _, heq =>
      absurd (List.cons.inj (heq.trans text_cons)).2.symm
        (hothers _ List.mem_cons_self).append_ne_closing
  | .list (_ :: _), .list [], _, _, .list hitems, _, _, _, heq =>
      absurd (List.cons.inj (heq.symm.trans text_cons)).2.symm
        (hitems _ List.mem_cons_self).append_ne_closing
  | .list (first :: items), .list (second :: others), rest, later, .list h, .list hother, _, _,
      heq => by
      have heach : (textEach (first :: items)).toList ++ ')' :: rest =
          (textEach (second :: others)).toList ++ ')' :: later := by
        rw [text_cons, text_cons] at heq
        rw [textEach_cons, textEach_cons, (List.cons.inj heq).2]
      obtain ⟨hitems, hrest⟩ := textEach_append_inj h hother heach
      exact ⟨congrArg list hitems, hrest⟩

/-- So can the items of a list, up to the parenthesis that closes it. -/
theorem textEach_append_inj : ∀ {items others : List Sexp} {rest later : List Char},
    (∀ item ∈ items, item.Proper) → (∀ item ∈ others, item.Proper) →
    (textEach items).toList ++ ')' :: rest = (textEach others).toList ++ ')' :: later →
    items = others ∧ rest = later
  | [], [], _, _, _, _, heq => ⟨rfl, (List.cons.inj heq).2⟩
  | [], _ :: _, _, _, _, _, heq => nomatch heq.trans textEach_cons
  | _ :: _, [], _, _, _, _, heq => nomatch heq.symm.trans textEach_cons
  | _ :: _, _ :: _, _, _, h, hother, heq => by
      rw [textEach_cons, textEach_cons] at heq
      obtain ⟨hfirst, hitems⟩ := List.forall_mem_cons.mp h
      obtain ⟨hsecond, hothers⟩ := List.forall_mem_cons.mp hother
      obtain ⟨rfl, htail⟩ := text_append_inj hfirst hsecond delimited_textEach delimited_textEach
        (List.cons.inj heq).2
      obtain ⟨rfl, rfl⟩ := textEach_append_inj hitems hothers htail
      exact ⟨rfl, rfl⟩

end

/-- Two texts are the same only if they stand for the same. -/
theorem text_inj (hfirst : first.Proper) (hsecond : second.Proper)
    (h : first.text = second.text) : first = second := by
  have hend : Delimited [] := by simp [Delimited]
  have heq : first.text.toList ++ [] = second.text.toList ++ [] := by rw [h]
  exact (text_append_inj hfirst hsecond hend hend heq).1

end Sexp

end LoxLang
