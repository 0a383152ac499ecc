/-
# Segments of a source text

A source text falls into segments: single blanks, comments, lexemes, stray
characters that begin nothing, and at most one string that is never closed. Each
segment is cut off the front of the text as the longest one of its class, and
what is left is cut in turn, so the segments in order are the text itself.

A segment knows its own text and nothing about its surroundings. Line numbers are
added afterwards, by counting the newlines of the segments.
-/

import LoxLang.Token.Basic

namespace LoxLang

/-- What a segment of the source is. -/
inductive SegmentKind
  | /-- One space, tab, carriage return or newline. -/
    blank
  | /-- Two slashes and all that follows them up to the end of the line. -/
    comment
  | /-- The text of one token. -/
    lexeme (kind : TokenKind)
  | /-- A character that begins no other segment. -/
    stray
  | /-- A quote with no closing quote after it, and all that follows it. -/
    openString
  deriving DecidableEq

/-- A piece of the source. -/
structure Segment where
  /-- What the piece is. -/
  kind : SegmentKind
  /-- Its characters. -/
  text : List Char
  deriving DecidableEq

/-- Whether a word may start with the character. -/
def isWordStart (c : Char) : Bool :=
  c.isAlpha || c == '_'

/-- Whether a word may go on with the character. -/
def isWordPart (c : Char) : Bool :=
  c.isAlphanum || c == '_'

/-- The kind of a whole word: a reserved word or an identifier. -/
def wordKind (word : List Char) : TokenKind :=
  match Keyword.ofWord? (String.ofList word) with
  | some keyword => .keyword keyword
  | none => .identifier

namespace Segment

/-- The segment of one character. -/
def single (kind : TokenKind) (c : Char) (rest : List Char) : Segment × List Char :=
  (⟨.lexeme kind, [c]⟩, rest)

/-- An operator that an equals sign right after it extends to another one. -/
def extensible (short long : TokenKind) (c : Char) : List Char → Segment × List Char
  | '=' :: rest => (⟨.lexeme long, [c, '=']⟩, rest)
  | rest => (⟨.lexeme short, [c]⟩, rest)

/-- A slash, or the comment that a second slash begins. The newline that ends a
comment is left to be a blank of its own. -/
def slashOrComment : List Char → Segment × List Char
  | '/' :: rest =>
    (⟨.comment, '/' :: '/' :: rest.takeWhile (· != '\n')⟩, rest.dropWhile (· != '\n'))
  | rest => (⟨.lexeme .slash, ['/']⟩, rest)

/-- What an opening quote begins: all up to the next quote, on whatever line it
stands, or an open string if there is none. -/
def quoted (rest : List Char) : Segment × List Char :=
  let contents := rest.takeWhile (· != '"')
  match rest.dropWhile (· != '"') with
  | quote :: after => (⟨.lexeme .string, '"' :: (contents ++ [quote])⟩, after)
  | [] => (⟨.openString, '"' :: contents⟩, [])

/-- The fraction at the front of a text: a point and the digits right after it.
A point without digits is no fraction. -/
def fraction (text : List Char) : List Char × List Char :=
  match text with
  | '.' :: digit :: rest =>
    if digit.isDigit then
      ('.' :: digit :: rest.takeWhile Char.isDigit, rest.dropWhile Char.isDigit)
    else ([], text)
  | _ => ([], text)

/-- A number that starts with the given digit. -/
def numeral (first : Char) (rest : List Char) : Segment × List Char :=
  let whole := rest.takeWhile Char.isDigit
  let (part, after) := fraction (rest.dropWhile Char.isDigit)
  (⟨.lexeme .number, first :: (whole ++ part)⟩, after)

/-- A reserved word or an identifier that starts with the given character. -/
def word (first : Char) (rest : List Char) : Segment × List Char :=
  let letters := first :: rest.takeWhile isWordPart
  (⟨.lexeme (wordKind letters), letters⟩, rest.dropWhile isWordPart)

/-- The first segment of the text `c :: rest`, and what follows it. -/
def cut (c : Char) (rest : List Char) : Segment × List Char :=
  match c with
  | '(' => single .leftParen c rest
  | ')' => single .rightParen c rest
  | '{' => single .leftBrace c rest
  | '}' => single .rightBrace c rest
  | ',' => single .comma c rest
  | '.' => single .dot c rest
  | '-' => single .minus c rest
  | '+' => single .plus c rest
  | ';' => single .semicolon c rest
  | '*' => single .star c rest
  | '!' => extensible .bang .bangEqual c rest
  | '=' => extensible .equal .equalEqual c rest
  | '<' => extensible .less .lessEqual c rest
  | '>' => extensible .greater .greaterEqual c rest
  | '/' => slashOrComment rest
  | '"' => quoted rest
  | ' ' | '\t' | '\r' | '\n' => (⟨.blank, [c]⟩, rest)
  | _ =>
    if c.isDigit then numeral c rest
    else if isWordStart c then word c rest
    else (⟨.stray, [c]⟩, rest)

/-! ## Cutting loses nothing -/

@[simp]
theorem single_text (kind : TokenKind) (c : Char) (rest : List Char) :
    (single kind c rest).1.text ++ (single kind c rest).2 = c :: rest := rfl

@[simp]
theorem extensible_text (short long : TokenKind) (c : Char) (rest : List Char) :
    (extensible short long c rest).1.text ++ (extensible short long c rest).2 = c :: rest := by
  unfold extensible
  split <;> simp

@[simp]
theorem slashOrComment_text (rest : List Char) :
    (slashOrComment rest).1.text ++ (slashOrComment rest).2 = '/' :: rest := by
  unfold slashOrComment
  split <;> simp

@[simp]
theorem quoted_text (rest : List Char) :
    (quoted rest).1.text ++ (quoted rest).2 = '"' :: rest := by
  have h := List.takeWhile_append_dropWhile (p := fun c => c != '"') (l := rest)
  unfold quoted
  split
  next q after hafter =>
    rw [hafter] at h
    simpa using h
  next hafter =>
    rw [hafter] at h
    simpa using h

theorem fraction_text (text : List Char) : (fraction text).1 ++ (fraction text).2 = text := by
  unfold fraction
  split
  · split <;> simp
  · simp

@[simp]
theorem numeral_text (first : Char) (rest : List Char) :
    (numeral first rest).1.text ++ (numeral first rest).2 = first :: rest := by
  simp [numeral, fraction_text]

@[simp]
theorem word_text (first : Char) (rest : List Char) :
    (word first rest).1.text ++ (word first rest).2 = first :: rest := by
  simp [word]

/-- A segment and what follows it are the text they were cut from. -/
theorem cut_text (c : Char) (rest : List Char) :
    (cut c rest).1.text ++ (cut c rest).2 = c :: rest := by
  unfold cut
  split <;> try simp
  split
  · simp
  · split <;> simp

end Segment

end LoxLang
