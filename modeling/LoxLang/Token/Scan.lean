/-
# Scanning

Scanning turns the segments of a source into tokens and errors. Every segment
ends on some line, one plus the newlines of the source up to its end, and that is
the line its token or error gets; blanks and comments yield nothing. After the
last segment comes one token for the end.

Errors do not stop the scan, so one pass finds all of them.
-/

import LoxLang.Diagnostic
import LoxLang.Number.Decimal
import LoxLang.Token.Segment

namespace LoxLang

/-- What can be wrong with a piece of source. -/
inductive LexFault
  | /-- A character begins no token. -/
    unexpectedCharacter
  | /-- A string is not closed before the source ends. -/
    unterminatedString
  deriving DecidableEq

/-- How a lexical fault is worded. -/
def LexFault.message : LexFault → String
  | .unexpectedCharacter => "Unexpected character."
  | .unterminatedString => "Unterminated string."

/-- A lexical fault and the line it is on. -/
structure LexError where
  /-- What is wrong. -/
  fault : LexFault
  /-- The line, counted from one. -/
  line : Nat
  deriving DecidableEq

/-- The error as it is reported. -/
def LexError.diagnostic (error : LexError) : Diagnostic :=
  .lexical error.fault.message error.line

/-- What a scan yields at one place. -/
abbrev ScanItem := Except LexError Token

namespace Segment

theorem single_text_ne_nil (kind : TokenKind) (c : Char) (rest : List Char) :
    (single kind c rest).1.text ≠ [] := by simp [single]

theorem extensible_text_ne_nil (short long : TokenKind) (c : Char) (rest : List Char) :
    (extensible short long c rest).1.text ≠ [] := by
  unfold extensible
  split <;> simp

/-- No segment is empty. -/
theorem cut_text_ne_nil (c : Char) (rest : List Char) : (cut c rest).1.text ≠ [] := by
  unfold cut
  split <;> try simp [single_text_ne_nil, extensible_text_ne_nil]
  · unfold slashOrComment
    split <;> simp
  · unfold quoted
    split <;> simp
  · split
    · simp [numeral]
    · split <;> simp [word]

/-- What follows a segment is shorter than the text the segment was cut from. -/
theorem length_cut_lt (c : Char) (rest : List Char) :
    (cut c rest).2.length < (c :: rest).length := by
  have h := congrArg List.length (cut_text c rest)
  have hpos := List.length_pos_iff.2 (cut_text_ne_nil c rest)
  simp only [List.length_append] at h
  omega

/-- All segments of a text, in order. -/
def ofText (text : List Char) : List Segment :=
  match text with
  | [] => []
  | c :: rest => (cut c rest).1 :: ofText (cut c rest).2
termination_by text.length
decreasing_by exact length_cut_lt c rest

/-- The newlines inside the segment. -/
def newlines (segment : Segment) : Nat :=
  segment.text.count '\n'

end Segment

/-- What a token of the given kind and text carries. -/
def payloadOf (kind : TokenKind) (text : List Char) : Option Payload :=
  match kind with
  | .string => some (.text (String.ofList (text.drop 1).dropLast))
  | .number => some (.number (Decimal.ofDigits text).toFloat)
  | _ => none

/-- What a segment that ends on the given line yields. -/
def Segment.item? (segment : Segment) (line : Nat) : Option ScanItem :=
  match segment.kind with
  | .blank => none
  | .comment => none
  | .lexeme kind =>
    some (.ok ⟨kind, String.ofList segment.text, payloadOf kind segment.text, line⟩)
  | .stray => some (.error ⟨.unexpectedCharacter, line⟩)
  | .openString => some (.error ⟨.unterminatedString, line⟩)

namespace Token

/-- What the segments yield if they start on the given line. -/
def scanSegments (line : Nat) : List Segment → List ScanItem
  | [] => [.ok (eof line)]
  | segment :: rest =>
    (segment.item? (line + segment.newlines)).toList ++
      scanSegments (line + segment.newlines) rest

/-- The tokens and errors of a source, in order, with one token for the end. -/
def scan (source : String) : List ScanItem :=
  scanSegments 1 (Segment.ofText source.toList)

/-- The tokens that a scan yields. -/
def ofScan (items : List ScanItem) : List Token :=
  items.filterMap fun
    | .ok token => some token
    | .error _ => none

end Token

/-- The errors that a scan yields. -/
def LexError.ofScan (items : List ScanItem) : List LexError :=
  items.filterMap fun
    | .ok _ => none
    | .error error => some error

end LoxLang
