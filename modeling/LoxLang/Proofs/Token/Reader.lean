/-
# Reading a source by positions

Scanning cuts a source into segments, character by character. The same can be done with no
more than a position in the bytes of the source and the number of the line: a reader looks at
one byte or two, moves on, and takes the text of a token from between two positions.

A position may be wrong in ways that a list of characters cannot. There may be no byte to
read at it, or it may be in the middle of a character. So every step of a reader may come to
nothing, and does in each of these cases: nothing is read behind the end, and no text is taken
from between positions that are out of order or no boundaries of characters. Loops come to
their end wherever the reader stands, since each round reads a byte or comes to nothing.
-/

import LoxLang.Proofs.Token.Encoding
import LoxLang.Token.Scan

namespace LoxLang

/-- Where a reader stands in a source. Positions count bytes. -/
structure Reader where
  /-- Where the segment begins that is read. -/
  start : Nat
  /-- The position behind the last byte that was read. Once the end has been reported, it is
  one more than the bytes of the source. -/
  position : Nat
  /-- The line, counted from one. -/
  line : Nat

namespace Reader

/-- What a segment is found to be: an error, a token without its text, or nothing that is
reported. -/
abbrev Outcome := Except LexError (Option (TokenKind × Option Payload))

/-- The bytes from one position to another, if they come in this order in the source. -/
def byteSlice (source : String) (first last : Nat) : Option (List UInt8) :=
  if first ≤ last ∧ last ≤ (bytes source).length then some (((bytes source).take last).drop first)
  else none

/-- The kind of a word that is stored as the given bytes. -/
def wordKindOfBytes (word : List UInt8) : TokenKind :=
  match Keyword.all.find? fun keyword => encode keyword.word.toList == word with
  | some keyword => .keyword keyword
  | none => .identifier

section

variable (source : String) (reader : Reader)

/-! ## Bytes -/

/-- Whether all bytes have been read. -/
def atEnd : Bool :=
  decide ((bytes source).length ≤ reader.position)

/-- Read a byte, which has to be there. -/
def advance : Option (UInt8 × Reader) :=
  (bytes source)[reader.position]?.map fun byte =>
    (byte, { reader with position := reader.position + 1 })

theorem eq_of_advance {source : String} {reader after : Reader} {byte : UInt8}
    (h : reader.advance source = some (byte, after)) :
    reader.position < (bytes source).length ∧
      after = { reader with position := reader.position + 1 } := by
  obtain ⟨_, hbyte, heq⟩ := Option.map_eq_some_iff.mp h
  obtain ⟨hmore, _⟩ := List.getElem?_eq_some_iff.mp hbyte
  cases heq
  exact ⟨hmore, rfl⟩

/-- To read a byte brings the reader nearer to the end. -/
theorem left_advance {source : String} {reader after : Reader} {byte : UInt8}
    (h : reader.advance source = some (byte, after)) :
    (bytes source).length - after.position < (bytes source).length - reader.position := by
  obtain ⟨hmore, rfl⟩ := eq_of_advance h
  exact Nat.sub_lt_sub_left hmore (Nat.lt_succ_self reader.position)

/-- The next byte, or zero at the end. -/
def peek : UInt8 :=
  if reader.atEnd source then 0 else (bytes source)[reader.position]?.getD 0

/-- The byte after the next one, or zero if there is none. -/
def peekNext : UInt8 :=
  if (bytes source).length ≤ reader.position + 1 then 0
  else (bytes source)[reader.position + 1]?.getD 0

/-- Read the next byte if it is the given character, and tell whether it is. -/
def skip (expected : Char) : Option (Bool × Reader) :=
  if reader.atEnd source = false ∧ byteChar (reader.peek source) = expected then do
    let (_, reader) ← reader.advance source
    some (true, reader)
  else some (false, reader)

/-! ## Loops -/

/-- Read bytes as long as the next one has the property. -/
def skipWhile (source : String) (p : Char → Bool) (reader : Reader) : Option Reader :=
  if p (byteChar (reader.peek source)) then
    match _ : reader.advance source with
    | none => none
    | some (_, reader) => skipWhile source p reader
  else some reader
termination_by (bytes source).length - reader.position
decreasing_by exact left_advance ‹_›

/-- Read bytes up to the next quote or the end, and count the newlines. -/
def skipContents (source : String) (reader : Reader) : Option Reader :=
  if reader.atEnd source = false ∧ byteChar (reader.peek source) ≠ '"' then
    match _ : reader.advance source with
    | none => none
    | some (byte, reader) =>
      if byteChar byte = '\n' then skipContents source { reader with line := reader.line + 1 }
      else skipContents source reader
  else some reader
termination_by (bytes source).length - reader.position
decreasing_by all_goals exact left_advance ‹_›

/-- Go to the next newline, or to the end if there is none. -/
def skipLine : Option Reader := do
  let rest ← byteSlice source reader.position (bytes source).length
  match rest.findIdx? fun byte => byteChar byte == '\n' with
  | some offset => some { reader with position := reader.position + offset }
  | none => some { reader with position := (bytes source).length }

/-! ## Segments -/

/-- A token of the given kind has been read. -/
def emit (kind : TokenKind) : Option (Outcome × Reader) :=
  some (.ok (some (kind, none)), reader)

/-- An operator has been read that an equals sign extends. -/
def readExtensible (short long : TokenKind) : Option (Outcome × Reader) := do
  let (found, reader) ← reader.skip source '='
  reader.emit (if found then long else short)

/-- A slash has been read, which another one makes a comment. -/
def readSlash : Option (Outcome × Reader) := do
  let (found, reader) ← reader.skip source '/'
  if found then
    let reader ← reader.skipLine source
    some (.ok none, reader)
  else reader.emit .slash

/-- A quote has been read. -/
def readString : Option (Outcome × Reader) := do
  let reader ← reader.skipContents source
  if reader.atEnd source then some (.error ⟨.unterminatedString, reader.line⟩, reader)
  else
    let (_, reader) ← reader.advance source
    let contents ← slice source (reader.start + 1) (reader.position - 1)
    some (.ok (some (.string, some (.text contents))), reader)

/-- Read the fraction of a number, if there is one. -/
def skipFraction : Option Reader :=
  if byteChar (reader.peek source) = '.' ∧ (byteChar (reader.peekNext source)).isDigit then do
    let (_, reader) ← reader.advance source
    reader.skipWhile source Char.isDigit
  else some reader

/-- A digit has been read. -/
def readNumber : Option (Outcome × Reader) := do
  let reader ← reader.skipWhile source Char.isDigit
  let reader ← reader.skipFraction source
  let digits ← slice source reader.start reader.position
  some (.ok (some (.number, some (.number (Decimal.ofDigits digits.toList).toFloat))), reader)

/-- The first character of a word has been read. -/
def readWord : Option (Outcome × Reader) := do
  let reader ← reader.skipWhile source isWordPart
  let word ← byteSlice source reader.start reader.position
  reader.emit (wordKindOfBytes word)

/-- The first byte of a character has been read that begins no token. The rest of it is
skipped. -/
def readStray : Option (Outcome × Reader) := do
  let rest ← slice source reader.start (bytes source).length
  let reader := match rest.toList with
    | [] => reader
    | c :: _ => { reader with position := reader.start + c.utf8Size }
  some (.error ⟨.unexpectedCharacter, reader.line⟩, reader)

/-- The first byte of a segment has been read, which would be the given character by itself. -/
def readAfter (first : Char) : Option (Outcome × Reader) :=
  match first with
  | '(' => reader.emit .leftParen
  | ')' => reader.emit .rightParen
  | '{' => reader.emit .leftBrace
  | '}' => reader.emit .rightBrace
  | ',' => reader.emit .comma
  | '.' => reader.emit .dot
  | '-' => reader.emit .minus
  | '+' => reader.emit .plus
  | ';' => reader.emit .semicolon
  | '*' => reader.emit .star
  | '!' => reader.readExtensible source .bang .bangEqual
  | '=' => reader.readExtensible source .equal .equalEqual
  | '<' => reader.readExtensible source .less .lessEqual
  | '>' => reader.readExtensible source .greater .greaterEqual
  | ' ' | '\r' | '\t' => some (.ok none, reader)
  | '\n' => some (.ok none, { reader with line := reader.line + 1 })
  | '/' => reader.readSlash source
  | '"' => reader.readString source
  | first =>
    if first.isDigit then reader.readNumber source
    else if isWordStart first then reader.readWord source
    else reader.readStray source

/-- Read one segment. -/
def read : Option (Outcome × Reader) := do
  let (byte, reader) ← reader.advance source
  reader.readAfter source (byteChar byte)

end

/-! ## What is not reported -/

section

variable {source : String} {reader after : Reader}

/-- It does not happen that a segment is read of which nothing is reported. -/
def Reports (result : Option (Outcome × Reader)) : Prop :=
  ∀ reader, result ≠ some (.ok none, reader)

theorem reports_bind {α : Type} {step : Option α} {more : α → Option (Outcome × Reader)}
    (h : ∀ result, Reports (more result)) : Reports (step.bind more) := by
  intro reader heq
  obtain ⟨result, -, hresult⟩ := Option.bind_eq_some_iff.mp heq
  exact h result reader hresult

theorem reports_emit (kind : TokenKind) : Reports (reader.emit kind) := nofun

theorem reports_readExtensible (short long : TokenKind) :
    Reports (reader.readExtensible source short long) :=
  reports_bind fun _ => reports_emit _

theorem reports_readString : Reports (reader.readString source) := by
  refine reports_bind fun reader => ?_
  split
  · nofun
  · exact reports_bind fun _ => reports_bind fun _ => nofun

theorem reports_readNumber : Reports (reader.readNumber source) :=
  reports_bind fun _ => reports_bind fun _ => reports_bind fun _ => nofun

theorem reports_readWord : Reports (reader.readWord source) :=
  reports_bind fun _ => reports_bind fun _ => reports_emit _

theorem reports_readStray : Reports (reader.readStray source) :=
  reports_bind fun _ => nofun

theorem position_le_of_skip {expected : Char} {found : Bool}
    (h : reader.skip source expected = some (found, after)) : reader.position ≤ after.position := by
  unfold skip at h
  split at h
  · obtain ⟨⟨byte, later⟩, hadvance, hlater⟩ := Option.bind_eq_some_iff.mp h
    cases hlater
    rw [(eq_of_advance hadvance).2]
    exact Nat.le_succ reader.position
  · cases h
    exact Nat.le_refl _

theorem position_le_of_skipLine (h : reader.skipLine source = some after) :
    reader.position ≤ after.position := by
  obtain ⟨rest, hrest, hafter⟩ := Option.bind_eq_some_iff.mp h
  unfold byteSlice at hrest
  split at hrest
  next hbounds =>
    split at hafter
    · cases hafter
      exact Nat.le_add_right _ _
    · cases hafter
      exact hbounds.1
  next => cases hrest

theorem position_le_of_readSlash (h : reader.readSlash source = some (.ok none, after)) :
    reader.position ≤ after.position := by
  obtain ⟨⟨found, later⟩, hskip, hlater⟩ := Option.bind_eq_some_iff.mp h
  cases found with
  | false => cases hlater
  | true =>
      obtain ⟨last, hlast, hafter⟩ := Option.bind_eq_some_iff.mp hlater
      cases hafter
      exact Nat.le_trans (position_le_of_skip hskip) (position_le_of_skipLine hlast)

theorem position_le_of_readAfter {first : Char}
    (h : reader.readAfter source first = some (.ok none, after)) :
    reader.position ≤ after.position := by
  unfold readAfter at h
  split at h
  case h_11 | h_12 | h_13 | h_14 => exact absurd h (reports_readExtensible _ _ _)
  case h_15 | h_16 | h_17 | h_18 =>
    cases h
    exact Nat.le_refl _
  case h_19 => exact position_le_of_readSlash h
  case h_20 => exact absurd h (reports_readString _)
  case h_21 =>
    split at h
    · exact absurd h (reports_readNumber _)
    · split at h
      · exact absurd h (reports_readWord _)
      · exact absurd h (reports_readStray _)
  all_goals exact absurd h (reports_emit _ _)

/-- What is not reported brings the reader nearer to the end. -/
theorem left_read (h : reader.read source = some (.ok none, after)) :
    (bytes source).length - after.position < (bytes source).length - reader.position := by
  obtain ⟨⟨byte, later⟩, hadvance, hafter⟩ := Option.bind_eq_some_iff.mp h
  have hposition := position_le_of_readAfter hafter
  exact Nat.lt_of_le_of_lt (Nat.sub_le_sub_left hposition _) (left_advance hadvance)

end

/-! ## Calls -/

/-- Read up to the next token or error, or to the end. The end is reported once. -/
def next (source : String) (reader : Reader) : Option (Option ScanItem × Reader) :=
  if reader.position ≤ (bytes source).length then
    if reader.position = (bytes source).length then
      some (some (.ok (.eof reader.line)), { reader with position := reader.position + 1 })
    else
      match _ : read source { reader with start := reader.position } with
      | none => none
      | some (.error error, reader) => some (some (.error error), reader)
      | some (.ok (some (kind, payload)), reader) => do
        let lexeme ← slice source reader.start reader.position
        some (some (.ok ⟨kind, lexeme, payload, reader.line⟩), reader)
      | some (.ok none, reader) => next source reader
  else some (none, reader)
termination_by (bytes source).length - reader.position
decreasing_by exact (left_read ‹_› :)

/-- Where the number of calls brings a reader that starts at the beginning. -/
def reached (source : String) : Nat → Option Reader
  | 0 => some ⟨0, 0, 1⟩
  | count + 1 => do
    let reader ← reached source count
    let (_, reader) ← reader.next source
    some reader

end Reader

end LoxLang
