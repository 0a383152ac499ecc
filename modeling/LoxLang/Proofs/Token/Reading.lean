/-
# Reading segments

Between segments the position of a reader is where a character begins, and from there it
reads the segment that is cut off the rest of the source. Within strings and comments it
passes bytes of any sort, but what it looks for is a byte of its own, and so is all that the
other loops pass. A character of several bytes that begins no token is passed as a whole.

So the reader is behind a whole text again once it has read a segment. That it is, with the
line that this text ends on, is what is said of every step.
-/

import LoxLang.Proofs.Token.Joining
import LoxLang.Proofs.Token.Lines
import LoxLang.Proofs.Token.Reader

namespace LoxLang

open Segment Spelling

/-! ## Characters of one byte -/

section

variable {c : Char}

theorem isAscii_of_digit (h : Digit c) : IsAscii c :=
  isAscii_of_le (by decide) h.2

theorem isAscii_of_letter (h : Letter c) : IsAscii c := by
  obtain ⟨-, hlast⟩ | ⟨-, hlast⟩ | rfl := h
  · exact isAscii_of_le (by decide) hlast
  · exact isAscii_of_le (by decide) hlast
  · decide

theorem uniform_isDigit : Uniform Char.isDigit :=
  uniform_of_ascii fun c hc => isAscii_of_digit ((isDigit_iff c).mp hc)

theorem uniform_isWordPart : Uniform isWordPart :=
  uniform_of_ascii fun c hc =>
    ((isWordPart_iff c).mp hc).elim isAscii_of_letter isAscii_of_digit

theorem isAscii_of_wordStart (h : isWordStart c = true) : IsAscii c :=
  isAscii_of_letter ((isWordStart_iff c).mp h)

end

namespace Reader

variable {source : String} {reader : Reader} {byte : UInt8} {rest : List UInt8}

/-! ## Bytes -/

/-- The bytes that have not been read. -/
def remaining (source : String) (reader : Reader) : List UInt8 :=
  (bytes source).drop reader.position

theorem atEnd_of_nil (h : remaining source reader = []) : reader.atEnd source = true :=
  decide_eq_true (List.drop_eq_nil_iff.mp h)

theorem atEnd_of_cons (h : remaining source reader = byte :: rest) :
    reader.atEnd source = false := by
  rw [atEnd, decide_eq_false_iff_not]
  intro hend
  rw [remaining, List.drop_eq_nil_iff.mpr hend] at h
  cases h

theorem getElem?_of_cons (h : remaining source reader = byte :: rest) :
    (bytes source)[reader.position]? = some byte := by
  rw [← List.head?_drop, ← remaining, h]
  rfl

theorem peek_of_nil (h : remaining source reader = []) : reader.peek source = 0 := by
  rw [peek, if_pos (atEnd_of_nil h)]

theorem peek_of_cons (h : remaining source reader = byte :: rest) : reader.peek source = byte := by
  rw [peek, atEnd_of_cons h, getElem?_of_cons h]
  rfl

theorem advance_of_cons (h : remaining source reader = byte :: rest) :
    reader.advance source = some (byte, { reader with position := reader.position + 1 }) := by
  rw [advance, getElem?_of_cons h]
  rfl

theorem remaining_advance (h : remaining source reader = byte :: rest) (line : Nat) :
    remaining source { reader with position := reader.position + 1, line := line } = rest := by
  rw [remaining, ← List.drop_drop, ← remaining, h]
  rfl

/-- A loop stops at the first byte that lacks the property, or at the end. -/
theorem skipWhile_eq {p : Char → Bool} (hend : p (byteChar 0) = false)
    (h : remaining source reader = rest) :
    reader.skipWhile source p = some { reader with
      position := reader.position + (rest.takeWhile fun byte => p (byteChar byte)).length } := by
  induction rest generalizing reader with
  | nil =>
      rw [skipWhile, peek_of_nil h, hend]
      rfl
  | cons byte rest ih =>
      rw [skipWhile, peek_of_cons h, List.takeWhile_cons]
      cases hbyte : p (byteChar byte) with
      | false => rfl
      | true =>
          rw [if_pos rfl, advance_of_cons h, if_pos rfl, List.length_cons]
          dsimp only
          rw [ih (remaining_advance h _)]
          simp only [Nat.add_assoc, Nat.add_comm]

/-- The contents of a string are passed up to the first byte that is a quote. -/
theorem skipContents_eq (h : remaining source reader = rest) :
    let contents := rest.takeWhile fun byte => byteChar byte != '"'
    reader.skipContents source = some { reader with
      position := reader.position + contents.length
      line := reader.line + contents.countP fun byte => byteChar byte == '\n' } := by
  induction rest generalizing reader with
  | nil =>
      rw [skipContents, atEnd_of_nil h]
      rfl
  | cons byte rest ih =>
      intro contents
      rw [skipContents, atEnd_of_cons h, peek_of_cons h]
      by_cases hquote : byteChar byte = '"'
      · have hcontents : contents = [] := by simp [contents, hquote]
        rw [if_neg (by simp [hquote]), hcontents]
        rfl
      · have hcontents : contents = byte :: rest.takeWhile fun byte => byteChar byte != '"' := by
          simp [contents, hquote]
        rw [if_pos ⟨rfl, hquote⟩, advance_of_cons h, hcontents, List.length_cons, List.countP_cons]
        dsimp only
        split
        next hnewline =>
          rw [ih (remaining_advance h _)]
          simp only [hnewline, Nat.add_assoc, Nat.add_comm]
          rfl
        next hnewline =>
          rw [ih (remaining_advance h _)]
          simp only [Nat.add_assoc, Nat.add_comm]
          simp [hnewline]

/-! ## Characters -/

/-- The reader that has read the text from the start of the source, of which the segment
begins at the given position. -/
def behind (start : Nat) (text : List Char) : Reader :=
  ⟨start, width text, lineAfter text⟩

variable {start : Nat} {before text after : List Char} {c : Char}

theorem remaining_behind (h : source.toList = before ++ after) :
    remaining source (behind start before) = encode after := by
  rw [remaining, bytes_eq_encode, h, encode_append]
  exact List.drop_left

theorem lineAfter_of_notMem (h : '\n' ∉ text) : lineAfter (before ++ text) = lineAfter before := by
  rw [lineAfter_append, List.count_eq_zero.mpr h, Nat.add_zero]

/-- Text without newlines leaves the reader on its line. -/
theorem behind_append (h : '\n' ∉ text) :
    behind start (before ++ text) = ⟨start, width before + width text, lineAfter before⟩ := by
  rw [behind, width_append, lineAfter_of_notMem h]

/-- The next byte has what the next character has. -/
theorem peek_behind {p : Char → Bool} (hp : Uniform p) (hend : p (byteChar 0) = false)
    (h : source.toList = before ++ after) :
    p (byteChar ((behind start before).peek source)) = after.head?.any p := by
  cases after with
  | nil =>
      rw [peek_of_nil (remaining_behind h)]
      exact hend
  | cons c after =>
      obtain ⟨byte, rest, hbytes, hmem⟩ := exists_encode_cons c after
      rw [peek_of_cons ((remaining_behind h).trans hbytes)]
      exact hp.byteChar hmem

theorem peek_eq_iff {expected : Char} (hexpected : IsAscii expected)
    (hend : byteChar 0 ≠ expected) (h : source.toList = before ++ after) :
    byteChar ((behind start before).peek source) = expected ↔ after.head? = some expected := by
  have hpeek := @peek_behind source start before after _ (uniform_eq hexpected)
    (beq_eq_false_iff_ne.mpr hend) h
  rw [← beq_iff_eq, hpeek]
  cases after <;> simp

theorem atEnd_behind (h : source.toList = before ++ after) :
    (behind start before).atEnd source = after.isEmpty := by
  cases after with
  | nil => exact atEnd_of_nil (remaining_behind h)
  | cons c after =>
      obtain ⟨byte, rest, hbytes, hmem⟩ := exists_encode_cons c after
      exact atEnd_of_cons ((remaining_behind h).trans hbytes)

/-- A character of one byte is read at once. -/
theorem advance_ascii (hc : IsAscii c) (h : source.toList = before ++ c :: after) :
    ∃ byte, byteChar byte = c ∧ (behind start before).advance source =
      some (byte, ⟨start, width (before ++ [c]), lineAfter before⟩) := by
  obtain ⟨byte, hbyte, hchar⟩ := encode_ascii hc
  have hbytes : remaining source (behind start before) = byte :: encode after := by
    rw [remaining_behind h, encode_cons, hbyte]
    rfl
  refine ⟨byte, hchar, ?_⟩
  rw [advance_of_cons hbytes, width_append]
  simp [behind, width, hbyte]

theorem behind_singleton (hne : c ≠ '\n') :
    behind start (before ++ [c]) = ⟨start, width (before ++ [c]), lineAfter before⟩ := by
  rw [behind_append (by simpa using hne.symm), width_append]

theorem skip_found {expected : Char} (hexpected : IsAscii expected) (hne : expected ≠ '\n')
    (hend : byteChar 0 ≠ expected) (h : source.toList = before ++ expected :: after) :
    (behind start before).skip source expected =
      some (true, behind start (before ++ [expected])) := by
  obtain ⟨byte, -, hadvance⟩ := @advance_ascii source start before after expected hexpected h
  rw [skip, if_pos ⟨atEnd_behind h, (peek_eq_iff hexpected hend h).mpr rfl⟩, hadvance,
    behind_singleton hne]
  rfl

theorem skip_absent {expected : Char} (hexpected : IsAscii expected) (hend : byteChar 0 ≠ expected)
    (h : source.toList = before ++ after) (hahead : ∀ tail, after = expected :: tail → False) :
    (behind start before).skip source expected = some (false, behind start before) := by
  rw [skip, if_neg]
  rintro ⟨-, hpeek⟩
  obtain ⟨tail, htail⟩ := List.head?_eq_some_iff.mp ((peek_eq_iff hexpected hend h).mp hpeek)
  exact hahead tail htail

/-- What a loop over characters passes. -/
theorem skipWhile_behind {p : Char → Bool} (hp : Uniform p) (hend : p (byteChar 0) = false)
    (hnewline : p '\n' = false) (h : source.toList = before ++ after) :
    (behind start before).skipWhile source p =
      some (behind start (before ++ after.takeWhile p)) := by
  have hnone : '\n' ∉ after.takeWhile p := fun hmem => by
    rw [List.mem_takeWhile_imp hmem] at hnewline
    cases hnewline
  rw [skipWhile_eq hend (remaining_behind h), takeWhile_encode hp, behind_append hnone]
  rfl

theorem skipContents_behind (h : source.toList = before ++ after) :
    (behind start before).skipContents source =
      some (behind start (before ++ after.takeWhile (· != '"'))) := by
  have hquote : Uniform (· != '"') := (uniform_eq (by decide : IsAscii '"')).not
  rw [skipContents_eq (remaining_behind h), takeWhile_encode hquote,
    countP_encode (by decide : IsAscii '\n'), behind, behind, width_append, lineAfter_append]
  rfl

theorem byteSlice_eq (h : source.toList = before ++ text ++ after) :
    byteSlice source (width before) (width (before ++ text)) = some (encode text) := by
  have hbounds : width before ≤ width (before ++ text) ∧
      width (before ++ text) ≤ (bytes source).length := by
    rw [length_bytes, h]
    simp
  have htake : (bytes source).take (width (before ++ text)) = encode before ++ encode text := by
    rw [bytes_eq_encode, h, @encode_append (before ++ text)]
    exact List.take_left.trans encode_append
  rw [byteSlice, if_pos hbounds, htake]
  exact congrArg some List.drop_left

theorem skipLine_behind (h : source.toList = before ++ after) :
    (behind start before).skipLine source =
      some (behind start (before ++ after.takeWhile (· != '\n'))) := by
  have hrest : byteSlice source (width before) (bytes source).length = some (encode after) := by
    have hslice := byteSlice_eq (h.trans (List.append_nil _).symm)
    rwa [← h, ← length_bytes] at hslice
  have hfind := findIdx_encode (by decide : IsAscii '\n') after
  rw [List.findIdx_eq_getD_findIdx?] at hfind
  have hnewline : '\n' ∉ after.takeWhile (· != '\n') := fun hmem => by
    simpa using List.mem_takeWhile_imp hmem
  rw [behind_append hnewline, ← hfind]
  show (byteSlice source (width before) _).bind _ = _
  rw [hrest, Option.bind_some]
  split
  next offset hoffset =>
    rw [hoffset]
    rfl
  next hnone =>
    rw [hnone, length_bytes, h, width_append]
    rfl

/-! ## Segments -/

/-- What a segment is found to be that ends on the given line. -/
def outcome (segment : Segment) (line : Nat) : Outcome :=
  match segment.kind with
  | .blank => .ok none
  | .comment => .ok none
  | .lexeme kind => .ok (some (kind, payloadOf kind segment.text))
  | .stray => .error ⟨.unexpectedCharacter, line⟩
  | .openString => .error ⟨.unterminatedString, line⟩

/-- The segment is read right behind the text before it. -/
def found (before : List Char) (segment : Segment) : Option (Outcome × Reader) :=
  some (outcome segment (lineAfter (before ++ segment.text)),
    behind (width before) (before ++ segment.text))

theorem found_lexeme (kind : TokenKind) (before text : List Char) :
    found before ⟨.lexeme kind, text⟩ =
      some (.ok (some (kind, payloadOf kind text)), behind (width before) (before ++ text)) := rfl

theorem wordKindOfBytes_encode (word : List Char) :
    wordKindOfBytes (encode word) = wordKind word := by
  have hsame (keyword : Keyword) : (encode keyword.word.toList == encode word) =
      (keyword.word == String.ofList word) := by
    rw [Bool.eq_iff_iff, beq_iff_eq, beq_iff_eq, encode_inj, ← String.toList_inj,
      String.toList_ofList]
  have hfind : (Keyword.all.find? fun keyword => encode keyword.word.toList == encode word) =
      Keyword.ofWord? (String.ofList word) := by
    simp only [hsame, Keyword.ofWord?]
  rw [wordKindOfBytes, hfind]
  rfl

theorem readExtensible_eq {short long : TokenKind}
    (hshort : payloadOf short [c] = none) (hlong : payloadOf long [c, '='] = none)
    (h : source.toList = before ++ c :: after) :
    (behind (width before) (before ++ [c])).readExtensible source short long =
      found before (extensible short long c after).1 := by
  rw [List.append_cons] at h
  unfold extensible
  split
  next tail =>
    rw [readExtensible, skip_found (by decide) (by decide) (by decide) h, List.append_assoc,
      found_lexeme, hlong]
    rfl
  next hother =>
    rw [readExtensible, skip_absent (by decide) (by decide) h hother, found_lexeme, hshort]
    rfl

theorem readSlash_eq (h : source.toList = before ++ '/' :: after) :
    (behind (width before) (before ++ ['/'])).readSlash source =
      found before (slashOrComment after).1 := by
  rw [List.append_cons] at h
  unfold slashOrComment
  split
  next tail =>
    rw [readSlash, skip_found (by decide) (by decide) (by decide) h]
    rw [List.append_cons] at h
    simp only [Option.bind_eq_bind, Option.bind_some, if_true]
    rw [skipLine_behind h, List.append_assoc, List.append_assoc]
    rfl
  next hother =>
    rw [readSlash, skip_absent (by decide) (by decide) h hother]
    rfl

theorem readString_eq (h : source.toList = before ++ '"' :: after) :
    (behind (width before) (before ++ ['"'])).readString source =
      found before (quoted after).1 := by
  rw [List.append_cons] at h
  have hparts := List.takeWhile_append_dropWhile (p := (· != '"')) (l := after)
  rw [readString, skipContents_behind h, quoted]
  simp only [Option.bind_eq_bind, Option.bind_some]
  cases hclosing : after.dropWhile (· != '"') with
  | nil =>
      rw [hclosing, List.append_nil] at hparts
      rw [hparts, atEnd_behind (h.trans (List.append_nil _).symm), List.append_assoc]
      rfl
  | cons quote tail =>
      obtain rfl : quote = '"' := by
        have hhead := List.head?_dropWhile_not (· != '"') after
        rw [hclosing] at hhead
        simpa using hhead
      rw [hclosing] at hparts
      generalize after.takeWhile (· != '"') = contents at hparts ⊢
      have hcontents : source.toList = before ++ ['"'] ++ contents ++ '"' :: tail := by
        rw [h, ← hparts, List.append_assoc _ contents]
      have hslice : slice source (width before + 1) (width (before ++ ['"'] ++ contents)) =
          some (String.ofList contents) := by
        have hslice := slice_eq hcontents
        rwa [@width_append before] at hslice
      obtain ⟨byte, -, hadvance⟩ := @advance_ascii source (width before) _ _ _ (by decide) hcontents
      rw [atEnd_behind hcontents, hadvance, ← behind_singleton (by decide)]
      show (slice source (width before + 1) (width _ - 1)).bind _ = _
      rw [@width_append _ ['"'], width_ascii (by decide), Nat.add_sub_cancel]
      have hpayload : payloadOf .string ('"' :: (contents ++ ['"'])) =
          some (.text (String.ofList contents)) := by simp [payloadOf]
      show _ = found before ⟨.lexeme .string, '"' :: (contents ++ ['"'])⟩
      rw [hslice, Option.bind_some, found_lexeme, hpayload, List.append_assoc, List.append_assoc]
      rfl

theorem peekNext_eq (source : String) (reader : Reader) :
    reader.peekNext source =
      peek source { reader with position := reader.position + 1 } := by
  simp [peekNext, peek, atEnd]

/-- The byte behind a point has what the character behind it has. -/
theorem peekNext_behind {p : Char → Bool} (hp : Uniform p) (hend : p (byteChar 0) = false)
    (hc : IsAscii c) (hne : c ≠ '\n') (h : source.toList = before ++ c :: after) :
    p (byteChar ((behind start before).peekNext source)) = after.head?.any p := by
  rw [List.append_cons] at h
  rw [peekNext_eq, ← peek_behind hp hend h, behind_singleton hne, width_append, width_ascii hc]
  rfl

theorem skipFraction_eq (h : source.toList = before ++ after) :
    (behind start before).skipFraction source =
      some (behind start (before ++ (fraction after).1)) := by
  have hpoint := @peek_eq_iff source start before after '.' (by decide) (by decide) h
  have hdigit (tail : List Char) (hafter : after = '.' :: tail) :
      (byteChar ((behind start before).peekNext source)).isDigit = tail.head?.any Char.isDigit :=
    peekNext_behind uniform_isDigit (by decide) (by decide) (by decide) (hafter ▸ h)
  unfold fraction
  split
  next digit tail =>
    rw [skipFraction]
    by_cases hfraction : digit.isDigit
    · obtain ⟨byte, -, hadvance⟩ := @advance_ascii source start before _ '.' (by decide) h
      rw [if_pos ⟨hpoint.mpr rfl, (hdigit _ rfl).trans hfraction⟩, if_pos hfraction, hadvance,
        ← behind_singleton (by decide)]
      rw [List.append_cons] at h
      simp only [Option.bind_eq_bind, Option.bind_some]
      rw [skipWhile_behind uniform_isDigit (by decide) (by decide) h, List.append_assoc,
        List.takeWhile_cons_of_pos hfraction]
      rfl
    · rw [if_neg fun hboth => hfraction ((hdigit _ rfl).symm.trans hboth.2), if_neg hfraction,
        List.append_nil]
  next hother =>
    rw [skipFraction, if_neg, List.append_nil]
    rintro ⟨hhead, hfraction⟩
    obtain ⟨tail, rfl⟩ := List.head?_eq_some_iff.mp (hpoint.mp hhead)
    rw [hdigit tail rfl] at hfraction
    cases tail with
    | nil => cases hfraction
    | cons digit tail => exact hother digit tail rfl

theorem readNumber_eq (h : source.toList = before ++ c :: after) :
    (behind (width before) (before ++ [c])).readNumber source =
      found before (numeral c after).1 := by
  have htext : source.toList = before ++ (numeral c after).1.text ++ (numeral c after).2 := by
    rw [h, List.append_assoc, numeral_text]
  rw [List.append_cons] at h
  have hdigits : source.toList = before ++ [c] ++ after.takeWhile Char.isDigit ++
      after.dropWhile Char.isDigit := by
    rw [h, List.append_assoc _ (after.takeWhile _), List.takeWhile_append_dropWhile]
  have hsame : before ++ [c] ++ after.takeWhile Char.isDigit ++
      (fraction (after.dropWhile Char.isDigit)).1 = before ++ (numeral c after).1.text := by
    simp [numeral]
  rw [readNumber, skipWhile_behind uniform_isDigit (by decide) (by decide) h]
  simp only [Option.bind_eq_bind, Option.bind_some]
  rw [skipFraction_eq hdigits, hsame]
  show (slice source (width before) (width _)).bind _ = _
  rw [slice_eq htext, Option.bind_some, String.toList_ofList]
  rfl

theorem readWord_eq (h : source.toList = before ++ c :: after) :
    (behind (width before) (before ++ [c])).readWord source = found before (word c after).1 := by
  have htext : source.toList = before ++ (word c after).1.text ++ (word c after).2 := by
    rw [h, List.append_assoc, word_text]
  rw [List.append_cons] at h
  have hsame : before ++ [c] ++ after.takeWhile isWordPart = before ++ (word c after).1.text := by
    simp [word]
  rw [readWord, skipWhile_behind uniform_isWordPart (by decide) (by decide) h, hsame]
  show (byteSlice source (width before) (width _)).bind _ = _
  have hpayload (letters text : List Char) : payloadOf (wordKind letters) text = none := by
    unfold wordKind
    split <;> rfl
  rw [byteSlice_eq htext, Option.bind_some, wordKindOfBytes_encode, word, found_lexeme, hpayload]
  rfl

theorem readStray_eq (hc : c ≠ '\n') (h : source.toList = before ++ c :: after) (position : Nat) :
    (⟨width before, position, lineAfter before⟩ : Reader).readStray source =
      found before ⟨.stray, [c]⟩ := by
  have hslice : slice source (width before) (bytes source).length =
      some (String.ofList (c :: after)) := by
    have hslice := slice_eq (h.trans (List.append_nil _).symm)
    rwa [← h, ← length_bytes] at hslice
  rw [readStray, hslice, found, behind_singleton hc, width_append, width_singleton,
    lineAfter_of_notMem (by simpa using hc.symm)]
  simp only [Option.bind_eq_bind, Option.bind_some, String.toList_ofList]
  rfl

/-! ## Reading -/

/-- What is cut off the text is read, once its first character is, if that is stored as one
byte and is no newline. -/
theorem readAfter_ascii (hne : c ≠ '\n') (h : source.toList = before ++ c :: after) :
    (behind (width before) (before ++ [c])).readAfter source c = found before (cut c after).1 := by
  unfold cut
  split
  case h_11 | h_12 | h_13 | h_14 => exact readExtensible_eq rfl rfl h
  case h_15 => exact readSlash_eq h
  case h_16 => exact readString_eq h
  case h_20 => exact absurd rfl hne
  case h_21 =>
    unfold readAfter
    split <;> try contradiction
    split
    · exact readNumber_eq h
    · split
      · exact readWord_eq h
      · rw [behind_singleton hne]
        exact readStray_eq hne h _
  all_goals rfl

theorem readAfter_not_ascii (hc : ¬ IsAscii c) :
    reader.readAfter source c = reader.readStray source := by
  unfold readAfter
  split <;> try exact absurd (by decide) hc
  rw [if_neg fun hdigit => hc (isAscii_of_digit ((isDigit_iff c).mp hdigit)),
    if_neg fun hstart => hc (isAscii_of_wordStart hstart)]

theorem cut_not_ascii (hc : ¬ IsAscii c) (after : List Char) :
    cut c after = (⟨.stray, [c]⟩, after) := by
  unfold cut
  split <;> try exact absurd (by decide) hc
  rw [if_neg fun hdigit => hc (isAscii_of_digit ((isDigit_iff c).mp hdigit)),
    if_neg fun hstart => hc (isAscii_of_wordStart hstart)]

/-- Between segments a reader reads what is cut off the rest of the source. -/
theorem read_eq (h : source.toList = before ++ c :: after) :
    (behind (width before) before).read source = found before (cut c after).1 := by
  rw [read]
  by_cases hc : IsAscii c
  · obtain ⟨byte, hbyte, hadvance⟩ := @advance_ascii source (width before) before after c hc h
    rw [hadvance]
    show readAfter source _ (byteChar byte) = _
    rw [hbyte]
    by_cases hne : c = '\n'
    · subst hne
      show some (_, Reader.mk _ _ (lineAfter before + 1)) = some (_, Reader.mk _ _ (lineAfter _))
      rw [lineAfter_append]
      rfl
    · rw [← behind_singleton hne]
      exact readAfter_ascii hne h
  · obtain ⟨byte, tail, hbytes, hmem⟩ := exists_encode_cons c after
    rw [advance_of_cons ((remaining_behind h).trans hbytes), cut_not_ascii hc]
    show readAfter source _ (byteChar byte) = _
    rw [readAfter_not_ascii (byteChar_not_ascii hc hmem)]
    exact readStray_eq (fun hnewline => hc (by rw [hnewline]; decide)) h _

end Reader

end LoxLang
