/-
# Every call of a reader

What a reader is still due to yield is told by its position alone: what is scanned of the
source from there, and nothing once the end has been reported. A call yields the first of it
and leaves the rest due, so by induction on the calls a reader yields what is scanned, item
by item, and then no more.

A call that came to nothing would have read behind the end, or taken text from between
positions that are no boundaries. None does, on any source.
-/

import LoxLang.Proofs.Token.Reading

namespace LoxLang

open Segment Spelling

namespace Reader

variable {source : String} {reader : Reader} {start : Nat} {before after : List Char} {c : Char}

/-! ## One call -/

theorem next_end (h : source.toList = before) :
    (behind start before).next source =
      some (some (.ok (.eof (lineAfter before))), ⟨start, width before + 1, lineAfter before⟩) := by
  have hend : (behind start before).position = (bytes source).length := by
    rw [length_bytes, h]
    rfl
  rw [next, if_pos hend.le, if_pos hend]
  rfl

/-- A call yields what the next segment does, or else what it would yield behind it. -/
theorem next_cons (h : source.toList = before ++ c :: after) :
    (behind start before).next source =
      match (cut c after).1.item? (lineAfter (before ++ (cut c after).1.text)) with
      | some item => some (some item, behind (width before) (before ++ (cut c after).1.text))
      | none => (behind (width before) (before ++ (cut c after).1.text)).next source := by
  have hmore : (behind start before).position < (bytes source).length := by
    rw [length_bytes, h, width_append]
    exact Nat.lt_add_of_pos_right (width_cons_pos c after)
  have htext : source.toList = before ++ (cut c after).1.text ++ (cut c after).2 := by
    rw [h, List.append_assoc, cut_text]
  rw [next, if_pos hmore.le, if_neg hmore.ne]
  have hread : read source ⟨(behind start before).position, (behind start before).position,
      (behind start before).line⟩ = found before (cut c after).1 := read_eq h
  rw [hread]
  generalize (cut c after).1 = segment at htext ⊢
  obtain ⟨kind, text⟩ := segment
  cases kind with
  | lexeme kind =>
      show (slice source (width before) (width (before ++ text))).bind _ = _
      rw [slice_eq htext]
      rfl
  | _ => rfl

/-- The items are those that the reader has not yet yielded. -/
inductive Due (source : String) : Reader → List ScanItem → Prop
  | between {start : Nat} {before after : List Char} :
      source.toList = before ++ after →
        Due source (behind start before) (Token.scanSegments (lineAfter before) (ofText after))
  | done {reader : Reader} :
      reader.position = (bytes source).length + 1 → Due source reader []

/-- Between segments a call yields the first item that is due, and goes forward. -/
theorem next_between (h : source.toList = before ++ after) (start : Nat) :
    let due := Token.scanSegments (lineAfter before) (ofText after)
    ∃ later, (behind start before).next source = some (due.head?, later) ∧
      Due source later due.tail ∧ width before < later.position := by
  induction after using ofText.induct generalizing before start with
  | case1 =>
      rw [List.append_nil] at h
      rw [next_end h, ofText]
      refine ⟨_, rfl, .done ?_, Nat.lt_succ_self (width before)⟩
      rw [length_bytes, h]
  | case2 c rest ih =>
      have htext : source.toList = before ++ (cut c rest).1.text ++ (cut c rest).2 := by
        rw [h, List.append_assoc, cut_text]
      have hforward : width before < width (before ++ (cut c rest).1.text) := by
        obtain ⟨first, others, hfirst⟩ := List.exists_cons_of_ne_nil (cut_text_ne_nil c rest)
        rw [hfirst, width_append]
        exact Nat.lt_add_of_pos_right (width_cons_pos first others)
      rw [ofText, scanSegments_cons, next_cons h]
      cases (cut c rest).1.item? (lineAfter (before ++ (cut c rest).1.text)) with
      | some item => exact ⟨_, rfl, .between htext, hforward⟩
      | none =>
          obtain ⟨later, hnext, hdue, hlater⟩ := ih htext (width before)
          exact ⟨later, hnext, hdue, hforward.trans hlater⟩

/-- Once nothing is due a call yields nothing, and the reader stays where it is. -/
theorem next_done (h : reader.position = (bytes source).length + 1) :
    reader.next source = some (none, reader) := by
  rw [next, if_neg (by omega)]

/-! ## All calls -/

theorem reached_succ {count : Nat} {later : Reader} {item : Option ScanItem}
    (h : reached source count = some reader) (hnext : reader.next source = some (item, later)) :
    reached source (count + 1) = some later := by
  rw [reached, h]
  show (reader.next source).bind _ = _
  rw [hnext]
  rfl

/-- After any number of calls the items are due that are left of the scan. -/
theorem exists_reached (source : String) (count : Nat) :
    ∃ reader, reached source count = some reader ∧
      Due source reader ((Token.scan source).drop count) := by
  induction count with
  | zero => exact ⟨_, rfl, @Due.between source 0 [] source.toList rfl⟩
  | succ count ih =>
      obtain ⟨reader, hreader, hdue⟩ := ih
      rw [← List.tail_drop]
      generalize (Token.scan source).drop count = due at hdue
      cases hdue with
      | between h =>
          obtain ⟨later, hnext, hlater, -⟩ := next_between h _
          exact ⟨later, reached_succ hreader hnext, hlater⟩
      | done h => exact ⟨reader, reached_succ hreader (next_done h), .done h⟩

-- A character of two bytes that begins no token is passed as a whole.
example : (reached "é1" 1).map (·.position) = some 2 := by decide +kernel

end Reader

namespace Token

variable {line : Nat} {segments : List Segment} {text : List Char}

theorem openString_of_item? {segment : Segment} {error : LexError}
    (h : segment.item? line = some (.error error)) (hfault : error.fault = .unterminatedString) :
    segment.kind = .openString := by
  obtain ⟨kind, text⟩ := segment
  cases kind with
  | openString => rfl
  | stray =>
      cases h
      cases hfault
  | blank => cases h
  | comment => cases h
  | lexeme kind => cases h

/-- After a string that is left open comes the end. -/
theorem scanSegments_unterminated (h : Tokenisation text segments) {front back : List ScanItem}
    {error : LexError} (hscan : scanSegments line segments = front ++ .error error :: back)
    (hfault : error.fault = .unterminatedString) : back.length = 1 := by
  induction segments generalizing line text front with
  | nil =>
      have hends : [.ok (eof line)] = front ++ Except.error error :: back := hscan
      cases front with
      | nil => cases hends
      | cons item front => simp at hends
  | cons segment segments ih =>
      rw [scanSegments] at hscan
      cases hitem : segment.item? (line + segment.newlines) with
      | none =>
          rw [hitem] at hscan
          exact ih h.tail hscan
      | some item =>
          rw [hitem] at hscan
          cases front with
          | cons other front => exact ih h.tail (List.cons.inj hscan).2
          | nil =>
              obtain ⟨rfl, hback⟩ := List.cons.inj hscan
              have hopen := openString_of_item? hitem hfault
              rw [h.openStrings [] segment segments rfl hopen] at hback
              rw [← hback]
              rfl

end Token

/-- However often a reader has been called on a source, the next call comes to an end and
yields the next item that is scanned. All steps within it went well: each byte was read before
the end, and each text was taken from between two boundaries of characters that are in order
and within the source. As long as there are items, the reader stands on such a boundary, and
the call takes it forward. After that it stays behind the end and yields nothing.

What is scanned has one token for the end, which is the last item, and an unterminated string
is reported right before it if at all. -/
theorem Reader.next_reached (source : String) :
    (∀ count, ∃ reader after, reached source count = some reader ∧
      reader.next source = some ((Token.scan source)[count]?, after) ∧
      (count < (Token.scan source).length →
        String.Pos.Raw.IsValid source ⟨reader.position⟩ ∧ reader.position < after.position) ∧
      ((Token.scan source).length ≤ count →
        reader.position = (bytes source).length + 1 ∧ after = reader)) ∧
    ∃ items line, Token.scan source = items ++ [.ok (.eof line)] ∧
      (∀ token ∈ Token.ofScan items, token.kind ≠ .eof) ∧
      ∀ front error back, items = front ++ .error error :: back →
        error.fault.message = "Unterminated string." → back = [] := by
  refine ⟨fun count => ?_, ?_⟩
  · obtain ⟨reader, hreader, hdue⟩ := exists_reached source count
    refine ⟨reader, ?_⟩
    rw [← Nat.not_le, ← List.head?_drop, ← List.drop_eq_nil_iff]
    generalize (Token.scan source).drop count = due at hdue
    cases hdue with
    | between h =>
        obtain ⟨after, hnext, -, hforward⟩ := next_between h _
        refine ⟨after, hreader, hnext, fun _ => ⟨isValid_width h, hforward⟩, fun hnone => ?_⟩
        exact absurd hnone (Token.scanSegments_ne_nil _ _)
    | done h =>
        exact ⟨reader, hreader, next_done h, fun hsome => absurd rfl hsome, fun _ => ⟨h, rfl⟩⟩
  · obtain ⟨line, hlast⟩ := Token.scan_eq_dropLast source
    refine ⟨_, line, hlast, Token.kind_ne_eof (ofText_tokenises source.toList).spelled, ?_⟩
    intro front error back hitems hmessage
    rw [hitems, List.append_assoc] at hlast
    have hfault : error.fault = .unterminatedString := by
      cases hcase : error.fault with
      | unterminatedString => rfl
      | unexpectedCharacter =>
          rw [hcase] at hmessage
          exact absurd hmessage (by decide)
    have hlength := Token.scanSegments_unterminated (ofText_tokenises source.toList) hlast hfault
    exact List.length_eq_zero_iff.mp (by simpa using hlength)

end LoxLang
