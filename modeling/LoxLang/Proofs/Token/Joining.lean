/-
# Sources one after the other

A newline ends every segment except for a string that is not closed. So if two sources
stand one after the other with a newline between them, and no string is left open in the
first, each is scanned as if it stood alone. Only the lines are counted on in the second.
-/

import LoxLang.Proofs.Token.Scanning
import LoxLang.Proofs.Tree.Renumbering

namespace LoxLang

namespace Segment

variable {c : Char} {rest more : List Char} {p : Char → Bool}

/-! ## Segments before a newline -/

theorem takeWhile_append_newline (h : p '\n' = false) (rest more : List Char) :
    (rest ++ '\n' :: more).takeWhile p = rest.takeWhile p := by
  induction rest with
  | nil => simp [h]
  | cons c rest ih => simp only [List.cons_append, List.takeWhile_cons, ih]

theorem dropWhile_append_newline (h : p '\n' = false) (rest more : List Char) :
    (rest ++ '\n' :: more).dropWhile p = rest.dropWhile p ++ '\n' :: more := by
  induction rest with
  | nil => simp [h]
  | cons c rest ih =>
      simp only [List.cons_append, List.dropWhile_cons, ih]
      split <;> rfl

/-- The segment and what is left of the text once more text stands after a newline. -/
def beforeNewline (more : List Char) (cut : Segment × List Char) : Segment × List Char :=
  (cut.1, cut.2 ++ '\n' :: more)

theorem extensible_newline (short long : TokenKind) (c : Char) (rest more : List Char) :
    extensible short long c (rest ++ '\n' :: more) =
      beforeNewline more (extensible short long c rest) := by
  cases rest with
  | nil => rfl
  | cons next rest =>
      by_cases hnext : next = '='
      · subst hnext
        rfl
      · simp [extensible, hnext, beforeNewline]

theorem slashOrComment_newline (rest more : List Char) :
    slashOrComment (rest ++ '\n' :: more) = beforeNewline more (slashOrComment rest) := by
  cases rest with
  | nil => rfl
  | cons next rest =>
      by_cases hnext : next = '/'
      · subst hnext
        show (Segment.mk _ _, _) = _
        rw [List.append_eq, takeWhile_append_newline rfl, dropWhile_append_newline rfl]
        rfl
      · simp [slashOrComment, hnext, beforeNewline]

/-- A string that is closed is closed before the newline. -/
theorem quoted_newline (h : (quoted rest).1.kind ≠ .openString) :
    quoted (rest ++ '\n' :: more) = beforeNewline more (quoted rest) := by
  have hparts := List.takeWhile_append_dropWhile (p := (· != '"')) (l := rest)
  rw [quoted] at h ⊢
  rw [quoted]
  cases hclosing : rest.dropWhile (· != '"') with
  | nil =>
      rw [hclosing] at h
      exact absurd rfl h
  | cons quote after =>
      rw [hclosing] at hparts
      have htake : (rest ++ '\n' :: more).takeWhile (· != '"') = rest.takeWhile (· != '"') := by
        rw [List.takeWhile_append, if_neg]
        intro hlength
        have hlengths := congrArg List.length hparts
        rw [List.length_append, hlength] at hlengths
        simp at hlengths
      have hdrop :
          (rest ++ '\n' :: more).dropWhile (· != '"') = quote :: after ++ '\n' :: more := by
        rw [List.dropWhile_append, hclosing]
        rfl
      rw [htake, hdrop]
      rfl

theorem fraction_newline (text more : List Char) :
    fraction (text ++ '\n' :: more) = ((fraction text).1, (fraction text).2 ++ '\n' :: more) := by
  cases text with
  | nil => rfl
  | cons point text =>
      by_cases hpoint : point = '.'
      · subst hpoint
        cases text with
        | nil => rfl
        | cons digit text =>
            by_cases hdigit : digit.isDigit = true
            · simp only [List.cons_append, fraction, if_pos hdigit,
                takeWhile_append_newline (p := Char.isDigit) rfl,
                dropWhile_append_newline (p := Char.isDigit) rfl]
            · simp only [List.cons_append, fraction, if_neg hdigit]
      · simp [fraction, hpoint]

theorem numeral_newline (c : Char) (rest more : List Char) :
    numeral c (rest ++ '\n' :: more) = beforeNewline more (numeral c rest) := by
  rw [numeral, takeWhile_append_newline rfl, dropWhile_append_newline rfl, fraction_newline]
  rfl

theorem word_newline (c : Char) (rest more : List Char) :
    word c (rest ++ '\n' :: more) = beforeNewline more (word c rest) := by
  rw [word, takeWhile_append_newline rfl, dropWhile_append_newline rfl]
  rfl

/-- No segment but an open string goes on past a newline that follows the text. -/
theorem cut_newline (h : (cut c rest).1.kind ≠ .openString) :
    cut c (rest ++ '\n' :: more) = beforeNewline more (cut c rest) := by
  unfold cut at h ⊢
  split
  case h_11 | h_12 | h_13 | h_14 => exact extensible_newline _ _ _ rest more
  case h_15 => exact slashOrComment_newline rest more
  case h_16 => exact quoted_newline h
  case h_21 =>
    split
    · exact numeral_newline c rest more
    · split
      · exact word_newline c rest more
      · rfl
  all_goals rfl

/-- A newline after a text in which no string is left open is a segment of its own. -/
theorem ofText_newline {text : List Char}
    (h : ∀ segment ∈ ofText text, segment.kind ≠ .openString) (more : List Char) :
    ofText (text ++ '\n' :: more) = ofText text ++ ⟨.blank, ['\n']⟩ :: ofText more := by
  induction text using ofText.induct with
  | case1 =>
      have hnil : ofText [] = [] := by rw [ofText]
      rw [hnil, List.nil_append, ofText]
      rfl
  | case2 c rest ih =>
      rw [ofText] at h
      obtain ⟨hfirst, hothers⟩ := List.forall_mem_cons.mp h
      rw [List.cons_append, ofText, cut_newline hfirst, ofText]
      exact congrArg _ (ih hothers)

/-- The characters of the segments of a text are the text. -/
theorem characters_ofText (text : List Char) : characters (ofText text) = text :=
  (ofText_tokenises text).whole

end Segment

/-! ## What is scanned -/

/-- What a scan yields, on another line. -/
def ScanItem.renumber (line : Nat → Nat) : ScanItem → ScanItem
  | .ok token => .ok (token.renumber line)
  | .error error => .error { error with line := line error.line }

theorem LexError.ofScan_append (first second : List ScanItem) :
    ofScan (first ++ second) = ofScan first ++ ofScan second :=
  List.filterMap_append

theorem LexError.ofScan_renumber (line : Nat → Nat) (items : List ScanItem) :
    ofScan (items.map (ScanItem.renumber line)) =
      (ofScan items).map fun error => { error with line := line error.line } := by
  induction items with
  | nil => rfl
  | cons item items ih =>
      cases item with
      | ok token => exact ih
      | error error => exact congrArg (LexError.mk error.fault (line error.line) :: ·) ih

theorem Spelling.Lexeme.ne_eof {kind : TokenKind} {text : List Char} (h : Lexeme kind text) :
    kind ≠ .eof := by
  cases h with
  | operator listed =>
      have all : ∀ entry ∈ operators, entry.2 ≠ .eof := by decide
      exact all _ listed
  | _ => nofun

namespace Token

open Segment Spelling

variable {line : Nat} {segments : List Segment}

theorem ofScan_append (first second : List ScanItem) :
    ofScan (first ++ second) = ofScan first ++ ofScan second :=
  List.filterMap_append

theorem ofScan_renumber (line : Nat → Nat) (items : List ScanItem) :
    ofScan (items.map (ScanItem.renumber line)) = (ofScan items).map (renumber line) := by
  induction items with
  | nil => rfl
  | cons item items ih =>
      cases item with
      | ok token => exact congrArg (token.renumber line :: ·) ih
      | error error => exact ih

/-- Lines are counted on. -/
theorem scanSegments_add (line shift : Nat) (segments : List Segment) :
    scanSegments (line + shift) segments =
      (scanSegments line segments).map (ScanItem.renumber (· + shift)) := by
  have hitem (segment : Segment) (line : Nat) : (segment.item? (line + shift)).toList =
      (segment.item? line).toList.map (ScanItem.renumber (· + shift)) := by
    obtain ⟨kind, text⟩ := segment
    cases kind <;> rfl
  induction segments generalizing line with
  | nil => rfl
  | cons segment segments ih =>
      have hline : line + shift + segment.newlines = line + segment.newlines + shift := by omega
      rw [scanSegments, scanSegments, hline, ih, hitem, List.map_append]

theorem scanSegments_ne_nil (line : Nat) (segments : List Segment) :
    scanSegments line segments ≠ [] := by
  induction segments generalizing line with
  | nil => nofun
  | cons segment segments ih => exact List.append_ne_nil_of_right_ne_nil _ (ih _)

/-- Of segments before others all is scanned but the end. -/
theorem scanSegments_append (line : Nat) (first second : List Segment) :
    scanSegments line (first ++ second) = (scanSegments line first).dropLast ++
      scanSegments (line + (characters first).count '\n') second := by
  induction first generalizing line with
  | nil => rfl
  | cons segment first ih =>
      have hline : line + segment.newlines + (characters first).count '\n' =
          line + (characters (segment :: first)).count '\n' := by
        rw [characters_cons, List.count_append, newlines, Nat.add_assoc]
      rw [List.cons_append, scanSegments, scanSegments, ih, hline,
        List.dropLast_append_of_ne_nil (scanSegments_ne_nil _ _), List.append_assoc]

/-- The last that is scanned is the end. -/
theorem scan_eq_dropLast (source : String) : ∃ line,
    scan source = (scan source).dropLast ++ [.ok (eof line)] := by
  have happend := scanSegments_append 1 (Segment.ofText source.toList) []
  rw [List.append_nil] at happend
  exact ⟨_, happend⟩

/-- If no string is reported to be left open, then none is. -/
theorem not_openString
    (h : ∀ error ∈ LexError.ofScan (scanSegments line segments), error.fault ≠ .unterminatedString) :
    ∀ segment ∈ segments, segment.kind ≠ .openString := by
  induction segments generalizing line with
  | nil => exact List.forall_mem_nil _
  | cons segment segments ih =>
      rw [scanSegments, LexError.ofScan_append] at h
      obtain ⟨hsegment, hsegments⟩ := List.forall_mem_append.mp h
      refine List.forall_mem_cons.mpr ⟨fun hkind => ?_, ih hsegments⟩
      rw [Segment.item?, hkind] at hsegment
      exact hsegment ⟨.unterminatedString, _⟩ List.mem_cons_self rfl

/-- Of two sources with a newline between them each is scanned on its own, up to the lines
of the second, if no string of the first is left open. -/
theorem scan_newline {source : String}
    (h : ∀ error ∈ LexError.ofScan (scan source), error.fault ≠ .unterminatedString)
    (other : String) :
    scan (source ++ "\n" ++ other) = (scan source).dropLast ++
      (scan other).map (ScanItem.renumber (· + lineAfter source.toList)) := by
  have hclosed := not_openString h
  have htext : (source ++ "\n" ++ other).toList = source.toList ++ '\n' :: other.toList := by
    rw [String.toList_append, String.toList_append, List.append_assoc]
    rfl
  rw [scan, htext, ofText_newline hclosed, scanSegments_append, characters_ofText, ← scan]
  show _ ++ scanSegments (1 + source.toList.count '\n' + 1) _ = _
  rw [Nat.add_assoc, scanSegments_add, ← scan]
  rfl

theorem kind_of_item? {segment : Segment} {token : Token}
    (h : segment.item? line = some (.ok token)) : segment.kind = .lexeme token.kind := by
  obtain ⟨kind, text⟩ := segment
  cases kind <;> cases h
  rfl

/-- No token but the last is of the kind of the end. -/
theorem kind_ne_eof (h : ∀ segment ∈ segments, Spelled segment.kind segment.text) :
    ∀ token ∈ ofScan (scanSegments line segments).dropLast, token.kind ≠ .eof := by
  induction segments generalizing line with
  | nil => exact List.forall_mem_nil _
  | cons segment segments ih =>
      obtain ⟨hsegment, hsegments⟩ := List.forall_mem_cons.mp h
      rw [scanSegments, List.dropLast_append_of_ne_nil (scanSegments_ne_nil _ _), ofScan_append]
      intro token htoken
      rcases List.mem_append.mp htoken with hhere | hlater
      · have hitem : segment.item? (line + segment.newlines) = some (.ok token) := by
          rcases hitem : segment.item? (line + segment.newlines) with _ | (error | found)
          · rw [hitem] at hhere
            cases hhere
          · rw [hitem] at hhere
            cases hhere
          · rw [hitem] at hhere
            rw [List.mem_singleton.mp hhere]
        rw [kind_of_item? hitem] at hsegment
        cases hsegment with
        | proper hproper =>
            cases hproper with
            | lexeme hlexeme => exact hlexeme.ne_eof
      · exact ih hsegments token hlater

/-- The tokens before the end are all tokens but the last. -/
theorem takeWhile_ofScan (source : String) :
    (ofScan (scan source)).takeWhile (·.kind != .eof) = ofScan (scan source).dropLast := by
  obtain ⟨line, hlast⟩ := scan_eq_dropLast source
  have hkinds : ∀ token ∈ ofScan (scan source).dropLast, (token.kind != .eof) = true := by
    intro token htoken
    exact bne_iff_ne.mpr (kind_ne_eof (ofText_tokenises source.toList).spelled token htoken)
  have htokens : ofScan (scan source) = ofScan (scan source).dropLast ++ [eof line] := by
    have happend := ofScan_append (scan source).dropLast [.ok (eof line)]
    rw [← hlast] at happend
    exact happend
  rw [htokens, List.takeWhile_append_of_pos hkinds]
  exact List.append_nil _

/-- If no string of a source is reported to be left open, then what is scanned of it before a
newline and another source is what is scanned of it alone, up to the end. After that comes
what is scanned of the other source, its lines counted on from those passed. -/
theorem scan_distributes {source : String}
    (h : ∀ error ∈ LexError.ofScan (scan source), error.fault.message ≠ "Unterminated string.")
    (other : String) :
    ∃ items line, scan source = items ++ [.ok (eof line)] ∧
      (∀ token ∈ ofScan items, token.kind ≠ .eof) ∧
      scan (source ++ "\n" ++ other) = items ++
        (scan other).map (ScanItem.renumber (· + (1 + source.toList.count '\n'))) := by
  obtain ⟨line, hlast⟩ := scan_eq_dropLast source
  refine ⟨(scan source).dropLast, line, hlast, ?_, ?_⟩
  · exact kind_ne_eof (ofText_tokenises source.toList).spelled
  · have hshift : 1 + source.toList.count '\n' = lineAfter source.toList := Nat.add_comm _ _
    rw [hshift]
    apply scan_newline
    intro error herror hfault
    exact h error herror (by rw [hfault]; rfl)

/-- A stray character is not in the way: `a @` and `b` with a newline between them are `a`, an
error on the first line, and `b` on the second. -/
theorem scan_distributes_stray :
    scan ("a @" ++ "\n" ++ "b") = [.ok ⟨.identifier, "a", none, 1⟩,
      .error ⟨.unexpectedCharacter, 1⟩, .ok ⟨.identifier, "b", none, 2⟩, .ok (eof 2)] := by
  have hfirst : scan "a @" =
      [.ok ⟨.identifier, "a", none, 1⟩, .error ⟨.unexpectedCharacter, 1⟩] ++ [.ok (eof 1)] := by
    decide +kernel
  have hsecond : scan "b" = [.ok ⟨.identifier, "b", none, 1⟩, .ok (eof 1)] := by
    decide +kernel
  have hclosed : ∀ error ∈ LexError.ofScan (scan "a @"),
      error.fault.message ≠ "Unterminated string." := by
    rw [hfirst]
    decide
  obtain ⟨items, line, hitems, _, hwhole⟩ := scan_distributes hclosed "b"
  rw [hfirst] at hitems
  rw [hwhole, ← (List.append_inj' hitems rfl).1, hsecond]
  rfl

end Token

end LoxLang
