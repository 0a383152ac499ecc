/-
# Numbers written and read back

Every number has one text, whether it is written as a value or as a constant of a syntax tree:
the integer of a value below the bound has the digits that are looked for elsewhere. Only the
zero that is negative is kept from the integers, which know one zero.

A number that is finite and has no sign is written in digits with at most one point inside, so
a scan takes its text for one token, and reads the number back.
-/

import LoxLang.Proofs.Number.Shortest
import LoxLang.Proofs.Token.Lines
import LoxLang.Proofs.Token.Spacing
import LoxLang.Tree.Outline
import LoxLang.Value
import Mathlib

namespace LoxLang

open Spelling Float.Model

/-! ## Finite doubles -/

/-- The exponent of a double is all ones if the field of the exponent is. -/
theorem unpackExponent_eq_iff (bits : UInt64) :
    @UnpackedFloat.unpackExponent .binary64 bits.toBitVec = -1#11 ↔
      bits.toNat / Magnitude.mantissas % 2048 = 2047 := by
  have hfield : (@UnpackedFloat.unpackExponent .binary64 bits.toBitVec).toNat =
      bits.toNat / Magnitude.mantissas % 2048 := by
    rw [UnpackedFloat.unpackExponent, BitVec.toNat_cast, BitVec.extractLsb_toNat,
      Nat.shiftRight_eq_div_pow]
    rfl
  rw [← hfield, ← BitVec.toNat_inj]
  exact Iff.rfl

/-- A double is finite if its bits are those of a magnitude. -/
theorem isFinite_eq_isSome (x : Float) :
    x.isFinite = (Magnitude.ofBits? x.toBits).isSome := by
  have hfield := unpackExponent_eq_iff x.toModel.toBits
  unfold Float.isFinite Float.Model.isFinite Float.Model.unpack UnpackedFloat.unpack
  rw [Magnitude.ofBits?, Float.toBits]
  dsimp only
  by_cases hones : x.toModel.toBits.toNat / Magnitude.mantissas % 2048 = 2047
  · rw [if_pos hones, if_pos (hfield.mpr hones)]
    split <;> rfl
  · rw [if_neg hones, if_neg (mt hfield.mp hones)]
    repeat' split
    all_goals rfl

namespace Number

variable {x : Float} {m : Magnitude} {n : Nat} {k : Int}

/-! ## Two ways to write a number -/

theorem toString_natCast (n : Nat) : toString (n : Int) = toString n :=
  rfl

theorem toString_neg (hn : n ≠ 0) : toString (-(n : Int)) = "-" ++ toString n := by
  rw [Int.toString_eq_repr, Int.repr_eq_if, if_neg (by omega), Int.neg_neg, Int.toNat_natCast]
  rfl

/-- A whole number is a sign and a natural number below the bound. -/
theorem whole?_eq_some (h : whole? x = some k) : ∃ m n, Magnitude.ofBits? x.toBits = some m ∧
    m.toNat? = some n ∧ n < wholeBound ∧ k = if isNegative x then -(n : Int) else n := by
  rw [whole?] at h
  split at h
  next n hn =>
    obtain ⟨m, hm, hn⟩ := Option.bind_eq_some_iff.mp hn
    split at h
    next hbound => exact ⟨m, n, hm, hn, hbound, (Option.some.inj h).symm⟩
    next => cases h
  next => cases h

/-- A natural number below the bound is written as its digits after the sign. -/
theorem display_natural (hm : Magnitude.ofBits? x.toBits = some m) (hn : m.toNat? = some n)
    (hbound : n < wholeBound) : display x = sign x ++ toString n := by
  rw [display, hm]
  dsimp only
  rw [shortest_positional .up (Magnitude.canonical_of_ofBits? hm) (Magnitude.value_of_toNat? hn)
    hbound]

/-- A value is written like a constant, on the integer path or off it. -/
theorem ofValue_eq_display (x : Float) : ofValue x = display x := by
  rw [ofValue]
  split
  next k hk =>
    split
    next => rfl
    next hzero =>
      obtain ⟨m, n, hm, hn, hbound, rfl⟩ := whole?_eq_some hk
      rw [display_natural hm hn hbound, sign]
      split
      next hnegative =>
        rw [if_pos hnegative] at hzero
        apply toString_neg
        rintro rfl
        exact hzero ⟨rfl, hnegative⟩
      next =>
        rw [toString_natCast, String.empty_append]
  next => rfl

/-! ## Reading a number back -/

/-- The bits of a number without a sign are those of its magnitude. -/
theorem toBits_of_not_negative (hm : Magnitude.ofBits? x.toBits = some m)
    (hsign : isNegative x = false) : m.toFloat = x := by
  obtain ⟨hbits, hfinite⟩ := Magnitude.bits_of_ofBits? hm
  have hlow : x.toBits.toNat < 0x8000_0000_0000_0000 := by
    rw [isNegative, decide_eq_false_iff_not, Nat.not_le] at hsign
    exact hsign
  have hwhole : m.bits = x.toBits.toNat := by
    rw [hbits]
    exact Nat.mod_eq_of_lt hlow
  rw [Magnitude.toFloat, Nat.min_eq_left hfinite.le, hwhole, UInt64.ofNat_toNat,
    Float.ofBits_toBits]

/-- Bits that are made a double stay as they are, but for those that are of no number, which
all become the same. -/
theorem toBits_ofBits (bits : UInt64) : (Float.ofBits bits).toBits.toBitVec =
    if @UnpackedFloat.isNaNBits .binary64 bits.toBitVec then
      UnpackedFloat.packedNaN .binary64
    else bits.toBitVec :=
  @UnpackedFloat.pack_unpack .binary64 bits.toBitVec (by decide)

/-- The double of a magnitude has no sign. -/
theorem isNegative_toFloat (m : Magnitude) : isNegative m.toFloat = false := by
  have hnone : (UnpackedFloat.packedNaN .binary64).toNat < 0x8000_0000_0000_0000 := by decide
  have hbits : min m.bits Magnitude.infinityBits < 0x8000_0000_0000_0000 :=
    (Nat.min_le_right _ _).trans_lt (by decide)
  rw [isNegative, decide_eq_false_iff_not, Nat.not_le, Magnitude.toFloat, ← UInt64.toNat_toBitVec,
    toBits_ofBits]
  split
  next => exact hnone
  next =>
    rw [UInt64.toNat_toBitVec, UInt64.toNat_ofNat_of_lt']
    · exact hbits
    · exact hbits.trans (by decide)

/-- The text of a finite number without a sign is spelled like a number, and its digits are
those of the number. -/
theorem display_read (hfinite : x.isFinite = true) (hsign : isNegative x = false) :
    Lexeme .number (display x).toList ∧
      (Decimal.ofDigits (display x).toList).toFloat = x := by
  rw [isFinite_eq_isSome, Option.isSome_iff_exists] at hfinite
  obtain ⟨m, hm⟩ := hfinite
  have hcanonical := Magnitude.canonical_of_ofBits? hm
  have htext : display x = (shortest .up m).positional := by
    rw [display, hm, sign, hsign]
    exact String.empty_append
  obtain ⟨hlexeme, hvalue⟩ := Decimal.positional_read (d := shortest .up m) fun hzero =>
    (shortest_zero .up m hzero).ge
  rw [htext]
  refine ⟨hlexeme, ?_⟩
  rw [Decimal.toFloat, Decimal.magnitude_congr hvalue, ← toBits_of_not_negative hm hsign,
    Magnitude.toFloat, shortest_bits .up hcanonical, Magnitude.toFloat]

example : display (Float.ofBits 0x3fb9_9999_9999_999a) = "0.1" := by
  decide +kernel

end Number

/-! ## Scanning a text that is one token -/

/-- The text of one token is scanned as that token, and then comes the end. -/
theorem Token.scan_lexeme {kind : TokenKind} {text : String}
    (h : Lexeme kind text.toList) :
    scan text = [.ok ⟨kind, text, payloadOf kind text.toList, 1 + text.toList.count '\n'⟩,
      .ok (eof (1 + text.toList.count '\n'))] := by
  have hsegments : Segment.ofText text.toList = [⟨.lexeme kind, text.toList⟩] := by
    cases heq : text.toList with
    | nil =>
        rw [heq] at h
        exact absurd rfl (Segment.spelled_lexeme h).ne_nil
    | cons c after =>
        have hcut : Segment.cut c after = (⟨.lexeme kind, text.toList⟩, []) :=
          Segment.cut_lexeme h (by simp) (by rw [List.append_nil, heq])
        rw [Segment.ofText, hcut, Segment.ofText, heq]
  rw [scan, hsegments, scanSegments, scanSegments, Segment.item?, Segment.newlines]
  dsimp only
  rw [String.ofList_toList]
  rfl

/-- Printed numbers can be read back. A value and a constant of a syntax tree are written alike,
and the text of a finite number without a sign is scanned as one token that has this text and
carries the number. -/
theorem number_text_read_back :
    (∀ x : Float, (Value.number x).text = (Literal.number x).outline) ∧
      ∀ x : Float, x.isFinite = true → Number.isNegative x = false →
        Token.scan (Value.number x).text =
          [.ok ⟨.number, (Value.number x).text, some (.number x), 1⟩, .ok (Token.eof 1)] := by
  refine ⟨Number.ofValue_eq_display, fun x hfinite hsign => ?_⟩
  obtain ⟨hlexeme, hread⟩ := Number.display_read hfinite hsign
  have hline : (Number.display x).toList.count '\n' = 0 := by
    apply List.count_eq_zero.mpr
    intro hnewline
    cases hlexeme.newline hnewline
  rw [Value.text, Number.ofValue_eq_display, Token.scan_lexeme hlexeme, hline, payloadOf, hread]

/-- The double nearest to a tenth is finite and has no sign, so its text is read back. -/
theorem tenth_text_read_back :
    (Float.ofBits 0x3fb9_9999_9999_999a).isFinite = true ∧
      Number.isNegative (Float.ofBits 0x3fb9_9999_9999_999a) = false ∧
      Token.scan (Value.number (Float.ofBits 0x3fb9_9999_9999_999a)).text =
        [.ok ⟨.number, (Value.number (Float.ofBits 0x3fb9_9999_9999_999a)).text,
          some (.number (Float.ofBits 0x3fb9_9999_9999_999a)), 1⟩, .ok (Token.eof 1)] :=
  have hfinite : (Float.ofBits 0x3fb9_9999_9999_999a).isFinite = true := by decide +kernel
  have hsign : Number.isNegative (Float.ofBits 0x3fb9_9999_9999_999a) = false := by
    decide +kernel
  ⟨hfinite, hsign, number_text_read_back.2 _ hfinite hsign⟩

end LoxLang
