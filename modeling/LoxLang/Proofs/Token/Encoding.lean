/-
# Texts as bytes

A source is stored as bytes, one to four for each character. The characters below 128 are
single bytes of the same number, and all bytes of the others are 128 or more. So whoever
looks for characters of the first sort may look at single bytes, and never finds one in the
middle of another character.
-/

import LoxLang.Token.Basic

namespace LoxLang

/-- The bytes that store the text. -/
def encode (text : List Char) : List UInt8 :=
  text.flatMap String.utf8EncodeChar

/-- How many bytes store the text. -/
def width (text : List Char) : Nat :=
  (encode text).length

/-- The character that a byte would be by itself. -/
def byteChar (byte : UInt8) : Char :=
  Char.ofUInt8 byte

variable {c : Char} {byte : UInt8} {text before after : List Char}

@[simp]
theorem encode_nil : encode [] = [] := rfl

@[simp]
theorem encode_cons : encode (c :: text) = String.utf8EncodeChar c ++ encode text :=
  List.flatMap_cons

@[simp]
theorem encode_append : encode (before ++ after) = encode before ++ encode after :=
  List.flatMap_append

@[simp]
theorem width_append : width (before ++ after) = width before + width after := by
  simp [width]

theorem width_singleton (c : Char) : width [c] = c.utf8Size := by
  rw [width, encode_cons, encode_nil, List.append_nil, String.length_utf8EncodeChar]

theorem width_cons_pos (c : Char) (text : List Char) : 0 < width (c :: text) := by
  rw [width, encode_cons, List.length_append, String.length_utf8EncodeChar]
  exact Nat.add_pos_left (Char.utf8Size_pos c) _

theorem encode_inj {first second : List Char} : encode first = encode second ↔ first = second := by
  refine ⟨fun h => ?_, congrArg encode⟩
  have hbytes : first.utf8Encode = second.utf8Encode := congrArg List.toByteArray h
  rwa [← String.toByteArray_ofList, ← String.toByteArray_ofList, String.toByteArray_inj,
    String.ofList_inj] at hbytes

/-- The bytes of a text begin with one of those of its first character. -/
theorem exists_encode_cons (c : Char) (text : List Char) :
    ∃ byte rest, encode (c :: text) = byte :: rest ∧ byte ∈ String.utf8EncodeChar c := by
  obtain ⟨byte, others, hbyte⟩ := List.exists_cons_of_ne_nil (@String.utf8EncodeChar_ne_nil c)
  refine ⟨byte, others ++ encode text, ?_, ?_⟩
  · rw [encode_cons, hbyte]
    rfl
  · rw [hbyte]
    exact List.mem_cons_self

/-! ## Bytes of characters -/

/-- Whether the character is stored as itself. -/
def IsAscii (c : Char) : Prop :=
  c.toNat < 128

instance (c : Char) : Decidable (IsAscii c) :=
  inferInstanceAs (Decidable (c.toNat < 128))

theorem toNat_byteChar (byte : UInt8) : (byteChar byte).toNat = byte.toNat :=
  UInt8.toNat_toUInt32 byte

theorem isAscii_of_le {limit : Char} (hlimit : IsAscii limit) (h : c ≤ limit) : IsAscii c :=
  Nat.lt_of_le_of_lt (UInt32.le_iff_toNat_le.mp h) hlimit

theorem encode_ascii (h : IsAscii c) :
    ∃ byte, String.utf8EncodeChar c = [byte] ∧ byteChar byte = c := by
  have hval : c.val ≤ 127 := UInt32.le_iff_toNat_le.mpr (Nat.le_of_lt_succ h)
  refine ⟨c.val.toUInt8, String.utf8EncodeChar_eq_singleton (Char.utf8Size_eq_one_iff.mpr hval), ?_⟩
  apply Char.toNat_inj.mp
  rw [toNat_byteChar, UInt32.toNat_toUInt8]
  exact Nat.mod_eq_of_lt (Nat.lt_trans h (by decide))

theorem width_ascii (h : IsAscii c) : width [c] = 1 := by
  obtain ⟨byte, hbyte, -⟩ := encode_ascii h
  rw [width, encode_cons, hbyte]
  rfl

/-- The bytes of several that store a character are no characters by themselves. -/
theorem byteChar_not_ascii (h : ¬ IsAscii c) (hmem : byte ∈ String.utf8EncodeChar c) :
    ¬ IsAscii (byteChar byte) := by
  have hlarge {n : Nat} (hlow : 128 ≤ n) (hhigh : n < 256) : ¬ (UInt8.ofNat n).toNat < 128 := by
    rw [UInt8.toNat_ofNat', Nat.mod_eq_of_lt hhigh]
    exact Nat.not_lt.mpr hlow
  rw [IsAscii, toNat_byteChar]
  unfold String.utf8EncodeChar at hmem
  dsimp only at hmem
  split at hmem
  next hone => exact absurd (Nat.lt_succ_of_le hone) h
  next =>
    split at hmem
    next =>
      simp only [List.mem_cons, List.not_mem_nil, or_false] at hmem
      rcases hmem with rfl | rfl <;> exact hlarge (by omega) (by omega)
    next =>
      split at hmem
      next =>
        simp only [List.mem_cons, List.not_mem_nil, or_false] at hmem
        rcases hmem with rfl | rfl | rfl <;> exact hlarge (by omega) (by omega)
      next =>
        simp only [List.mem_cons, List.not_mem_nil, or_false] at hmem
        rcases hmem with rfl | rfl | rfl | rfl <;> exact hlarge (by omega) (by omega)

/-- A property that all characters of several bytes share, or all lack. -/
def Uniform (p : Char → Bool) : Prop :=
  ∃ value, ∀ c, ¬ IsAscii c → p c = value

/-- Such a property is had by each byte of a character if it is had by the character. -/
theorem Uniform.byteChar {p : Char → Bool} (h : Uniform p) (hmem : byte ∈ String.utf8EncodeChar c) :
    p (byteChar byte) = p c := by
  by_cases hascii : IsAscii c
  · obtain ⟨single, hsingle, hchar⟩ := encode_ascii hascii
    rw [hsingle, List.mem_singleton] at hmem
    rw [hmem, hchar]
  · obtain ⟨value, hvalue⟩ := h
    rw [hvalue c hascii, hvalue _ (byteChar_not_ascii hascii hmem)]

theorem uniform_of_ascii {p : Char → Bool} (h : ∀ c, p c = true → IsAscii c) : Uniform p :=
  ⟨false, fun c hc => by simpa using mt (h c) hc⟩

theorem Uniform.not {p : Char → Bool} (h : Uniform p) : Uniform fun c => !p c := by
  obtain ⟨value, hvalue⟩ := h
  exact ⟨!value, fun c hc => congrArg Bool.not (hvalue c hc)⟩

theorem uniform_eq {c : Char} (h : IsAscii c) : Uniform (· == c) :=
  uniform_of_ascii fun other hother => by rwa [beq_iff_eq.mp hother]

/-! ## Bytes of texts -/

/-- The bytes that have the property up to the first that lacks it are those of the
characters. -/
theorem takeWhile_encode {p : Char → Bool} (h : Uniform p) (text : List Char) :
    (encode text).takeWhile (fun byte => p (byteChar byte)) = encode (text.takeWhile p) := by
  induction text with
  | nil => rfl
  | cons c text ih =>
      have hbytes : ∀ byte ∈ String.utf8EncodeChar c, p (byteChar byte) = p c :=
        fun byte hmem => h.byteChar hmem
      rw [List.takeWhile_cons]
      cases hc : p c with
      | true =>
          rw [encode_cons, List.takeWhile_append_of_pos fun byte hmem => (hbytes byte hmem).trans hc,
            ih, if_pos rfl, encode_cons]
      | false =>
          obtain ⟨first, rest, hfirst, hmem⟩ := exists_encode_cons c text
          rw [hfirst, List.takeWhile_cons, hbytes first hmem, hc]
          rfl

/-- The first byte that is the character comes after the bytes of those before it. -/
theorem findIdx_encode {c : Char} (h : IsAscii c) (text : List Char) :
    (encode text).findIdx (fun byte => byteChar byte == c) = width (text.takeWhile (· != c)) := by
  have hlength := congrArg List.length (takeWhile_encode (uniform_eq h).not text)
  rw [List.takeWhile_eq_take_findIdx_not, List.length_take] at hlength
  simp only [Bool.not_not] at hlength
  rwa [Nat.min_eq_left List.findIdx_le_length] at hlength

theorem countP_encode {c : Char} (h : IsAscii c) (text : List Char) :
    (encode text).countP (fun byte => byteChar byte == c) = text.count c := by
  induction text with
  | nil => rfl
  | cons other text ih =>
      have hbytes : ∀ byte ∈ String.utf8EncodeChar other, (byteChar byte == c) = (other == c) :=
        fun byte hmem => (uniform_eq h).byteChar hmem
      rw [encode_cons, List.countP_append, ih, List.count_cons, Nat.add_comm]
      by_cases heq : other == c
      · obtain ⟨byte, hbyte, hchar⟩ := encode_ascii (beq_iff_eq.mp heq ▸ h)
        simp [hbyte, hchar, heq]
      · rw [List.countP_eq_zero.mpr fun byte hmem => by rwa [hbytes byte hmem], if_neg heq]

/-! ## Sources -/

/-- The bytes of a source. -/
def bytes (source : String) : List UInt8 :=
  source.toByteArray.data.toList

/-- The text of a source from one position to another, if they come in this order and each of
them is where a character begins, or the end. -/
def slice (source : String) (first last : Nat) : Option String :=
  if h : first ≤ last ∧ String.Pos.Raw.IsValid source ⟨first⟩ ∧ String.Pos.Raw.IsValid source ⟨last⟩
  then some (source.extract ⟨⟨first⟩, h.2.1⟩ ⟨⟨last⟩, h.2.2⟩)
  else none

variable {source : String}

theorem bytes_eq_encode (source : String) : bytes source = encode source.toList := by
  rw [bytes, ← String.utf8Encode_toList, List.utf8Encode, List.data_toByteArray, encode]

theorem length_bytes (source : String) : (bytes source).length = width source.toList := by
  rw [bytes_eq_encode, width]

theorem width_eq_size (text : List Char) : width text = text.utf8Encode.size := by
  rw [List.utf8Encode, List.size_toByteArray]
  rfl

theorem isValid_width (h : source.toList = before ++ after) :
    String.Pos.Raw.IsValid source ⟨width before⟩ := by
  rw [String.Pos.Raw.isValid_iff_exists_append]
  refine ⟨String.ofList before, String.ofList after, ?_, ?_⟩
  · rw [← String.ofList_append, ← h, String.ofList_toList]
  · rw [width_eq_size, ← String.toByteArray_ofList]
    rfl

/-- What is stored between two places is the text between them. -/
theorem slice_eq (h : source.toList = before ++ text ++ after) :
    slice source (width before) (width (before ++ text)) = some (String.ofList text) := by
  have hfirst : String.Pos.Raw.IsValid source ⟨width before⟩ := by
    rw [List.append_assoc] at h
    exact isValid_width h
  have hlast : String.Pos.Raw.IsValid source ⟨width (before ++ text)⟩ := isValid_width h
  have hbytes : source.toByteArray.extract (width before + 0) (width before + width text) =
      text.utf8Encode := by
    rw [← String.utf8Encode_toList, h, List.append_assoc, List.utf8Encode_append,
      List.utf8Encode_append, ByteArray.extract_append_size_add' (width_eq_size before),
      ByteArray.extract_append_eq_left (width_eq_size text)]
  rw [slice, dif_pos ⟨by simp, hfirst, hlast⟩, Option.some_inj, ← String.toByteArray_inj,
    String.toByteArray_extract, String.toByteArray_ofList]
  dsimp only
  rw [width_append]
  exact hbytes

end LoxLang
