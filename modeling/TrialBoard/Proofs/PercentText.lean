import TrialBoard.Text.Percent

/-!
# Percent-encoded text is decoded

A text is percent-encoded byte by byte. Which bytes are kept as they are is the writer's choice, as
long as they are ASCII and none is the percent sign; all others are written as the sign and two
digits. The reader needs no knowledge of that choice. Where the writer keeps no mark that cuts an
address, what is written is one segment of a path.
-/

namespace TrialBoard.Text

/-- The character of a hexadecimal digit, as a byte. -/
def hexDigitByte (n : UInt8) : UInt8 := if n < 10 then 48 + n else 55 + n

/-- The bytes that a byte is written as: itself, or the percent sign and two digits. -/
def percentEncodeByte (keep : UInt8 → Bool) (b : UInt8) : List UInt8 :=
  if keep b then [b] else [37, hexDigitByte (b / 16), hexDigitByte (b % 16)]

/-- The character of an ASCII byte. -/
def charOfByte (b : UInt8) : Char := Char.ofNat b.toNat

/-- The percent-encoded text, in which some bytes are kept. -/
def percentEncode (keep : UInt8 → Bool) (s : String) : String :=
  .ofList ((s.toUTF8.toList.flatMap (percentEncodeByte keep)).map charOfByte)

/-- The bytes of the marks that cut an address: the slash, the question mark and the number sign. -/
def addressMarks : List UInt8 := [47, 63, 35]

/-- Whether the bytes that are kept may stand in a segment of a path: they are ASCII, and none of
them is the percent sign or a mark. -/
def IsForSegments (keep : UInt8 → Bool) : Prop :=
  ∀ b, keep b = true → b < 128 ∧ b ≠ 37 ∧ b ∉ addressMarks

/-- The bytes of the characters that mean nothing but themselves in any address: digits, letters, the
hyphen and the full stop, the low line and the tilde. Each range is given by its ends. -/
def unreservedRanges : List (UInt8 × UInt8) :=
  [(48, 57), (65, 90), (97, 122), (45, 46), (95, 95), (126, 126)]

/-- Whether a byte lies in one of the ranges. -/
def isUnreserved (b : UInt8) : Bool :=
  unreservedRanges.any fun range => range.1 ≤ b && b ≤ range.2

theorem isForSegments_isUnreserved : IsForSegments isUnreserved := by
  have hascii : (unreservedRanges.all fun range => range.2 < 128) = true := by decide
  have hmarks : ((37 :: addressMarks).all fun mark => !isUnreserved mark) = true := by decide
  intro b hb
  have hmark : b ∉ 37 :: addressMarks := fun hmem => by
    have hnot := List.all_eq_true.1 hmarks b hmem
    rw [hb] at hnot
    cases hnot
  obtain ⟨range, hrange, hin⟩ := List.any_eq_true.1 hb
  have hhigh : b ≤ range.2 := of_decide_eq_true (Bool.and_eq_true_iff.1 hin).2
  have hlow : range.2 < 128 := of_decide_eq_true (List.all_eq_true.1 hascii range hrange)
  exact ⟨UInt8.lt_of_le_of_lt hhigh hlow, not_or.1 (hmark ∘ List.mem_cons.2)⟩

/-- Whether a text is a segment of a path, and what it is decoded to. -/
structure IsSegmentFor (segment s : String) : Prop where
  decoded : percentDecode? segment = some s
  unmarked : ∀ c ∈ segment.toList, c ≠ '/' ∧ c ≠ '?' ∧ c ≠ '#'

/-! ## Bytes of a text -/

theorem toList_loop (bytes : ByteArray) (i : Nat) (read : List UInt8) :
    ByteArray.toList.loop bytes i read = read.reverse ++ bytes.data.toList.drop i := by
  fun_induction ByteArray.toList.loop bytes i read with
  | case1 i read hi ih =>
    have hi' : i < bytes.data.toList.length := hi
    rw [ih, List.reverse_cons, List.append_assoc, List.drop_eq_getElem_cons hi']
    have hbyte : bytes.get! i = bytes.data.toList[i] := getElem!_pos bytes.data i hi
    rw [hbyte]
    rfl
  | case2 i read hi =>
    have hi' : bytes.data.toList.length ≤ i := Nat.le_of_not_lt hi
    rw [List.drop_eq_nil_of_le hi', List.append_nil]

theorem toList_bytes (bytes : ByteArray) : bytes.toList = bytes.data.toList :=
  toList_loop bytes 0 []

theorem toList_toUTF8_ofList (cs : List Char) :
    (String.ofList cs).toUTF8.toList = cs.flatMap String.utf8EncodeChar := by
  rw [String.toUTF8_eq_toByteArray, String.toByteArray_ofList, toList_bytes, List.utf8Encode]
  exact List.toList_data_toByteArray

theorem toNat_charOfByte (b : UInt8) : (charOfByte b).toNat = b.toNat := by
  have hb := b.toNat_lt
  have hvalid : b.toNat.isValidChar := .inl (by omega)
  rw [charOfByte, Char.ofNat, dif_pos hvalid]
  rfl

theorem utf8EncodeChar_charOfByte {b : UInt8} (h : b < 128) :
    String.utf8EncodeChar (charOfByte b) = [b] := by
  have hvalue : (charOfByte b).val.toNat = b.toNat := toNat_charOfByte b
  have hb : b.toNat ≤ 0x7f := Nat.le_of_lt_succ (UInt8.lt_iff_toNat_lt.1 h)
  rw [String.utf8EncodeChar, hvalue, if_pos hb, UInt8.ofNat_toNat]

/-- ASCII bytes are the bytes of their text. -/
theorem toList_toUTF8_map {bytes : List UInt8} (h : ∀ b ∈ bytes, b < 128) :
    (String.ofList (bytes.map charOfByte)).toUTF8.toList = bytes := by
  rw [toList_toUTF8_ofList, List.flatMap_map]
  induction bytes with
  | nil => rfl
  | cons b bytes ih =>
    obtain ⟨hb, hbytes⟩ := List.forall_mem_cons.1 h
    rw [List.flatMap_cons, utf8EncodeChar_charOfByte hb, ih hbytes]
    rfl

/-- A text is read back from its bytes. -/
theorem fromUTF8?_toList (s : String) : String.fromUTF8? ⟨s.toUTF8.toList.toArray⟩ = some s := by
  rw [toList_bytes, String.toUTF8_eq_toByteArray, Array.toArray_toList, String.fromUTF8?,
    dif_pos s.isValidUTF8]
  rfl

/-! ## Decoding -/

theorem hexValue?_hexDigitByte : ∀ n : Fin 16,
    hexValue? (hexDigitByte (UInt8.ofNat n)) = some (UInt8.ofNat n) := by decide

theorem hexValue?_of_lt {n : UInt8} (h : n < 16) : hexValue? (hexDigitByte n) = some n := by
  have hn := hexValue?_hexDigitByte ⟨n.toNat, UInt8.lt_iff_toNat_lt.1 h⟩
  rwa [UInt8.ofNat_toNat] at hn

/-- A byte that is no percent sign stands for itself. -/
theorem percentDecodeBytes_cons {b : UInt8} (h : b ≠ 37) (rest : List UInt8) :
    percentDecodeBytes (b :: rest) = b :: percentDecodeBytes rest := by
  rw [percentDecodeBytes]
  rintro x y tail rfl
  exact absurd rfl h

theorem high_lt (b : UInt8) : b / 16 < 16 := by
  have hb := b.toNat_lt
  rw [UInt8.lt_iff_toNat_lt, UInt8.toNat_div]
  change b.toNat / 16 < 16
  omega

theorem low_lt (b : UInt8) : b % 16 < 16 := by
  rw [UInt8.lt_iff_toNat_lt, UInt8.toNat_mod]
  exact Nat.mod_lt _ (by decide)

theorem of_digits (b : UInt8) : b / 16 * 16 + b % 16 = b := by
  have hb := b.toNat_lt
  rw [← UInt8.toNat_inj, UInt8.toNat_add, UInt8.toNat_mul, UInt8.toNat_div, UInt8.toNat_mod]
  change (b.toNat / 16 * 16 % 256 + b.toNat % 16) % 256 = b.toNat
  omega

theorem percentDecodeBytes_byte {keep : UInt8 → Bool} (h : IsForSegments keep) (b : UInt8)
    (rest : List UInt8) :
    percentDecodeBytes (percentEncodeByte keep b ++ rest) = b :: percentDecodeBytes rest := by
  unfold percentEncodeByte
  split
  · rename_i hkeep
    exact percentDecodeBytes_cons (h b hkeep).2.1 rest
  · rw [List.cons_append, List.cons_append, List.singleton_append, percentDecodeBytes]
    simp only [hexValue?_of_lt (high_lt b), hexValue?_of_lt (low_lt b), of_digits]

theorem percentDecodeBytes_flatMap {keep : UInt8 → Bool} (h : IsForSegments keep)
    (bytes : List UInt8) :
    percentDecodeBytes (bytes.flatMap (percentEncodeByte keep)) = bytes := by
  induction bytes with
  | nil => rfl
  | cons b bytes ih => rw [List.flatMap_cons, percentDecodeBytes_byte h, ih]

theorem hexDigitByte_plain : ∀ n : Fin 16, hexDigitByte (UInt8.ofNat n) < 128 ∧
    hexDigitByte (UInt8.ofNat n) ∉ addressMarks := by decide

theorem hexDigitByte_of_lt {n : UInt8} (h : n < 16) :
    hexDigitByte n < 128 ∧ hexDigitByte n ∉ addressMarks := by
  have hn := hexDigitByte_plain ⟨n.toNat, UInt8.lt_iff_toNat_lt.1 h⟩
  rwa [UInt8.ofNat_toNat] at hn

/-- What is written is ASCII and has no marks. -/
theorem plain_of_mem_percentEncodeByte {keep : UInt8 → Bool} (h : IsForSegments keep)
    {b written : UInt8} (hmem : written ∈ percentEncodeByte keep b) :
    written < 128 ∧ written ∉ addressMarks := by
  unfold percentEncodeByte at hmem
  split at hmem
  · rename_i hkeep
    rw [List.mem_singleton.1 hmem]
    exact ⟨(h b hkeep).1, (h b hkeep).2.2⟩
  · simp only [List.mem_cons, List.not_mem_nil, or_false] at hmem
    rcases hmem with rfl | rfl | rfl
    · decide
    · exact hexDigitByte_of_lt (high_lt b)
    · exact hexDigitByte_of_lt (low_lt b)

/-- A percent-encoded text is a segment of a path, which is decoded to the text. -/
theorem isSegmentFor_percentEncode {keep : UInt8 → Bool} (h : IsForSegments keep) (s : String) :
    IsSegmentFor (percentEncode keep s) s := by
  have hplain : ∀ b ∈ s.toUTF8.toList.flatMap (percentEncodeByte keep),
      b < 128 ∧ b ∉ addressMarks := by
    intro b hb
    obtain ⟨byte, -, hmem⟩ := List.mem_flatMap.1 hb
    exact plain_of_mem_percentEncodeByte h hmem
  constructor
  · rw [percentDecode?, percentEncode, toList_toUTF8_map fun b hb => (hplain b hb).1,
      percentDecodeBytes_flatMap h, fromUTF8?_toList]
  · intro c hc
    rw [percentEncode, String.toList_ofList] at hc
    obtain ⟨b, hb, rfl⟩ := List.mem_map.1 hc
    have hmark : ∀ mark : UInt8, mark ∈ addressMarks → charOfByte b ≠ charOfByte mark := by
      intro mark hmem heq
      have htoNat := congrArg Char.toNat heq
      rw [toNat_charOfByte, toNat_charOfByte, UInt8.toNat_inj] at htoNat
      exact (hplain b hb).2 (htoNat ▸ hmem)
    exact ⟨hmark 47 (by decide), hmark 63 (by decide), hmark 35 (by decide)⟩

theorem percentDecode?_empty : percentDecode? "" = some "" := by
  have hbytes : "".toUTF8.toList = [] := toList_toUTF8_ofList []
  have hread := fromUTF8?_toList ""
  rw [hbytes] at hread
  rw [percentDecode?, hbytes]
  exact hread

/-- Only the empty segment is decoded to the empty text. -/
theorem IsSegmentFor.ne_empty {segment s : String} (h : IsSegmentFor segment s) (hs : s ≠ "") :
    segment ≠ "" := by
  rintro rfl
  exact hs (Option.some.inj (h.decoded.symm.trans percentDecode?_empty))

end TrialBoard.Text
