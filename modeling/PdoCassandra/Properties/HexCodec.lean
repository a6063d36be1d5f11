import PdoCassandra.Driver.Util

/-!
# Hex texts and back

Both functions write into a block from `malloc`.  The decoder never writes a
terminator and the encoder writes none for the empty string, so the law holds
where the block happens to have a zero in that place.
-/

namespace PdoCassandra.Properties.HexCodec

open PdoCassandra.Foundation.CString
open PdoCassandra.Driver

/-! ## Digits -/

def IsHexDigit (byte : UInt8) : Prop :=
  (ch '0' ≤ byte ∧ byte ≤ ch '9') ∨ (ch 'a' ≤ byte ∧ byte ≤ ch 'f') ∨
    (ch 'A' ≤ byte ∧ byte ≤ ch 'F')

def IsLowerHexDigit (byte : UInt8) : Prop :=
  (ch '0' ≤ byte ∧ byte ≤ ch '9') ∨ (ch 'a' ≤ byte ∧ byte ≤ ch 'f')

instance (byte : UInt8) : Decidable (IsHexDigit byte) :=
  inferInstanceAs (Decidable (_ ∨ _))

instance (byte : UInt8) : Decidable (IsLowerHexDigit byte) :=
  inferInstanceAs (Decidable (_ ∨ _))

theorem htoi_eq_neg_one_iff (byte : UInt8) : htoi byte = -1 ↔ ¬ IsHexDigit byte := by
  revert byte
  apply forall_byte
  decide +kernel

/-- A digit in lower case is the one that its value has. -/
theorem lower_of_htoi {byte : UInt8} (hdigit : htoi byte ≠ -1) :
    (htoi byte).toNat < 16 ∧ ch (Nat.digitChar (htoi byte).toNat) = lower byte := by
  revert byte
  apply forall_byte
  decide +kernel

theorem htoi_digitChar {n : Nat} (hn : n < 16) :
    htoi (ch (Nat.digitChar n)) = n ∧ IsLowerHexDigit (ch (Nat.digitChar n)) := by
  have hall : ∀ n < 16, htoi (ch (Nat.digitChar n)) = n ∧
      IsLowerHexDigit (ch (Nat.digitChar n)) := by
    decide
  exact hall n hn

/-- Two digits and the byte that they make. -/
theorem digits_iff {msb lsb : Nat} (hmsb : msb < 16) (hlsb : lsb < 16) (byte : UInt8) :
    UInt8.ofNat (msb <<< 4 ||| lsb) = byte ↔ byte.toNat / 16 = msb ∧ byte.toNat % 16 = lsb := by
  have hor : msb <<< 4 ||| lsb = msb * 16 + lsb := by
    rw [← Nat.shiftLeft_add_eq_or_of_lt (by omega), Nat.shiftLeft_eq]
  have hbyte := byte.toNat_lt
  rw [hor, ← UInt8.toNat_inj, UInt8.toNat_ofNat']
  omega

theorem hexText_cons_digits (c : UInt8) :
    IsLowerHexDigit (ch (Nat.digitChar (c.toNat / 16))) ∧
      IsLowerHexDigit (ch (Nat.digitChar (c.toNat % 16))) := by
  have hc := c.toNat_lt
  exact ⟨(htoi_digitChar (by omega)).2, (htoi_digitChar (by omega)).2⟩

theorem isLowerHexDigit_of_mem_hexText {str : Bytes} :
    ∀ byte ∈ hexText str, IsLowerHexDigit byte := by
  induction str with
  | nil => exact List.forall_mem_nil _
  | cons c str ih =>
      obtain ⟨hhigh, hlow⟩ := hexText_cons_digits c
      rw [hexText, List.forall_mem_cons, List.forall_mem_cons]
      exact ⟨hhigh, hlow, ih⟩

theorem hexText_nulFree (str : Bytes) : 0 ∉ hexText str :=
  fun hmem => absurd (isLowerHexDigit_of_mem_hexText 0 hmem) (by decide)

/-! ## The two maps -/

/-- Decoding undoes encoding. -/
theorem hexBytes_hexText (str : Bytes) : hexBytes (hexText str) = some str := by
  induction str with
  | nil => rfl
  | cons c str ih =>
      have hc := c.toNat_lt
      have hhigh := (htoi_digitChar (show c.toNat / 16 < 16 by omega)).1
      have hlow := (htoi_digitChar (show c.toNat % 16 < 16 by omega)).1
      have hbyte := (digits_iff (show c.toNat / 16 < 16 by omega)
        (show c.toNat % 16 < 16 by omega) c).mpr ⟨rfl, rfl⟩
      rw [hexText, hexBytes, hhigh, hlow, if_neg (by omega), ih, Option.map_some,
        Int.toNat_natCast, Int.toNat_natCast, hbyte]

/-- Encoding undoes decoding, up to the case of the digits. -/
theorem hexText_of_hexBytes {hex decoded : Bytes} (hdecoded : hexBytes hex = some decoded) :
    hexText decoded = hex.map lower := by
  fun_induction hexBytes hex generalizing decoded with
  | case1 =>
      cases hdecoded
      rfl
  | case2 => cases hdecoded
  | case3 => cases hdecoded
  | case4 first second rest hdigits ih =>
      rw [not_or] at hdigits
      obtain ⟨later, hlater, rfl⟩ := Option.map_eq_some_iff.mp hdecoded
      obtain ⟨hmsb, hhigh⟩ := lower_of_htoi hdigits.1
      obtain ⟨hlsb, hlow⟩ := lower_of_htoi hdigits.2
      obtain ⟨hdiv, hmod⟩ := (digits_iff hmsb hlsb _).mp rfl
      rw [hexText, hdiv, hmod, hhigh, hlow, ih hlater, List.map_cons, List.map_cons]

/-- A text is refused for its length or for a byte that is no digit. -/
theorem hexBytes_eq_none_iff (hex : Bytes) :
    hexBytes hex = none ↔ hex.length % 2 = 1 ∨ ∃ byte ∈ hex, ¬ IsHexDigit byte := by
  fun_induction hexBytes hex with
  | case1 => simp
  | case2 byte => simp
  | case3 first second rest hdigits =>
      rw [htoi_eq_neg_one_iff, htoi_eq_neg_one_iff] at hdigits
      refine iff_of_true rfl (Or.inr ?_)
      rcases hdigits with hfirst | hsecond
      · exact ⟨first, by simp, hfirst⟩
      · exact ⟨second, by simp, hsecond⟩
  | case4 first second rest hdigits ih =>
      rw [htoi_eq_neg_one_iff, htoi_eq_neg_one_iff, not_or, not_not, not_not] at hdigits
      rw [Option.map_eq_none_iff, ih]
      have hparity : (first :: second :: rest).length % 2 = rest.length % 2 := by
        simp only [List.length_cons]
        omega
      rw [hparity]
      refine or_congr_right ?_
      simp [hdigits.1, hdigits.2]

/-! ## The blocks -/

/-- A block of `size + 1` bytes has a zero at its last byte already. -/
def Terminates (heap : Heap) (size : Nat) : Prop :=
  (heap.malloc (size + 1))[size]? = some 0

instance (heap : Heap) (size : Nat) : Decidable (Terminates heap size) :=
  inferInstanceAs (Decidable (_ = _))

/-- Nothing is read behind the `size` bytes exactly when the next one is zero. -/
theorem cstr_behind_iff (heap : Heap) (size : Nat) :
    cstr ((heap.malloc (size + 1)).drop size) = [] ↔ Terminates heap size := by
  have hnul := heap.malloc_nul (size + 1)
  rw [Nat.add_sub_cancel] at hnul
  rw [Terminates, ← List.head?_drop]
  cases hbehind : (heap.malloc (size + 1)).drop size with
  | nil =>
      rw [hbehind] at hnul
      cases hnul
  | cons byte rest =>
      rw [cstr_cons, List.head?_cons, Option.some_inj]
      by_cases hzero : byte = 0
      · simp [hzero]
      · simp [hzero]

/-- The C string that `stringToHex` returns. -/
theorem stringToHex_cstr (heap : Heap) {str : Bytes} (hsize : 2 * str.length + 1 < 2 ^ 31) :
    ∃ block, stringToHex heap str = some block ∧
      cstr block = hexText str ++ if str = [] then cstr (heap.malloc 1) else [] := by
  refine ⟨_, stringToHex_eq heap hsize, ?_⟩
  rw [cstr_append (hexText_nulFree str), List.append_cancel_left_eq]
  split
  · rfl
  · rw [cstr_cons, if_pos rfl]

theorem stringToHex_size {heap : Heap} {str block : Bytes}
    (hblock : stringToHex heap str = some block) : 2 * str.length + 1 < 2 ^ 31 := by
  by_contra hsize
  have hnone : stringToHex heap str = none := if_neg hsize
  rw [hnone] at hblock
  cases hblock

/-- The digits alone are read exactly when the empty string finds its terminator. -/
theorem stringToHex_digits_iff {heap : Heap} {str block : Bytes}
    (hblock : stringToHex heap str = some block) :
    cstr block = hexText str ↔ (str = [] → Terminates heap 0) := by
  obtain ⟨other, hother, htext⟩ := stringToHex_cstr heap (stringToHex_size hblock)
  rw [hblock] at hother
  cases hother
  rw [htext, List.append_right_eq_self]
  by_cases hnil : str = []
  · rw [if_pos hnil, ← cstr_behind_iff]
    simp [hnil]
  · rw [if_neg hnil]
    exact iff_of_true rfl fun heq => absurd heq hnil

/-- The C string that `hexToString` returns. -/
theorem hexToString_cstr (heap : Heap) {hex decoded : Bytes}
    (hdecoded : hexBytes hex = some decoded) (hfree : 0 ∉ decoded) :
    ∃ block, hexToString heap hex = some block ∧
      cstr block = decoded ++ cstr ((heap.malloc (decoded.length + 1)).drop decoded.length) := by
  have hhalf : hex.length / 2 = decoded.length := by
    rw [hexBytes_length hdecoded]
    omega
  refine ⟨_, ?_, cstr_append hfree _⟩
  rw [hexToString_eq, hdecoded, Option.map_some, hhalf]

/-- Decoding gives back the bytes exactly when the block happens to end them. -/
theorem hexToString_decoded_iff (heap : Heap) {hex decoded : Bytes}
    (hdecoded : hexBytes hex = some decoded) (hfree : 0 ∉ decoded) :
    (hexToString heap hex).map cstr = some decoded ↔ Terminates heap decoded.length := by
  obtain ⟨block, hblock, htext⟩ := hexToString_cstr heap hdecoded hfree
  rw [hblock, Option.map_some, Option.some_inj, htext, List.append_right_eq_self,
    cstr_behind_iff]

theorem hexToString_eq_none_iff (heap : Heap) (hex : Bytes) :
    hexToString heap hex = none ↔ hex.length % 2 = 1 ∨ ∃ byte ∈ hex, ¬ IsHexDigit byte := by
  rw [hexToString_eq, Option.map_eq_none_iff, hexBytes_eq_none_iff]

/-! ## Round trips -/

/-- The index of the decoding loop is an `int`, and so is its double. -/
def IndexOverflows (hex : Bytes) : Prop :=
  hex.length % 2 = 0 ∧ 2 ^ 31 < hex.length ∧ (hexBytes (hex.take (2 ^ 31))).isSome = true

instance (hex : Bytes) : Decidable (IndexOverflows hex) :=
  inferInstanceAs (Decidable (_ ∧ _))

/-- A text is encoded in lower-case digits, and decoded from them. -/
def EncodesBack (heap other : Heap) (text : Bytes) : Prop :=
  ∃ block, stringToHex heap text = some block ∧
    (cstr block).length = 2 * text.length ∧
    (∀ byte ∈ cstr block, IsLowerHexDigit byte) ∧
    ¬ IndexOverflows (cstr block) ∧
    (hexToString other (cstr block)).map cstr = some text

/-- Texts that are no hex are refused, the others are encoded from what they decode to. -/
structure DecodesBack (heap other : Heap) (hex : Bytes) : Prop where
  inRange : ¬ IndexOverflows hex
  refuses : hexToString heap hex = none ↔
    hex.length % 2 = 1 ∨ ∃ byte ∈ hex, ¬ IsHexDigit byte
  decodes : ∀ decoded, hexBytes hex = some decoded → 0 ∉ decoded →
    ∃ text block, hexToString heap hex = some text ∧
      stringToHex other (cstr text) = some block ∧ cstr block = hex.map lower

theorem encodesBack_iff (heap other : Heap) {text : Bytes} (hfree : 0 ∉ text) :
    EncodesBack heap other text ↔
      2 * text.length + 1 < 2 ^ 31 ∧ (text = [] → Terminates heap 0) ∧
        Terminates other text.length := by
  have hback := hexToString_decoded_iff other (hexBytes_hexText text) hfree
  constructor
  · rintro ⟨block, hblock, hlength, -, -, hdecoded⟩
    have hsize := stringToHex_size hblock
    obtain ⟨same, hsame, htext⟩ := stringToHex_cstr heap hsize
    rw [hblock] at hsame
    cases hsame
    -- the length leaves no room behind the digits
    have hdigits : cstr block = hexText text := by
      refine (List.IsPrefix.eq_of_length ⟨_, htext.symm⟩ ?_).symm
      rw [length_hexText, hlength]
    rw [hdigits] at hdecoded
    exact ⟨hsize, (stringToHex_digits_iff hblock).mp hdigits, hback.mp hdecoded⟩
  · rintro ⟨hsize, hempty, hterminates⟩
    obtain ⟨block, hblock, -⟩ := stringToHex_cstr heap hsize
    have hdigits := (stringToHex_digits_iff hblock).mpr hempty
    refine ⟨block, hblock, ?_, ?_, ?_, ?_⟩
    · rw [hdigits, length_hexText]
    · rw [hdigits]
      exact isLowerHexDigit_of_mem_hexText
    · rw [hdigits, IndexOverflows, length_hexText]
      omega
    · rw [hdigits]
      exact hback.mpr hterminates

theorem decodesBack_iff (heap other : Heap) (hex : Bytes) :
    DecodesBack heap other hex ↔
      ¬ IndexOverflows hex ∧ ∀ decoded, hexBytes hex = some decoded → 0 ∉ decoded →
        2 * decoded.length + 1 < 2 ^ 31 ∧ Terminates heap decoded.length ∧
          (hex = [] → Terminates other 0) := by
  constructor
  · rintro ⟨hrange, -, hdecodes⟩
    refine ⟨hrange, fun decoded hdecoded hfree => ?_⟩
    obtain ⟨text, block, htext, hblock, hlower⟩ := hdecodes decoded hdecoded hfree
    obtain ⟨same, hsame, hbehind⟩ := hexToString_cstr heap hdecoded hfree
    rw [htext] at hsame
    cases hsame
    obtain ⟨same, hsame, hhex⟩ := stringToHex_cstr other (stringToHex_size hblock)
    rw [hblock] at hsame
    cases hsame
    have hdigits := hexText_of_hexBytes hdecoded
    -- as many digits as the bytes in front of the garbage have
    have hlength : 2 * (cstr text).length ≤ 2 * decoded.length := by
      rw [← length_hexText, ← length_hexText, hdigits, ← hlower, hhex, List.length_append]
      exact Nat.le_add_right _ _
    have hsame : cstr text = decoded := by
      refine (List.IsPrefix.eq_of_length_le ⟨_, hbehind.symm⟩ ?_).symm
      omega
    rw [hsame] at hblock
    refine ⟨stringToHex_size hblock, ?_, fun hnil => ?_⟩
    · rw [← hexToString_decoded_iff heap hdecoded hfree, htext, Option.map_some, hsame]
    · refine (stringToHex_digits_iff hblock).mp (by rw [hlower, hdigits]) ?_
      rw [hnil] at hdecoded
      cases hdecoded
      rfl
  · rintro ⟨hrange, hall⟩
    refine ⟨hrange, hexToString_eq_none_iff heap hex, fun decoded hdecoded hfree => ?_⟩
    obtain ⟨hsize, hterminates, hempty⟩ := hall decoded hdecoded hfree
    have hback := (hexToString_decoded_iff heap hdecoded hfree).mpr hterminates
    obtain ⟨text, htext, hsame⟩ := Option.map_eq_some_iff.mp hback
    obtain ⟨block, hblock, -⟩ := stringToHex_cstr other hsize
    refine ⟨text, block, htext, by rw [hsame, hblock], ?_⟩
    rw [← hexText_of_hexBytes hdecoded, stringToHex_digits_iff hblock]
    intro hnil
    apply hempty
    rw [hnil] at hdecoded
    exact List.length_eq_zero_iff.mp (hexBytes_length hdecoded)

/-- The two are inverse to each other exactly where the blocks end the strings. -/
theorem hex_inverse_iff (heap other : Heap) :
    (∀ text, 0 ∉ text →
      (EncodesBack heap other text ↔
        2 * text.length + 1 < 2 ^ 31 ∧ (text = [] → Terminates heap 0) ∧
          Terminates other text.length)) ∧
    ∀ hex, 0 ∉ hex →
      (DecodesBack heap other hex ↔
        ¬ IndexOverflows hex ∧ ∀ decoded, hexBytes hex = some decoded → 0 ∉ decoded →
          2 * decoded.length + 1 < 2 ^ 31 ∧ Terminates heap decoded.length ∧
            (hex = [] → Terminates other 0)) :=
  ⟨fun _ hfree => encodesBack_iff heap other hfree, fun hex _ => decodesBack_iff heap other hex⟩

theorem hex_inverse_iff_zeros :
    EncodesBack Heap.zeros Heap.zeros (bytesOf "Jo") ∧
      DecodesBack Heap.zeros Heap.zeros (bytesOf "4A6f") := by
  obtain ⟨hencodes, hdecodes⟩ := hex_inverse_iff Heap.zeros Heap.zeros
  refine ⟨(hencodes _ (by decide)).mpr (by decide),
    (hdecodes _ (by decide)).mpr ⟨by decide, ?_⟩⟩
  rintro decoded hdecoded -
  cases hdecoded
  decide

/-- Blocks with another byte there: no digits for the empty string, `az` for `61`. -/
theorem not_hex_inverse_unterminated :
    (stringToHex (heapBehind [ch 'z']) []).map cstr = some (bytesOf "z") ∧
      (hexToString (heapBehind [ch 'z']) (bytesOf "61")).map cstr = some (bytesOf "az") ∧
      ¬ EncodesBack (heapBehind [ch 'z']) Heap.zeros [] ∧
      ¬ EncodesBack Heap.zeros (heapBehind [ch 'z']) (bytesOf "a") ∧
      ¬ DecodesBack (heapBehind [ch 'z']) Heap.zeros (bytesOf "61") := by
  have hone : ¬ Terminates (heapBehind [ch 'z']) 1 := by decide
  have hzero : ¬ Terminates (heapBehind [ch 'z']) 0 := by decide
  refine ⟨by decide, by decide, ?_, ?_, ?_⟩
  · rw [encodesBack_iff _ _ (List.not_mem_nil)]
    exact fun hall => hzero (hall.2.1 rfl)
  · rw [encodesBack_iff _ _ (by decide)]
    exact fun hall => hone hall.2.2
  · rw [decodesBack_iff]
    exact fun hall => hone (hall.2 (bytesOf "a") (by decide) (by decide)).2.1

end PdoCassandra.Properties.HexCodec
