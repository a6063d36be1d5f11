import PdoCassandra.Foundation.BigEndian
import PdoCassandra.Foundation.Numeral
import PdoCassandra.Driver.Pdo

/-!
# The two ways from eight bytes to a decimal text

`deserializeLong` reads a big-endian two's complement integer.  Names and listed
columns go through PHP's conversion; the value of a `KEY` column goes through
`ltoa`, which differs for the smallest integer only.  One text comes out of the
conversion as it was.
-/

namespace PdoCassandra.Properties.LongType

open PdoCassandra.Foundation
open PdoCassandra.Foundation.CString
open PdoCassandra.Driver
open PdoCassandra.Thrift

/-! ## Eight bytes -/

/-- The eight-byte big-endian two's complement encoding of an integer. -/
def encodeLong (n : Int) : Bytes :=
  BigEndian.bytes 8 (BitVec.ofInt 64 n).toNat

/-- The integer that such an encoding stands for. -/
def longValue (text : Bytes) : Int :=
  (BitVec.ofNat 64 (BigEndian.value text)).toInt

/-- The bits below `shift` are those of `n`, and the others are zero. -/
structure LowBits (bits : BitVec 64) (shift n : Nat) : Prop where
  toNat_eq : bits.toNat = n
  lt : n < 2 ^ shift

theorem toNat_setWidth (byte : UInt8) : (byte.toBitVec.setWidth 64).toNat = byte.toNat := by
  have hbyte := byte.toNat_lt
  rw [BitVec.toNat_setWidth, UInt8.toNat_toBitVec, Nat.mod_eq_of_lt (by omega)]

theorem lowBits_byte (byte : UInt8) : LowBits (byte.toBitVec.setWidth 64) 8 byte.toNat :=
  ⟨toNat_setWidth byte, byte.toNat_lt⟩

/-- One more byte above the bits that are read already. -/
theorem LowBits.or {bits : BitVec 64} {shift n : Nat} (hbits : LowBits bits shift n)
    (hshift : shift ≤ 56) (byte : UInt8) :
    LowBits (bits ||| byte.toBitVec.setWidth 64 <<< shift) (shift + 8)
      (byte.toNat * 2 ^ shift + n) := by
  have hbyte := byte.toNat_lt
  have hlt : byte.toNat * 2 ^ shift + n < 2 ^ (shift + 8) := by
    calc byte.toNat * 2 ^ shift + n < byte.toNat * 2 ^ shift + 2 ^ shift :=
          Nat.add_lt_add_left hbits.lt _
      _ = (byte.toNat + 1) * 2 ^ shift := by rw [Nat.add_mul, Nat.one_mul]
      _ ≤ 2 ^ 8 * 2 ^ shift := Nat.mul_le_mul_right _ hbyte
      _ = 2 ^ (shift + 8) := by rw [Nat.pow_add, Nat.mul_comm]
  have hroom : byte.toNat * 2 ^ shift < 2 ^ 64 := by
    have hpow : 2 ^ (shift + 8) ≤ 2 ^ 64 := Nat.pow_le_pow_right (by decide) (by omega)
    omega
  have hhigh : (byte.toBitVec.setWidth 64 <<< shift).toNat = byte.toNat <<< shift := by
    rw [BitVec.toNat_shiftLeft, toNat_setWidth, Nat.shiftLeft_eq, Nat.mod_eq_of_lt hroom]
  refine ⟨?_, hlt⟩
  rw [BitVec.toNat_or, hhigh, hbits.toNat_eq, Nat.or_comm,
    ← Nat.shiftLeft_add_eq_or_of_lt hbits.lt, Nat.shiftLeft_eq]

/-- The eight bytes at fixed offsets, read as one number. -/
theorem deserializeLong_toNat (heap : Heap) (str : Bytes) :
    (deserializeLong heap str).toNat =
      BigEndian.value ((List.range 8).map (rawByte heap str)) := by
  have hbits := (lowBits_byte (rawByte heap str 7)).or (by decide) (rawByte heap str 6)
    |>.or (by decide) (rawByte heap str 5) |>.or (by decide) (rawByte heap str 4)
    |>.or (by decide) (rawByte heap str 3) |>.or (by decide) (rawByte heap str 2)
    |>.or (by decide) (rawByte heap str 1) |>.or (by decide) (rawByte heap str 0)
  refine hbits.toNat_eq.trans ?_
  simp only [List.range, List.range.loop, List.map_cons, List.map_nil, BigEndian.value,
    List.foldl_cons, List.foldl_nil]
  omega

/-- The bytes that are read from an eight-byte string are its own. -/
theorem map_rawByte (heap : Heap) {str : Bytes} (hlength : str.length = 8) :
    (List.range 8).map (rawByte heap str) = str := by
  apply List.ext_getElem
  · simp [hlength]
  · intro i hi hstr
    simp only [List.getElem_map, List.getElem_range, rawByte]
    rw [List.getElem?_append_left hstr, List.getElem?_eq_getElem hstr, Option.getD_some]

theorem length_encodeLong (n : Int) : (encodeLong n).length = 8 :=
  BigEndian.length_bytes _ _

theorem value_lt_two_pow {str : Bytes} (hlength : str.length = 8) :
    BigEndian.value str < 2 ^ 64 := by
  have hlt := BigEndian.value_lt str
  rwa [hlength] at hlt

theorem deserializeLong_eq (heap : Heap) {str : Bytes} (hlength : str.length = 8) :
    deserializeLong heap str = BitVec.ofNat 64 (BigEndian.value str) := by
  apply BitVec.eq_of_toNat_eq
  rw [deserializeLong_toNat, map_rawByte heap hlength, BitVec.toNat_ofNat,
    Nat.mod_eq_of_lt (value_lt_two_pow hlength)]

theorem deserializeLong_toInt (heap : Heap) {str : Bytes} (hlength : str.length = 8) :
    (deserializeLong heap str).toInt = longValue str := by
  rw [deserializeLong_eq heap hlength, longValue]

theorem longValue_encodeLong {n : Int} (hlow : -2 ^ 63 ≤ n) (hhigh : n < 2 ^ 63) :
    longValue (encodeLong n) = n := by
  have hsame : BitVec.ofNat 64 (BigEndian.value (encodeLong n)) = BitVec.ofInt 64 n := by
    apply BitVec.eq_of_toNat_eq
    rw [encodeLong, BigEndian.value_bytes, BitVec.toNat_ofNat]
    have hlt := (BitVec.ofInt 64 n).isLt
    omega
  rw [longValue, hsame]
  exact BitVec.toInt_ofInt_eq_self (by decide) hlow hhigh

theorem encodeLong_longValue {str : Bytes} (hlength : str.length = 8) :
    encodeLong (longValue str) = str := by
  rw [encodeLong, longValue, BitVec.ofInt_toInt, BitVec.toNat_ofNat,
    Nat.mod_eq_of_lt (value_lt_two_pow hlength), ← hlength, BigEndian.bytes_value]

theorem longValue_eq_min_iff (str : Bytes) :
    longValue str = -2 ^ 63 ↔ BitVec.ofNat 64 (BigEndian.value str) = BitVec.intMin 64 := by
  have hmin : (BitVec.intMin 64).toInt = -2 ^ 63 := by decide
  rw [longValue, ← hmin]
  exact BitVec.toInt_inj

/-! ## Decimal texts -/

/-- The character of a digit, as `ltoa` writes it. -/
def digitByte (digit : Nat) : UInt8 :=
  UInt8.ofNat (digit + if 9 < digit then (ch 'A').toNat - 10 else (ch '0').toNat)

/-- The canonical decimal text of an integer. -/
def decimal (n : Int) : Bytes :=
  (if n < 0 then [ch '-'] else []) ++ (numeral 10 n.natAbs).map digitByte

theorem ch_digitChar {digit : Nat} (hdigit : digit < 10) :
    ch digit.digitChar = digitByte digit := by
  decide +revert

theorem digitByte_ne {digit : Nat} (hdigit : digit < 36) :
    digitByte digit ≠ 0 ∧ digitByte digit ≠ ch '-' := by
  decide +revert

theorem digitByte_toNat {digit : Nat} (hdigit : digit < 10) :
    (digitByte digit).toNat = 48 + digit := by
  decide +revert

theorem convertToString_eq (lval : BitVec 64) : convertToString lval = decimal lval.toInt := by
  have hdigits (n : Nat) : (Nat.toDigits 10 n).map ch = (numeral 10 n).map digitByte := by
    rw [toDigits_eq_map (by decide), List.map_map]
    refine List.map_congr_left fun digit hdigit => ?_
    exact ch_digitChar (lt_of_mem_numeral (by decide) hdigit)
  simp only [convertToString, decimal, hdigits]
  split <;> rfl

/-- A numeral can be read back from its characters. -/
theorem map_digitByte (n : Nat) :
    ((numeral 10 n).map digitByte).map (fun byte => byte.toNat - (ch '0').toNat) =
      numeral 10 n := by
  rw [List.map_map]
  refine (List.map_congr_left fun digit hdigit => ?_).trans (List.map_id _)
  have hlt := lt_of_mem_numeral (by decide) hdigit
  rw [Function.comp_apply, digitByte_toNat hlt]
  exact Nat.add_sub_cancel_left 48 digit

theorem notMem_map_digitByte {base : Nat} (hlow : 1 < base) (hhigh : base ≤ 36) (n : Nat) :
    0 ∉ (numeral base n).map digitByte ∧ ch '-' ∉ (numeral base n).map digitByte := by
  have hne {digit : Nat} (hdigit : digit ∈ numeral base n) :
      digitByte digit ≠ 0 ∧ digitByte digit ≠ ch '-' :=
    digitByte_ne (Nat.lt_of_lt_of_le (lt_of_mem_numeral hlow hdigit) hhigh)
  constructor
  · intro hmem
    obtain ⟨digit, hdigit, hzero⟩ := List.mem_map.mp hmem
    exact (hne hdigit).1 hzero
  · intro hmem
    obtain ⟨digit, hdigit, hminus⟩ := List.mem_map.mp hmem
    exact (hne hdigit).2 hminus

/-- Different integers have different texts. -/
theorem decimal_injective : Function.Injective decimal := by
  have hnumerals {left right : Nat}
      (hsame : (numeral 10 left).map digitByte = (numeral 10 right).map digitByte) :
      left = right := by
    apply numeral_injective 10
    rw [← map_digitByte left, hsame, map_digitByte]
  -- only a negative number has a minus sign
  have hsign (n : Int) : ch '-' ∈ decimal n ↔ n < 0 := by
    unfold decimal
    split
    · rename_i hneg
      simp [hneg]
    · rename_i hneg
      exact iff_of_false (notMem_map_digitByte (by decide) (by decide) n.natAbs).2 hneg
  intro left right hsame
  have hsigns : left < 0 ↔ right < 0 := by
    rw [← hsign left, hsame, hsign]
  unfold decimal at hsame
  by_cases hneg : left < 0
  · rw [if_pos hneg, if_pos (hsigns.mp hneg), List.append_cancel_left_eq] at hsame
    have habs := hnumerals hsame
    omega
  · rw [if_neg hneg, if_neg (fun hright => hneg (hsigns.mpr hright)),
      List.append_cancel_left_eq] at hsame
    have habs := hnumerals hsame
    omega

/-! ## `ltoa` -/

/-- One round takes the last digit of a number. -/
theorem ltoaStep_eq (base n i : Nat) (written : Bytes) :
    ltoaStep base { uarg := n, i, written } =
      { uarg := (n / base : Nat)
        i := i + 1
        written := digitByte (n % base) :: written } := by
  have hrem : (n : Int).tmod base = (n % base : Nat) := Int.ofNat_tmod n base
  have hdigit : UInt8.ofNat
      ((((n % base : Nat) : Int) + ((if (9 : Int) < (n % base : Nat) then
        (ch 'A').toNat - 10 else (ch '0').toNat : Nat) : Int)) % 256).toNat =
      digitByte (n % base) := by
    apply UInt8.toNat_inj.mp
    simp only [digitByte, UInt8.toNat_ofNat', Nat.ofNat_lt_cast]
    omega
  simp only [ltoaStep, hrem, hdigit, Int.ofNat_tdiv]

/-- The loop writes the digits of a number in front of what is there. -/
theorem ltoaLoop_eq {base : Nat} (hbase : 1 < base) {n fuel i : Nat} {written : Bytes}
    (hpos : 0 < n) (hfuel : n ≤ fuel) :
    ltoaLoop base fuel { uarg := n, i, written } =
      { uarg := 0
        i := i + (numeral base n).length
        written := (numeral base n).map digitByte ++ written } := by
  induction n using Nat.strongRecOn generalizing fuel i written with
  | ind n ih =>
      obtain ⟨fuel, rfl⟩ : ∃ rounds, fuel = rounds + 1 := ⟨fuel - 1, by omega⟩
      have hne : (n : Int) ≠ 0 := by omega
      rw [ltoaLoop, if_neg hne, ltoaStep_eq]
      by_cases hlt : n < base
      · rw [Nat.div_eq_of_lt hlt, Nat.mod_eq_of_lt hlt, numeral_of_lt hlt]
        cases fuel with
        | zero => rfl
        | succ fuel => simp [ltoaLoop]
      · have hle : base ≤ n := Nat.le_of_not_lt hlt
        have hsmaller := Nat.div_lt_self hpos hbase
        rw [ih (n / base) hsmaller (Nat.div_pos hle (by omega)) (by omega),
          numeral_of_le hbase hle]
        simp only [List.length_append, List.length_singleton, List.map_append,
          List.map_singleton, List.append_assoc, List.singleton_append, Nat.add_assoc,
          Nat.add_comm 1]

theorem decimal_nulFree (n : Int) : 0 ∉ decimal n := by
  unfold decimal
  rw [List.mem_append, not_or]
  refine ⟨?_, (notMem_map_digitByte (by decide) (by decide) n.natAbs).1⟩
  split <;> decide

/-- What `ltoa` writes for a number that it begins the digits of as `digits`. -/
theorem ltoa_text {n : BitVec 64} {base digits : Nat} (hlow : 2 ≤ base) (hhigh : base ≤ 36)
    (hdigits : (if (base : Int) = 10 ∧ n.toInt < 0 then (-n).toInt else n.toInt) = digits) :
    ltoa n base =
      (if (base : Int) = 10 ∧ n.toInt < 0 then [ch '-'] else []) ++
        (numeral base digits).map digitByte ++ [0] := by
  have hkept : ¬ (36 < (base : Int) ∨ 2 > (base : Int)) := by omega
  unfold ltoa
  simp only [if_neg hkept, hdigits]
  by_cases hzero : digits = 0
  · have hnone : numeral base 0 = [0] := numeral_of_lt (by omega)
    rw [hzero, hnone, List.append_assoc]
    rfl
  · have hpos : 0 < digits := Nat.pos_of_ne_zero hzero
    have hloop : ltoaLoop base digits { uarg := digits, i := 1, written := [0] } =
        { uarg := 0
          i := 1 + (numeral base digits).length
          written := (numeral base digits).map digitByte ++ [0] } :=
      ltoaLoop_eq (by omega) hpos (Nat.le_refl _)
    have hne : (digits : Int) ≠ 0 := by omega
    rw [if_pos hne, Int.natAbs_natCast, hloop, List.append_assoc,
      List.take_of_length_le (by simp [Nat.add_comm])]

/-- `ltoa` writes the decimal text of every integer but the smallest. -/
theorem ltoa_eq {n : BitVec 64} (hmin : n ≠ BitVec.intMin 64) :
    cstr (ltoa n 10) = decimal n.toInt := by
  have huarg : (if n.toInt < 0 then (-n).toInt else n.toInt) = (n.toInt.natAbs : Int) := by
    split
    · rw [BitVec.toInt_neg_of_ne_intMin hmin]
      omega
    · omega
  have hltoa : ltoa n 10 = decimal n.toInt ++ [0] := by
    have htext := @ltoa_text n 10 n.toInt.natAbs (by decide) (by decide)
      (by simpa using huarg)
    simpa [decimal] using htext
  rw [hltoa]
  exact cstr_append_nul (decimal_nulFree n.toInt) []

/-- The digits of the smallest integer come out negative. -/
theorem ltoa_intMin : cstr (ltoa (BitVec.intMin 64) 10) ≠ decimal (-2 ^ 63) := by
  decide +kernel

/-! ## The text that spells its own bytes -/

/-- The decimal text of the integer that its first eight characters encode. -/
def ownNumeral : Bytes :=
  bytesOf "3690199823823747384"

/--
Eight digits, whose characters are the bytes of a number and which its numeral
begins with: each of them is settled by those in front of it.
-/
theorem eq_own_of_digits {n d₀ d₁ d₂ d₃ d₄ d₅ d₆ d₇ : Nat}
    (hbytes : n = (48 + d₀) * 2 ^ 56 + (48 + d₁) * 2 ^ 48 + (48 + d₂) * 2 ^ 40 +
      (48 + d₃) * 2 ^ 32 + (48 + d₄) * 2 ^ 24 + (48 + d₅) * 2 ^ 16 + (48 + d₆) * 2 ^ 8 +
      (48 + d₇))
    (hfirst : n / 10 ^ 11 = d₀ * 10 ^ 7 + d₁ * 10 ^ 6 + d₂ * 10 ^ 5 + d₃ * 10 ^ 4 +
      d₄ * 10 ^ 3 + d₅ * 10 ^ 2 + d₆ * 10 + d₇)
    (hlt : d₀ < 10 ∧ d₁ < 10 ∧ d₂ < 10 ∧ d₃ < 10 ∧ d₄ < 10 ∧ d₅ < 10 ∧ d₆ < 10 ∧
      d₇ < 10) :
    n = 3690199823823747384 := by
  obtain ⟨h₀, h₁, h₂, h₃, h₄, h₅, h₆, h₇⟩ := hlt
  obtain rfl : d₀ = 3 := by omega
  obtain rfl : d₁ = 6 := by omega
  obtain rfl : d₂ = 9 := by omega
  obtain rfl : d₃ = 0 := by omega
  obtain rfl : d₄ = 1 := by omega
  obtain rfl : d₅ = 9 := by omega
  obtain rfl : d₆ = 9 := by omega
  obtain rfl : d₇ = 8 := by omega
  exact hbytes

/-- A number is settled when its eight bytes are its own first eight digits. -/
theorem eq_own_of_value {n : Nat} {digits : List Nat} (hlength : digits.length = 8)
    (hlt : ∀ digit ∈ digits, digit < 10)
    (hbytes : BigEndian.value (digits.map digitByte) = n)
    (hfirst : numeral 10 (n / 10 ^ 11) = digits) : n = 3690199823823747384 := by
  match digits, hlength with
  | [d₀, d₁, d₂, d₃, d₄, d₅, d₆, d₇], _ =>
      simp only [List.forall_mem_cons, List.not_mem_nil, false_imp_iff, implies_true,
        and_true] at hlt
      have ⟨h₀, h₁, h₂, h₃, h₄, h₅, h₆, h₇⟩ := hlt
      have hdenoted := foldl_numeral 10 (n / 10 ^ 11)
      rw [hfirst] at hdenoted
      simp only [List.foldl_cons, List.foldl_nil] at hdenoted
      simp only [BigEndian.value, List.map_cons, List.map_nil, List.foldl_cons, List.foldl_nil,
        digitByte_toNat, h₀, h₁, h₂, h₃, h₄, h₅, h₆, h₇] at hbytes
      exact eq_own_of_digits (by omega) (by omega) hlt

/-- Bytes that stand in front of the first NUL are read as they are. -/
theorem take_map_rawByte (heap : Heap) {text : Bytes} {count : Nat}
    (hcount : count ≤ (cstr text).length) :
    (List.range count).map (rawByte heap text) = (cstr text).take count := by
  have hprefix : cstr text <+: text := List.takeWhile_prefix _
  apply List.ext_getElem
  · simp [hcount]
  · intro i hi htake
    have hstr : i < (cstr text).length := by
      rw [List.length_map, List.length_range] at hi
      omega
    have hlt : i < text.length := Nat.lt_of_lt_of_le hstr (cstr_length_le text)
    simp only [List.getElem_map, List.getElem_range, List.getElem_take, rawByte]
    rw [List.getElem?_append_left hlt, List.getElem?_eq_getElem hlt, Option.getD_some,
      hprefix.getElem hstr]

/-- The first of the eight bytes bounds the number that they encode. -/
theorem deserializeLong_bounds (heap : Heap) (text : Bytes) :
    (rawByte heap text 0).toNat * 2 ^ 56 ≤ (deserializeLong heap text).toNat ∧
      (deserializeLong heap text).toNat < ((rawByte heap text 0).toNat + 1) * 2 ^ 56 := by
  have hbyte (i : Nat) := (rawByte heap text i).toNat_lt
  rw [deserializeLong_toNat]
  simp only [List.range, List.range.loop, List.map_cons, List.map_nil, BigEndian.value,
    List.foldl_cons, List.foldl_nil]
  have := hbyte 1
  have := hbyte 2
  have := hbyte 3
  have := hbyte 4
  have := hbyte 5
  have := hbyte 6
  have := hbyte 7
  omega

/-- A text that the conversion leaves as it is encodes a number with a digit in front. -/
theorem own_bounds {heap : Heap} {text : Bytes}
    (hsame : decimal (deserializeLong heap text).toInt = cstr text) :
    48 * 2 ^ 56 ≤ (deserializeLong heap text).toNat ∧
      (deserializeLong heap text).toNat < 58 * 2 ^ 56 := by
  obtain ⟨hlow, hhigh⟩ := deserializeLong_bounds heap text
  have hfirst {byte : UInt8} {rest : Bytes} (hcons : cstr text = byte :: rest) :
      rawByte heap text 0 = byte := by
    have htake : (List.range 1).map (rawByte heap text) = (cstr text).take 1 := by
      apply take_map_rawByte
      rw [hcons]
      exact Nat.succ_le_succ (Nat.zero_le _)
    rw [hcons] at htake
    exact List.head_eq_of_cons_eq htake
  unfold decimal at hsame
  split at hsame
  · rename_i hneg
    -- a minus sign in front makes the number positive
    have hminus : (rawByte heap text 0).toNat = 45 := congrArg UInt8.toNat (hfirst hsame.symm)
    rw [hminus] at hhigh
    rw [BitVec.toInt_eq_toNat_of_lt (by omega)] at hneg
    omega
  · cases hdigits : numeral 10 (deserializeLong heap text).toInt.natAbs with
    | nil => exact absurd hdigits (numeral_ne_nil 10 _)
    | cons digit digits =>
        have hdigit : digit < 10 := by
          apply lt_of_mem_numeral (by decide)
          rw [hdigits]
          exact List.mem_cons_self
        rw [hdigits] at hsame
        rw [hfirst hsame.symm, digitByte_toNat hdigit] at hlow hhigh
        omega

/-- The conversion leaves a C string as it is for one text only. -/
theorem convertToString_eq_cstr_iff (heap : Heap) (text : Bytes) :
    convertToString (deserializeLong heap text) = cstr text ↔ cstr text = ownNumeral := by
  rw [convertToString_eq]
  constructor
  · intro hsame
    obtain ⟨hlow, hhigh⟩ := own_bounds hsame
    have hint : (deserializeLong heap text).toInt = (deserializeLong heap text).toNat :=
      BitVec.toInt_eq_toNat_of_lt (by omega)
    have hvalue := deserializeLong_toNat heap text
    rw [hint] at hsame
    generalize (deserializeLong heap text).toNat = n at *
    have hdigits : cstr text = (numeral 10 n).map digitByte := by
      rw [← hsame, decimal, if_neg (by omega), Int.natAbs_natCast, List.nil_append]
    obtain ⟨last, -, hsplit⟩ := @numeral_eq_append 10 (by decide) 11 n (by omega)
    have height : (numeral 10 (n / 10 ^ 11)).length = 8 :=
      @length_numeral 10 (by decide) 7 _ (by omega) (by omega)
    rw [hsplit, List.map_append] at hdigits
    have htake : (cstr text).take 8 = (numeral 10 (n / 10 ^ 11)).map digitByte := by
      rw [hdigits, List.take_left' (by rw [List.length_map, height])]
    have hlong : 8 ≤ (cstr text).length := by
      rw [hdigits, List.length_append, List.length_map, height]
      omega
    rw [take_map_rawByte heap hlong, htake] at hvalue
    have hown : n = 3690199823823747384 :=
      eq_own_of_value height (fun _ => lt_of_mem_numeral (by decide)) hvalue.symm rfl
    rw [← hsame, hown]
    decide +kernel
  · intro hown
    have height : (List.range 8).map (rawByte heap text) = bytesOf "36901998" := by
      rw [take_map_rawByte heap (by rw [hown]; decide), hown]
      decide
    have hvalue : deserializeLong heap text = 3690199823823747384#64 := by
      apply BitVec.eq_of_toNat_eq
      rw [deserializeLong_toNat, height]
      decide +kernel
    rw [hvalue, hown]
    decide +kernel
end PdoCassandra.Properties.LongType
