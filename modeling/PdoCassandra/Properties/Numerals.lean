import PdoCassandra.Driver.Ltoa
import PdoCassandra.Properties.LongType

/-!
# What `ltoa` writes, and where

The calls of `ltoa` stay inside its buffer and inside the caller's; the text is the
canonical numeral of the integer, for every integer that is not negated in vain.
-/

namespace PdoCassandra.Properties.Numerals

open PdoCassandra.Foundation
open PdoCassandra.Foundation.CString
open PdoCassandra.Driver
open PdoCassandra.Properties.LongType

/-! ## Canonical numerals -/

/-- The value of a digit `0-9A-Z` below the base. -/
def readDigit (base : Nat) (byte : UInt8) : Option Nat :=
  let digit :=
    if ch '0' ≤ byte ∧ byte ≤ ch '9' then some (byte.toNat - (ch '0').toNat)
    else if ch 'A' ≤ byte ∧ byte ≤ ch 'Z' then some (byte.toNat - (ch 'A').toNat + 10)
    else none
  digit.filter fun digit => digit < base

def readNumeral (base : Nat) (text : Bytes) : Option Nat :=
  text.foldlM (fun value byte => (readDigit base byte).map fun digit => digit + base * value) 0

/-- Digits that read back as `n`, the first of them `0` only in `0` itself. -/
structure Canonical (base : Nat) (text : Bytes) (n : Nat) : Prop where
  nonempty : text ≠ []
  leading : text.head? = some (ch '0') → text = [ch '0']
  reads : readNumeral base text = some n

theorem readDigit_digitByte {base digit : Nat} (hbase : base ≤ 36) (hdigit : digit < base) :
    readDigit base (digitByte digit) = some digit := by
  have hall : ∀ digit < 36, readDigit 36 (digitByte digit) = some digit := by decide
  have hvalue := hall digit (by omega)
  simp only [readDigit, Option.filter_eq_some_iff] at hvalue ⊢
  exact ⟨hvalue.1, decide_eq_true hdigit⟩

theorem foldlM_digitByte {base : Nat} (hbase : base ≤ 36) {digits : List Nat}
    (hdigits : ∀ digit ∈ digits, digit < base) (value : Nat) :
    (digits.map digitByte).foldlM
        (fun value byte => (readDigit base byte).map fun digit => digit + base * value) value =
      some (digits.foldl (fun value digit => digit + base * value) value) := by
  induction digits generalizing value with
  | nil => rfl
  | cons digit digits ih =>
      have hfirst := readDigit_digitByte hbase (hdigits digit List.mem_cons_self)
      have hrest : ∀ digit ∈ digits, digit < base :=
        fun other hother => hdigits other (List.mem_cons_of_mem digit hother)
      rw [List.map_cons, List.foldlM_cons, hfirst, List.foldl_cons]
      exact ih hrest _

theorem digitByte_eq_zero {digit : Nat} (hdigit : digit < 36)
    (hzero : digitByte digit = ch '0') : digit = 0 := by
  have hall : ∀ digit < 36, digitByte digit = ch '0' → digit = 0 := by decide
  exact hall digit hdigit hzero

section

variable {base : Nat} (hlow : 2 ≤ base) (hhigh : base ≤ 36)

include hlow hhigh

theorem canonical_numeral (n : Nat) : Canonical base ((numeral base n).map digitByte) n where
  nonempty := by
    rw [Ne, List.map_eq_nil_iff]
    exact numeral_ne_nil base n
  leading := by
    intro hhead
    rw [List.head?_map, Option.map_eq_some_iff] at hhead
    obtain ⟨digit, hdigit, hbyte⟩ := hhead
    have hlt := lt_of_mem_numeral hlow (List.mem_of_mem_head? hdigit)
    obtain rfl := digitByte_eq_zero (by omega) hbyte
    have hzero : n = 0 := by
      by_contra hne
      exact head?_numeral_ne hlow (Nat.pos_of_ne_zero hne) hdigit
    rw [hzero, numeral_of_lt (by omega), List.map_singleton, hbyte]
  reads := by
    have hdigits : ∀ digit ∈ numeral base n, digit < base :=
      fun digit hdigit => lt_of_mem_numeral hlow hdigit
    rw [readNumeral, foldlM_digitByte hhigh hdigits, foldl_numeral]

/-- A number that is not negative is written in any base. -/
theorem ltoa_nonneg {n : BitVec 64} (hn : 0 ≤ n.toInt) :
    cstr (ltoa n base) = (numeral base n.toInt.toNat).map digitByte := by
  have hneg : ¬ ((base : Int) = 10 ∧ n.toInt < 0) := by omega
  have hdigits : (if (base : Int) = 10 ∧ n.toInt < 0 then (-n).toInt else n.toInt) =
      (n.toInt.toNat : Int) := by
    rw [if_neg hneg, Int.toNat_of_nonneg hn]
  rw [ltoa_text hlow hhigh hdigits, if_neg hneg, List.nil_append]
  exact cstr_append_nul (notMem_map_digitByte hlow hhigh _).1 []

end

/-- A negative number is written in base 10 with a minus sign, the smallest one apart. -/
theorem ltoa_neg {n : BitVec 64} (hmin : -2 ^ 63 < n.toInt) (hneg : n.toInt < 0) :
    cstr (ltoa n 10) = ch '-' :: (numeral 10 (-n.toInt).toNat).map digitByte := by
  have hne : n ≠ BitVec.intMin 64 := by
    rintro rfl
    exact absurd hmin (by decide)
  have habs : n.toInt.natAbs = (-n.toInt).toNat := by omega
  rw [ltoa_eq hne, decimal, if_pos hneg, habs, List.singleton_append]

/-! ## Exactness -/

/--
Every call ends within 64 rounds, writes and reads its buffer in bounds and writes no
more than 65 bytes at `str`, a NUL among them; in front of it stands the canonical
numeral, in base 10 with the sign of a negative number.
-/
theorem ltoa_exact (memory : Int → UInt8) (n : BitVec 64) (base : Int) :
    ∃ call, (∀ rounds, 64 ≤ rounds → Ltoa.ltoa memory rounds n base = some call) ∧
      call.InBounds ∧ call.text = ltoa n base ∧
      (0 ≤ n.toInt → 2 ≤ base → base ≤ 36 →
        Canonical base.toNat (cstr call.text) n.toInt.toNat) ∧
      (base = 10 → -2 ^ 63 < n.toInt → n.toInt < 0 →
        ∃ digits, cstr call.text = ch '-' :: digits ∧
          Canonical 10 digits (-n.toInt).toNat) := by
  obtain ⟨call, hcall, hbounds, htext⟩ := Ltoa.ltoa_spec memory n base
  refine ⟨call, hcall, hbounds, htext, fun hn hlow hhigh => ?_, fun hten hmin hneg => ?_⟩
  · obtain ⟨base, rfl⟩ := Int.eq_ofNat_of_zero_le (by omega : 0 ≤ base)
    rw [htext, Int.toNat_natCast, ltoa_nonneg (by omega) (by omega) hn]
    exact canonical_numeral (by omega) (by omega) _
  · subst hten
    refine ⟨_, ?_, canonical_numeral (by decide) (by decide) _⟩
    rw [htext]
    exact ltoa_neg hmin hneg

/-- `255` in base 16, and `-255` in base 10. -/
theorem ltoa_exact_255 :
    (∃ call, Ltoa.ltoa (fun _ => 7) 64 255 16 = some call ∧
      Canonical 16 (cstr call.text) 255) ∧
    ∃ call digits, Ltoa.ltoa (fun _ => 7) 64 (-255) 10 = some call ∧
      cstr call.text = ch '-' :: digits ∧ Canonical 10 digits 255 := by
  constructor
  · obtain ⟨call, hcall, -, -, hcanonical, -⟩ := ltoa_exact (fun _ => 7) 255 16
    exact ⟨call, hcall 64 (by decide), hcanonical (by decide) (by decide) (by decide)⟩
  · obtain ⟨call, hcall, -, -, -, hcanonical⟩ := ltoa_exact (fun _ => 7) (-255) 10
    obtain ⟨digits, htext, hdigits⟩ := hcanonical rfl (by decide) (by decide)
    exact ⟨call, digits, hcall 64 (by decide), htext, hdigits⟩

end PdoCassandra.Properties.Numerals
