import Mathlib.Data.Nat.Digits.Defs

/-!
# Numerals

The digits of a number, the most significant one first.  Zero has one digit, and
no other number begins with it.
-/

namespace PdoCassandra.Foundation

def numeral (base n : Nat) : List Nat :=
  if n = 0 then [0] else (Nat.digits base n).reverse

theorem numeral_of_lt {base n : Nat} (hlt : n < base) : numeral base n = [n] := by
  unfold numeral
  split
  · rename_i hzero
    rw [hzero]
  · rename_i hpos
    rw [Nat.digits_of_lt base n hpos hlt, List.reverse_singleton]

theorem numeral_of_le {base n : Nat} (hbase : 1 < base) (hle : base ≤ n) :
    numeral base n = numeral base (n / base) ++ [n % base] := by
  have hpos : 0 < n := Nat.lt_of_lt_of_le (Nat.zero_lt_of_lt hbase) hle
  have hquot : n / base ≠ 0 := by
    have := Nat.div_pos hle (Nat.zero_lt_of_lt hbase)
    omega
  rw [numeral, numeral, if_neg (by omega), if_neg hquot, Nat.digits_def' hbase hpos,
    List.reverse_cons]

/-- The last digits of a numeral stand behind the numeral of the others. -/
theorem numeral_eq_append {base : Nat} (hbase : 1 < base) (k : Nat) {n : Nat}
    (hle : base ^ k ≤ n) :
    ∃ last, last.length = k ∧ numeral base n = numeral base (n / base ^ k) ++ last := by
  induction k generalizing n with
  | zero => exact ⟨[], rfl, by rw [Nat.pow_zero, Nat.div_one, List.append_nil]⟩
  | succ k ih =>
      rw [Nat.pow_succ] at hle ⊢
      have hquot : base ^ k ≤ n / base :=
        (Nat.le_div_iff_mul_le (Nat.zero_lt_of_lt hbase)).mpr hle
      have hlow : base ≤ n :=
        (Nat.le_mul_of_pos_left base (Nat.pow_pos (Nat.zero_lt_of_lt hbase))).trans hle
      obtain ⟨last, hlength, hsplit⟩ := ih hquot
      refine ⟨last ++ [n % base], by rw [List.length_append, hlength]; rfl, ?_⟩
      rw [numeral_of_le hbase hlow, hsplit, Nat.div_div_eq_div_mul, Nat.mul_comm base,
        List.append_assoc]

theorem length_numeral {base : Nat} (hbase : 1 < base) {k n : Nat} (hle : base ^ k ≤ n)
    (hlt : n < base ^ (k + 1)) : (numeral base n).length = k + 1 := by
  obtain ⟨last, hlength, hsplit⟩ := numeral_eq_append hbase k hle
  have hfirst : n / base ^ k < base := by
    apply Nat.div_lt_of_lt_mul
    rwa [← Nat.pow_succ]
  rw [hsplit, numeral_of_lt hfirst, List.length_append, hlength, List.length_singleton,
    Nat.add_comm]

/-- A numeral denotes its number. -/
theorem ofDigits_numeral (base n : Nat) : Nat.ofDigits base (numeral base n).reverse = n := by
  unfold numeral
  split
  · rename_i hzero
    simp [hzero]
  · rw [List.reverse_reverse, Nat.ofDigits_digits]

/-- Reading the digits of a numeral from the first one on gives its number. -/
theorem foldl_numeral (base n : Nat) :
    (numeral base n).foldl (fun value digit => digit + base * value) 0 = n := by
  calc (numeral base n).foldl (fun value digit => digit + base * value) 0
      = (numeral base n).reverse.foldr (fun digit value => digit + base * value) 0 := by
        rw [List.foldr_reverse]
    _ = Nat.ofDigits base (numeral base n).reverse :=
        (Nat.ofDigits_eq_foldr base (numeral base n).reverse).symm
    _ = n := ofDigits_numeral base n

theorem numeral_injective (base : Nat) : Function.Injective (numeral base) := by
  intro left right hsame
  rw [← ofDigits_numeral base left, hsame, ofDigits_numeral]

theorem lt_of_mem_numeral {base n digit : Nat} (hbase : 1 < base)
    (hdigit : digit ∈ numeral base n) : digit < base := by
  unfold numeral at hdigit
  split at hdigit
  · rw [List.mem_singleton.mp hdigit]
    exact Nat.zero_lt_of_lt hbase
  · exact Nat.digits_lt_base hbase (List.mem_reverse.mp hdigit)

theorem numeral_ne_nil (base n : Nat) : numeral base n ≠ [] := by
  unfold numeral
  split
  · exact List.cons_ne_nil 0 []
  · rename_i hpos
    rw [Ne, List.reverse_eq_nil_iff]
    exact Nat.digits_ne_nil_iff_ne_zero.mpr hpos

/-- The numeral of a positive number does not begin with zero. -/
theorem head?_numeral_ne {base n : Nat} (hbase : 1 < base) (hpos : 0 < n) :
    (numeral base n).head? ≠ some 0 := by
  induction n using Nat.strongRecOn with
  | ind n ih =>
      by_cases hlt : n < base
      · rw [numeral_of_lt hlt, List.head?_cons, Ne, Option.some_inj]
        exact Nat.ne_of_gt hpos
      · have hle : base ≤ n := Nat.le_of_not_lt hlt
        have hquot : 0 < n / base := Nat.div_pos hle (Nat.zero_lt_of_lt hbase)
        have hhead := ih (n / base) (Nat.div_lt_self hpos hbase) hquot
        rw [numeral_of_le hbase hle]
        cases hdigits : numeral base (n / base) with
        | nil => exact absurd hdigits (numeral_ne_nil base (n / base))
        | cons digit digits => rwa [hdigits] at hhead

/-- The library's own numerals are these digits, written as characters. -/
theorem toDigits_eq_map {base : Nat} (hbase : 1 < base) (n : Nat) :
    Nat.toDigits base n = (numeral base n).map Nat.digitChar := by
  induction n using Nat.strongRecOn with
  | ind n ih =>
      by_cases hlt : n < base
      · rw [Nat.toDigits_of_lt_base hlt, numeral_of_lt hlt, List.map_singleton]
      · have hle : base ≤ n := Nat.le_of_not_lt hlt
        have hpos : 0 < n := Nat.lt_of_lt_of_le (Nat.zero_lt_of_lt hbase) hle
        rw [Nat.toDigits_of_base_le hbase hle, numeral_of_le hbase hle,
          ih _ (Nat.div_lt_self hpos hbase), List.map_append, List.map_singleton]

end PdoCassandra.Foundation
