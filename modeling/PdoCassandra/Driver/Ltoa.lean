import Mathlib.Algebra.Group.Int.Defs
import Mathlib.Logic.Function.Basic
import PdoCassandra.Driver.Util

/-!
# The buffer of `ltoa.c`

The digits are written backwards through `tail`, and `i` is kept beside it for the
length of the copy.  Every access is followed by its offset in `buf`, with memory
in front of it and behind it.
-/

namespace PdoCassandra.Driver.Ltoa

open PdoCassandra.Foundation.CString

/-- `BUFSIZE`. -/
def bufsize : Int := 8 * 8 + 1

theorem bufsize_eq : bufsize = 65 := rfl

structure Frame where
  uarg : Int
  i : Nat
  /-- The offset of `tail`. -/
  tail : Int
  /-- The bytes at each offset of `buf`. -/
  memory : Int → UInt8
  /-- The offsets that have been written. -/
  stores : List Int

namespace Frame

/-- `*tail-- = byte`. -/
def put (frame : Frame) (byte : UInt8) : Frame :=
  { frame with
    tail := frame.tail - 1
    memory := Function.update frame.memory frame.tail byte
    stores := frame.tail :: frame.stores }

/-- The offsets that `memcpy(head, ++tail, i)` reads. -/
def loads (frame : Frame) : List Int :=
  (List.range frame.i).map fun (k : Nat) => frame.tail + 1 + k

end Frame

/-- The body of the loop, and `++i`. -/
def round (base : Int) (frame : Frame) : Frame :=
  let rem := frame.uarg.tmod base
  let digit := rem + (if 9 < rem then (ch 'A').toNat - 10 else (ch '0').toNat)
  { frame.put (UInt8.ofNat (digit % 256).toNat) with
    uarg := frame.uarg.tdiv base
    i := frame.i + 1 }

/-- The loop, if it ends within `fuel` rounds. -/
def loop (base : Int) : Nat → Frame → Option Frame
  | 0, frame => if frame.uarg = 0 then some frame else none
  | fuel + 1, frame => if frame.uarg = 0 then some frame else loop base fuel (round base frame)

/-- The frame as `memcpy` finds it, and the bytes written at `str`, from its first on. -/
structure Call where
  frame : Frame
  text : Bytes

/-- The base that is used. -/
def baseFor (base : Int) : Int :=
  if 36 < base ∨ 2 > base then 10 else base

/-- The buffer with its terminator, which is written first. -/
def opened (memory : Int → UInt8) (uarg : Int) (i : Nat) : Frame :=
  Frame.put { uarg, i, tail := bufsize - 1, memory, stores := [] } 0

/-- The two branches on `uarg`. -/
def digits (memory : Int → UInt8) (fuel : Nat) (uarg base : Int) : Option Frame :=
  if uarg ≠ 0 then loop base fuel (opened memory uarg 1)
  else some ((opened memory uarg 2).put (ch '0'))

/-- What is written at `str` in front of the copy, and `uarg`. -/
def sign (n : BitVec 64) (base : Int) : Bytes × Int :=
  if base = 10 ∧ n.toInt < 0 then ([ch '-'], (-n).toInt) else ([], n.toInt)

def ltoa (memory : Int → UInt8) (fuel : Nat) (n : BitVec 64) (base : Int) : Option Call :=
  let base := baseFor base
  let (head, uarg) := sign n base
  (digits memory fuel uarg base).map fun frame =>
    { frame, text := head ++ frame.loads.map frame.memory }

example : (ltoa (fun _ => 7) 2 255 16).map Call.text = some (bytesOf "FF" ++ [0]) := by decide

/-! ## The loop -/

theorem two_le_baseFor (base : Int) : 2 ≤ baseFor base ∧ baseFor base ≤ 36 := by
  unfold baseFor
  split
  · decide
  · omega

section

variable {base : Int} {fuel : Nat} {frame final : Frame}

theorem loop_of_zero (hzero : frame.uarg = 0) : loop base fuel frame = some frame := by
  cases fuel with
  | zero => rw [loop, if_pos hzero]
  | succ fuel => rw [loop, if_pos hzero]

/-- As many rounds are enough as the number has digits. -/
theorem loop_some (hsmall : frame.uarg.natAbs < base.natAbs ^ fuel) :
    ∃ final, loop base fuel frame = some final := by
  induction fuel generalizing frame with
  | zero =>
      have hzero : frame.uarg = 0 := by
        rw [Nat.pow_zero] at hsmall
        omega
      exact ⟨frame, loop_of_zero hzero⟩
  | succ fuel ih =>
      rw [loop]
      split
      · exact ⟨frame, rfl⟩
      · apply ih
        show (frame.uarg.tdiv base).natAbs < base.natAbs ^ fuel
        rw [Int.natAbs_tdiv]
        exact Nat.div_lt_of_lt_mul (by rwa [Nat.pow_succ, Nat.mul_comm] at hsmall)

theorem loop_mono (hloop : loop base fuel frame = some final) {more : Nat}
    (hle : fuel ≤ more) : loop base more frame = some final := by
  induction fuel generalizing frame more with
  | zero =>
      rw [loop] at hloop
      split at hloop
      · rename_i hzero
        rwa [loop_of_zero hzero]
      · cases hloop
  | succ fuel ih =>
      obtain ⟨more, rfl⟩ : ∃ less, more = less + 1 := ⟨more - 1, by omega⟩
      rw [loop] at hloop ⊢
      split at hloop
      · rename_i hzero
        rwa [if_pos hzero]
      · rename_i hne
        rw [if_neg hne]
        exact ih hloop (by omega)

/-- Each round takes one byte of the buffer. -/
theorem loop_tail (hloop : loop base fuel frame = some final) :
    frame.tail - fuel ≤ final.tail := by
  induction fuel generalizing frame with
  | zero =>
      rw [loop] at hloop
      split at hloop
      · cases hloop
        omega
      · cases hloop
  | succ fuel ih =>
      rw [loop] at hloop
      split at hloop
      · cases hloop
        omega
      · have hlater := ih hloop
        have hround : (round base frame).tail = frame.tail - 1 := rfl
        omega

end

/-! ## What stands behind `tail` -/

/-- The buffer behind `tail` is what the state has, and `i` is its length. -/
structure Frame.Refines (frame : Frame) (state : LtoaState) : Prop where
  uarg : frame.uarg = state.uarg
  i : frame.i = state.i
  tail : frame.tail + frame.i = bufsize - 1
  read : frame.loads.map frame.memory = state.written
  stores : ∀ offset ∈ frame.stores, frame.tail < offset ∧ offset < bufsize
  terminated : 0 ∈ state.written

/-- One more byte in front of those behind `tail`. -/
theorem Frame.Refines.put {frame : Frame} {state : LtoaState} (hrefines : frame.Refines state)
    (byte : UInt8) (uarg : Int) :
    Frame.Refines { frame.put byte with uarg, i := frame.i + 1 }
      { uarg, i := state.i + 1, written := byte :: state.written } := by
  have htail := hrefines.tail
  have hsize := bufsize_eq
  refine
    { uarg := rfl
      i := congrArg (· + 1) hrefines.i
      tail := ?_
      read := ?_
      stores := ?_
      terminated := List.mem_cons_of_mem byte hrefines.terminated }
  · simp only [Frame.put]
    omega
  · rw [← hrefines.read]
    simp only [Frame.loads, Frame.put, List.range_succ_eq_map, List.map_cons, List.map_map,
      List.cons.injEq]
    constructor
    · -- the byte itself
      have hself : frame.tail - 1 + 1 + ((0 : Nat) : Int) = frame.tail := by omega
      rw [hself, Function.update_self]
    · -- the bytes behind it
      refine List.map_congr_left fun k hk => ?_
      have hother : frame.tail - 1 + 1 + ((k + 1 : Nat) : Int) = frame.tail + 1 + k := by omega
      simp only [Function.comp_apply, Nat.succ_eq_add_one, hother]
      exact Function.update_of_ne (by omega) _ _
  · intro offset hoffset
    simp only [Frame.put] at hoffset ⊢
    rcases List.mem_cons.mp hoffset with rfl | hearlier
    · omega
    · have hbound := hrefines.stores offset hearlier
      omega

theorem Frame.Refines.round {frame : Frame} {state : LtoaState}
    (hrefines : frame.Refines state) (base : Int) :
    (round base frame).Refines (ltoaStep base state) := by
  rw [ltoaStep, ← hrefines.uarg]
  exact hrefines.put _ _

theorem loop_refines {base : Int} {fuel : Nat} {frame final : Frame} {state : LtoaState}
    (hrefines : frame.Refines state) (hloop : loop base fuel frame = some final) :
    final.Refines (ltoaLoop base fuel state) := by
  induction fuel generalizing frame state with
  | zero =>
      rw [loop] at hloop
      split at hloop
      · cases hloop
        exact hrefines
      · cases hloop
  | succ fuel ih =>
      rw [loop] at hloop
      rw [ltoaLoop, ← hrefines.uarg]
      split at hloop
      · rename_i hzero
        cases hloop
        rw [if_pos hzero]
        exact hrefines
      · rename_i hne
        rw [if_neg hne]
        exact ih (hrefines.round base) hloop

/-- The terminator stands behind `tail` when the digits are begun. -/
theorem opened_refines (memory : Int → UInt8) (uarg : Int) :
    (opened memory uarg 1).Refines { uarg, i := 1, written := [0] } where
  uarg := rfl
  i := rfl
  tail := rfl
  read := by simp [opened, Frame.loads, Frame.put, bufsize]
  stores := by simp [opened, Frame.put, bufsize]
  terminated := List.mem_cons_self

/-! ## A call -/

/-- The state that the plain model has behind the two branches on `uarg`. -/
def digitState (uarg base : Int) : LtoaState :=
  if uarg ≠ 0 then ltoaLoop base uarg.natAbs { uarg, i := 1, written := [0] }
  else { uarg, i := 2, written := [ch '0', 0] }

/-- The digits of a number that is smaller than a power of the base. -/
theorem digits_refines (memory : Int → UInt8) {uarg base : Int} (hbase : 2 ≤ base)
    {rounds : Nat} (hpos : 0 < rounds) (hsmall : uarg.natAbs < base.natAbs ^ rounds) :
    ∃ final, (∀ fuel, rounds ≤ fuel → digits memory fuel uarg base = some final) ∧
      final.Refines (digitState uarg base) ∧ bufsize - 2 - rounds ≤ final.tail := by
  have hopened := opened_refines memory uarg
  have hsize := bufsize_eq
  unfold digits digitState
  by_cases hzero : uarg = 0
  · simp only [if_neg (not_not_intro hzero)]
    refine ⟨_, fun _ _ => rfl, hopened.put (ch '0') uarg, ?_⟩
    have htail : ((opened memory uarg 2).put (ch '0')).tail = bufsize - 3 := by
      simp only [opened, Frame.put]
      omega
    omega
  · simp only [if_pos hzero]
    obtain ⟨final, hloop⟩ := @loop_some base rounds (opened memory uarg 1) hsmall
    have hself : uarg.natAbs < base.natAbs ^ uarg.natAbs := Nat.lt_pow_self (by omega)
    obtain ⟨same, hsame⟩ := @loop_some base uarg.natAbs (opened memory uarg 1) hself
    -- the bound on the number and the plain model's own lead to the same frame
    have heq : same = final := by
      have hleft := loop_mono hsame (Nat.le_max_left uarg.natAbs rounds)
      have hright := loop_mono hloop (Nat.le_max_right uarg.natAbs rounds)
      exact Option.some.inj (hleft.symm.trans hright)
    subst heq
    refine ⟨same, fun fuel hfuel => loop_mono hloop hfuel, loop_refines hopened hsame, ?_⟩
    have htail := loop_tail hloop
    have hstart : (opened memory uarg 1).tail = bufsize - 2 := by
      simp only [opened, Frame.put]
      omega
    omega

theorem natAbs_toInt_le (n : BitVec 64) : n.toInt.natAbs ≤ 2 ^ 63 := by
  have hlow := n.le_toInt
  have hhigh := n.toInt_lt
  omega

theorem natAbs_sign_le (n : BitVec 64) (base : Int) : (sign n base).2.natAbs ≤ 2 ^ 63 := by
  unfold sign
  split
  · exact natAbs_toInt_le (-n)
  · exact natAbs_toInt_le n

theorem length_sign_le (n : BitVec 64) (base : Int) : (sign n base).1.length ≤ 1 := by
  unfold sign
  split
  · exact Nat.le_refl 1
  · exact Nat.zero_le 1

theorem sign_of_ne (n : BitVec 64) {base : Int} (hbase : base ≠ 10) :
    sign n base = ([], n.toInt) :=
  if_neg fun hboth => hbase hboth.1

/-- Every access is inside the buffer, and a caller's buffer of that size is terminated. -/
structure Call.InBounds (call : Call) : Prop where
  stores : ∀ offset ∈ call.frame.stores, 0 ≤ offset ∧ offset < bufsize
  loads : ∀ offset ∈ call.frame.loads, 0 ≤ offset ∧ offset < bufsize
  text : call.text.length ≤ bufsize
  terminated : 0 ∈ call.text

theorem inBounds_of_refines {frame : Frame} {state : LtoaState} (hrefines : frame.Refines state)
    (hlow : -1 ≤ frame.tail) {head : Bytes} (hroom : head.length ≤ frame.tail + 1) :
    Call.InBounds { frame, text := head ++ frame.loads.map frame.memory } := by
  have htail := hrefines.tail
  refine ⟨fun offset hoffset => ?_, fun offset hoffset => ?_, ?_, ?_⟩
  · have hbound := hrefines.stores offset hoffset
    omega
  · obtain ⟨k, hk, rfl⟩ := List.mem_map.mp hoffset
    have hlt : k < frame.i := List.mem_range.mp hk
    show 0 ≤ frame.tail + 1 + (k : Int) ∧ frame.tail + 1 + (k : Int) < bufsize
    omega
  · simp only [Frame.loads, List.length_append, List.length_map, List.length_range]
    omega
  · rw [hrefines.read]
    exact List.mem_append_right head hrefines.terminated

/-- What is written at `str` is what the plain model writes. -/
theorem text_of_refines {frame : Frame} {state : LtoaState} (hrefines : frame.Refines state) :
    frame.loads.map frame.memory = state.written.take state.i := by
  rw [← hrefines.read, ← hrefines.i, List.take_of_length_le]
  simp only [Frame.loads, List.length_map, List.length_range]
  exact Nat.le_refl frame.i

/-- The plain model, with its branches on the sign and on `uarg`. -/
theorem ltoa_eq_digitState (n : BitVec 64) (base : Int) :
    Driver.ltoa n base =
      (sign n (baseFor base)).1 ++
        (digitState (sign n (baseFor base)).2 (baseFor base)).written.take
          (digitState (sign n (baseFor base)).2 (baseFor base)).i := by
  have hbase : (if 36 < base ∨ 2 > base then 10 else base) = baseFor base := rfl
  simp only [Driver.ltoa, hbase]
  generalize baseFor base = base
  by_cases hneg : base = 10 ∧ n.toInt < 0
  · simp only [sign, if_pos hneg, digitState]
    split <;> rfl
  · simp only [sign, if_neg hneg, digitState]
    split <;> rfl

/-- A call ends within as many rounds as a number has bits, and stays in bounds. -/
theorem ltoa_spec (memory : Int → UInt8) (n : BitVec 64) (base : Int) :
    ∃ call, (∀ fuel, 64 ≤ fuel → ltoa memory fuel n base = some call) ∧
      call.InBounds ∧ call.text = Driver.ltoa n base := by
  obtain ⟨htwo, -⟩ := two_le_baseFor base
  have hsize := bufsize_eq
  have habs := natAbs_sign_le n (baseFor base)
  have hlength := length_sign_le n (baseFor base)
  rw [ltoa_eq_digitState]
  simp only [ltoa]
  generalize baseFor base = base at htwo habs hlength ⊢
  by_cases hten : base = 10
  · -- nineteen decimal digits, which leave room for the sign
    subst hten
    have hsmall : (sign n 10).2.natAbs < (10 : Int).natAbs ^ 19 :=
      Nat.lt_of_le_of_lt habs (by decide)
    obtain ⟨final, hdigits, hrefines, htail⟩ :=
      digits_refines memory htwo (by decide) hsmall
    refine ⟨_, fun fuel hfuel => by rw [hdigits fuel (by omega)]; rfl, ?_, ?_⟩
    · exact inBounds_of_refines hrefines (by omega) (by omega)
    · rw [← text_of_refines hrefines]
  · have hsmall : (sign n base).2.natAbs < base.natAbs ^ 64 := by
      calc (sign n base).2.natAbs ≤ 2 ^ 63 := habs
        _ < 2 ^ 64 := by decide
        _ ≤ base.natAbs ^ 64 := Nat.pow_le_pow_left (by omega) 64
    obtain ⟨final, hdigits, hrefines, htail⟩ :=
      digits_refines memory htwo (by decide) hsmall
    refine ⟨_, fun fuel hfuel => by rw [hdigits fuel hfuel]; rfl, ?_, ?_⟩
    · have hnone : (sign n base).1.length = 0 := by rw [sign_of_ne n hten]; rfl
      exact inBounds_of_refines hrefines (by omega) (by omega)
    · rw [← text_of_refines hrefines]

end PdoCassandra.Driver.Ltoa
