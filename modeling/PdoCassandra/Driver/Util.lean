import Mathlib.Algebra.Group.Nat.Defs
import PdoCassandra.Foundation.CString

/-!
# The byte decoders of `cassandra_util.cpp` and `ltoa.c`

A decoder that reads at fixed offsets reads what is there: behind the terminator
of a short string it finds whatever the heap holds.  A block from `malloc` has
arbitrary contents, and so has an array of a block that has been left.
-/

namespace PdoCassandra.Driver

open PdoCassandra.Foundation.CString

/-! ## Memory outside the strings -/

/-- The parts of the memory that no string owns, at the time of one call. -/
structure Heap where
  /-- The bytes behind the terminator of a string's buffer. -/
  beyond : Nat → UInt8
  /-- The memory at a new block of a given size, up to the end of the mapping. -/
  malloc : Nat → Bytes
  /-- A NUL turns up at the last byte of the block or behind it. -/
  malloc_nul : ∀ size, 0 ∈ (malloc size).drop (size - 1)
  /-- What PDO finds at a pointer into an array that is gone. -/
  dead : Bytes

/-- A heap of zeros. -/
def Heap.zeros : Heap where
  beyond _ := 0
  dead := []
  malloc size := List.replicate (size + 1) 0
  malloc_nul size := by
    rw [List.drop_replicate, List.mem_replicate]
    exact ⟨by omega, rfl⟩

/-- A heap whose blocks go on with these bytes behind the last one that is written. -/
def heapBehind (more : Bytes) : Heap where
  beyond _ := 0
  dead := []
  malloc size := List.replicate (size - 1) 0 ++ more ++ [0]
  malloc_nul size := by
    rw [List.append_assoc, List.drop_left' List.length_replicate]
    simp

/-- The byte at an offset of `str.c_str()`. -/
def rawByte (heap : Heap) (str : Bytes) (offset : Nat) : UInt8 :=
  (str ++ [0])[offset]?.getD (heap.beyond (offset - str.length - 1))

/-- Up to the terminator, the bytes are the string's own. -/
theorem rawByte_of_le {str : Bytes} {offset : Nat} (hoffset : offset ≤ str.length)
    (heap other : Heap) : rawByte heap str offset = rawByte other str offset := by
  have hlt : offset < (str ++ [0]).length := by
    rw [List.length_append, List.length_singleton]
    omega
  simp only [rawByte, List.getElem?_eq_getElem hlt, Option.getD_some]

/-! ## `deserializeLong` -/

/-- An `int64_t` from eight bytes at fixed offsets. -/
def deserializeLong (heap : Heap) (str : Bytes) : BitVec 64 :=
  let rawArray (i : Nat) : BitVec 64 := (rawByte heap str i).toBitVec.setWidth 64
  rawArray 7 ||| (rawArray 6 <<< 8) ||| (rawArray 5 <<< 16) |||
    (rawArray 4 <<< 24) ||| (rawArray 3 <<< 32) ||| (rawArray 2 <<< 40) |||
    (rawArray 1 <<< 48) ||| (rawArray 0 <<< 56)

theorem deserializeLong_of_le {str : Bytes} (hlen : 7 ≤ str.length)
    (heap other : Heap) : deserializeLong heap str = deserializeLong other str := by
  have hbyte {offset : Nat} (hoffset : offset ≤ 7) :
      rawByte heap str offset = rawByte other str offset :=
    rawByte_of_le (Nat.le_trans hoffset hlen) heap other
  simp (disch := omega) only [deserializeLong, hbyte]

/-- PHP's conversion of an integer: its decimal numeral. -/
def convertToString (lval : BitVec 64) : Bytes :=
  let digits (n : Nat) : Bytes := (Nat.toDigits 10 n).map ch
  if lval.toInt < 0 then ch '-' :: digits lval.toInt.natAbs
  else digits lval.toInt.natAbs

/-- The sixteen bytes that `uuid_unparse` reads. -/
def uuidBytes (heap : Heap) (str : Bytes) : Bytes :=
  (List.range 16).map (rawByte heap str)

theorem uuidBytes_of_le {str : Bytes} (hlen : 15 ≤ str.length) (heap other : Heap) :
    uuidBytes heap str = uuidBytes other str := by
  refine List.map_congr_left fun offset hoffset => rawByte_of_le ?_ heap other
  have hlt := List.mem_range.mp hoffset
  omega

/-! ## `stringToHex` -/

/-- `sprintf(buf + i, "%x", nibble)` of a single digit, which also writes its NUL. -/
def sprintfHex (buf : Bytes) (i : Nat) (nibble : BitVec 32) : Bytes :=
  (buf.set i (ch (Nat.digitChar nibble.toNat))).set (i + 1) 0

/-- The loop over the string, with `buf` at index `i` of the block. -/
def stringToHexLoop : Bytes → Nat → Bytes → Bytes
  | [], _, ret => ret
  | c :: str, i, ret =>
      -- a `char` is signed, and is widened before the shift
      let c := c.toBitVec.signExtend 32
      let msb := c.sshiftRight 4 &&& 15#32
      let lsb := c &&& 15#32
      stringToHexLoop str (i + 2) (sprintfHex (sprintfHex ret i msb) (i + 1) lsb)

/--
The memory at the returned block, `none` where its size overflows an `int`.
The empty string is not even terminated.
-/
def stringToHex (heap : Heap) (str : Bytes) : Option Bytes :=
  let len := str.length
  if 2 * len + 1 < 2 ^ 31 then
    some (stringToHexLoop str 0 (heap.malloc (2 * len + 1)))
  else none

/-- The two digits of each byte. -/
def hexText : Bytes → Bytes
  | [] => []
  | c :: str =>
      ch (Nat.digitChar (c.toNat / 16)) :: ch (Nat.digitChar (c.toNat % 16)) :: hexText str

theorem length_hexText (str : Bytes) : (hexText str).length = 2 * str.length := by
  induction str with
  | nil => rfl
  | cons c str ih =>
      simp only [hexText, List.length_cons, ih]
      omega

/-- A signed shift and a mask take the high digit, the mask alone the low one. -/
theorem nibbles (c : UInt8) :
    ((c.toBitVec.signExtend 32).sshiftRight 4 &&& 15#32).toNat = c.toNat / 16 ∧
      (c.toBitVec.signExtend 32 &&& 15#32).toNat = c.toNat % 16 := by
  revert c
  apply forall_byte
  decide +kernel

/-- Two digits and the last NUL of a round, behind what is already written. -/
theorem sprintfHex_pair {front rest : Bytes} {first second third : UInt8}
    (msb lsb : BitVec 32) :
    sprintfHex (sprintfHex (front ++ first :: second :: third :: rest) front.length msb)
        (front.length + 1) lsb =
      front ++ ch (Nat.digitChar msb.toNat) :: ch (Nat.digitChar lsb.toNat) :: 0 :: rest := by
  have hset (tail : Bytes) (k : Nat) (byte : UInt8) :
      (front ++ tail).set (front.length + k) byte = front ++ tail.set k byte := by
    rw [List.set_append_right _ _ (Nat.le_add_right _ k), Nat.add_sub_cancel_left]
  have hset0 (tail : Bytes) (byte : UInt8) :
      (front ++ tail).set front.length byte = front ++ tail.set 0 byte := hset tail 0 byte
  simp only [sprintfHex, hset0, hset, Nat.add_assoc, List.set_cons_zero, List.set_cons_succ]

/-- The loop writes the digits behind `front`, and a NUL behind the last of them. -/
theorem stringToHexLoop_eq {str front rest : Bytes} (hroom : 2 * str.length < rest.length) :
    stringToHexLoop str front.length (front ++ rest) =
      front ++ hexText str ++
        if str = [] then rest else 0 :: rest.drop (2 * str.length + 1) := by
  induction str generalizing front rest with
  | nil => simp [stringToHexLoop, hexText]
  | cons c str ih =>
      obtain ⟨hhigh, hlow⟩ := nibbles c
      match rest, hroom with
      | first :: second :: third :: rest, hroom =>
          rw [stringToHexLoop]
          simp only [sprintfHex_pair, hhigh, hlow, hexText]
          generalize ch (Nat.digitChar (c.toNat / 16)) = msb
          generalize ch (Nat.digitChar (c.toNat % 16)) = lsb
          have hnext : 2 * str.length < (0 :: rest).length := by
            simp only [List.length_cons] at hroom ⊢
            omega
          calc stringToHexLoop str (front.length + 2) (front ++ msb :: lsb :: 0 :: rest)
              = stringToHexLoop str (front ++ [msb, lsb]).length
                  ((front ++ [msb, lsb]) ++ 0 :: rest) := by simp
            _ = front ++ [msb, lsb] ++ hexText str ++
                  if str = [] then 0 :: rest
                  else 0 :: (0 :: rest).drop (2 * str.length + 1) := ih hnext
            _ = _ := by
                cases str with
                | nil => simp
                | cons c str => simp [Nat.mul_add]

/-- The digits of the text stand in front of its terminator, unless there are none. -/
theorem stringToHex_eq (heap : Heap) {str : Bytes} (hsize : 2 * str.length + 1 < 2 ^ 31) :
    stringToHex heap str =
      some (hexText str ++
        if str = [] then heap.malloc 1
        else 0 :: (heap.malloc (2 * str.length + 1)).drop (2 * str.length + 1)) := by
  have hroom : 2 * str.length < (heap.malloc (2 * str.length + 1)).length := by
    have hnul := List.length_pos_of_mem (heap.malloc_nul (2 * str.length + 1))
    rw [List.length_drop] at hnul
    omega
  have hloop := @stringToHexLoop_eq str [] _ hroom
  rw [stringToHex]
  simp only [if_pos hsize, Option.some.injEq]
  refine hloop.trans ?_
  rw [List.nil_append]
  split
  · rename_i hnil
    rw [hnil]
    rfl
  · rfl

/-! ## `hexToString` -/

/-- The value of a hex digit, `-1` for any other byte. -/
def htoi (c : UInt8) : Int :=
  if ch '0' ≤ c ∧ c ≤ ch '9' then c.toNat - 0x30
  else if ch 'a' ≤ c ∧ c ≤ ch 'f' then c.toNat - 0x61 + 10
  else if ch 'A' ≤ c ∧ c ≤ ch 'F' then c.toNat - 0x41 + 10
  else -1

/-- The decoding loop from index `i` on, with the number of rounds left. -/
def hexLoop (hex : Bytes) : Nat → Nat → Bytes → Option Bytes
  | _, 0, buf => some buf
  | i, rounds + 1, buf =>
      let msb := htoi (hex.getD (i * 2) 0)
      let lsb := htoi (hex.getD (i * 2 + 1) 0)
      if msb = -1 then none
      else if lsb = -1 then none
      else
        hexLoop hex (i + 1) rounds
          (buf.set i (UInt8.ofNat (msb.toNat <<< 4 ||| lsb.toNat)))

/-- The memory at the returned block, which gets no terminator. -/
def hexToString (heap : Heap) (hex : Bytes) : Option Bytes :=
  let len := hex.length
  if len % 2 = 1 then none
  else hexLoop hex 0 (len / 2) (heap.malloc (len / 2 + 1))

/-- The bytes that the digit pairs of a text stand for. -/
def hexBytes : Bytes → Option Bytes
  | [] => some []
  | [_] => none
  | first :: second :: rest =>
      if htoi first = -1 ∨ htoi second = -1 then none
      else
        (hexBytes rest).map
          (UInt8.ofNat ((htoi first).toNat <<< 4 ||| (htoi second).toNat) :: ·)

theorem hexBytes_of_odd {hex : Bytes} (hodd : hex.length % 2 = 1) : hexBytes hex = none := by
  fun_induction hexBytes hex with
  | case1 => simp at hodd
  | case2 => rfl
  | case3 => rfl
  | case4 first second rest hdigits ih =>
      simp only [List.length_cons] at hodd
      rw [ih (by omega), Option.map_none]

theorem hexBytes_length {hex decoded : Bytes} (hdecoded : hexBytes hex = some decoded) :
    hex.length = 2 * decoded.length := by
  fun_induction hexBytes hex generalizing decoded with
  | case1 =>
      cases hdecoded
      rfl
  | case2 => cases hdecoded
  | case3 => cases hdecoded
  | case4 first second rest hdigits ih =>
      obtain ⟨later, hlater, rfl⟩ := Option.map_eq_some_iff.mp hdecoded
      simp only [List.length_cons, ih hlater]
      omega

/-- The loop writes the decoded bytes over the buffer, from index `i` on. -/
theorem hexLoop_eq {hex buf : Bytes} {i rounds : Nat}
    (hlength : hex.length = 2 * (i + rounds)) (hroom : i + rounds ≤ buf.length) :
    hexLoop hex i rounds buf = (hexBytes (hex.drop (2 * i))).map fun decoded =>
      buf.take i ++ decoded ++ buf.drop (i + decoded.length) := by
  induction rounds generalizing i buf with
  | zero =>
      rw [List.drop_eq_nil_of_le (by omega)]
      simp [hexLoop, hexBytes]
  | succ rounds ih =>
      have hfirst : i * 2 < hex.length := by omega
      have hsecond : i * 2 + 1 < hex.length := by omega
      have hpair : hex.drop (2 * i) =
          hex[i * 2] :: hex[i * 2 + 1] :: hex.drop (2 * (i + 1)) := by
        rw [Nat.mul_comm 2 i, List.drop_eq_getElem_cons hfirst,
          List.drop_eq_getElem_cons hsecond]
        congr 3
        omega
      rw [hpair, hexBytes, hexLoop]
      simp only [List.getD_eq_getElem?_getD, List.getElem?_eq_getElem hfirst,
        List.getElem?_eq_getElem hsecond, Option.getD_some]
      by_cases hmsb : htoi hex[i * 2] = -1
      · simp [hmsb]
      · by_cases hlsb : htoi hex[i * 2 + 1] = -1
        · simp [hlsb]
        · rw [if_neg hmsb, if_neg hlsb, if_neg (by simp [hmsb, hlsb]),
            ih (by omega) (by rw [List.length_set]; omega), Option.map_map]
          congr 1
          funext decoded
          rw [List.take_add_one, List.take_set_of_le (Nat.le_refl i),
            List.getElem?_set_self (by omega), List.drop_set_of_lt (by omega)]
          simp [Nat.add_assoc, Nat.add_comm 1]

/-- The decoded bytes stand in front of what the rest of the block holds. -/
theorem hexToString_eq (heap : Heap) (hex : Bytes) :
    hexToString heap hex = (hexBytes hex).map fun decoded =>
      decoded ++ (heap.malloc (hex.length / 2 + 1)).drop decoded.length := by
  unfold hexToString
  simp only
  split
  · rename_i hodd
    rw [hexBytes_of_odd hodd, Option.map_none]
  · rename_i heven
    have hroom : hex.length / 2 ≤ (heap.malloc (hex.length / 2 + 1)).length := by
      have hnul := List.length_pos_of_mem (heap.malloc_nul (hex.length / 2 + 1))
      rw [List.length_drop] at hnul
      omega
    rw [hexLoop_eq (by omega) (by omega)]
    simp

/-! ## `ltoa` -/

structure LtoaState where
  uarg : Int
  i : Nat
  /-- The buffer behind `tail`. -/
  written : Bytes

/-- One round of the digit loop; `ldiv` truncates toward zero. -/
def ltoaStep (base : Int) (state : LtoaState) : LtoaState :=
  let rem := state.uarg.tmod base
  let digit := rem + (if 9 < rem then (ch 'A').toNat - 10 else (ch '0').toNat)
  { uarg := state.uarg.tdiv base
    i := state.i + 1
    written := UInt8.ofNat (digit % 256).toNat :: state.written }

/-- The loop `for (i = 1; uarg; ++i)`, for at most `fuel` rounds. -/
def ltoaLoop (base : Int) : Nat → LtoaState → LtoaState
  | 0, state => state
  | fuel + 1, state =>
      if state.uarg = 0 then state else ltoaLoop base fuel (ltoaStep base state)

/-- The bytes that `ltoa` leaves at `str`; each round at least halves `uarg`. -/
def ltoa (n : BitVec 64) (base : Int) : Bytes :=
  let base := if 36 < base ∨ 2 > base then 10 else base
  let negative := base = 10 ∧ n.toInt < 0
  let head := if negative then [ch '-'] else []
  let uarg := if negative then (-n).toInt else n.toInt
  if uarg ≠ 0 then
    let final := ltoaLoop base uarg.natAbs { uarg, i := 1, written := [0] }
    head ++ final.written.take final.i
  else
    head ++ [ch '0', 0]

example : cstr (ltoa (-1230) 10) = bytesOf "-1230" := by decide

end PdoCassandra.Driver
