import Mathlib.Logic.Function.Basic

/-!
# Bytes and C strings

A `char *` is followed through the memory behind it, which is a finite list of
bytes: reading past the end of the list is reading past what is mapped.  The C
string at a pointer is what stands before the first NUL.
-/

namespace PdoCassandra.Foundation.CString

abbrev Bytes := List UInt8

/-- The byte of an ASCII character. -/
def ch (c : Char) : UInt8 :=
  UInt8.ofNat c.toNat

/-- The bytes of an ASCII text. -/
def bytesOf (text : String) : Bytes :=
  text.toList.map ch

/-- A fact about bytes that holds of each of the 256. -/
theorem forall_byte {Holds : UInt8 → Prop} (hall : ∀ n < 256, Holds (UInt8.ofNat n))
    (byte : UInt8) : Holds byte := by
  have hbyte := hall byte.toNat byte.toNat_lt
  rwa [UInt8.ofNat_toNat] at hbyte

/-- The C string at the head of `memory`. -/
def cstr (memory : Bytes) : Bytes :=
  memory.takeWhile (· ≠ 0)

@[simp]
theorem cstr_nil : cstr [] = [] := rfl

theorem cstr_cons (byte : UInt8) (memory : Bytes) :
    cstr (byte :: memory) = if byte = 0 then [] else byte :: cstr memory := by
  by_cases hzero : byte = 0
  · simp [cstr, hzero]
  · simp [cstr, hzero]

/-- A C string holds no NUL. -/
theorem cstr_nulFree (memory : Bytes) : 0 ∉ cstr memory := by
  induction memory with
  | nil => simp
  | cons byte memory ih =>
      rw [cstr_cons]
      split
      · simp
      · rename_i hbyte
        simp only [List.mem_cons, not_or]
        exact ⟨fun heq => hbyte heq.symm, ih⟩

/-- Nothing behind a NUL belongs to the C string. -/
theorem cstr_append_of_mem {text : Bytes} (hnul : 0 ∈ text) (after : Bytes) :
    cstr (text ++ after) = cstr text := by
  induction text with
  | nil => cases hnul
  | cons byte text ih =>
      rw [List.cons_append, cstr_cons, cstr_cons]
      split
      · rfl
      · rename_i hbyte
        rcases List.mem_cons.mp hnul with hzero | hrest
        · exact absurd hzero.symm hbyte
        · rw [ih hrest]

theorem cstr_length_le (memory : Bytes) : (cstr memory).length ≤ memory.length :=
  (List.takeWhile_prefix _).length_le

/-- Reading a byte string as a C string loses nothing exactly when it has no NUL. -/
theorem cstr_eq_self_iff (text : Bytes) : cstr text = text ↔ 0 ∉ text := by
  constructor
  · intro heq
    rw [← heq]
    exact cstr_nulFree text
  · intro hfree
    induction text with
    | nil => rfl
    | cons byte text ih =>
        simp only [List.mem_cons, not_or] at hfree
        rw [cstr_cons, if_neg (fun heq => hfree.1 heq.symm), ih hfree.2]

/-- A text without NUL is followed by the C string behind it. -/
theorem cstr_append {text : Bytes} (hfree : 0 ∉ text) (after : Bytes) :
    cstr (text ++ after) = text ++ cstr after := by
  induction text with
  | nil => rfl
  | cons byte text ih =>
      simp only [List.mem_cons, not_or] at hfree
      rw [List.cons_append, cstr_cons, if_neg (fun heq => hfree.1 heq.symm), ih hfree.2,
        List.cons_append]

theorem cstr_append_nul {text : Bytes} (hfree : 0 ∉ text) (after : Bytes) :
    cstr (text ++ 0 :: after) = text := by
  rw [cstr_append hfree, cstr_cons, if_pos rfl, List.append_nil]

/--
A NUL-terminated text in memory, with the bytes that happen to follow its
terminator.
-/
structure Terminated where
  text : Bytes
  after : Bytes
  nulFree : 0 ∉ text
  /-- The terminator of the empty text is not the last byte of the mapping. -/
  mapped : text = [] → after ≠ []

namespace Terminated

/-- The memory at the first byte of the text. -/
def memory (query : Terminated) : Bytes :=
  query.text ++ 0 :: query.after

/-- `estrdup` copies the text and its terminator; its block is padded, or another follows. -/
def estrdup (query : Terminated) : Terminated :=
  ⟨query.text, [0], query.nulFree, fun _ => List.cons_ne_nil _ _⟩

end Terminated

/-! ## Keywords in any letter case -/

/-- ASCII lower case of one byte. -/
def lower (byte : UInt8) : UInt8 :=
  if ch 'A' ≤ byte ∧ byte ≤ ch 'Z' then byte + 0x20 else byte

/-- What follows a keyword, given in lower case, at the head of a text. -/
def stripKeyword : Bytes → Bytes → Option Bytes
  | [], text => some text
  | _ :: _, [] => none
  | letter :: keyword, byte :: text =>
      if lower byte = letter then stripKeyword keyword text else none

/-- The text is a keyword followed by a text with property `Rest`. -/
def Spelled (keyword : Bytes) (Rest : Bytes → Prop) (text : Bytes) : Prop :=
  ∃ rest, stripKeyword keyword text = some rest ∧ Rest rest

instance (keyword text : Bytes) (Rest : Bytes → Prop) [DecidablePred Rest] :
    Decidable (Spelled keyword Rest text) :=
  inferInstanceAs (Decidable (∃ rest ∈ stripKeyword keyword text, Rest rest))

@[simp]
theorem spelled_nil (Rest : Bytes → Prop) (text : Bytes) :
    Spelled [] Rest text ↔ Rest text := by
  simp [Spelled, stripKeyword]

@[simp]
theorem not_spelled_cons_nil (letter : UInt8) (keyword : Bytes)
    (Rest : Bytes → Prop) : ¬ Spelled (letter :: keyword) Rest [] := by
  simp [Spelled, stripKeyword]

theorem spelled_cons_cons (letter byte : UInt8) (keyword text : Bytes)
    (Rest : Bytes → Prop) :
    Spelled (letter :: keyword) Rest (byte :: text) ↔
      lower byte = letter ∧ Spelled keyword Rest text := by
  by_cases hbyte : lower byte = letter
  · simp [Spelled, stripKeyword, hbyte]
  · simp [Spelled, stripKeyword, hbyte]

/-- The bytes that a lower-case letter stands for in a keyword. -/
theorem lower_eq_iff {letter byte : UInt8} (hletter : ch 'a' ≤ letter ∧ letter ≤ ch 'z') :
    lower byte = letter ↔ byte = letter ∨ byte = letter - 0x20 := by
  unfold lower ch at *
  grind

end PdoCassandra.Foundation.CString
