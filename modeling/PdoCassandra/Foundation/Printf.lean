import PdoCassandra.Foundation.CString

/-!
# Formats

A format is read as the plain bytes and the directives that it is spelled by.  A
directive that is a conversion takes arguments, as many as it has stars and one
more, whether or not they have been passed; what a directive without a meaning
does is left to the formatter.
-/

namespace PdoCassandra.Foundation.Printf

open PdoCassandra.Foundation.CString

/-! ## Directives -/

/-- A width or a precision. -/
inductive Amount where
  | digits (text : Bytes)
  /-- The amount is an argument. -/
  | star
  deriving DecidableEq

namespace Amount

def text : Amount → Bytes
  | .digits text => text
  | .star => [ch '*']

def taken : Amount → Nat
  | .digits _ => 0
  | .star => 1

end Amount

/-- What follows a percent sign; `conversion` is missing at the end of the format. -/
structure Directive where
  flags : Bytes
  width : Amount
  precision : Option Amount
  length : Bytes
  conversion : Option UInt8
  deriving DecidableEq

def isFlag (byte : UInt8) : Bool :=
  (bytesOf "-+ #0").contains byte

def isDigit (byte : UInt8) : Bool :=
  (bytesOf "0123456789").contains byte

def isLength (byte : UInt8) : Bool :=
  (bytesOf "hljztL").contains byte

/-- The length modifiers with a meaning. -/
def lengths : List Bytes :=
  ["", "hh", "h", "l", "ll", "j", "z", "t", "L"].map bytesOf

def isConversion (byte : UInt8) : Bool :=
  (bytesOf "diouxXfFeEgGaAcspn").contains byte

namespace Directive

def text (directive : Directive) : Bytes :=
  ch '%' :: (directive.flags ++ directive.width.text ++
    directive.precision.elim [] (fun amount => ch '.' :: amount.text) ++
    directive.length ++ directive.conversion.toList)

/-- The complete directive is `%%`. -/
def isPercent (directive : Directive) : Bool :=
  directive = ⟨[], .digits [], none, [], some (ch '%')⟩

def converts (directive : Directive) : Bool :=
  lengths.contains directive.length && directive.conversion.any isConversion

/-- The number of arguments that a conversion takes. -/
def count (directive : Directive) : Nat :=
  directive.width.taken + directive.precision.elim 0 Amount.taken + 1

theorem isPercent_of_converts {directive : Directive}
    (hconverts : directive.converts = true) : directive.isPercent = false := by
  cases hpercent : directive.isPercent with
  | false => rfl
  | true =>
      obtain rfl := of_decide_eq_true hpercent
      exact absurd hconverts (by decide)

end Directive

/-! ## Reading a format -/

/-- An amount at the head of a text, and what follows it. -/
def takeAmount (text : Bytes) : Amount × Bytes :=
  if text.head? = some (ch '*') then (.star, text.tail)
  else (.digits (text.takeWhile isDigit), text.dropWhile isDigit)

def takePrecision (text : Bytes) : Option Amount × Bytes :=
  if text.head? = some (ch '.') then
    let (amount, rest) := takeAmount text.tail
    (some amount, rest)
  else (none, text)

/-- The directive that a percent sign begins, and what follows it. -/
def takeDirective (text : Bytes) : Directive × Bytes :=
  let flags := text.takeWhile isFlag
  let (width, rest) := takeAmount (text.dropWhile isFlag)
  let (precision, rest) := takePrecision rest
  let length := rest.takeWhile isLength
  let rest := rest.dropWhile isLength
  (⟨flags, width, precision, length, rest.head?⟩, rest.tail)

inductive Piece where
  | plain (byte : UInt8) (hplain : byte ≠ ch '%')
  | directive (spec : Directive)

def Piece.text : Piece → Bytes
  | .plain byte _ => [byte]
  | .directive spec => spec.text

/-- The pieces of a text that is no longer than the fuel. -/
def pieces : Nat → Bytes → List Piece
  | 0, _ => []
  | _ + 1, [] => []
  | fuel + 1, byte :: text =>
      if hbyte : byte = ch '%' then
        let (directive, rest) := takeDirective text
        .directive directive :: pieces fuel rest
      else .plain byte hbyte :: pieces fuel text

def parse (text : Bytes) : List Piece :=
  pieces text.length text

theorem head?_append_tail (text : Bytes) : text.head?.toList ++ text.tail = text := by
  cases text with
  | nil => rfl
  | cons byte text => rfl

theorem cons_tail {text : Bytes} {byte : UInt8} (hhead : text.head? = some byte) :
    byte :: text.tail = text := by
  cases text with
  | nil => cases hhead
  | cons first text =>
      cases hhead
      rfl

theorem takeAmount_text (text : Bytes) :
    (takeAmount text).1.text ++ (takeAmount text).2 = text := by
  unfold takeAmount
  split
  · rename_i hstar
    exact cons_tail hstar
  · exact List.takeWhile_append_dropWhile

theorem takePrecision_text (text : Bytes) :
    (takePrecision text).1.elim [] (fun amount => ch '.' :: amount.text) ++
      (takePrecision text).2 = text := by
  unfold takePrecision
  split
  · rename_i hpoint
    simp only [Option.elim_some, List.cons_append, takeAmount_text]
    exact cons_tail hpoint
  · rfl

/-- A directive is spelled by the bytes that are read for it. -/
theorem takeDirective_text (text : Bytes) :
    (takeDirective text).1.text ++ (takeDirective text).2 = ch '%' :: text := by
  have hwidth := takeAmount_text (text.dropWhile isFlag)
  have hprecision := takePrecision_text (takeAmount (text.dropWhile isFlag)).2
  simp only [takeDirective, Directive.text, List.cons_append, List.append_assoc,
    head?_append_tail, List.takeWhile_append_dropWhile, hprecision, hwidth]

/-- The pieces spell the format. -/
theorem pieces_text {fuel : Nat} {text : Bytes} (hfuel : text.length ≤ fuel) :
    (pieces fuel text).flatMap Piece.text = text := by
  induction fuel generalizing text with
  | zero =>
      rw [List.eq_nil_of_length_eq_zero (Nat.le_zero.mp hfuel)]
      rfl
  | succ fuel ih =>
      cases text with
      | nil => rfl
      | cons byte text =>
          rw [List.length_cons] at hfuel
          unfold pieces
          split
          · rename_i hpercent
            have htext := takeDirective_text text
            have hlength : (takeDirective text).2.length ≤ fuel := by
              have hsum := congrArg List.length htext
              simp only [Directive.text, List.cons_append, List.length_cons,
                List.length_append] at hsum
              omega
            rw [List.flatMap_cons, ih hlength, hpercent]
            exact htext
          · rw [List.flatMap_cons, ih (by omega)]
            rfl

theorem parse_text (text : Bytes) : (parse text).flatMap Piece.text = text :=
  pieces_text (Nat.le_refl text.length)

/-- The percent signs of a format stand in its directives. -/
theorem exists_directive {text : Bytes} (hpercent : ch '%' ∈ text) :
    ∃ directive, .directive directive ∈ parse text := by
  rw [← parse_text text, List.mem_flatMap] at hpercent
  obtain ⟨piece, hpiece, hmem⟩ := hpercent
  cases piece with
  | plain byte hplain => exact absurd (List.mem_singleton.mp hmem).symm hplain
  | directive directive => exact ⟨directive, hpiece⟩

theorem percent_mem_of_directive {text : Bytes} {directive : Directive}
    (hpiece : .directive directive ∈ parse text) : ch '%' ∈ text := by
  rw [← parse_text text, List.mem_flatMap]
  exact ⟨.directive directive, hpiece, List.mem_cons_self⟩

/-! ## Printing -/

/-- The bytes that are printed, and the number of arguments taken for them. -/
structure Printed where
  text : Bytes
  taken : Nat
  deriving DecidableEq

section

variable {Arg : Type}

/-- What conversions print for their arguments. -/
abbrev Convert (Arg : Type) := Directive → List Arg → Bytes

/-- What becomes of a directive without a meaning. -/
abbrev Undefined (Arg : Type) := Directive → (Nat → Arg) → Printed

variable (convert : Convert Arg) (undefined : Undefined Arg)

def Directive.print (args : Nat → Arg) (directive : Directive) : Printed :=
  if directive.isPercent then ⟨[ch '%'], 0⟩
  else if directive.converts then
    ⟨convert directive ((List.range directive.count).map args), directive.count⟩
  else undefined directive args

def print : (Nat → Arg) → List Piece → Printed
  | _, [] => ⟨[], 0⟩
  | args, .plain byte _ :: rest =>
      let printed := print args rest
      ⟨byte :: printed.text, printed.taken⟩
  | args, .directive spec :: rest =>
      let first := spec.print convert undefined args
      let printed := print (fun i => args (first.taken + i)) rest
      ⟨first.text ++ printed.text, first.taken + printed.taken⟩

/-- The arguments passed stand first in `args`, before what happens to follow them. -/
def format (args : Nat → Arg) (text : Bytes) : Printed :=
  print convert undefined args (parse text)

theorem print_plain (args : Nat → Arg) {parts : List Piece}
    (hplain : ∀ spec, .directive spec ∉ parts) :
    print convert undefined args parts = ⟨parts.flatMap Piece.text, 0⟩ := by
  induction parts with
  | nil => rfl
  | cons part parts ih =>
      have hrest : ∀ spec, .directive spec ∉ parts :=
        fun spec hmem => hplain spec (List.mem_cons_of_mem part hmem)
      cases part with
      | plain byte hbyte =>
          rw [print, ih hrest]
          rfl
      | directive spec => exact absurd List.mem_cons_self (hplain spec)

/-- A conversion takes an argument. -/
theorem taken_pos {spec : Directive} (hconverts : spec.converts = true)
    {parts : List Piece} (hmem : .directive spec ∈ parts) (args : Nat → Arg) :
    0 < (print convert undefined args parts).taken := by
  induction parts generalizing args with
  | nil => cases hmem
  | cons part parts ih =>
      rcases List.mem_cons.mp hmem with rfl | hrest
      · have hcount : (spec.print convert undefined args).taken = spec.count := by
          rw [Directive.print, Directive.isPercent_of_converts hconverts, hconverts]
          rfl
        have hpos : 0 < spec.count := Nat.succ_pos _
        rw [print, hcount]
        exact Nat.lt_of_lt_of_le hpos (Nat.le_add_right _ _)
      · cases part with
        | plain byte hbyte => exact ih hrest args
        | directive first =>
            have hpos := ih hrest fun i =>
              args ((first.print convert undefined args).taken + i)
            rw [print]
            exact Nat.lt_of_lt_of_le hpos (Nat.le_add_left _ _)

/-- Nothing comes of a directive without a meaning. -/
def silent : Undefined Arg :=
  fun _ _ => ⟨[], 0⟩

/-- A directive that is no conversion is spelled longer than it is printed. -/
theorem print_silent_length_lt {spec : Directive} (hconverts : spec.converts = false)
    (args : Nat → Arg) :
    (spec.print convert silent args).text.length < spec.text.length := by
  unfold Directive.print
  split
  · rename_i hpercent
    obtain rfl := of_decide_eq_true hpercent
    decide
  · rw [hconverts]
    exact Nat.zero_lt_succ _

theorem silent_length_le (args : Nat → Arg) {parts : List Piece}
    (hconverts : ∀ spec, .directive spec ∈ parts → spec.converts = false) :
    (print convert silent args parts).text.length ≤ (parts.flatMap Piece.text).length := by
  induction parts generalizing args with
  | nil => exact Nat.le_refl 0
  | cons part parts ih =>
      have hrest : ∀ spec, .directive spec ∈ parts → spec.converts = false :=
        fun spec hmem => hconverts spec (List.mem_cons_of_mem part hmem)
      rw [List.flatMap_cons, List.length_append]
      cases part with
      | plain byte hbyte =>
          rw [print, List.length_cons, Nat.add_comm]
          exact Nat.add_le_add_left (ih args hrest) 1
      | directive spec =>
          rw [print, List.length_append]
          exact Nat.add_le_add
            (Nat.le_of_lt (print_silent_length_lt convert
              (hconverts spec List.mem_cons_self) args)) (ih _ hrest)

theorem silent_length_lt (args : Nat → Arg) {parts : List Piece}
    (hconverts : ∀ spec, .directive spec ∈ parts → spec.converts = false)
    {spec : Directive} (hmem : .directive spec ∈ parts) :
    (print convert silent args parts).text.length < (parts.flatMap Piece.text).length := by
  induction parts generalizing args with
  | nil => cases hmem
  | cons part parts ih =>
      have hrest : ∀ spec, .directive spec ∈ parts → spec.converts = false :=
        fun spec hmem => hconverts spec (List.mem_cons_of_mem part hmem)
      rw [List.flatMap_cons, List.length_append]
      rcases List.mem_cons.mp hmem with rfl | hlater
      · rw [print, List.length_append]
        exact Nat.add_lt_add_of_lt_of_le
          (print_silent_length_lt convert (hconverts spec List.mem_cons_self) args)
          (silent_length_le convert _ hrest)
      · cases part with
        | plain byte hbyte =>
            rw [print, List.length_cons, Nat.add_comm]
            exact Nat.add_lt_add_left (ih args hrest hlater) 1
        | directive first =>
            rw [print, List.length_append]
            exact Nat.add_lt_add
              (print_silent_length_lt convert (hconverts first List.mem_cons_self) args)
              (ih _ hrest hlater)

/--
A format prints as itself and takes nothing, whatever becomes of directives without
a meaning, exactly when it holds no percent sign.
-/
theorem format_eq_self_iff (args : Nat → Arg) (text : Bytes) :
    (∀ undefined, format convert undefined args text = ⟨text, 0⟩) ↔ ch '%' ∉ text := by
  constructor
  · intro hself hpercent
    obtain ⟨spec, hmem⟩ := exists_directive hpercent
    have hprinted : print convert silent args (parse text) = ⟨text, 0⟩ := hself silent
    by_cases hany : ∃ spec, .directive spec ∈ parse text ∧ spec.converts = true
    · obtain ⟨converting, hconverting, htrue⟩ := hany
      have htaken := taken_pos convert silent htrue hconverting args
      rw [hprinted] at htaken
      exact Nat.lt_irrefl 0 htaken
    · have hconverts : ∀ spec, .directive spec ∈ parse text → spec.converts = false :=
        fun spec hspec => Bool.eq_false_iff.mpr fun htrue => hany ⟨spec, hspec, htrue⟩
      have hshort := silent_length_lt convert args hconverts hmem
      rw [parse_text, hprinted] at hshort
      exact Nat.lt_irrefl _ hshort
  · intro hfree undefined
    have hplain : ∀ spec, .directive spec ∉ parse text :=
      fun spec hmem => hfree (percent_mem_of_directive hmem)
    rw [format, print_plain convert undefined args hplain, parse_text]

end

end PdoCassandra.Foundation.Printf
