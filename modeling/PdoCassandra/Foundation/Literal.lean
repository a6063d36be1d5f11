import Mathlib.Logic.Function.Basic

/-!
# Literals with a doubled delimiter

A literal is enclosed in two delimiters; inside, a delimiter is written twice.
`collapse` reads the inside of a literal, `lexBody` reads on from the opening
delimiter to the one that closes it.
-/

namespace PdoCassandra.Foundation.Literal

variable {Symbol : Type} [DecidableEq Symbol] (quote : Symbol)

/-- Each delimiter of a text written twice. -/
def escape : List Symbol → List Symbol
  | [] => []
  | symbol :: text =>
      if symbol = quote then quote :: quote :: escape text else symbol :: escape text

/-- The text that the inside of a literal stands for. -/
def collapse : List Symbol → Option (List Symbol)
  | [] => some []
  | [symbol] => if symbol = quote then none else some [symbol]
  | symbol :: next :: body =>
      if symbol = quote then
        if next = quote then (collapse body).map (quote :: ·) else none
      else (collapse (next :: body)).map (symbol :: ·)

/-- The text of the literal that is open, and what follows its end. -/
def lexBody : List Symbol → Option (List Symbol × List Symbol)
  | [] => none
  | [symbol] => if symbol = quote then some ([], []) else none
  | symbol :: next :: input =>
      if symbol = quote then
        if next = quote then (lexBody input).map (Prod.map (quote :: ·) id)
        else some ([], next :: input)
      else (lexBody (next :: input)).map (Prod.map (symbol :: ·) id)

/-- A literal at the head of the input. -/
def lexLiteral : List Symbol → Option (List Symbol × List Symbol)
  | [] => none
  | symbol :: input => if symbol = quote then lexBody quote input else none

/-- A text is exactly one literal, and it stands for `value`. -/
def IsLiteral (text value : List Symbol) : Prop :=
  ∃ body, text = quote :: (body ++ [quote]) ∧ collapse quote body = some value

variable {quote}

/-! ## Reading one symbol -/

theorem collapse_cons {symbol : Symbol} (hsymbol : symbol ≠ quote) (body : List Symbol) :
    collapse quote (symbol :: body) = (collapse quote body).map (symbol :: ·) := by
  cases body with
  | nil => simp [collapse, hsymbol]
  | cons next body => rw [collapse, if_neg hsymbol]

theorem collapse_pair (body : List Symbol) :
    collapse quote (quote :: quote :: body) = (collapse quote body).map (quote :: ·) := by
  rw [collapse, if_pos rfl, if_pos rfl]

theorem lexBody_cons {symbol : Symbol} (hsymbol : symbol ≠ quote) (input : List Symbol) :
    lexBody quote (symbol :: input) =
      (lexBody quote input).map (Prod.map (symbol :: ·) id) := by
  cases input with
  | nil => simp [lexBody, hsymbol]
  | cons next input => rw [lexBody, if_neg hsymbol]

theorem lexBody_pair (input : List Symbol) :
    lexBody quote (quote :: quote :: input) =
      (lexBody quote input).map (Prod.map (quote :: ·) id) := by
  rw [lexBody, if_pos rfl, if_pos rfl]

/-- The closing delimiter. -/
theorem lexBody_close {rest : List Symbol} (hrest : rest.head? ≠ some quote) :
    lexBody quote (quote :: rest) = some ([], rest) := by
  cases rest with
  | nil => rw [lexBody, if_pos rfl]
  | cons next rest =>
      have hnext : next ≠ quote := by simpa using hrest
      rw [lexBody, if_pos rfl, if_neg hnext]

/-! ## Escaped texts -/

theorem collapse_escape (value : List Symbol) :
    collapse quote (escape quote value) = some value := by
  induction value with
  | nil => rfl
  | cons symbol value ih =>
      by_cases hquote : symbol = quote
      · rw [escape, if_pos hquote, collapse_pair, ih, hquote, Option.map_some]
      · rw [escape, if_neg hquote, collapse_cons hquote, ih, Option.map_some]

/-- The inside of a literal is what it stands for, escaped. -/
theorem collapse_eq_some_iff {body value : List Symbol} :
    collapse quote body = some value ↔ body = escape quote value := by
  constructor
  · intro hcollapse
    fun_induction collapse quote body generalizing value with
    | case1 =>
        cases hcollapse
        rfl
    | case2 => cases hcollapse
    | case3 symbol hsymbol =>
        cases hcollapse
        simp [escape, hsymbol]
    | case4 body ih =>
        obtain ⟨inner, hinner, rfl⟩ := Option.map_eq_some_iff.mp hcollapse
        simp [escape, ih hinner]
    | case5 => cases hcollapse
    | case6 symbol next body hsymbol ih =>
        obtain ⟨inner, hinner, rfl⟩ := Option.map_eq_some_iff.mp hcollapse
        rw [escape, if_neg hsymbol, ← ih hinner]
  · rintro rfl
    exact collapse_escape value

theorem escape_length (value : List Symbol) :
    (escape quote value).length = value.length + value.count quote := by
  induction value with
  | nil => rfl
  | cons symbol value ih =>
      by_cases hquote : symbol = quote
      · simp [escape, hquote, ih]
        omega
      · simp [escape, hquote, ih]
        omega

theorem escape_of_not_mem {value : List Symbol} (hfree : quote ∉ value) :
    escape quote value = value := by
  induction value with
  | nil => rfl
  | cons symbol value ih =>
      simp only [List.mem_cons, not_or] at hfree
      rw [escape, if_neg (fun heq => hfree.1 heq.symm), ih hfree.2]

/-- A lexer ends a literal at its closing delimiter, unless one more follows. -/
theorem lexBody_escape {rest : List Symbol} (hrest : rest.head? ≠ some quote)
    (value : List Symbol) :
    lexBody quote (escape quote value ++ quote :: rest) = some (value, rest) := by
  induction value with
  | nil => exact lexBody_close hrest
  | cons symbol value ih =>
      by_cases hquote : symbol = quote
      · rw [escape, if_pos hquote, List.cons_append, List.cons_append, lexBody_pair, ih,
          hquote]
        rfl
      · rw [escape, if_neg hquote, List.cons_append, lexBody_cons hquote, ih]
        rfl

/-! ## Literals -/

/-- A text is a literal for `value` when it is `value` escaped and enclosed. -/
theorem isLiteral_enclosed_iff {body value : List Symbol} :
    IsLiteral quote (quote :: (body ++ [quote])) value ↔ body = escape quote value := by
  rw [← collapse_eq_some_iff]
  constructor
  · rintro ⟨inside, hsame, hcollapse⟩
    have hinside : body = inside := by simpa using hsame
    rw [hinside]
    exact hcollapse
  · intro hcollapse
    exact ⟨body, rfl, hcollapse⟩

theorem IsLiteral.lex {text value rest : List Symbol} (hliteral : IsLiteral quote text value)
    (hrest : rest.head? ≠ some quote) :
    lexLiteral quote (text ++ rest) = some (value, rest) := by
  obtain ⟨body, rfl, hcollapse⟩ := hliteral
  rw [collapse_eq_some_iff.mp hcollapse, List.cons_append, lexLiteral, if_pos rfl,
    List.append_assoc, List.singleton_append]
  exact lexBody_escape hrest value

end PdoCassandra.Foundation.Literal
