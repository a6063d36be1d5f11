import PdoCassandra.Driver.CqlParser

/-!
# Where `scan_columnfamily` stops

After `select` and one space every state of the automaton goes on at every byte
but newline, the terminating NUL included.  A query that gets there and has no
further newline sends the cursor into the memory behind it; every other query is
answered from its own bytes.
-/

namespace PdoCassandra.Properties.ScannerBounds

open PdoCassandra.Foundation.CString
open PdoCassandra.Foundation.Scanner
open PdoCassandra.Driver.CqlParser

/-! ## The select-list states -/

/-- The states behind `select` and one space. -/
def inSelectList : ColumnfamilyState → Bool
  | .select | .yy28 | .yy30 | .yy31 | .yy33 | .yy34 | .yy36 | .fro | .from
  | .yy39 => true
  | _ => false

theorem yy29_target {yych : UInt8} (hline : ¬ yych = ch '\n') :
    ∃ after, inSelectList after = true ∧ (yy29 yych).target? = some after := by
  by_cases hblank : yych = ch ' '
  · exact ⟨.yy34, rfl, by simp [yy29, hblank, Move.target?, ch]⟩
  · exact ⟨.yy28, rfl, by simp [yy29, hline, hblank, Move.target?]⟩

/-- Only a newline ends the select list. -/
theorem selectList_region :
    Region columnfamilyMove (fun state => inSelectList state = true)
      (fun yych => yych = ch '\n') where
  looks := by
    intro state yych hinside
    refine columnfamilyMove_ne_drop ?_ yych
    rintro rfl
    cases hinside
  stays := by
    intro state yych hinside hline
    cases state with
    | select =>
        simp only [columnfamilyMove]
        split
        · exact ⟨_, rfl, rfl⟩
        · exact yy29_target hline
    | yy28 => exact yy29_target hline
    | yy30 =>
        simp only [columnfamilyMove]
        split
        · exact yy29_target hline
        · exact ⟨_, rfl, rfl⟩
    | yy31 | yy33 | yy34 | yy36 | fro | «from» | yy39 =>
        simp only [columnfamilyMove, hline, if_false]
        repeat' split
        all_goals exact ⟨_, rfl, rfl⟩
    | _ => cases hinside
  leaves := by
    intro state yych hinside hline
    subst hline
    cases state <;> rfl

/-! ## The way into the select list -/

/-- The query and its terminator do not stop the automaton. -/
def Overruns (state : ColumnfamilyState) (query : Bytes) : Prop :=
  stop? columnfamilyMove state (query ++ [0]) = none

theorem overruns_selectList {state : ColumnfamilyState}
    (hinside : inSelectList state = true) (query : Bytes) :
    Overruns state query ↔ ch '\n' ∉ query := by
  unfold Overruns
  rw [selectList_region.stop?_eq_none_iff hinside]
  constructor
  · intro hall hmem
    exact hall _ (List.mem_append_left _ hmem) rfl
  · rintro hmem yych hin rfl
    rcases List.mem_append.mp hin with hquery | hnul
    · exact hmem hquery
    · exact absurd hnul (by decide)

theorem overruns_cons {state after : ColumnfamilyState} {byte : UInt8}
    (htarget : (columnfamilyMove state byte).target? = some after)
    (query : Bytes) : Overruns state (byte :: query) ↔ Overruns after query := by
  unfold Overruns
  rw [List.cons_append, stop?_cons_of_target htarget]

theorem not_overruns_cons {state : ColumnfamilyState} {byte : UInt8}
    (htarget : (columnfamilyMove state byte).target? = none)
    (query : Bytes) : ¬ Overruns state (byte :: query) := by
  intro hnone
  have hsome := @stop?_cons_of_halt _ _ columnfamilyMove state byte (query ++ [0]) htarget
    fun _ => by simp
  rw [← List.cons_append, hnone] at hsome
  cases hsome

theorem not_overruns_nil {state : ColumnfamilyState} (hentry : state ≠ .entry)
    (htarget : (columnfamilyMove state 0).target? = none) : ¬ Overruns state [] := by
  intro hnone
  have hsome := @stop?_cons_of_halt _ _ columnfamilyMove state 0 [] htarget
    fun hdrop => absurd hdrop (columnfamilyMove_ne_drop hentry 0)
  rw [← List.nil_append [0], hnone] at hsome
  cases hsome

/-- A state that reads one keyword letter, in front of one that reads the rest. -/
theorem overruns_keyword {state : ColumnfamilyState} (after : ColumnfamilyState)
    {letter : UInt8} {keyword : Bytes} (hentry : state ≠ .entry)
    (hletter : ∀ byte, lower byte = letter →
      (columnfamilyMove state byte).target? = some after)
    (hother : ∀ byte, lower byte ≠ letter →
      (columnfamilyMove state byte).target? = none)
    (hnul : lower 0 ≠ letter)
    (hrest : ∀ query, Overruns after query ↔
      Spelled keyword (ch '\n' ∉ ·) query) (query : Bytes) :
    Overruns state query ↔ Spelled (letter :: keyword) (ch '\n' ∉ ·) query := by
  cases query with
  | nil => simpa using not_overruns_nil hentry (hother 0 hnul)
  | cons byte query =>
      rw [spelled_cons_cons]
      by_cases hbyte : lower byte = letter
      · rw [overruns_cons (hletter byte hbyte), hrest query]
        simp [hbyte]
      · simp [not_overruns_cons (hother byte hbyte), hbyte]

/-- The same for a state that tests for the letter in both cases. -/
theorem overruns_letter {state : ColumnfamilyState} (after : ColumnfamilyState)
    {letter : UInt8} {keyword : Bytes} (hentry : state ≠ .entry)
    (hrange : ch 'a' ≤ letter ∧ letter ≤ ch 'z')
    (hmove : ∀ byte, (columnfamilyMove state byte).target? =
      if byte = letter ∨ byte = letter - 0x20 then some after else none)
    (hrest : ∀ query, Overruns after query ↔
      Spelled keyword (ch '\n' ∉ ·) query) (query : Bytes) :
    Overruns state query ↔ Spelled (letter :: keyword) (ch '\n' ∉ ·) query := by
  refine overruns_keyword after hentry (fun byte hbyte => ?_) (fun byte hbyte => ?_) ?_
    hrest query
  · rw [hmove, if_pos ((lower_eq_iff hrange).mp hbyte)]
  · rw [hmove, if_neg (fun h => hbyte ((lower_eq_iff hrange).mpr h))]
  · rintro rfl
    exact absurd hrange.1 (by decide)

theorem overruns_yy26 (query : Bytes) :
    Overruns .yy26 query ↔ Spelled [ch ' '] (ch '\n' ∉ ·) query := by
  refine overruns_keyword .select (by decide) (fun byte hbyte => ?_)
    (fun byte hbyte => ?_) (by decide)
    (fun query => by rw [overruns_selectList rfl, spelled_nil]) query
  · simp only [columnfamilyMove, lower, ch] at hbyte ⊢
    grind [Move.target?]
  · simp only [columnfamilyMove, lower, ch] at hbyte ⊢
    grind [Move.target?]

theorem overruns_yy21 (query : Bytes) :
    Overruns .yy21 query ↔
      Spelled [ch 'l', ch 'e', ch 'c', ch 't', ch ' '] (ch '\n' ∉ ·) query := by
  refine overruns_letter .yy23 (by decide) (by decide) (fun byte => ?_)
    (overruns_letter .yy24 (by decide) (by decide) (fun byte => ?_)
      (overruns_letter .yy25 (by decide) (by decide) (fun byte => ?_)
        (overruns_letter .yy26 (by decide) (by decide) (fun byte => ?_)
          overruns_yy26))) query
  all_goals
    simp only [columnfamilyMove, ch]
    grind [Move.target?]

theorem overruns_yy19 (query : Bytes) :
    Overruns .yy19 query ↔
      Spelled [ch 'e', ch 'l', ch 'e', ch 'c', ch 't', ch ' '] (ch '\n' ∉ ·) query := by
  refine overruns_letter .yy21 (by decide) (by decide) (fun byte => ?_)
    overruns_yy21 query
  simp only [columnfamilyMove, ch]
  grind [Move.target?]

theorem overruns_yy42 (query : Bytes) :
    Overruns .yy42 query ↔
      Spelled [ch 'e', ch 'l', ch 'e', ch 'c', ch 't', ch ' '] (ch '\n' ∉ ·) query := by
  refine overruns_letter .yy21 (by decide) (by decide) (fun byte => ?_)
    overruns_yy21 query
  simp only [columnfamilyMove, ch]
  grind [Move.target?]

/-! ## Leading spaces -/

/-- A query without its leading spaces. -/
def skipBlanks (query : Bytes) : Bytes :=
  query.dropWhile (· = ch ' ')

/--
The query is `select` behind any number of spaces, one more space, and a rest
without newline.
-/
def OpenSelect (query : Bytes) : Prop :=
  Spelled [ch 's', ch 'e', ch 'l', ch 'e', ch 'c', ch 't', ch ' '] (ch '\n' ∉ ·)
    (skipBlanks query)

instance (query : Bytes) : Decidable (OpenSelect query) :=
  inferInstanceAs (Decidable (Spelled _ _ _))

/-- A state that skips spaces, or reads the `s` of `select`. -/
theorem overruns_blank {state blank letter : ColumnfamilyState} {byte : UInt8}
    {query : Bytes}
    (hmove : (columnfamilyMove state byte).target? =
      if byte = ch ' ' then some blank
      else if byte = ch 's' ∨ byte = ch 's' - 0x20 then some letter
      else none)
    (hblank : Overruns blank query ↔ OpenSelect query)
    (hletter : Overruns letter query ↔
      Spelled [ch 'e', ch 'l', ch 'e', ch 'c', ch 't', ch ' '] (ch '\n' ∉ ·) query) :
    Overruns state (byte :: query) ↔ OpenSelect (byte :: query) := by
  by_cases hspace : byte = ch ' '
  · rw [if_pos hspace] at hmove
    rw [overruns_cons hmove, hblank, OpenSelect, OpenSelect, skipBlanks,
      skipBlanks, List.dropWhile_cons_of_pos (by simpa using hspace)]
  · rw [if_neg hspace] at hmove
    rw [OpenSelect, skipBlanks, List.dropWhile_cons_of_neg (by simpa using hspace),
      spelled_cons_cons, lower_eq_iff (by decide)]
    by_cases hs : byte = ch 's' ∨ byte = ch 's' - 0x20
    · rw [if_pos hs] at hmove
      rw [overruns_cons hmove, hletter]
      simp only [hs, true_and]
    · rw [if_neg hs] at hmove
      simp only [not_overruns_cons hmove, hs, false_and]

theorem not_openSelect_nil : ¬ OpenSelect [] :=
  not_spelled_cons_nil _ _ _

theorem overruns_yy43 (query : Bytes) : Overruns .yy43 query ↔ OpenSelect query := by
  induction query with
  | nil => exact iff_of_false (not_overruns_nil (by decide) rfl) not_openSelect_nil
  | cons byte query ih =>
      refine overruns_blank ?_ ih (overruns_yy42 query)
      simp only [columnfamilyMove, ch]
      grind [Move.target?]

theorem overruns_lead (query : Bytes) : Overruns .lead query ↔ OpenSelect query := by
  cases query with
  | nil => exact iff_of_false (not_overruns_nil (by decide) rfl) not_openSelect_nil
  | cons byte query =>
      refine overruns_blank ?_ (overruns_yy43 query) (overruns_yy42 query)
      simp only [columnfamilyMove, ch]
      grind [Move.target?]

theorem overruns_entry {query : Bytes} (hne : query ≠ []) :
    Overruns .entry query ↔ OpenSelect query := by
  obtain ⟨byte, query, rfl⟩ := List.exists_cons_of_ne_nil hne
  refine overruns_blank ?_ (overruns_lead query) (overruns_yy19 query)
  simp only [columnfamilyMove, ch]
  grind [Move.target?]

/-! ## The answer depends on the query alone, or not -/

/--
Whatever follows the terminator, the scanner halts without reading behind it,
and any two memories with this query get the same answer.
-/
def DependsOnlyOnQuery (query : Bytes) : Prop :=
  (∀ after, ∃ result, scanColumnfamily (query ++ 0 :: after) = some result ∧
    result.reads ≤ query.length + 1) ∧
  ∀ after other,
    (scanColumnfamily (query ++ 0 :: after)).map Scan.token =
      (scanColumnfamily (query ++ 0 :: other)).map Scan.token

/-- A query that is not an open `SELECT` is answered from its own bytes. -/
theorem scanColumnfamily_of_not_openSelect {query : Bytes} (hne : query ≠ [])
    (hclosed : ¬ OpenSelect query) :
    ∃ result : Scan, result.reads ≤ query.length + 1 ∧
      ∀ after, scanColumnfamily (query ++ 0 :: after) = some result := by
  cases hstop : stop? columnfamilyMove .entry (query ++ [0]) with
  | none => exact absurd ((overruns_entry hne).mp hstop) hclosed
  | some stop => exact scan_terminated hstop

/-- An open `SELECT` is never answered without a byte behind the terminator. -/
theorem scanColumnfamily_of_openSelect {query after : Bytes} {result : Scan}
    (hne : query ≠ []) (hopen : OpenSelect query)
    (hresult : scanColumnfamily (query ++ 0 :: after) = some result) :
    query.length + 1 < result.reads :=
  scan_overrun ((overruns_entry hne).mpr hopen) hresult

/--
`scan_columnfamily` depends on a query alone exactly when the query is not an
open `SELECT`.
-/
theorem dependsOnlyOnQuery_iff {query : Bytes} (hne : query ≠ []) :
    DependsOnlyOnQuery query ↔ ¬ OpenSelect query := by
  constructor
  · rintro ⟨hbounded, -⟩ hopen
    obtain ⟨result, hresult, hreads⟩ := hbounded []
    have hover := scanColumnfamily_of_openSelect hne hopen hresult
    omega
  · intro hclosed
    obtain ⟨result, hreads, hresult⟩ := scanColumnfamily_of_not_openSelect hne hclosed
    refine ⟨fun after => ⟨result, hresult after, hreads⟩, fun after other => ?_⟩
    rw [hresult after, hresult other]

/-- An `INSERT` is answered from its own bytes. -/
theorem dependsOnlyOnQuery_insert :
    DependsOnlyOnQuery (bytesOf "INSERT INTO t (KEY) VALUES (1)") :=
  (dependsOnlyOnQuery_iff (by decide)).mpr (by decide)

/-- `SELECT a FROM t` is read on into whatever the memory holds behind it. -/
theorem not_dependsOnlyOnQuery_select :
    ¬ DependsOnlyOnQuery (bytesOf "SELECT a FROM t") := by
  rintro ⟨-, hsame⟩
  have hfirst : (scanColumnfamily (bytesOf "SELECT a FROM t" ++
      0 :: bytesOf "\n" ++ [0])).map Scan.token = some (some (bytesOf "t")) := by
    decide
  have hsecond : (scanColumnfamily (bytesOf "SELECT a FROM t" ++
      0 :: bytesOf " from u \n" ++ [0])).map Scan.token = some (some (bytesOf "u")) := by
    decide
  have heq := hsame (bytesOf "\n" ++ [0]) (bytesOf " from u \n" ++ [0])
  simp only [← List.cons_append, ← List.append_assoc] at heq
  rw [hfirst, hsecond] at heq
  exact absurd heq (by decide)

end PdoCassandra.Properties.ScannerBounds
