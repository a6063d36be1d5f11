import PdoCassandra.Foundation.Scanner

/-!
# The query scanners of `cassandra_cql_parser.c`

The committed automata, one transition table each.  A state is a place of the
generated code at which `yych` has just been loaded; it carries the label of
that place, and the places without a label are named after what they follow.
Both scanners are given the memory at the query's first byte.
-/

namespace PdoCassandra.Driver.CqlParser

open PdoCassandra.Foundation.CString
open PdoCassandra.Foundation.Scanner

/-! ## `tokendup` -/

/-- The counting loop: `len` at the first space or NUL. -/
def tokenLength : Bytes → Option Nat
  | [] => none
  | byte :: str =>
      if byte = 0 then some 0
      else if byte = ch ' ' then some 0
      else (tokenLength str).map (· + 1)

/-- The copied token: `NULL` when it would be empty. -/
def tokendup (str : Bytes) : Option (Option Bytes) :=
  (tokenLength str).map fun len =>
    if len > 0 then some (str.take len) else none

/-! ## What a scanner hands back -/

structure Scan where
  /-- The returned string, or `none` for `NULL`. -/
  token : Option Bytes
  /-- How many bytes of the memory it was given had to be readable. -/
  reads : Nat
  deriving DecidableEq

/-- Offset of a later position of `memory`, given the memory there. -/
def offset (memory rest : Bytes) : Nat :=
  memory.length - rest.length

/-- The action of the rule that matched, or `return (char*) 0`. -/
def answer (memory : Bytes) (halt : Halt UInt8) : Option Scan :=
  match halt.accepted with
  | none => some ⟨none, offset memory halt.stop + 1⟩
  | some rest =>
      (tokenLength rest).bind fun len =>
        (tokendup rest).map fun token =>
          ⟨token, max (offset memory halt.stop + 1) (offset memory rest + len + 1)⟩

/-! ## `scan_keyspace` -/

inductive KeyspaceState where
  | entry
  /-- After one leading space. -/
  | lead
  | yy4 | yy6 | yy8 | yy9 | yy12 | yy13
  deriving DecidableEq

def keyspaceMove : KeyspaceState → UInt8 → Move KeyspaceState
  | .entry, yych =>
      if yych ≤ ch 'T' then
        if yych ≠ ch ' ' then .drop
        else .mark .lead 0
      else if yych ≤ ch 'U' then .mark .yy4 0
      else if yych = ch 'u' then .mark .yy4 0
      else .drop
  | .lead, yych =>
      if yych ≤ ch 'T' then
        if yych = ch ' ' then .shift .yy13
        else .reject
      else if yych ≤ ch 'U' then .shift .yy12
      else if yych = ch 'u' then .shift .yy12
      else .reject
  | .yy4, yych =>
      if yych = ch 'S' then .shift .yy6
      else if yych = ch 's' then .shift .yy6
      else .reject
  | .yy6, yych =>
      if yych = ch 'E' then .shift .yy8
      else if yych = ch 'e' then .shift .yy8
      else .restore
  | .yy8, yych =>
      if yych ≠ ch ' ' then .restore
      else .shift .yy9
  | .yy9, yych =>
      if yych = ch ' ' then .shift .yy9
      else .accept
  | .yy12, yych =>
      if yych = ch 'S' then .shift .yy6
      else if yych = ch 's' then .shift .yy6
      else .restore
  | .yy13, yych =>
      if yych ≤ ch 'T' then
        if yych = ch ' ' then .shift .yy13
        else .restore
      else if yych ≤ ch 'U' then .shift .yy12
      else if yych = ch 'u' then .shift .yy12
      else .restore

/-- `none` when the scanner reads past what is mapped. -/
def scanKeyspace (cql : Bytes) : Option Scan :=
  (scan keyspaceMove .entry 0 [] cql).bind (answer cql)

/-! ## `scan_columnfamily` -/

inductive ColumnfamilyState where
  | entry
  /-- After one leading space. -/
  | lead
  | yy19 | yy21 | yy23 | yy24 | yy25 | yy26
  /-- After `select` and one space. -/
  | select
  /-- `yy29` decides on the byte that `yy28` loads. -/
  | yy28
  | yy30 | yy31 | yy33 | yy34 | yy36
  /-- After ` fro`. -/
  | fro
  /-- After ` from`. -/
  | from
  | yy39 | yy42 | yy43
  deriving DecidableEq

/-- The decision at label `yy29`. -/
def yy29 (yych : UInt8) : Move ColumnfamilyState :=
  if yych = ch '\n' then .restore
  else if yych = ch ' ' then .shift .yy34
  else .shift .yy28

def columnfamilyMove : ColumnfamilyState → UInt8 → Move ColumnfamilyState
  | .entry, yych =>
      if yych ≤ ch 'R' then
        if yych ≠ ch ' ' then .drop
        else .mark .lead 0
      else if yych ≤ ch 'S' then .mark .yy19 0
      else if yych = ch 's' then .mark .yy19 0
      else .drop
  | .lead, yych =>
      if yych ≤ ch 'R' then
        if yych = ch ' ' then .shift .yy43
        else .reject
      else if yych ≤ ch 'S' then .shift .yy42
      else if yych = ch 's' then .shift .yy42
      else .reject
  | .yy19, yych =>
      if yych = ch 'E' then .shift .yy21
      else if yych = ch 'e' then .shift .yy21
      else .reject
  | .yy21, yych =>
      if yych = ch 'L' then .shift .yy23
      else if yych = ch 'l' then .shift .yy23
      else .restore
  | .yy23, yych =>
      if yych = ch 'E' then .shift .yy24
      else if yych ≠ ch 'e' then .restore
      else .shift .yy24
  | .yy24, yych =>
      if yych = ch 'C' then .shift .yy25
      else if yych ≠ ch 'c' then .restore
      else .shift .yy25
  | .yy25, yych =>
      if yych = ch 'T' then .shift .yy26
      else if yych ≠ ch 't' then .restore
      else .shift .yy26
  | .yy26, yych =>
      if yych ≠ ch ' ' then .restore
      else .shift .select
  | .select, yych =>
      if yych = ch ' ' then .shift .yy30
      else yy29 yych
  | .yy28, yych => yy29 yych
  | .yy30, yych =>
      if yych ≠ ch ' ' then yy29 yych
      else .shift .yy31
  | .yy31, yych =>
      if yych ≤ ch ' ' then
        if yych = ch '\n' then .restore
        else if yych ≤ 0x1F then .shift .yy28
        else .shift .yy31
      else if yych ≤ ch 'F' then
        if yych ≤ ch 'E' then .shift .yy28
        else .shift .yy33
      else if yych ≠ ch 'f' then .shift .yy28
      else .shift .yy33
  | .yy33, yych =>
      if yych ≤ ch ' ' then
        if yych = ch '\n' then .restore
        else if yych ≤ 0x1F then .shift .yy28
        -- a space falls through to label yy34
        else .shift .yy34
      else if yych ≤ ch 'R' then
        if yych ≤ ch 'Q' then .shift .yy28
        else .shift .yy36
      else if yych = ch 'r' then .shift .yy36
      else .shift .yy28
  | .yy34, yych =>
      if yych ≤ ch ' ' then
        if yych = ch '\n' then .restore
        else if yych ≤ 0x1F then .shift .yy28
        else .shift .yy34
      else if yych ≤ ch 'F' then
        if yych ≤ ch 'E' then .shift .yy28
        else .shift .yy33
      else if yych = ch 'f' then .shift .yy33
      else .shift .yy28
  | .yy36, yych =>
      if yych ≤ ch ' ' then
        if yych = ch '\n' then .restore
        else if yych ≤ 0x1F then .shift .yy28
        else .shift .yy34
      else if yych ≤ ch 'O' then
        if yych ≤ ch 'N' then .shift .yy28
        else .shift .fro
      else if yych ≠ ch 'o' then .shift .yy28
      else .shift .fro
  | .fro, yych =>
      if yych ≤ ch ' ' then
        if yych = ch '\n' then .restore
        else if yych ≤ 0x1F then .shift .yy28
        else .shift .yy34
      else if yych ≤ ch 'M' then
        if yych ≤ ch 'L' then .shift .yy28
        else .shift .from
      else if yych ≠ ch 'm' then .shift .yy28
      else .shift .from
  | .from, yych =>
      if yych = ch '\n' then .restore
      else if yych ≠ ch ' ' then .shift .yy28
      else .mark .yy39 1
  | .yy39, yych =>
      if yych ≤ ch ' ' then
        if yych = ch '\n' then .accept
        else if yych ≤ 0x1F then .shift .yy28
        else .mark .yy39 1
      else if yych ≤ ch 'F' then
        if yych ≤ ch 'E' then .shift .yy28
        else .shift .yy33
      else if yych = ch 'f' then .shift .yy33
      else .shift .yy28
  | .yy42, yych =>
      if yych = ch 'E' then .shift .yy21
      else if yych = ch 'e' then .shift .yy21
      else .restore
  | .yy43, yych =>
      if yych ≤ ch 'R' then
        if yych = ch ' ' then .shift .yy43
        else .restore
      else if yych ≤ ch 'S' then .shift .yy42
      else if yych = ch 's' then .shift .yy42
      else .restore

/-- `none` when the scanner reads past what is mapped. -/
def scanColumnfamily (cql : Bytes) : Option Scan :=
  (scan columnfamilyMove .entry 0 [] cql).bind (answer cql)

example : scanColumnfamily (bytesOf "SELECT a FROM t\n" ++ [0]) =
    some ⟨some (bytesOf "t\n"), 17⟩ := by decide

/-! ## Scanning a terminated query -/

theorem tokenLength_append {str : Bytes} {len : Nat}
    (hlen : tokenLength str = some len) (rest : Bytes) :
    tokenLength (str ++ rest) = some len := by
  induction str generalizing len with
  | nil => simp [tokenLength] at hlen
  | cons byte str ih =>
      rw [List.cons_append]
      simp only [tokenLength] at hlen ⊢
      split at hlen
      · simp_all
      · split at hlen
        · simp_all
        · obtain ⟨inner, hinner, heq⟩ := Option.map_eq_some_iff.mp hlen
          simp_all

/-- A memory with a NUL ends the counting loop before it is left. -/
theorem tokenLength_of_nul {str : Bytes} (hnul : 0 ∈ str) :
    ∃ len, tokenLength str = some len ∧ len < str.length := by
  induction str with
  | nil => cases hnul
  | cons byte str ih =>
      simp only [tokenLength, List.length_cons]
      split
      · exact ⟨0, rfl, Nat.succ_pos _⟩
      · rename_i hbyte
        split
        · exact ⟨0, rfl, Nat.succ_pos _⟩
        · rcases List.mem_cons.mp hnul with hzero | hrest
          · exact absurd hzero.symm hbyte
          · obtain ⟨len, hlen, hlt⟩ := ih hrest
            exact ⟨len + 1, by rw [hlen]; rfl, Nat.succ_lt_succ hlt⟩

theorem tokendup_append {str : Bytes} (hnul : 0 ∈ str) (rest : Bytes) :
    tokendup (str ++ rest) = tokendup str := by
  obtain ⟨len, hlen, hlt⟩ := tokenLength_of_nul hnul
  simp only [tokendup, tokenLength_append hlen, hlen, Option.map_some,
    List.take_append_of_le_length (Nat.le_of_lt hlt)]

theorem offset_append (memory stop rest : Bytes) :
    offset (memory ++ rest) (stop ++ rest) = offset memory stop := by
  simp only [offset, List.length_append]
  omega

/-- The answer is settled by the bytes up to a NUL behind the accepting cursor. -/
theorem answer_extend {memory : Bytes} {halt : Halt UInt8}
    (hnul : ∀ accepted, halt.accepted = some accepted → 0 ∈ accepted)
    (rest : Bytes) :
    answer (memory ++ rest) (halt.extend rest) = answer memory halt := by
  obtain ⟨accepted, stop⟩ := halt
  cases accepted with
  | none => simp [answer, Halt.extend, offset_append]
  | some accepted =>
      have hmem := hnul accepted rfl
      obtain ⟨len, hlen, hlt⟩ := tokenLength_of_nul hmem
      simp [answer, Halt.extend, offset_append, tokendup_append hmem, hlen,
        tokenLength_append hlen]

section Terminated

variable {State : Type} {move : State → UInt8 → Move State} {entry : State}
  {query : Bytes}

/-- A nonempty suffix of a terminated text holds its terminator. -/
theorem nul_mem_of_suffix {suffix : Bytes} (hne : suffix ≠ [])
    (hsuffix : suffix <:+ query ++ [0]) : 0 ∈ suffix := by
  rcases List.suffix_concat_iff.mp hsuffix with hnil | ⟨front, rfl, -⟩
  · exact absurd hnil hne
  · simp

/--
An automaton that halts on a query and its terminator gives one answer, for
whatever follows the terminator.
-/
theorem scan_terminated {stop : Bytes}
    (hstop : stop? move entry (query ++ [0]) = some stop) :
    ∃ result : Scan,
      result.reads ≤ query.length + 1 ∧
      ∀ after : Bytes,
        (scan move entry 0 [] (query ++ 0 :: after)).bind
          (answer (query ++ 0 :: after)) = some result := by
  obtain ⟨halt, hscan, hhalt⟩ := Option.map_eq_some_iff.mp hstop
  have haccepted : ∀ accepted, halt.accepted = some accepted →
      accepted <:+ query ++ [0] ∧ 0 ∈ accepted := by
    intro accepted heq
    obtain ⟨hne, hsuffix | hmarker⟩ := scan_accepted (by simp) hscan heq
    · exact ⟨hsuffix, nul_mem_of_suffix hne hsuffix⟩
    · exact absurd rfl hmarker.1
  have hextend (after : Bytes) :
      (scan move entry 0 [] (query ++ 0 :: after)).bind
        (answer (query ++ 0 :: after)) = answer (query ++ [0]) halt := by
    have hlong := scan_append hscan after
    rw [List.append_assoc, List.singleton_append, scan_marker _ _ []] at hlong
    have hsame : answer (query ++ [0] ++ after) (halt.extend after) =
        answer (query ++ [0]) halt :=
      answer_extend (fun accepted heq => (haccepted accepted heq).2) after
    rw [List.append_assoc, List.singleton_append] at hsame
    rw [hlong, Option.bind_some, hsame]
  have hread : offset (query ++ [0]) halt.stop + 1 ≤ query.length + 1 := by
    have hpos := List.length_pos_iff.mpr (stop?_ne_nil hstop)
    rw [hhalt, offset, List.length_append, List.length_singleton]
    omega
  cases heq : halt.accepted with
  | none =>
      refine ⟨⟨none, offset (query ++ [0]) halt.stop + 1⟩, hread, fun after => ?_⟩
      rw [hextend after, answer, heq]
  | some accepted =>
      obtain ⟨hsuffix, hmem⟩ := haccepted accepted heq
      obtain ⟨len, hlen, hlt⟩ := tokenLength_of_nul hmem
      have htoken : offset (query ++ [0]) accepted + len + 1 ≤ query.length + 1 := by
        have hle := hsuffix.length_le
        simp only [offset, List.length_append, List.length_singleton] at hle ⊢
        omega
      refine ⟨⟨if len > 0 then some (accepted.take len) else none,
        max (offset (query ++ [0]) halt.stop + 1)
          (offset (query ++ [0]) accepted + len + 1)⟩,
        Nat.max_le.mpr ⟨hread, htoken⟩, fun after => ?_⟩
      rw [hextend after, answer, heq]
      simp [hlen, tokendup]

/-- An automaton that leaves a terminated query loads a byte behind it, or faults. -/
theorem scan_overrun (hstop : stop? move entry (query ++ [0]) = none)
    {after : Bytes} {result : Scan}
    (hresult : (scan move entry 0 [] (query ++ 0 :: after)).bind
      (answer (query ++ 0 :: after)) = some result) :
    query.length + 1 < result.reads := by
  obtain ⟨halt, hscan, hanswer⟩ := Option.bind_eq_some_iff.mp hresult
  have hstopped : halt.stop.length ≤ after.length := by
    rw [← List.singleton_append, ← List.append_assoc] at hscan
    exact scan_append_of_none hstop hscan
  have hreads : offset (query ++ 0 :: after) halt.stop + 1 ≤ result.reads := by
    unfold answer at hanswer
    split at hanswer
    · simp only [Option.some.injEq] at hanswer
      subst hanswer
      exact Nat.le_refl _
    · obtain ⟨len, -, hlen⟩ := Option.bind_eq_some_iff.mp hanswer
      obtain ⟨token, -, htoken⟩ := Option.map_eq_some_iff.mp hlen
      rw [← htoken]
      exact Nat.le_max_left _ _
  simp only [offset, List.length_append, List.length_cons] at hreads
  omega

end Terminated

/-- Nothing leads back to the entry, the only place that loads a byte unseen. -/
theorem keyspaceMove_target_ne_entry (state : KeyspaceState) (yych : UInt8) :
    (keyspaceMove state yych).target? ≠ some .entry := by
  cases state
  all_goals
    simp only [keyspaceMove]
    grind [Move.target?]

theorem keyspaceMove_ne_drop {state : KeyspaceState} (hentry : state ≠ .entry)
    (yych : UInt8) : keyspaceMove state yych ≠ .drop := by
  cases state
  case entry => exact absurd rfl hentry
  all_goals
    simp only [keyspaceMove]
    grind

/-- The automaton halts on every terminated query that is not empty. -/
theorem keyspaceMove_halts {query : Bytes} (hne : query ≠ []) :
    (stop? keyspaceMove .entry (query ++ [0])).isSome := by
  have hhalts : ∀ state, (keyspaceMove state 0).target? = none := by
    intro state
    cases state <;> rfl
  have hlooks (state : KeyspaceState) (yych : UInt8) (hentry : state ≠ .entry) :
      keyspaceMove state yych ≠ .drop := keyspaceMove_ne_drop hentry yych
  have hlength := List.length_pos_iff.mpr hne
  exact stop?_entry_isSome keyspaceMove_target_ne_entry hlooks hhalts (by simp)
    (by simpa using hlength)

/-- `scan_keyspace` halts on every terminated query; its answer is the query's. -/
theorem scanKeyspace_terminated (query : Bytes) :
    ∃ result : Scan, ∀ after : Bytes, (query = [] → after ≠ []) →
      scanKeyspace (query ++ 0 :: after) = some result := by
  by_cases hempty : query = []
  · subst hempty
    refine ⟨⟨none, 2⟩, fun after hmapped => ?_⟩
    obtain ⟨byte, after, rfl⟩ := List.exists_cons_of_ne_nil (hmapped rfl)
    have hscan : scan keyspaceMove .entry 0 [] (0 :: byte :: after) =
        some ⟨none, byte :: after⟩ := rfl
    rw [List.nil_append, scanKeyspace, hscan, Option.bind_some]
    simp [answer, offset]
  · obtain ⟨stop, hstop⟩ := Option.isSome_iff_exists.mp (keyspaceMove_halts hempty)
    obtain ⟨result, -, hresult⟩ := scan_terminated hstop
    exact ⟨result, fun after _ => hresult after⟩

theorem columnfamilyMove_target_ne_entry (state : ColumnfamilyState) (yych : UInt8) :
    (columnfamilyMove state yych).target? ≠ some .entry := by
  cases state
  all_goals
    simp only [columnfamilyMove, yy29]
    grind [Move.target?]

theorem columnfamilyMove_ne_drop {state : ColumnfamilyState} (hentry : state ≠ .entry)
    (yych : UInt8) : columnfamilyMove state yych ≠ .drop := by
  cases state
  case entry => exact absurd rfl hentry
  all_goals
    simp only [columnfamilyMove, yy29]
    grind

/-- Every state halts at a newline. -/
theorem columnfamilyMove_newline (state : ColumnfamilyState) :
    (columnfamilyMove state (ch '\n')).target? = none := by
  cases state <;> rfl

/-- The automaton halts in a memory with a newline, which is not all there is. -/
theorem columnfamilyMove_halts {memory : Bytes} (hline : ch '\n' ∈ memory)
    (hlong : 1 < memory.length) : (stop? columnfamilyMove .entry memory).isSome := by
  have hlooks (state : ColumnfamilyState) (yych : UInt8) (hentry : state ≠ .entry) :
      columnfamilyMove state yych ≠ .drop := columnfamilyMove_ne_drop hentry yych
  exact stop?_entry_isSome columnfamilyMove_target_ne_entry hlooks columnfamilyMove_newline
    hline hlong

/-! ## A query is not both -/

/-- The states in which the two scanners skip leading spaces side by side. -/
inductive Leading : KeyspaceState → ColumnfamilyState → Prop where
  | entry : Leading .entry .entry
  | lead : Leading .lead .lead
  | spaces : Leading .yy13 .yy43

/-- On a space, both go on. -/
theorem Leading.space {left : KeyspaceState} {right : ColumnfamilyState}
    (hlead : Leading left right) :
    ∃ leftNext rightNext, Leading leftNext rightNext ∧
      (keyspaceMove left (ch ' ')).skip? = some leftNext ∧
      (columnfamilyMove right (ch ' ')).skip? = some rightNext := by
  cases hlead with
  | entry => exact ⟨.lead, .lead, .lead, rfl, rfl⟩
  | lead | spaces => exact ⟨.yy13, .yy43, .spaces, rfl, rfl⟩

/-- On another byte, one of the two gives up. -/
theorem Leading.other {left : KeyspaceState} {right : ColumnfamilyState}
    (hlead : Leading left right) {yych : UInt8} (hspace : yych ≠ ch ' ') :
    (keyspaceMove left yych).givesUp = true ∨
      (columnfamilyMove right yych).givesUp = true := by
  cases hlead with
  | entry =>
      simp only [keyspaceMove, columnfamilyMove, ch] at hspace ⊢
      grind [Move.givesUp]
  | lead =>
      simp only [keyspaceMove, columnfamilyMove, ch] at hspace ⊢
      grind [Move.givesUp]
  | spaces =>
      simp only [keyspaceMove, columnfamilyMove, ch] at hspace ⊢
      grind [Move.givesUp]

/-- Leading spaces and what follows them are no match yet. -/
theorem Leading.not_accept {left : KeyspaceState} {right : ColumnfamilyState}
    (hlead : Leading left right) (yych : UInt8) : keyspaceMove left yych ≠ .accept := by
  cases hlead
  all_goals
    simp only [keyspaceMove]
    grind

theorem Leading.halts {left : KeyspaceState} {right : ColumnfamilyState}
    (hlead : Leading left right) {input : Bytes} {halt : Halt UInt8}
    (hscan : scan keyspaceMove left 0 [] input = some halt)
    (haccepted : halt.accepted ≠ none) :
    ∃ stop, scan columnfamilyMove right 0 [] input = some ⟨none, stop⟩ := by
  induction input generalizing left right with
  | nil => cases hscan
  | cons yych rest ih =>
      by_cases hspace : yych = ch ' '
      · subst hspace
        obtain ⟨leftNext, rightNext, hnext, hleft, hright⟩ := hlead.space
        rw [scan_skip hleft] at hscan
        rw [scan_skip hright]
        exact ih hnext hscan
      · have hrest := ne_nil_of_scan (hlead.not_accept yych) hscan haccepted
        rcases hlead.other hspace with hleft | hright
        · obtain ⟨stop, hnone⟩ := scan_givesUp hleft hrest []
          rw [hnone] at hscan
          cases hscan
          exact absurd rfl haccepted
        · exact scan_givesUp hright hrest []

/-- A memory in which `scan_keyspace` finds a name holds no column family. -/
theorem scanColumnfamily_of_scanKeyspace {cql keyspace : Bytes} {reads : Nat}
    (huse : scanKeyspace cql = some ⟨some keyspace, reads⟩) :
    ∃ reads, scanColumnfamily cql = some ⟨none, reads⟩ := by
  obtain ⟨halt, hscan, hanswer⟩ := Option.bind_eq_some_iff.mp huse
  have haccepted : halt.accepted ≠ none := by
    intro hnone
    simp [answer, hnone] at hanswer
  obtain ⟨stop, hnone⟩ := Leading.entry.halts hscan haccepted
  exact ⟨_, by rw [scanColumnfamily, hnone]; rfl⟩

end PdoCassandra.Driver.CqlParser
