import PdoCassandra.Foundation.Recognizer
import PdoCassandra.Driver.CqlParser

/-!
# The rules of `cassandra_cql_parser.re`

The committed automata implement the rules: each of them accepts behind the
longest prefix that matches.  A state is annotated with the parts of the rule
that the words leading to it may have ended with.
-/

namespace PdoCassandra.Properties.ScannerRules

open PdoCassandra.Foundation
open PdoCassandra.Foundation.CString
open PdoCassandra.Foundation.Scanner
open PdoCassandra.Driver.CqlParser

/-! ## The rules -/

def blank (byte : UInt8) : Bool :=
  byte = ch ' '

/-- `.` -/
def dot (byte : UInt8) : Bool :=
  byte ≠ ch '\n'

/-- A keyword in single quotes, which matches in any letter case. -/
def keyword (letters : Bytes) : List (Item UInt8) :=
  letters.map fun letter => .once fun byte => lower byte = letter

/-- `[ ]* 'use' [ ]+` -/
def keyspaceRule : Rule UInt8 where
  skip := blank
  items := keyword (bytesOf "use") ++ [.many blank]

/-- `[ ]* 'select' [ ]+ .+ [ ]+ 'from' [ ]+` -/
def columnfamilyRule : Rule UInt8 where
  skip := blank
  items := keyword (bytesOf "select") ++ [.many blank, .many dot, .many blank] ++
    keyword (bytesOf "from") ++ [.many blank]

def Blanks (text : Bytes) : Prop :=
  ∀ byte ∈ text, byte = ch ' '

instance (text : Bytes) : Decidable (Blanks text) :=
  List.decidableBAll (· = ch ' ') text

theorem mem_blanks_language {word : Bytes} :
    word ∈ (Item.many blank).language ↔ word ≠ [] ∧ Blanks word := by
  simp only [Item.language, blank, decide_eq_true_eq]
  exact Iff.rfl

theorem mem_skipped {rule : Rule UInt8} (hskip : rule.skip = blank) {word : Bytes} :
    word ∈ rule.skipped ↔ Blanks word := by
  simp only [Rule.skipped, hskip, blank, decide_eq_true_eq]
  exact Iff.rfl

theorem mem_keyword {letters word : Bytes} :
    word ∈ ((keyword letters).map Item.language).prod ↔ word.map lower = letters := by
  induction letters generalizing word with
  | nil => simp [keyword, Language.mem_one]
  | cons letter letters ih =>
      simp only [keyword, List.map_cons, List.prod_cons, Language.mem_mul] at ih ⊢
      constructor
      · rintro ⟨front, ⟨byte, hbyte, rfl⟩, back, hback, rfl⟩
        rw [List.singleton_append, List.map_cons, ih.mp hback, of_decide_eq_true hbyte]
      · intro hword
        obtain ⟨byte, rest, rfl, hbyte, hrest⟩ := List.map_eq_cons_iff.mp hword
        exact ⟨[byte], ⟨byte, decide_eq_true hbyte, rfl⟩, rest, ih.mpr hrest, rfl⟩

theorem mem_keyspaceRule {word : Bytes} :
    word ∈ keyspaceRule.language ↔
      ∃ lead use blanks, word = lead ++ use ++ blanks ∧ Blanks lead ∧
        use.map lower = bytesOf "use" ∧ blanks ≠ [] ∧ Blanks blanks := by
  rw [Rule.language, Rule.follow_eq]
  simp only [keyspaceRule, List.map_append, List.prod_append, List.map_cons, List.map_nil,
    List.prod_cons, List.prod_nil, mul_one, Language.mem_mul, mem_keyword,
    mem_blanks_language]
  constructor
  · rintro ⟨lead, hlead, -, ⟨use, huse, blanks, ⟨hne, hblanks⟩, rfl⟩, rfl⟩
    exact ⟨lead, use, blanks, by rw [List.append_assoc], (mem_skipped rfl).mp hlead, huse,
      hne, hblanks⟩
  · rintro ⟨lead, use, blanks, rfl, hlead, huse, hne, hblanks⟩
    exact ⟨lead, (mem_skipped rfl).mpr hlead, use ++ blanks,
      ⟨use, huse, blanks, ⟨hne, hblanks⟩, rfl⟩, by rw [List.append_assoc]⟩

theorem mem_dots_language {word : Bytes} :
    word ∈ (Item.many dot).language ↔ word ≠ [] ∧ ch '\n' ∉ word := by
  simp only [Item.language, dot, decide_eq_true_eq]
  refine and_congr_right fun _ => ⟨fun hall hmem => hall _ hmem rfl, ?_⟩
  rintro hline byte hmem rfl
  exact hline hmem

theorem mem_columnfamilyRule {word : Bytes} :
    word ∈ columnfamilyRule.language ↔
      ∃ lead select gap names gap' from' last,
        word = lead ++ select ++ gap ++ names ++ gap' ++ from' ++ last ∧ Blanks lead ∧
        select.map lower = bytesOf "select" ∧ (gap ≠ [] ∧ Blanks gap) ∧
        (names ≠ [] ∧ ch '\n' ∉ names) ∧ (gap' ≠ [] ∧ Blanks gap') ∧
        from'.map lower = bytesOf "from" ∧ last ≠ [] ∧ Blanks last := by
  rw [Rule.language, Rule.follow_eq]
  simp only [columnfamilyRule, List.map_append, List.prod_append, List.map_cons, List.map_nil,
    List.prod_cons, List.prod_nil, mul_one, ← mul_assoc, Language.mem_mul, mem_keyword,
    mem_blanks_language, mem_dots_language]
  constructor
  · rintro ⟨-, ⟨-, ⟨-, ⟨-, ⟨-, ⟨lead, hlead, select, hselect, rfl⟩, gap, hgap, rfl⟩, names,
      hnames, rfl⟩, gap', hgap', rfl⟩, from', hfrom, rfl⟩, last, hlast, rfl⟩
    exact ⟨lead, select, gap, names, gap', from', last, rfl, (mem_skipped rfl).mp hlead,
      hselect, hgap, hnames, hgap', hfrom, hlast⟩
  · rintro ⟨lead, select, gap, names, gap', from', last, rfl, hlead, hselect, hgap, hnames,
      hgap', hfrom, hlast⟩
    exact ⟨_, ⟨_, ⟨_, ⟨_, ⟨_, ⟨lead, (mem_skipped rfl).mpr hlead, select, hselect, rfl⟩, gap,
      hgap, rfl⟩, names, hnames, rfl⟩, gap', hgap', rfl⟩, from', hfrom, rfl⟩, last, hlast, rfl⟩

/-- A state agrees on every byte when it does on those that a rule tells apart. -/
theorem agrees_of_bytes {State : Type} [DecidableEq State] {rule : Rule UInt8}
    {move : State → UInt8 → Move State} {table : Annotation State} {state : State}
    {bytes : Bytes} (hbytes : (0 :: bytes).all (agrees rule move table state) = true)
    (hmove : ∀ {yych}, yych ∉ bytes → move state yych = move state 0)
    (hrule : ∀ {yych}, yych ∉ bytes → rule.skip yych = rule.skip 0 ∧
      ∀ item ∈ rule.items, item.holds yych = item.holds 0) (yych : UInt8) :
    agrees rule move table state yych = true := by
  rw [List.all_eq_true] at hbytes
  by_cases hmem : yych ∈ bytes
  · exact hbytes yych (List.mem_cons_of_mem _ hmem)
  · obtain ⟨hskip, hitems⟩ := hrule hmem
    rw [agrees_congr (hmove hmem) hskip hitems]
    exact hbytes 0 List.mem_cons_self

/-! ## The automaton of `scan_keyspace` -/

/-- How many parts of the rule the words that lead to a state end with. -/
def keyspaceParts : KeyspaceState → Nat
  | .entry | .lead | .yy13 => 0
  | .yy4 | .yy12 => 1
  | .yy6 => 2
  | .yy8 => 3
  | .yy9 => 4

def keyspaceTable : Annotation KeyspaceState where
  marks state := (List.range 5).map (keyspaceParts state = ·)
  sure state := state = .yy9
  early _ := true

/-- The bytes of the rule; any other byte is read like NUL. -/
def keyspaceBytes : Bytes :=
  [ch ' ', ch 'U', ch 'u', ch 'S', ch 's', ch 'E', ch 'e']

theorem keyspaceMove_of_notMem {yych : UInt8} (hother : yych ∉ keyspaceBytes)
    (state : KeyspaceState) : keyspaceMove state yych = keyspaceMove state 0 := by
  simp only [keyspaceBytes, List.mem_cons, List.not_mem_nil, or_false, not_or, ch] at hother
  cases state
  all_goals
    simp only [keyspaceMove, ch]
    grind

theorem keyspaceRule_of_notMem {yych : UInt8} (hother : yych ∉ keyspaceBytes) :
    keyspaceRule.skip yych = keyspaceRule.skip 0 ∧
      ∀ item ∈ keyspaceRule.items, item.holds yych = item.holds 0 := by
  simp only [keyspaceBytes, List.mem_cons, List.not_mem_nil, or_false, not_or, ch] at hother
  constructor
  · simp only [keyspaceRule, blank, decide_eq_decide]
    exact iff_of_false hother.1 (by decide)
  · simp only [keyspaceRule, keyword, bytesOf, List.forall_mem_append]
    simp [Item.holds, blank, ch, lower]
    grind

theorem keyspace_agrees (state : KeyspaceState) (yych : UInt8) :
    agrees keyspaceRule keyspaceMove keyspaceTable state yych = true := by
  have hbytes : (0 :: keyspaceBytes).all
      (agrees keyspaceRule keyspaceMove keyspaceTable state) = true := by
    cases state
    all_goals decide +kernel
  exact agrees_of_bytes hbytes
    (fun hother => keyspaceMove_of_notMem hother state) keyspaceRule_of_notMem yych

/-! ## The automaton of `scan_columnfamily` -/

/--
The parts of the rule that the words leading to a state may end with.  The
select list goes on through everything behind it, so that part 8 stays.
-/
def columnfamilyParts : ColumnfamilyState → List Nat
  | .entry | .lead | .yy43 => [0]
  | .yy19 | .yy42 => [1]
  | .yy21 => [2]
  | .yy23 => [3]
  | .yy24 => [4]
  | .yy25 => [5]
  | .yy26 => [6]
  | .select => [7]
  | .yy28 => [8]
  | .yy30 => [7, 8]
  | .yy31 => [7, 8, 9]
  | .yy33 => [8, 10]
  | .yy34 => [8, 9]
  | .yy36 => [8, 11]
  | .fro => [8, 12]
  | .from => [8, 13]
  | .yy39 => [8, 9, 14]

def columnfamilyTable : Annotation ColumnfamilyState where
  marks state := (List.range 15).map (columnfamilyParts state).contains
  sure _ := false
  early
    | .entry | .lead | .yy19 => true
    | _ => false

/-- The bytes of the rule; any other byte is read like NUL. -/
def columnfamilyBytes : Bytes :=
  [ch '\n', ch ' ', ch 'S', ch 's', ch 'E', ch 'e', ch 'L', ch 'l', ch 'C', ch 'c',
    ch 'T', ch 't', ch 'F', ch 'f', ch 'R', ch 'r', ch 'O', ch 'o', ch 'M', ch 'm']

theorem columnfamilyMove_of_notMem {yych : UInt8} (hother : yych ∉ columnfamilyBytes)
    (state : ColumnfamilyState) :
    columnfamilyMove state yych = columnfamilyMove state 0 := by
  simp only [columnfamilyBytes, List.mem_cons, List.not_mem_nil, or_false, not_or, ch]
    at hother
  cases state
  all_goals
    simp only [columnfamilyMove, yy29, ch]
    grind

theorem columnfamilyRule_of_notMem {yych : UInt8} (hother : yych ∉ columnfamilyBytes) :
    columnfamilyRule.skip yych = columnfamilyRule.skip 0 ∧
      ∀ item ∈ columnfamilyRule.items, item.holds yych = item.holds 0 := by
  simp only [columnfamilyBytes, List.mem_cons, List.not_mem_nil, or_false, not_or, ch]
    at hother
  constructor
  · simp only [columnfamilyRule, blank, decide_eq_decide]
    exact iff_of_false hother.2.1 (by decide)
  · simp only [columnfamilyRule, keyword, bytesOf, List.forall_mem_append]
    simp [Item.holds, blank, dot, ch, lower]
    grind

theorem columnfamily_agrees (state : ColumnfamilyState) (yych : UInt8) :
    agrees columnfamilyRule columnfamilyMove columnfamilyTable state yych = true := by
  have hbytes : (0 :: columnfamilyBytes).all
      (agrees columnfamilyRule columnfamilyMove columnfamilyTable state) = true := by
    cases state
    all_goals decide +kernel
  exact agrees_of_bytes hbytes
    (fun hother => columnfamilyMove_of_notMem hother state) columnfamilyRule_of_notMem yych

/-! ## The name behind a match -/

/-- The bytes from here to the first space or NUL, unless there are none. -/
def firstName (str : Bytes) : Option Bytes :=
  let run := str.takeWhile fun byte => byte ≠ ch ' ' && byte ≠ 0
  if run = [] then none else some run

theorem tokenLength_eq {str : Bytes} (hnul : 0 ∈ str) :
    tokenLength str = some (str.takeWhile fun byte => byte ≠ ch ' ' && byte ≠ 0).length := by
  induction str with
  | nil => cases hnul
  | cons byte str ih =>
      by_cases hzero : byte = 0
      · simp [tokenLength, hzero]
      · by_cases hspace : byte = ch ' '
        · simp [tokenLength, hspace]
        · have hrest : 0 ∈ str := by
            rcases List.mem_cons.mp hnul with heq | hrest
            · exact absurd heq.symm hzero
            · exact hrest
          simp [tokenLength, hzero, hspace, ih hrest]

theorem tokendup_eq {str : Bytes} (hnul : 0 ∈ str) :
    tokendup str = some (firstName str) := by
  have htake := List.prefix_iff_eq_take.mp
    (List.takeWhile_prefix (l := str) fun byte => byte ≠ ch ' ' && byte ≠ 0)
  simp only [tokendup, tokenLength_eq hnul, Option.map_some, firstName, ← htake,
    List.length_pos_iff, ne_eq, ite_not]

/-- The answer is the name behind the accepting cursor. -/
theorem answer_token (memory : Bytes) {halt : Halt UInt8}
    (hnul : ∀ accepted, halt.accepted = some accepted → 0 ∈ accepted) :
    (answer memory halt).map Scan.token = some (halt.accepted.bind firstName) := by
  obtain ⟨accepted, stop⟩ := halt
  cases accepted with
  | none => rfl
  | some accepted =>
      have hmem := hnul accepted rfl
      simp only [answer, tokenLength_eq hmem, tokendup_eq hmem, Option.bind_some,
        Option.map_some]

/-- A run of name bytes, and the space or NUL that ends it. -/
structure Ends (run rest : Bytes) : Prop where
  noSpace : ch ' ' ∉ run
  nulFree : 0 ∉ run
  stop : rest.head? = some (ch ' ') ∨ rest.head? = some 0

/-- Every memory with a NUL begins with such a run. -/
theorem exists_ends {str : Bytes} (hnul : 0 ∈ str) :
    ∃ run rest, str = run ++ rest ∧ Ends run rest := by
  induction str with
  | nil => cases hnul
  | cons byte str ih =>
      by_cases hspace : byte = ch ' '
      · exact ⟨[], byte :: str, rfl, by simp, by simp, Or.inl (congrArg some hspace)⟩
      · by_cases hzero : byte = 0
        · exact ⟨[], byte :: str, rfl, by simp, by simp, Or.inr (congrArg some hzero)⟩
        · have hrest : 0 ∈ str := (List.mem_cons.mp hnul).resolve_left (Ne.symm hzero)
          obtain ⟨run, rest, rfl, hends⟩ := ih hrest
          refine ⟨byte :: run, rest, rfl, ?_, ?_, hends.stop⟩
          · rw [List.mem_cons, not_or]
            exact ⟨Ne.symm hspace, hends.noSpace⟩
          · rw [List.mem_cons, not_or]
            exact ⟨Ne.symm hzero, hends.nulFree⟩

theorem firstName_append {run rest : Bytes} (hends : Ends run rest) :
    firstName (run ++ rest) = if run = [] then none else some run := by
  have hrun : ∀ byte ∈ run, (byte ≠ ch ' ' && byte ≠ 0) = true := by
    intro byte hbyte
    have hspace : byte ≠ ch ' ' := fun heq => hends.noSpace (heq ▸ hbyte)
    have hzero : byte ≠ 0 := fun heq => hends.nulFree (heq ▸ hbyte)
    simp [hspace, hzero]
  have hrest : rest.takeWhile (fun byte => byte ≠ ch ' ' && byte ≠ 0) = [] := by
    cases rest with
    | nil => rfl
    | cons byte rest =>
        have hstop := hends.stop
        simp only [List.head?_cons, Option.some.injEq] at hstop
        rcases hstop with rfl | rfl <;> simp
  rw [firstName, List.takeWhile_append_of_pos hrun, hrest, List.append_nil]

theorem firstName_eq_some_iff {str name : Bytes} (hnul : 0 ∈ str) :
    firstName str = some name ↔ name ≠ [] ∧ ∃ rest, str = name ++ rest ∧ Ends name rest := by
  constructor
  · intro hname
    obtain ⟨run, rest, rfl, hends⟩ := exists_ends hnul
    rw [firstName_append hends] at hname
    split at hname
    · cases hname
    · rename_i hne
      cases hname
      exact ⟨hne, rest, rfl, hends⟩
  · rintro ⟨hne, rest, rfl, hends⟩
    rw [firstName_append hends, if_neg hne]

/-- A prefix without NUL of a terminated text is a prefix of the text. -/
theorem append_eq_terminated {front rest text after : Bytes} (hfront : 0 ∉ front)
    (hsame : front ++ rest = text ++ 0 :: after) :
    ∃ more, text = front ++ more ∧ rest = more ++ 0 :: after := by
  rcases List.append_eq_append_iff.mp hsame with ⟨more, rfl, rfl⟩ | ⟨more, rfl, hrest⟩
  · exact ⟨more, rfl, rfl⟩
  · cases more with
    | nil => exact ⟨[], by simp, by simpa using hrest.symm⟩
    | cons byte more =>
        rw [List.cons_append, List.cons.injEq] at hrest
        exact absurd (by simp [hrest.1]) hfront

/-- Nothing stands here, or a space. -/
def Closed (rest : Bytes) : Prop :=
  rest = [] ∨ rest.head? = some (ch ' ')

/-- In front of a terminator, the name is all but what a space separates from it. -/
theorem firstName_terminated {text name : Bytes} (hfree : 0 ∉ text) (after : Bytes) :
    firstName (text ++ 0 :: after) = some name ↔
      name ≠ [] ∧ ch ' ' ∉ name ∧ ∃ rest, text = name ++ rest ∧ Closed rest := by
  rw [firstName_eq_some_iff (by simp)]
  constructor
  · rintro ⟨hne, rest, hsame, hends⟩
    obtain ⟨more, htext, rfl⟩ := append_eq_terminated hends.nulFree hsame.symm
    refine ⟨hne, hends.noSpace, more, htext, ?_⟩
    cases more with
    | nil => exact Or.inl rfl
    | cons byte more =>
        have hbyte : byte ≠ 0 := by
          rintro rfl
          exact hfree (by rw [htext]; simp)
        have hstop := hends.stop
        simp only [List.cons_append, List.head?_cons, Option.some.injEq] at hstop
        exact Or.inr (congrArg some (hstop.resolve_right hbyte))
  · rintro ⟨hne, hspace, rest, rfl, hclosed⟩
    refine ⟨hne, rest ++ 0 :: after, List.append_assoc _ _ _, hspace, ?_, ?_⟩
    · exact fun hmem => hfree (List.mem_append_left _ hmem)
    · rcases hclosed with rfl | hhead
      · exact Or.inr rfl
      · exact Or.inl (by rw [List.head?_append, hhead, Option.some_or])

/-! ## `scan_keyspace` -/

/-- A keyword behind leading spaces stands at one place of a text. -/
theorem keyword_unique {letter : UInt8} {letters : Bytes} (hletter : letter ≠ ch ' ')
    {lead word rest lead' word' rest' : Bytes} (hlead : Blanks lead) (hlead' : Blanks lead')
    (hword : word.map lower = letter :: letters)
    (hword' : word'.map lower = letter :: letters)
    (hsame : lead ++ word ++ rest = lead' ++ word' ++ rest') :
    lead = lead' ∧ word = word' ∧ rest = rest' := by
  have hfirst {word more rest : Bytes} {byte : UInt8}
      (hword : word.map lower = letter :: letters)
      (hsame : word ++ rest = byte :: more) : byte ≠ ch ' ' := by
    obtain ⟨first, later, rfl, rfl, -⟩ := List.map_eq_cons_iff.mp hword
    rw [List.cons_append, List.cons.injEq] at hsame
    rintro rfl
    rw [hsame.1] at hletter
    exact hletter (by decide)
  induction lead generalizing lead' with
  | nil =>
      cases lead' with
      | nil =>
          have hlength : word.length = word'.length := by
            rw [← List.length_map (f := lower), hword, ← hword', List.length_map]
          obtain ⟨hwords, hrests⟩ := List.append_inj hsame hlength
          exact ⟨rfl, hwords, hrests⟩
      | cons byte lead' =>
          exact absurd (hlead' byte List.mem_cons_self) (hfirst hword hsame)
  | cons byte lead ih =>
      cases lead' with
      | nil => exact absurd (hlead byte List.mem_cons_self) (hfirst hword' hsame.symm)
      | cons other lead' =>
          simp only [List.cons_append, List.cons.injEq] at hsame
          obtain ⟨rfl, hrest⟩ := hsame
          obtain ⟨rfl, hwords⟩ := ih (fun next hnext => hlead next (List.mem_cons_of_mem _ hnext))
            (fun next hnext => hlead' next (List.mem_cons_of_mem _ hnext)) hrest
          exact ⟨rfl, hwords⟩

theorem nul_notMem {word : Bytes} (hword : word ∈ keyspaceRule.language) : 0 ∉ word :=
  Rule.notMem_of_mem_language (by decide) (by decide) hword

/-- A `USE` statement, with a space behind the keyspace or nothing. -/
def UsesKeyspace (text name : Bytes) : Prop :=
  ∃ lead use blanks rest, text = lead ++ use ++ blanks ++ name ++ rest ∧ Blanks lead ∧
    use.map lower = bytesOf "use" ∧ blanks ≠ [] ∧ Blanks blanks ∧ name ≠ [] ∧
    ch ' ' ∉ name ∧ Closed rest

/-- The scanner stops behind the longest match, and reads the name there. -/
theorem scanKeyspace_longestMatch (query : Terminated) :
    ∃ found, LongestMatch keyspaceRule.language query.memory found ∧
      (scanKeyspace query.memory).map Scan.token = some (found.bind firstName) := by
  obtain ⟨result, hresult⟩ := scanKeyspace_terminated query.text
  obtain ⟨halt, hscan, -⟩ := Option.bind_eq_some_iff.mp (hresult query.after query.mapped)
  have hmatch : LongestMatch keyspaceRule.language query.memory halt.accepted :=
    scan_longestMatch keyspace_agrees (by decide) rfl (by decide) hscan
  have hnul : ∀ str, halt.accepted = some str → 0 ∈ str := by
    intro str haccepted
    rw [haccepted] at hmatch
    obtain ⟨word, hword, hsame, -⟩ := hmatch
    obtain ⟨more, -, rfl⟩ := append_eq_terminated (nul_notMem hword) hsame
    simp
  refine ⟨halt.accepted, hmatch, ?_⟩
  have htoken := answer_token query.memory hnul
  rw [scanKeyspace, Terminated.memory, hscan]
  exact htoken

theorem usesKeyspace_of_match {query : Terminated} {found : Option Bytes} {name : Bytes}
    (hmatch : LongestMatch keyspaceRule.language query.memory found)
    (hname : found.bind firstName = some name) : UsesKeyspace query.text name := by
  obtain ⟨str, rfl, hfirst⟩ := Option.bind_eq_some_iff.mp hname
  obtain ⟨word, hword, hsame, -⟩ := hmatch
  obtain ⟨more, htext, rfl⟩ := append_eq_terminated (nul_notMem hword) hsame
  have hfree : 0 ∉ more := fun hmem => query.nulFree (by rw [htext]; simp [hmem])
  obtain ⟨hne, hspace, rest, rfl, hclosed⟩ := (firstName_terminated hfree _).mp hfirst
  obtain ⟨lead, use, blanks, rfl, hlead, huse, hblank, hblanks⟩ := mem_keyspaceRule.mp hword
  rw [← List.append_assoc] at htext
  exact ⟨lead, use, blanks, rest, htext, hlead, huse, hblank, hblanks, hne, hspace, hclosed⟩

theorem match_of_usesKeyspace {query : Terminated} {found : Option Bytes} {name : Bytes}
    (hmatch : LongestMatch keyspaceRule.language query.memory found)
    (huses : UsesKeyspace query.text name) : found.bind firstName = some name := by
  obtain ⟨lead, use, blanks, rest, htext, hlead, huse, hblank, hblanks, hne, hspace, hclosed⟩ :=
    huses
  have hword : lead ++ use ++ blanks ∈ keyspaceRule.language :=
    mem_keyspaceRule.mpr ⟨lead, use, blanks, rfl, hlead, huse, hblank, hblanks⟩
  have hmemory : query.memory = lead ++ use ++ blanks ++ (name ++ rest ++ 0 :: query.after) := by
    rw [Terminated.memory, htext]
    simp only [List.append_assoc]
  have hprefix : lead ++ use ++ blanks <+: query.memory := ⟨_, hmemory.symm⟩
  cases found with
  | none => exact absurd hword (hmatch _ hprefix)
  | some str =>
      obtain ⟨word, hlongest, hsame, hall⟩ := hmatch
      obtain ⟨extra, rfl⟩ := hall _ hprefix hword
      obtain ⟨lead', use', blanks', hagain, hlead', huse', -, hblanks'⟩ :=
        mem_keyspaceRule.mp hlongest
      rw [List.append_assoc _ blanks] at hagain
      obtain ⟨-, -, hextra⟩ := keyword_unique (by decide) hlead hlead' huse huse' hagain
      rw [hmemory, List.append_assoc, List.append_cancel_left_eq] at hsame
      -- the match may only go on with spaces, and the name begins with none
      have hnone : extra = [] := by
        cases extra with
        | nil => rfl
        | cons byte extra =>
            have hbyte : byte = ch ' ' := hblanks' byte (by simp [← hextra])
            cases name with
            | nil => exact absurd rfl hne
            | cons first name =>
                simp only [List.cons_append, List.cons.injEq] at hsame
                exact absurd (by simp [← hsame.1, hbyte]) hspace
      subst hnone
      have hfree : 0 ∉ name ++ rest := by
        intro hmem
        exact query.nulFree (by rw [htext, List.append_assoc]; simp [List.mem_append.mp hmem])
      rw [List.nil_append] at hsame
      rw [hsame, Option.bind_some, firstName_terminated hfree]
      exact ⟨hne, hspace, rest, rfl, hclosed⟩

/-- `scan_keyspace` names the keyspace of a `USE` statement, and nothing otherwise. -/
theorem scanKeyspace_iff (query : Terminated) :
    ∃ token, (scanKeyspace query.memory).map Scan.token = some token ∧
      (∀ name, token = some name ↔ UsesKeyspace query.text name) ∧
      (token = none ↔ ∀ name, ¬ UsesKeyspace query.text name) := by
  obtain ⟨found, hmatch, htoken⟩ := scanKeyspace_longestMatch query
  have hname (name : Bytes) :
      found.bind firstName = some name ↔ UsesKeyspace query.text name :=
    ⟨usesKeyspace_of_match hmatch, match_of_usesKeyspace hmatch⟩
  refine ⟨found.bind firstName, htoken, hname, ?_⟩
  rw [Option.eq_none_iff_forall_ne_some]
  exact forall_congr' fun name => not_congr (hname name)

/-! ## `scan_columnfamily` -/

/-- In a memory with a newline, the scanner accepts behind the longest match. -/
theorem columnfamily_halts {memory : Bytes} (hline : ch '\n' ∈ memory)
    (hlong : 1 < memory.length) :
    ∃ halt, scan columnfamilyMove .entry 0 [] memory = some halt ∧
      LongestMatch columnfamilyRule.language memory halt.accepted := by
  obtain ⟨stop, hstop⟩ := Option.isSome_iff_exists.mp (columnfamilyMove_halts hline hlong)
  obtain ⟨halt, hscan, -⟩ := Option.map_eq_some_iff.mp hstop
  exact ⟨halt, hscan, scan_longestMatch columnfamily_agrees (by decide) rfl (by decide) hscan⟩

theorem newline_notMem {word : Bytes} (hword : word ∈ columnfamilyRule.language) :
    ch '\n' ∉ word :=
  Rule.notMem_of_mem_language (by decide) (by decide) hword

/--
`scan_columnfamily` reads the name behind the longest match of its rule, in every
memory with a NUL behind a newline.
-/
theorem scanColumnfamily_longestMatch {memory front back : Bytes}
    (hmemory : memory = front ++ ch '\n' :: back) (hnul : 0 ∈ back) :
    ∃ found, LongestMatch columnfamilyRule.language memory found ∧
      (scanColumnfamily memory).map Scan.token = some (found.bind firstName) := by
  have hpos := List.length_pos_of_mem hnul
  have hlong : 1 < memory.length := by
    rw [hmemory, List.length_append, List.length_cons]
    omega
  obtain ⟨halt, hscan, hmatch⟩ := columnfamily_halts (by rw [hmemory]; simp) hlong
  refine ⟨halt.accepted, hmatch, ?_⟩
  have haccepted : ∀ str, halt.accepted = some str → 0 ∈ str := by
    intro str hstr
    rw [hstr] at hmatch
    obtain ⟨word, hword, hsame, -⟩ := hmatch
    rw [hmemory] at hsame
    rcases List.append_eq_append_iff.mp hsame with ⟨more, rfl, rfl⟩ | ⟨more, rfl, hrest⟩
    · simp [hnul]
    · cases more with
      | nil =>
          rw [List.nil_append] at hrest
          rw [← hrest]
          exact List.mem_cons_of_mem _ hnul
      | cons byte more =>
          rw [List.cons_append, List.cons.injEq] at hrest
          exact absurd (by simp [hrest.1]) (newline_notMem hword)
  have htoken := answer_token memory haccepted
  rw [scanColumnfamily, hscan]
  exact htoken

theorem scanColumnfamily_longestMatch_select :
    ∃ found, LongestMatch columnfamilyRule.language (bytesOf "SELECT a FROM b\n" ++ [0]) found ∧
      (scanColumnfamily (bytesOf "SELECT a FROM b\n" ++ [0])).map Scan.token =
        some (found.bind firstName) :=
  scanColumnfamily_longestMatch
    (show bytesOf "SELECT a FROM b\n" ++ [0] = bytesOf "SELECT a FROM b" ++ ch '\n' :: [0] by
      decide)
    (by decide)

end PdoCassandra.Properties.ScannerRules
