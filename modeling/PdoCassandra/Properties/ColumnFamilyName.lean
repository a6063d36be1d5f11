import PdoCassandra.Properties.ScannerRules

/-!
# The column family that `scan_columnfamily` finds

The rule takes the longest match, so the name is looked for behind the last
`FROM` of the first line, string literals and all, and ends at a space or at the
end of the query, whatever else may separate it from what follows.
-/

namespace PdoCassandra.Properties.ColumnFamilyName

open PdoCassandra.Foundation.CString
open PdoCassandra.Foundation.Scanner
open PdoCassandra.Driver.CqlParser
open PdoCassandra.Properties.ScannerRules

/-! ## `SELECT` statements -/

/-- A letter, a digit or an underscore. -/
def IsNameByte (byte : UInt8) : Prop :=
  (ch 'a' ≤ lower byte ∧ lower byte ≤ ch 'z') ∨ (ch '0' ≤ byte ∧ byte ≤ ch '9') ∨
    byte = ch '_'

instance (byte : UInt8) : Decidable (IsNameByte byte) :=
  inferInstanceAs (Decidable (_ ∨ _))

structure SelectList (names : Bytes) : Prop where
  nonempty : names ≠ []
  line : ch '\n' ∉ names
  nulFree : 0 ∉ names
  noLead : names.head? ≠ some (ch ' ')
  noTrail : names.getLast? ≠ some (ch ' ')
  noFrom : ∀ front word back, word.map lower = bytesOf "from" →
    names ≠ front ++ ch ' ' :: word ++ ch ' ' :: back

structure FamilyName (name : Bytes) : Prop where
  nonempty : name ≠ []
  bytes : ∀ byte ∈ name, IsNameByte byte
  notFrom : name.map lower ≠ bytesOf "from"

/-- What may follow a name: anything that does not go on with it. -/
structure Tail (tail : Bytes) : Prop where
  nulFree : 0 ∉ tail
  stop : ∀ byte ∈ tail.head?, ¬ IsNameByte byte

/-- The query `SELECT names FROM name`, and the `tail` behind it. -/
structure SelectFrom where
  select : Bytes
  gap : Bytes
  names : Bytes
  gap' : Bytes
  from' : Bytes
  last : Bytes
  name : Bytes
  tail : Bytes
  isSelect : select.map lower = bytesOf "select"
  isGap : gap ≠ [] ∧ Blanks gap
  isSelectList : SelectList names
  isGap' : gap' ≠ [] ∧ Blanks gap'
  isFrom : from'.map lower = bytesOf "from"
  isLast : last ≠ [] ∧ Blanks last
  isName : FamilyName name
  isTail : Tail tail

namespace SelectFrom

/-- The statement up to the name. -/
def head (statement : SelectFrom) : Bytes :=
  statement.select ++ statement.gap ++ statement.names ++ statement.gap' ++
    statement.from' ++ statement.last

def text (statement : SelectFrom) : Bytes :=
  statement.head ++ statement.name ++ statement.tail

/-- The query in a memory that goes on with a newline behind the terminator. -/
def memory (statement : SelectFrom) (after : Bytes) : Bytes :=
  statement.text ++ 0 :: ch '\n' :: after

theorem head_mem (statement : SelectFrom) : statement.head ∈ columnfamilyRule.language := by
  refine mem_columnfamilyRule.mpr ⟨[], _, _, _, _, _, _, rfl, ?_, statement.isSelect,
    statement.isGap, ⟨statement.isSelectList.nonempty, statement.isSelectList.line⟩,
    statement.isGap', statement.isFrom, statement.isLast⟩
  intro byte hmem
  cases hmem

/-- Whatever the statement goes on with stands in its memory. -/
theorem prefix_memory (statement : SelectFrom) (after : Bytes) {extra rest : Bytes}
    (hsame : extra ++ rest = statement.name ++ statement.tail) :
    statement.head ++ extra <+: statement.memory after := by
  refine ⟨rest ++ 0 :: ch '\n' :: after, ?_⟩
  rw [memory, text, List.append_assoc _ statement.name, ← hsame]
  simp

theorem head_prefix (statement : SelectFrom) (after : Bytes) :
    statement.head <+: statement.memory after := by
  have hprefix := statement.prefix_memory after (List.nil_append _)
  rwa [List.append_nil] at hprefix

theorem nulFree (statement : SelectFrom) : 0 ∉ statement.name ++ statement.tail := by
  rw [List.mem_append, not_or]
  exact ⟨fun hmem => absurd (statement.isName.bytes _ hmem) (by decide),
    statement.isTail.nulFree⟩

end SelectFrom

/-! ## A later `FROM` -/

/-- What stands behind a space, `FROM` and its spaces in the first line of a tail. -/
def BehindFrom (tail rest : Bytes) : Prop :=
  ∃ front word blanks, tail = front ++ ch ' ' :: word ++ blanks ++ rest ∧
    ch '\n' ∉ front ∧ word.map lower = bytesOf "from" ∧ blanks ≠ [] ∧ Blanks blanks

/-- What stands behind the last such `FROM`. -/
def BehindLastFrom (tail rest : Bytes) : Prop :=
  BehindFrom tail rest ∧ ∀ other, BehindFrom tail other → rest.length ≤ other.length

/--
The name stands where the scanner looks for it: either the tail has no later
`FROM`, or the name stands behind its last one once more.
-/
def NameStands (name tail : Bytes) : Prop :=
  ((∀ rest, ¬ BehindFrom tail rest) ∧ Closed tail) ∨
    ∃ rest, BehindLastFrom tail (name ++ rest) ∧ Closed rest

/-! ## Longer matches -/

theorem snoc_of_blanks {blanks : Bytes} (hne : blanks ≠ []) (hblanks : Blanks blanks) :
    ∃ front, blanks = front ++ [ch ' '] := by
  obtain ⟨front, last, rfl⟩ := (List.eq_nil_or_concat' blanks).resolve_left hne
  exact ⟨front, by rw [hblanks last (by simp)]⟩

/-- The letters of a keyword are name bytes. -/
theorem isNameByte_of_from {word : Bytes} (hword : word.map lower = bytesOf "from") :
    ∀ byte ∈ word, IsNameByte byte := by
  intro byte hbyte
  have hmem : lower byte ∈ bytesOf "from" := by
    rw [← hword]
    exact List.mem_map_of_mem hbyte
  have hletters : ((bytesOf "from").all fun letter => ch 'a' ≤ letter ∧ letter ≤ ch 'z') =
      true := by
    decide
  exact Or.inl (of_decide_eq_true (List.all_eq_true.mp hletters _ hmem))

theorem not_isNameByte_space : ¬ IsNameByte (ch ' ') := by
  decide

/-- A run of name bytes ends where the first other byte stands. -/
theorem nameBytes_unique {left right rest rest' : Bytes}
    (hleft : ∀ byte ∈ left, IsNameByte byte) (hright : ∀ byte ∈ right, IsNameByte byte)
    (hrest : ∀ byte ∈ rest.head?, ¬ IsNameByte byte)
    (hrest' : ∀ byte ∈ rest'.head?, ¬ IsNameByte byte)
    (hsame : left ++ rest = right ++ rest') : left = right := by
  have hrun {run more : Bytes} (hrun : ∀ byte ∈ run, IsNameByte byte)
      (hmore : ∀ byte ∈ more.head?, ¬ IsNameByte byte) :
      (run ++ more).takeWhile (IsNameByte ·) = run := by
    rw [List.takeWhile_append_of_pos (by simpa using hrun)]
    cases more with
    | nil => simp
    | cons byte more => simp [hmore byte rfl]
  rw [← hrun hleft hrest, hsame, hrun hright hrest']

/--
What a match adds to a shorter one that ends with a space: a later `FROM`, which
may share that space.
-/
theorem longer_match {front extra : Bytes} {first : UInt8}
    (hmem : front ++ [ch ' '] ++ extra ∈ columnfamilyRule.language)
    (hfirst : extra.head? = some first) (hspace : first ≠ ch ' ') :
    ∃ word blanks, word.map lower = bytesOf "from" ∧ (blanks ≠ [] ∧ Blanks blanks) ∧
      (extra = word ++ blanks ∨
        ∃ more, ch '\n' ∉ more ∧ extra = more ++ ch ' ' :: word ++ blanks) := by
  have hline := newline_notMem hmem
  obtain ⟨lead, select, gap, names, gap', from', last, hsame, -, -, -, -, hgap', hfrom, hlast⟩ :=
    mem_columnfamilyRule.mp hmem
  obtain ⟨gap', rfl⟩ := snoc_of_blanks hgap'.1 hgap'.2
  refine ⟨from', last, hfrom, hlast, ?_⟩
  rw [← List.append_assoc _ gap', List.append_assoc _ from'] at hsame
  rcases List.append_eq_append_iff.mp hsame with ⟨more, hmore, hextra⟩ | ⟨more, hmore, hrest⟩
  · rcases List.eq_nil_or_concat' more with rfl | ⟨more, byte, rfl⟩
    · exact Or.inl hextra
    · rw [← List.append_assoc] at hmore
      obtain ⟨-, hbyte⟩ := List.append_inj' hmore rfl
      rw [← hbyte, List.append_assoc, List.singleton_append, ← List.cons_append,
        ← List.append_assoc] at hextra
      refine Or.inr ⟨more, fun hin => hline ?_, hextra⟩
      rw [hextra]
      simp [hin]
  · rcases List.eq_nil_or_concat' more with rfl | ⟨more, byte, rfl⟩
    · exact Or.inl hrest.symm
    · rw [← List.append_assoc] at hmore
      obtain ⟨-, hbyte⟩ := List.append_inj' hmore rfl
      rw [← hbyte] at hrest
      -- the space in front would belong to the keyword, or `extra` to the spaces
      rcases List.append_eq_append_iff.mp hrest with ⟨rest, -, hblanks⟩ | ⟨rest, hword, -⟩
      · refine absurd (hlast.2 first ?_) hspace
        rw [hblanks]
        exact List.mem_append_right _ (List.mem_of_mem_head? hfirst)
      · refine absurd (isNameByte_of_from hfrom (ch ' ') ?_) not_isNameByte_space
        rw [hword]
        simp

/-- A later `FROM` of the tail makes a longer match. -/
theorem longer_mem (statement : SelectFrom) {rest : Bytes}
    (hbehind : BehindFrom statement.tail rest) :
    ∃ extra, extra ++ rest = statement.name ++ statement.tail ∧ extra ≠ [] ∧
      statement.head ++ extra ∈ columnfamilyRule.language := by
  obtain ⟨front, word, blanks, htail, hline, hword, hblanks⟩ := hbehind
  refine ⟨statement.name ++ front ++ [ch ' '] ++ word ++ blanks, ?_, by simp, ?_⟩
  · rw [htail]
    simp
  · refine mem_columnfamilyRule.mpr ⟨[], statement.select, statement.gap,
      statement.names ++ statement.gap' ++ statement.from' ++ statement.last ++
        statement.name ++ front, [ch ' '], word, blanks, ?_, ?_, statement.isSelect,
      statement.isGap, ⟨?_, ?_⟩, ⟨by simp, by simp [Blanks]⟩, hword, hblanks⟩
    · simp [SelectFrom.head]
    · intro byte hmem
      cases hmem
    · simp [statement.isSelectList.nonempty]
    · have hhead := newline_notMem statement.head_mem
      have hname : ch '\n' ∉ statement.name := by
        intro hmem
        exact absurd (statement.isName.bytes _ hmem) (by decide)
      simp only [SelectFrom.head, List.mem_append, not_or] at hhead ⊢
      tauto

/-- A longer match ends behind a later `FROM` of the tail. -/
theorem behindFrom_of_longer (statement : SelectFrom) {extra rest : Bytes}
    (hne : extra ≠ [])
    (hmem : statement.head ++ extra ∈ columnfamilyRule.language)
    (hsame : extra ++ rest = statement.name ++ statement.tail) :
    BehindFrom statement.tail rest := by
  obtain ⟨blanks, hlast⟩ := snoc_of_blanks statement.isLast.1 statement.isLast.2
  have hname := statement.isName
  obtain ⟨first, more, hfirst⟩ := List.exists_cons_of_ne_nil hname.nonempty
  have hbyte : IsNameByte first := hname.bytes first (by simp [hfirst])
  have hhead : extra.head? = some first := by
    cases extra with
    | nil => exact absurd rfl hne
    | cons byte extra =>
        rw [hfirst, List.cons_append, List.cons_append, List.cons.injEq] at hsame
        exact congrArg some hsame.1
  rw [SelectFrom.head, hlast, ← List.append_assoc _ blanks] at hmem
  obtain ⟨word, spaces, hword, hspaces, rfl | ⟨more, hline, rfl⟩⟩ :=
    longer_match hmem hhead fun heq => not_isNameByte_space (heq ▸ hbyte)
  · -- the longer match would end behind the name itself
    rw [List.append_assoc] at hsame
    obtain ⟨space, more, rfl⟩ := List.exists_cons_of_ne_nil hspaces.1
    have hblank : space = ch ' ' := hspaces.2 space List.mem_cons_self
    have hwords := nameBytes_unique (isNameByte_of_from hword) hname.bytes
      (by simp [hblank, not_isNameByte_space]) statement.isTail.stop hsame
    rw [hwords] at hword
    exact absurd hword hname.notFrom
  · have hsplit : more ++ ch ' ' :: (word ++ spaces ++ rest) =
        statement.name ++ statement.tail := by
      rw [← hsame]
      simp
    rcases List.append_eq_append_iff.mp hsplit with ⟨front, hfront, hrest⟩ | ⟨front, rfl, htail⟩
    · cases front with
      | nil =>
          refine ⟨[], word, spaces, ?_, by simp, hword, hspaces⟩
          rw [List.nil_append] at hrest
          rw [← hrest]
          simp
      | cons byte front =>
          rw [List.cons_append, List.cons.injEq] at hrest
          refine absurd (hname.bytes (ch ' ') ?_) not_isNameByte_space
          rw [hfront, hrest.1]
          simp
    · refine ⟨front, word, spaces, ?_, fun hin => hline (by simp [hin]), hword, hspaces⟩
      rw [htail]
      simp

/-! ## The scanner's answer -/

/-- A match ends with a space, so it stops in front of the terminator. -/
theorem match_within_text {text word rest after : Bytes}
    (hword : word ∈ columnfamilyRule.language)
    (hsame : word ++ rest = text ++ 0 :: ch '\n' :: after) :
    ∃ more, text = word ++ more ∧ rest = more ++ 0 :: ch '\n' :: after := by
  have hline := newline_notMem hword
  rcases List.append_eq_append_iff.mp hsame with ⟨more, rfl, rfl⟩ | ⟨more, rfl, hrest⟩
  · exact ⟨more, rfl, rfl⟩
  · match more, hrest with
    | [], hrest => exact ⟨[], by simp, by simpa using hrest.symm⟩
    | [byte], hrest =>
        obtain ⟨lead, select, gap, names, gap', from', last, hparts, -, -, -, -, -, -, hlast⟩ :=
          mem_columnfamilyRule.mp hword
        obtain ⟨last, rfl⟩ := snoc_of_blanks hlast.1 hlast.2
        rw [← List.append_assoc] at hparts
        obtain ⟨-, hbyte⟩ := List.append_inj' hparts rfl
        rw [hbyte, List.singleton_append, List.cons.injEq] at hrest
        exact absurd hrest.1 (by decide)
    | byte :: other :: more, hrest =>
        simp only [List.cons_append, List.cons.injEq] at hrest
        exact absurd (by simp [hrest.2.1]) hline

/-- What follows the longest match: the rest behind the last `FROM`. -/
theorem exists_longest (statement : SelectFrom) (after : Bytes) :
    ∃ rest, (scanColumnfamily (statement.memory after)).map Scan.token =
        some (firstName (rest ++ 0 :: ch '\n' :: after)) ∧
      0 ∉ rest ∧
      ((rest = statement.name ++ statement.tail ∧
          ∀ other, ¬ BehindFrom statement.tail other) ∨
        BehindLastFrom statement.tail rest) := by
  have hmemory : ch '\n' ∈ statement.memory after := by
    simp [SelectFrom.memory]
  have hlong : 1 < (statement.memory after).length := by
    rw [SelectFrom.memory, List.length_append, List.length_cons, List.length_cons]
    omega
  obtain ⟨halt, hscan, hmatch⟩ := columnfamily_halts hmemory hlong
  cases haccepted : halt.accepted with
  | none =>
      rw [haccepted] at hmatch
      exact absurd statement.head_mem (hmatch _ (statement.head_prefix after))
  | some str =>
      have htoken := @answer_token (statement.memory after) halt
      rw [haccepted] at hmatch htoken
      obtain ⟨word, hword, hsame, hall⟩ := hmatch
      obtain ⟨more, htext, rfl⟩ := match_within_text hword hsame
      obtain ⟨extra, rfl⟩ := hall _ (statement.head_prefix after) statement.head_mem
      rw [SelectFrom.text, List.append_assoc, List.append_assoc,
        List.append_cancel_left_eq] at htext
      have hlongest {other : Bytes} (hother : BehindFrom statement.tail other) :
          ∃ longer, longer ≠ [] ∧ longer.length ≤ extra.length ∧
            longer ++ other = extra ++ more := by
        obtain ⟨longer, hlonger, hne, hmem⟩ := longer_mem statement hother
        have hprefix := hall _ (statement.prefix_memory after hlonger) hmem
        refine ⟨longer, hne, ?_, hlonger.trans htext⟩
        exact ((List.prefix_append_right_inj _).mp hprefix).length_le
      refine ⟨more, ?_, ?_, ?_⟩
      · rw [scanColumnfamily, hscan, Option.bind_some, htoken (by simp), Option.bind_some]
      · have hfree := statement.nulFree
        rw [htext, List.mem_append, not_or] at hfree
        exact hfree.2
      · by_cases hextra : extra = []
        · subst hextra
          refine Or.inl ⟨htext.symm, fun other hother => ?_⟩
          obtain ⟨longer, hne, hlength, -⟩ := hlongest hother
          exact hne (List.length_eq_zero_iff.mp (Nat.le_zero.mp hlength))
        · refine Or.inr ⟨behindFrom_of_longer statement hextra hword htext.symm, ?_⟩
          intro other hother
          obtain ⟨longer, -, hlength, hsplit⟩ := hlongest hother
          have htotal := congrArg List.length hsplit
          rw [List.length_append, List.length_append] at htotal
          omega

/-- Two memories behind the last `FROM` are one. -/
theorem BehindLastFrom.unique {tail rest other : Bytes} (hrest : BehindLastFrom tail rest)
    (hother : BehindLastFrom tail other) : rest = other := by
  have hlength := Nat.le_antisymm (hrest.2 _ hother.1) (hother.2 _ hrest.1)
  obtain ⟨⟨front, word, blanks, htail, -⟩, -⟩ := hrest
  obtain ⟨⟨front', word', blanks', htail', -⟩, -⟩ := hother
  exact (List.append_inj' (htail.symm.trans htail') hlength).2

/-- The scanner finds the name behind `FROM` exactly when it stands where it looks. -/
theorem scanColumnfamily_name_iff (statement : SelectFrom) (after : Bytes) :
    (scanColumnfamily (statement.memory after)).map Scan.token = some (some statement.name) ↔
      NameStands statement.name statement.tail := by
  have hspace : ch ' ' ∉ statement.name :=
    fun hmem => not_isNameByte_space (statement.isName.bytes _ hmem)
  obtain ⟨rest, htoken, hfree, hrest⟩ := exists_longest statement after
  rw [htoken, Option.some_inj, firstName_terminated hfree]
  simp only [ne_eq, statement.isName.nonempty, not_false_eq_true, hspace, true_and]
  rcases hrest with ⟨rfl, hnone⟩ | hlast
  · constructor
    · rintro ⟨rest, hsame, hclosed⟩
      rw [List.append_cancel_left_eq] at hsame
      exact Or.inl ⟨hnone, hsame ▸ hclosed⟩
    · rintro (⟨-, hclosed⟩ | ⟨rest, hlast, -⟩)
      · exact ⟨_, rfl, hclosed⟩
      · exact absurd hlast.1 (hnone _)
  · constructor
    · rintro ⟨rest, rfl, hclosed⟩
      exact Or.inr ⟨rest, hlast, hclosed⟩
    · rintro (⟨hnone, -⟩ | ⟨rest, hother, hclosed⟩)
      · exact absurd hlast.1 (hnone _)
      · exact ⟨rest, hlast.unique hother, hclosed⟩

theorem selectList_a : SelectList (bytesOf "a") where
  nonempty := by decide
  line := by decide
  nulFree := by decide
  noLead := by decide
  noTrail := by decide
  noFrom := by
    intro front word back hword heq
    have hlength := congrArg List.length heq
    simp only [bytesOf, List.length_append, List.length_cons, List.length_map] at hlength
    have hone : "a".toList.length = 1 := rfl
    omega

theorem familyName_t : FamilyName (bytesOf "t") where
  nonempty := by decide
  bytes := by
    intro byte hbyte
    obtain rfl : byte = ch 't' := List.mem_singleton.mp hbyte
    decide
  notFrom := by decide

/-- `SELECT a FROM t`, and a tail. -/
def selectFromT (tail : Bytes) (isTail : Tail tail) : SelectFrom where
  select := bytesOf "SELECT"
  gap := bytesOf " "
  names := bytesOf "a"
  gap' := bytesOf " "
  from' := bytesOf "FROM"
  last := bytesOf " "
  name := bytesOf "t"
  tail
  isSelect := by decide
  isGap := by decide
  isSelectList := selectList_a
  isGap' := by decide
  isFrom := by decide
  isLast := by decide
  isName := familyName_t
  isTail

theorem tail_semicolon : Tail (bytesOf ";") where
  nulFree := by decide
  stop := by
    intro byte hbyte
    obtain rfl : ch ';' = byte := Option.some.inj hbyte
    decide

theorem tail_literal : Tail (bytesOf " WHERE b = 'x from y'") where
  nulFree := by decide
  stop := by
    intro byte hbyte
    obtain rfl : ch ' ' = byte := Option.some.inj hbyte
    exact not_isNameByte_space

/-- A semicolon goes into the name, and a string literal may hold the last `FROM`. -/
theorem not_name_semicolon_and_literal :
    (∃ statement : SelectFrom, statement.text = bytesOf "SELECT a FROM t;" ∧
      statement.name = bytesOf "t" ∧
      (scanColumnfamily (statement.memory [])).map Scan.token = some (some (bytesOf "t;"))) ∧
    ∃ statement : SelectFrom,
      statement.text = bytesOf "SELECT a FROM t WHERE b = 'x from y'" ∧
      statement.name = bytesOf "t" ∧
      (scanColumnfamily (statement.memory [])).map Scan.token = some (some (bytesOf "y'")) := by
  refine ⟨⟨selectFromT _ tail_semicolon, by decide, rfl, by decide⟩,
    ⟨selectFromT _ tail_literal, by decide, rfl, by decide⟩⟩

end PdoCassandra.Properties.ColumnFamilyName
