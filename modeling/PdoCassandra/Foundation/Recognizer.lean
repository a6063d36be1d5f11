import PdoCassandra.Foundation.Rule
import PdoCassandra.Foundation.Scanner

/-!
# Scanners that implement a rule

Each state of an automaton is annotated with the marks of the words that lead to
it.  When every transition agrees with the annotation, the automaton accepts
behind the longest prefix that matches the rule.  Whether it agrees is decided
state by state and symbol by symbol.
-/

namespace PdoCassandra.Foundation.Scanner

open PdoCassandra.Foundation

variable {State Symbol : Type}

/-! ## Longest matches -/

/-- What follows the longest prefix of a text that is in the language. -/
def LongestMatch (language : Language Symbol) (text : List Symbol) :
    Option (List Symbol) → Prop
  | none => ∀ word, word <+: text → word ∉ language
  | some after => ∃ word, word ∈ language ∧ word ++ after = text ∧
      ∀ other, other <+: text → other ∈ language → other <+: word

/-- What follows the longest match in `word`, with `rest` behind the word. -/
def MatchSoFar (language : Language Symbol) (word rest : List Symbol) :
    Option (List Symbol) → Prop
  | none => ∀ other, other <+: word → other ∉ language
  | some after => ∃ longest, longest ∈ language ∧ longest ++ after = word ++ rest ∧
      ∀ other, other <+: word → other ∈ language → other <+: longest

section

variable {language : Language Symbol} {word rest : List Symbol} {symbol : Symbol}
  {found : Option (List Symbol)}

/-- One more symbol, and no match. -/
theorem MatchSoFar.snoc_of_notMem (hmatch : MatchSoFar language word (symbol :: rest) found)
    (hmem : word ++ [symbol] ∉ language) :
    MatchSoFar language (word ++ [symbol]) rest found := by
  have hshorter {other : List Symbol} (hother : other <+: word ++ [symbol])
      (hlanguage : other ∈ language) : other <+: word := by
    rcases List.prefix_concat_iff.mp hother with rfl | hprefix
    · exact absurd hlanguage hmem
    · exact hprefix
  cases found with
  | none =>
      intro other hother hlanguage
      exact hmatch other (hshorter hother hlanguage) hlanguage
  | some after =>
      obtain ⟨longest, hlongest, hsame, hall⟩ := hmatch
      refine ⟨longest, hlongest, by simpa using hsame, fun other hother hlanguage => ?_⟩
      exact hall other (hshorter hother hlanguage) hlanguage

/-- A word that matches is its own longest match. -/
theorem matchSoFar_of_mem (hmem : word ∈ language) (rest : List Symbol) :
    MatchSoFar language word rest (some rest) :=
  ⟨word, hmem, rfl, fun _ hother _ => hother⟩

/-- Once nothing longer can match, the longest match is the text's. -/
theorem MatchSoFar.longestMatch (hmatch : MatchSoFar language word (symbol :: rest) found)
    (hdead : ∀ more, word ++ symbol :: more ∉ language) :
    LongestMatch language (word ++ symbol :: rest) found := by
  have hshorter {other : List Symbol} (hother : other <+: word ++ symbol :: rest)
      (hlanguage : other ∈ language) : other <+: word := by
    rcases List.prefix_or_prefix_of_prefix hother (List.prefix_append word _) with
      hprefix | ⟨more, rfl⟩
    · exact hprefix
    · cases more with
      | nil => rw [List.append_nil]
      | cons first more =>
          have hfirst := (List.prefix_append_right_inj word).mp hother
          obtain ⟨rfl, -⟩ := List.cons_prefix_cons.mp hfirst
          exact absurd hlanguage (hdead more)
  cases found with
  | none =>
      intro other hother hlanguage
      exact hmatch other (hshorter hother hlanguage) hlanguage
  | some after =>
      obtain ⟨longest, hlongest, hsame, hall⟩ := hmatch
      refine ⟨longest, hlongest, hsame, fun other hother hlanguage => ?_⟩
      exact hall other (hshorter hother hlanguage) hlanguage

end

/-! ## Annotated automata -/

structure Annotation (State : Type) where
  /-- The marks of the words that lead to a state. -/
  marks : State → List Bool
  /-- The word matches, and no marker stands for the match. -/
  sure : State → Bool
  /-- No word that leads to the state has left a marker. -/
  early : State → Bool

/-- A scanner in front of `input`, having come there through `word`. -/
structure Tracks (rule : Rule Symbol) (table : Annotation State) (state : State)
    (yyaccept : Nat) (marker word input : List Symbol) : Prop where
  marks : rule.Marks word (table.marks state)
  early : table.early state = true → yyaccept = 0
  found : MatchSoFar rule.language word input
    (if table.sure state then some input else if yyaccept = 0 then none else some marker)

section

variable {rule : Rule Symbol} {table : Annotation State} {state : State} {yyaccept : Nat}
  {marker word input : List Symbol} {symbol : Symbol}

/-- The marks behind the next symbol tell whether the longer word matches. -/
theorem Tracks.complete_iff
    (htracks : Tracks rule table state yyaccept marker word (symbol :: input)) :
    Rule.complete (rule.step (table.marks state) symbol) = true ↔
      word ++ [symbol] ∈ rule.language :=
  (htracks.marks.step symbol).complete_iff

/-- Where the marks are dead, the match in front of the symbol is the text's. -/
theorem Tracks.longestMatch
    (htracks : Tracks rule table state yyaccept marker word (symbol :: input))
    (hisDead : Rule.isDead (rule.step (table.marks state) symbol) = true)
    {found : Option (List Symbol)}
    (hfound : MatchSoFar rule.language word (symbol :: input) found) :
    LongestMatch rule.language (word ++ symbol :: input) found := by
  refine hfound.longestMatch fun more => ?_
  have hnot := Rule.notMem_of_isDead (htracks.marks.step symbol) hisDead more
  rwa [List.append_assoc, List.singleton_append] at hnot

end

/-- A transition is what the marks of the state and the symbol call for. -/
def agrees [DecidableEq State] (rule : Rule Symbol) (next : State → Symbol → Move State)
    (table : Annotation State) (state : State) (symbol : Symbol) : Bool :=
  let reached := rule.step (table.marks state) symbol
  match next state symbol with
  | .shift after =>
      reached = table.marks after ∧ Rule.complete reached = table.sure after ∧
        (table.sure state → table.sure after) ∧ (table.early after → table.early state)
  | .mark after accept =>
      reached = table.marks after ∧ (Rule.complete reached ↔ accept ≠ 0) ∧
        table.sure after = false ∧
        (accept = 0 → table.sure state = false ∧ table.early state) ∧
        (table.early after → accept = 0)
  | .drop | .reject => Rule.isDead reached ∧ table.sure state = false ∧ table.early state
  | .restore => Rule.isDead reached ∧ table.sure state = false
  | .accept => Rule.isDead reached ∧ Rule.complete (table.marks state)

section

variable [DecidableEq State] {rule : Rule Symbol} {next : State → Symbol → Move State}
  {table : Annotation State}

/-- Symbols that neither the rule nor the automaton tells apart. -/
theorem agrees_congr {state : State} {symbol other : Symbol}
    (hnext : next state symbol = next state other)
    (hskip : rule.skip symbol = rule.skip other)
    (hitems : ∀ item ∈ rule.items, item.holds symbol = item.holds other) :
    agrees rule next table state symbol = agrees rule next table state other := by
  simp only [agrees, hnext, Rule.step_congr hskip hitems]

section

variable {state after : State} {yyaccept accept : Nat} {marker word input : List Symbol}
  {symbol : Symbol}

theorem Tracks.shift
    (htracks : Tracks rule table state yyaccept marker word (symbol :: input))
    (hmove : next state symbol = .shift after)
    (hagree : agrees rule next table state symbol = true) :
    Tracks rule table after yyaccept marker (word ++ [symbol]) input := by
  have hmem := htracks.complete_iff
  have hreached := htracks.marks.step symbol
  simp only [agrees, hmove, decide_eq_true_eq] at hagree
  obtain ⟨hsame, hcomplete, hsure, hback⟩ := hagree
  rw [hsame] at hreached
  refine ⟨hreached, fun hafter => htracks.early (hback hafter), ?_⟩
  cases hafter : table.sure after with
  | true => exact matchSoFar_of_mem (hmem.mp (hcomplete.trans hafter)) input
  | false =>
      have hstate : table.sure state = false := by
        cases hstate : table.sure state with
        | false => rfl
        | true => rw [← hafter, hsure hstate]
      have hnot : word ++ [symbol] ∉ rule.language := by
        rw [← hmem, hcomplete, hafter]
        simp
      have hfound := htracks.found
      rw [hstate] at hfound
      exact hfound.snoc_of_notMem hnot

theorem Tracks.mark
    (htracks : Tracks rule table state yyaccept marker word (symbol :: input))
    (hmove : next state symbol = .mark after accept)
    (hagree : agrees rule next table state symbol = true) :
    Tracks rule table after accept input (word ++ [symbol]) input := by
  have hmem := htracks.complete_iff
  have hreached := htracks.marks.step symbol
  simp only [agrees, hmove, decide_eq_true_eq] at hagree
  obtain ⟨hsame, hcomplete, hsure, hfirst, hback⟩ := hagree
  rw [hsame] at hreached
  refine ⟨hreached, hback, ?_⟩
  simp only [hsure, Bool.false_eq_true, if_false]
  by_cases haccept : accept = 0
  · obtain ⟨hstate, hsoon⟩ := hfirst haccept
    have hnot : word ++ [symbol] ∉ rule.language := by
      rw [← hmem, hcomplete]
      exact fun hne => hne haccept
    have hfound := htracks.found
    simp only [hstate, Bool.false_eq_true, if_false, htracks.early hsoon, if_true] at hfound
    rw [if_pos haccept]
    exact hfound.snoc_of_notMem hnot
  · rw [if_neg haccept]
    exact matchSoFar_of_mem (hmem.mp (hcomplete.mpr haccept)) input

/-- The scanner accepts behind the longest match, from wherever it has come to. -/
theorem Tracks.scan (hagrees : ∀ state symbol, agrees rule next table state symbol = true)
    {halt : Halt Symbol} (htracks : Tracks rule table state yyaccept marker word input)
    (hscan : scan next state yyaccept marker input = some halt) :
    LongestMatch rule.language (word ++ input) halt.accepted := by
  induction input generalizing state yyaccept marker word with
  | nil => simp [Scanner.scan] at hscan
  | cons symbol input ih =>
      have hagree := hagrees state symbol
      have hnone (hmove : next state symbol = .drop ∨ next state symbol = .reject) :
          halt.accepted = none := Scanner.accepted_eq_none hmove hscan
      simp only [Scanner.scan] at hscan
      cases hmove : next state symbol with
      | shift after =>
          simp only [hmove] at hscan
          rw [List.append_cons]
          exact ih (htracks.shift hmove hagree) hscan
      | mark after accept =>
          simp only [hmove] at hscan
          rw [List.append_cons]
          exact ih (htracks.mark hmove hagree) hscan
      | drop | reject =>
          simp only [agrees, hmove, decide_eq_true_eq] at hagree
          obtain ⟨hisDead, hstate, hsoon⟩ := hagree
          have hfound := htracks.found
          simp only [hstate, Bool.false_eq_true, if_false, htracks.early hsoon,
            if_true] at hfound
          rw [hnone (by simp [hmove])]
          exact htracks.longestMatch hisDead hfound
      | restore =>
          simp only [hmove, Option.some.injEq] at hscan
          subst hscan
          simp only [agrees, hmove, decide_eq_true_eq] at hagree
          obtain ⟨hisDead, hstate⟩ := hagree
          have hfound := htracks.found
          simp only [hstate, Bool.false_eq_true, if_false] at hfound
          exact htracks.longestMatch hisDead hfound
      | accept =>
          simp only [hmove, Option.some.injEq] at hscan
          subst hscan
          simp only [agrees, hmove, decide_eq_true_eq] at hagree
          obtain ⟨hisDead, hcomplete⟩ := hagree
          have hword := htracks.marks.complete_iff.mp hcomplete
          exact htracks.longestMatch hisDead (matchSoFar_of_mem hword (symbol :: input))

end

/-- A scanner that agrees with its annotation accepts behind the longest match. -/
theorem scan_longestMatch
    (hagrees : ∀ state symbol, agrees rule next table state symbol = true) {entry : State}
    (hstart : table.marks entry = rule.start) (hsure : table.sure entry = false)
    (hnil : Rule.complete rule.start = false) {text marker : List Symbol} {halt : Halt Symbol}
    (hscan : scan next entry 0 marker text = some halt) :
    LongestMatch rule.language text halt.accepted := by
  have hmarks : rule.Marks [] (table.marks entry) := by
    rw [hstart]
    exact rule.marks_start
  have htracks : Tracks rule table entry 0 marker [] text := by
    refine ⟨hmarks, fun _ => rfl, ?_⟩
    simp only [hsure, Bool.false_eq_true, if_false, if_true]
    intro word hword
    rw [List.prefix_nil.mp hword, ← rule.marks_start.complete_iff, hnil]
    simp
  exact htracks.scan hagrees hscan

end

end PdoCassandra.Foundation.Scanner
