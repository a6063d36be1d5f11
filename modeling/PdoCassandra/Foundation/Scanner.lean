import PdoCassandra.Foundation.CString

/-!
# Generated scanners with one marker

The scanners of a `re2c` file are automata over the symbols under a cursor that
only moves forward.  They may remember one cursor position, the marker, and come
back to it when a longer match fails.  With the refill hooks empty, nothing but
the automaton itself stops the cursor: `scan` is `none` when it leaves the
memory it was given.
-/

namespace PdoCassandra.Foundation.Scanner

variable {State Symbol : Type}

/-- What an automaton does once it has looked at the symbol under the cursor. -/
inductive Move (State : Type) where
  /-- Advance the cursor and look at the next symbol in state `next`. -/
  | shift (next : State)
  /-- The same, with the advanced cursor remembered under an accept number. -/
  | mark (next : State) (accept : Nat)
  /-- Advance once more, load a symbol that is not looked at, and give up. -/
  | drop
  /-- Give up. -/
  | reject
  /-- Return to the marker, and accept there unless the accept number is `0`. -/
  | restore
  /-- Accept at the cursor. -/
  | accept
  deriving DecidableEq

/-- Where a scanner halted. -/
structure Halt (Symbol : Type) where
  /-- The memory at the accepting cursor, if a rule matched. -/
  accepted : Option (List Symbol)
  /-- The memory at the last symbol the automaton loaded. -/
  stop : List Symbol
  deriving DecidableEq

/-- Run an automaton from the symbol under the cursor. -/
def scan (next : State → Symbol → Move State) :
    State → Nat → List Symbol → List Symbol → Option (Halt Symbol)
  | _, _, _, [] => none
  | state, yyaccept, marker, symbol :: rest =>
      match next state symbol with
      | .shift after => scan next after yyaccept marker rest
      | .mark after accept => scan next after accept rest rest
      | .drop =>
          match rest with
          | [] => none
          | _ :: _ => some ⟨none, rest⟩
      | .reject => some ⟨none, symbol :: rest⟩
      | .restore =>
          some ⟨if yyaccept = 0 then none else some marker, symbol :: rest⟩
      | .accept => some ⟨some (symbol :: rest), symbol :: rest⟩

/-- The state a move continues in, if it continues. -/
def Move.target? : Move State → Option State
  | .shift next => some next
  | .mark next _ => some next
  | _ => none

/-- Where the automaton halts does not depend on the marker. -/
def stop? (next : State → Symbol → Move State) (state : State)
    (input : List Symbol) : Option (List Symbol) :=
  (scan next state 0 [] input).map Halt.stop

variable {next : State → Symbol → Move State}

theorem scan_map_stop (state : State) (yyaccept : Nat)
    (marker input : List Symbol) :
    (scan next state yyaccept marker input).map Halt.stop =
      stop? next state input := by
  unfold stop?
  suffices hall : ∀ (first second : Nat) (left right : List Symbol),
      (scan next state first left input).map Halt.stop =
        (scan next state second right input).map Halt.stop from hall _ _ _ _
  induction input generalizing state with
  | nil => intros; rfl
  | cons symbol rest ih =>
      intro first second left right
      simp only [scan]
      cases next state symbol with
      | shift after => exact ih after _ _ _ _
      | mark after accept => exact ih after _ _ _ _
      | drop => cases rest <;> rfl
      | reject | restore | accept => rfl

theorem stop?_nil (state : State) : stop? next state [] = none := rfl

/-- A move that continues hands the rest of the input to its target. -/
theorem stop?_cons_of_target {state after : State} {symbol : Symbol}
    (htarget : (next state symbol).target? = some after) (rest : List Symbol) :
    stop? next state (symbol :: rest) = stop? next after rest := by
  unfold stop?
  simp only [scan]
  cases hmove : next state symbol with
  | shift other =>
      simp only [hmove, Move.target?, Option.some.injEq] at htarget
      rw [htarget]
  | mark other accept =>
      simp only [hmove, Move.target?, Option.some.injEq] at htarget
      rw [htarget]
      exact scan_map_stop after accept rest rest
  | drop | reject | restore | accept => simp [hmove, Move.target?] at htarget

/-- A move that does not continue halts on the spot, if what it loads is there. -/
theorem stop?_cons_of_halt {state : State} {symbol : Symbol} {rest : List Symbol}
    (htarget : (next state symbol).target? = none)
    (hload : next state symbol = .drop → rest ≠ []) :
    (stop? next state (symbol :: rest)).isSome := by
  unfold stop?
  simp only [scan]
  cases hmove : next state symbol with
  | shift other => simp [hmove, Move.target?] at htarget
  | mark other accept => simp [hmove, Move.target?] at htarget
  | drop =>
      cases rest with
      | nil => exact absurd rfl (hload hmove)
      | cons second rest => rfl
  | reject | restore | accept => rfl

section

variable {entry : State} {symbol : Symbol}

/-- A symbol on which every state halts stops the automaton behind the entry. -/
theorem stop?_isSome_of_mem (hback : ∀ state symbol, (next state symbol).target? ≠ some entry)
    (hlooks : ∀ state symbol, state ≠ entry → next state symbol ≠ .drop)
    (hhalts : ∀ state, (next state symbol).target? = none) {state : State}
    (hstate : state ≠ entry) {input : List Symbol} (hmem : symbol ∈ input) :
    (stop? next state input).isSome := by
  induction input generalizing state with
  | nil => cases hmem
  | cons first rest ih =>
      cases htarget : (next state first).target? with
      | none =>
          exact stop?_cons_of_halt htarget fun hdrop => absurd hdrop (hlooks _ _ hstate)
      | some after =>
          rw [stop?_cons_of_target htarget]
          rcases List.mem_cons.mp hmem with rfl | hrest
          · rw [hhalts state] at htarget
            cases htarget
          · exact ih (fun heq => hback state first (heq ▸ htarget)) hrest

/-- Only the entry may load a symbol unseen, which is there in an input of two. -/
theorem stop?_entry_isSome (hback : ∀ state symbol, (next state symbol).target? ≠ some entry)
    (hlooks : ∀ state symbol, state ≠ entry → next state symbol ≠ .drop)
    (hhalts : ∀ state, (next state symbol).target? = none) {input : List Symbol}
    (hmem : symbol ∈ input) (hlong : 1 < input.length) :
    (stop? next entry input).isSome := by
  obtain ⟨first, rest, rfl⟩ := List.exists_cons_of_ne_nil (List.ne_nil_of_mem hmem)
  cases htarget : (next entry first).target? with
  | none =>
      refine stop?_cons_of_halt htarget fun _ => ?_
      rintro rfl
      exact absurd hlong (Nat.lt_irrefl 1)
  | some after =>
      have hinner : after ≠ entry := by
        rintro rfl
        exact hback _ _ htarget
      rw [stop?_cons_of_target htarget]
      rcases List.mem_cons.mp hmem with rfl | hrest
      · rw [hhalts entry] at htarget
        cases htarget
      · exact stop?_isSome_of_mem hback hlooks hhalts hinner hrest

end

/-- A scanner that halts does so on a symbol that is there. -/
theorem stop?_ne_nil {state : State} {input stop : List Symbol}
    (hstop : stop? next state input = some stop) : stop ≠ [] := by
  induction input generalizing state with
  | nil => cases hstop
  | cons symbol rest ih =>
      cases htarget : (next state symbol).target? with
      | some after =>
          rw [stop?_cons_of_target htarget] at hstop
          exact ih hstop
      | none =>
          simp only [stop?, scan] at hstop
          cases hmove : next state symbol with
          | shift other => simp [hmove, Move.target?] at htarget
          | mark other accept => simp [hmove, Move.target?] at htarget
          | drop =>
              cases rest with
              | nil => simp [hmove] at hstop
              | cons second rest =>
                  simp only [hmove, Option.map_some, Option.some.injEq] at hstop
                  rw [← hstop]
                  exact List.cons_ne_nil _ _
          | reject | restore | accept =>
              simp only [hmove, Option.map_some, Option.some.injEq] at hstop
              rw [← hstop]
              exact List.cons_ne_nil _ _

/-! ## Extending the memory -/

/-- The same halt in a memory that goes on with `rest`. -/
def Halt.extend (halt : Halt Symbol) (rest : List Symbol) : Halt Symbol :=
  ⟨halt.accepted.map (· ++ rest), halt.stop ++ rest⟩

/-- A scanner that halts within `input` halts alike whatever follows it. -/
theorem scan_append {state : State} {yyaccept : Nat}
    {marker input : List Symbol} {halt : Halt Symbol}
    (hscan : scan next state yyaccept marker input = some halt)
    (rest : List Symbol) :
    scan next state yyaccept (marker ++ rest) (input ++ rest) =
      some (halt.extend rest) := by
  induction input generalizing state yyaccept marker with
  | nil => simp [scan] at hscan
  | cons symbol input ih =>
      rw [List.cons_append]
      simp only [scan] at hscan ⊢
      cases hmove : next state symbol with
      | shift after =>
          simp only [hmove] at hscan
          exact ih hscan
      | mark after accept =>
          simp only [hmove] at hscan
          exact ih hscan
      | restore =>
          simp only [hmove, Option.some.injEq] at hscan
          subst hscan
          by_cases hzero : yyaccept = 0 <;> simp [Halt.extend, hzero]
      | drop =>
          cases input with
          | nil => simp [hmove] at hscan
          | cons second input =>
              simp only [hmove, Option.some.injEq] at hscan
              subst hscan
              simp [Halt.extend]
      | reject | accept =>
          simp only [hmove, Option.some.injEq] at hscan
          subst hscan
          simp [Halt.extend]

/-- A scanner halts inside its memory. -/
theorem scan_stop_length_le {state : State} {yyaccept : Nat} {marker input : List Symbol}
    {halt : Halt Symbol} (hscan : scan next state yyaccept marker input = some halt) :
    halt.stop.length ≤ input.length := by
  induction input generalizing state yyaccept marker with
  | nil => simp [scan] at hscan
  | cons symbol input ih =>
      simp only [scan] at hscan
      cases hmove : next state symbol with
      | shift after =>
          simp only [hmove] at hscan
          exact Nat.le_succ_of_le (ih hscan)
      | mark after accept =>
          simp only [hmove] at hscan
          exact Nat.le_succ_of_le (ih hscan)
      | drop =>
          cases input with
          | nil => simp [hmove] at hscan
          | cons second input =>
              simp only [hmove, Option.some.injEq] at hscan
              subst hscan
              simp
      | reject | restore | accept =>
          simp only [hmove, Option.some.injEq] at hscan
          subst hscan
          simp

/-- A scanner that leaves `input` loads at least one symbol behind it. -/
theorem scan_append_of_none {state : State} {yyaccept : Nat}
    {marker input rest : List Symbol} {halt : Halt Symbol}
    (hnone : stop? next state input = none)
    (hscan : scan next state yyaccept marker (input ++ rest) = some halt) :
    halt.stop.length ≤ rest.length := by
  induction input generalizing state yyaccept marker with
  | nil =>
      rw [List.nil_append] at hscan
      exact scan_stop_length_le hscan
  | cons symbol input ih =>
      cases htarget : (next state symbol).target? with
      | none =>
          by_cases hload : next state symbol = .drop → input ≠ []
          · have hsome := stop?_cons_of_halt htarget hload
            rw [hnone] at hsome
            cases hsome
          · -- the symbol that is loaded is the first one behind
            obtain ⟨hdrop, hempty⟩ := Classical.not_imp.mp hload
            obtain rfl : input = [] := Classical.not_not.mp hempty
            rw [List.singleton_append] at hscan
            simp only [scan, hdrop] at hscan
            cases rest with
            | nil => cases hscan
            | cons second rest =>
                cases hscan
                exact Nat.le_refl _
      | some after =>
          rw [stop?_cons_of_target htarget] at hnone
          rw [List.cons_append] at hscan
          simp only [scan] at hscan
          cases hmove : next state symbol with
          | shift other =>
              simp only [hmove, Move.target?, Option.some.injEq] at hscan htarget
              subst htarget
              exact ih hnone hscan
          | mark other accept =>
              simp only [hmove, Move.target?, Option.some.injEq] at hscan htarget
              subst htarget
              exact ih hnone hscan
          | drop | reject | restore | accept =>
              simp [hmove, Move.target?] at htarget

/-- The marker is not used under the accept number `0`. -/
theorem scan_marker (state : State) (marker other input : List Symbol) :
    scan next state 0 marker input = scan next state 0 other input := by
  induction input generalizing state with
  | nil => rfl
  | cons symbol rest ih =>
      simp only [scan]
      cases next state symbol with
      | shift after => exact ih after
      | drop => cases rest <;> rfl
      | mark after accept | reject | restore | accept => rfl

/-- The target of a move that keeps the accept number `0`. -/
def Move.skip? : Move State → Option State
  | .shift next => some next
  | .mark next 0 => some next
  | _ => none

/-- Under the accept number `0`, these moves end the scan without a match. -/
def Move.givesUp : Move State → Bool
  | .drop | .reject | .restore => true
  | _ => false

theorem scan_skip {state after : State} {symbol : Symbol}
    (hskip : (next state symbol).skip? = some after) (marker rest : List Symbol) :
    scan next state 0 marker (symbol :: rest) = scan next after 0 marker rest := by
  simp only [scan]
  cases hmove : next state symbol with
  | shift other =>
      simp only [hmove, Move.skip?, Option.some.injEq] at hskip
      rw [hskip]
  | mark other accept =>
      cases accept with
      | zero =>
          simp only [hmove, Move.skip?, Option.some.injEq] at hskip
          rw [hskip]
          exact scan_marker after rest marker rest
      | succ accept => simp [hmove, Move.skip?] at hskip
  | drop | reject | restore | accept => simp [hmove, Move.skip?] at hskip

theorem scan_givesUp {state : State} {symbol : Symbol} {rest : List Symbol}
    (hgives : (next state symbol).givesUp = true) (hrest : rest ≠ [])
    (marker : List Symbol) :
    ∃ stop, scan next state 0 marker (symbol :: rest) = some ⟨none, stop⟩ := by
  obtain ⟨second, rest, rfl⟩ := List.exists_cons_of_ne_nil hrest
  simp only [scan]
  cases hmove : next state symbol with
  | drop | reject | restore => exact ⟨_, rfl⟩
  | shift other | mark other accept | accept => simp [hmove, Move.givesUp] at hgives

/-- These two moves end the scan without a match under any accept number. -/
theorem accepted_eq_none {state : State} {yyaccept : Nat} {symbol : Symbol}
    {marker rest : List Symbol} {halt : Halt Symbol}
    (hmove : next state symbol = .drop ∨ next state symbol = .reject)
    (hscan : scan next state yyaccept marker (symbol :: rest) = some halt) :
    halt.accepted = none := by
  simp only [scan] at hscan
  rcases hmove with hdrop | hreject
  · cases rest with
    | nil => simp [hdrop] at hscan
    | cons second rest =>
        simp only [hdrop, Option.some.injEq] at hscan
        rw [← hscan]
  · simp only [hreject, Option.some.injEq] at hscan
    rw [← hscan]

/-- A match comes behind at least one symbol more, unless the move is an accept. -/
theorem ne_nil_of_scan {state : State} {symbol : Symbol} {marker rest : List Symbol}
    {halt : Halt Symbol} (hmove : next state symbol ≠ .accept)
    (hscan : scan next state 0 marker (symbol :: rest) = some halt)
    (haccepted : halt.accepted ≠ none) : rest ≠ [] := by
  rintro rfl
  simp only [scan] at hscan
  cases hcase : next state symbol with
  | shift after | mark after accept | drop => simp [hcase] at hscan
  | reject | restore =>
      simp only [hcase, Option.some.injEq] at hscan
      subst hscan
      exact haccepted rfl
  | accept => exact hmove hcase

/-- An accepting cursor stands on a symbol of the input, or is the marker. -/
theorem scan_accepted {state : State} {yyaccept : Nat}
    {marker input accepted : List Symbol} {halt : Halt Symbol}
    (hmarker : yyaccept ≠ 0 → marker ≠ [])
    (hscan : scan next state yyaccept marker input = some halt)
    (haccepted : halt.accepted = some accepted) :
    accepted ≠ [] ∧
      (accepted <:+ input ∨ (yyaccept ≠ 0 ∧ accepted = marker)) := by
  induction input generalizing state yyaccept marker with
  | nil => simp [scan] at hscan
  | cons symbol rest ih =>
      have hrest : ∀ {suffix : List Symbol}, suffix <:+ rest →
          suffix <:+ symbol :: rest := fun h => h.trans (List.suffix_cons _ _)
      simp only [scan] at hscan
      cases hmove : next state symbol with
      | shift after =>
          simp only [hmove] at hscan
          obtain ⟨hne, hsuffix | hmark⟩ := ih hmarker hscan
          · exact ⟨hne, Or.inl (hrest hsuffix)⟩
          · exact ⟨hne, Or.inr hmark⟩
      | mark after accept =>
          simp only [hmove] at hscan
          have hne : rest ≠ [] := by
            rintro rfl
            simp [scan] at hscan
          obtain ⟨haccne, hsuffix | hmark⟩ := ih (fun _ => hne) hscan
          · exact ⟨haccne, Or.inl (hrest hsuffix)⟩
          · exact ⟨haccne, Or.inl (hmark.2 ▸ List.suffix_cons _ _)⟩
      | restore =>
          simp only [hmove, Option.some.injEq] at hscan
          subst hscan
          by_cases hzero : yyaccept = 0
          · simp [hzero] at haccepted
          · simp only [hzero, if_false, Option.some.injEq] at haccepted
            subst haccepted
            exact ⟨hmarker hzero, Or.inr ⟨hzero, rfl⟩⟩
      | accept =>
          simp only [hmove, Option.some.injEq] at hscan
          subst hscan
          simp only [Option.some.injEq] at haccepted
          subst haccepted
          exact ⟨by simp, Or.inl (List.suffix_refl _)⟩
      | drop =>
          cases rest with
          | nil => simp [hmove] at hscan
          | cons second rest =>
              simp only [hmove, Option.some.injEq] at hscan
              subst hscan
              cases haccepted
      | reject =>
          simp only [hmove, Option.some.injEq] at hscan
          subst hscan
          cases haccepted

/-! ## Regions of an automaton -/

/--
A set of states that only the symbols of `Ends` leave.  Inside it the automaton
halts exactly when it meets such a symbol.
-/
structure Region (next : State → Symbol → Move State)
    (Inside : State → Prop) (Ends : Symbol → Prop) : Prop where
  looks : ∀ {state symbol}, Inside state → next state symbol ≠ .drop
  stays : ∀ {state symbol}, Inside state → ¬ Ends symbol →
    ∃ after, Inside after ∧ (next state symbol).target? = some after
  leaves : ∀ {state symbol}, Inside state → Ends symbol →
    (next state symbol).target? = none

theorem Region.stop?_eq_none_iff {Inside : State → Prop} {Ends : Symbol → Prop}
    (region : Region next Inside Ends) {state : State} (hinside : Inside state)
    (input : List Symbol) :
    stop? next state input = none ↔ ∀ symbol ∈ input, ¬ Ends symbol := by
  induction input generalizing state with
  | nil => simp [stop?_nil]
  | cons symbol rest ih =>
      by_cases hends : Ends symbol
      · have hsome := @stop?_cons_of_halt _ _ next state symbol rest
          (region.leaves hinside hends) fun hdrop => absurd hdrop (region.looks hinside)
        constructor
        · intro hnone
          rw [hnone] at hsome
          cases hsome
        · intro hnever
          exact absurd hends (hnever symbol List.mem_cons_self)
      · obtain ⟨after, hafter, htarget⟩ := region.stays hinside hends
        rw [stop?_cons_of_target htarget, ih hafter]
        simp [hends]

end PdoCassandra.Foundation.Scanner
