import Mathlib.Computability.Language

/-!
# Scanner rules

A rule is a run of skipped symbols and a sequence of items behind it, each of
them one symbol of a class or a run of such symbols.  A word may stand behind
several beginnings of a rule at once; the marks of a word say behind which.
-/

namespace PdoCassandra.Foundation

inductive Item (Symbol : Type) where
  /-- One symbol of the class. -/
  | once (holds : Symbol → Bool)
  /-- One or more of them. -/
  | many (holds : Symbol → Bool)

structure Rule (Symbol : Type) where
  /-- Any number of these symbols may stand in front. -/
  skip : Symbol → Bool
  items : List (Item Symbol)

variable {Symbol : Type}

namespace Item

def holds : Item Symbol → Symbol → Bool
  | .once holds => holds
  | .many holds => holds

def repeats : Item Symbol → Bool
  | .once _ => false
  | .many _ => true

def language : Item Symbol → Language Symbol
  | .once holds => {word | ∃ symbol, holds symbol = true ∧ word = [symbol]}
  | .many holds => {word | word ≠ [] ∧ ∀ symbol ∈ word, holds symbol = true}

theorem nil_notMem_language (item : Item Symbol) : [] ∉ item.language := by
  cases item with
  | once holds =>
      rintro ⟨symbol, -, hnil⟩
      cases hnil
  | many holds =>
      rintro ⟨hne, -⟩
      exact hne rfl

theorem notMem_of_mem_language {item : Item Symbol} {symbol : Symbol}
    (hholds : item.holds symbol = false) {word : List Symbol}
    (hword : word ∈ item.language) : symbol ∉ word := by
  intro hmem
  cases item with
  | once holds =>
      obtain ⟨other, hother, rfl⟩ := hword
      obtain rfl := List.mem_singleton.mp hmem
      exact absurd (hother.symm.trans hholds) (by simp)
  | many holds => exact absurd ((hword.2 symbol hmem).symm.trans hholds) (by simp)

/-- The last symbol of an item stands behind nothing, or behind what it repeats. -/
theorem snoc_mem (item : Item Symbol) (word : List Symbol) (symbol : Symbol) :
    word ++ [symbol] ∈ item.language ↔
      item.holds symbol = true ∧
        (word = [] ∨ item.repeats = true ∧ word ∈ item.language) := by
  cases item with
  | once holds =>
      constructor
      · rintro ⟨last, hlast, hsame⟩
        obtain ⟨rfl, hlast'⟩ := List.append_inj' (hsame.trans (List.nil_append _).symm) rfl
        cases hlast'
        exact ⟨hlast, Or.inl rfl⟩
      · rintro ⟨hholds, rfl | ⟨hrepeats, -⟩⟩
        · exact ⟨symbol, hholds, rfl⟩
        · cases hrepeats
  | many holds =>
      constructor
      · rintro ⟨-, hall⟩
        have hfront : ∀ other ∈ word, holds other = true :=
          fun other hother => hall other (List.mem_append_left _ hother)
        refine ⟨hall symbol (by simp), ?_⟩
        by_cases hnil : word = []
        · exact Or.inl hnil
        · exact Or.inr ⟨rfl, hnil, hfront⟩
      · rintro ⟨hholds, hword⟩
        refine ⟨by simp, fun other hother => ?_⟩
        rcases List.mem_append.mp hother with hin | hin
        · rcases hword with rfl | ⟨-, -, hall⟩
          · cases hin
          · exact hall other hin
        · rw [List.mem_singleton.mp hin]
          exact hholds

/-- One more symbol begins an item, or goes on with one that repeats. -/
theorem snoc_mem_mul {before : Language Symbol} (item : Item Symbol) (word : List Symbol)
    (symbol : Symbol) :
    word ++ [symbol] ∈ before * item.language ↔
      item.holds symbol = true ∧
        (word ∈ before ∨ item.repeats = true ∧ word ∈ before * item.language) := by
  constructor
  · intro hmem
    obtain ⟨front, hfront, back, hback, happend⟩ := Language.mem_mul.mp hmem
    rcases List.eq_nil_or_concat' back with rfl | ⟨inner, last, rfl⟩
    · exact absurd hback item.nil_notMem_language
    · rw [← List.append_assoc] at happend
      obtain ⟨rfl, hsame⟩ := List.append_inj' happend rfl
      cases hsame
      obtain ⟨hholds, rfl | ⟨hrepeats, hinner⟩⟩ := (item.snoc_mem _ _).mp hback
      · rw [List.append_nil]
        exact ⟨hholds, Or.inl hfront⟩
      · exact ⟨hholds, Or.inr ⟨hrepeats, Language.append_mem_mul hfront hinner⟩⟩
  · rintro ⟨hholds, hbegin | ⟨hrepeats, hgoes⟩⟩
    · refine Language.append_mem_mul hbegin ?_
      exact (item.snoc_mem [] symbol).mpr ⟨hholds, Or.inl rfl⟩
    · obtain ⟨front, hfront, back, hback, rfl⟩ := Language.mem_mul.mp hgoes
      rw [List.append_assoc]
      refine Language.append_mem_mul hfront ?_
      exact (item.snoc_mem back symbol).mpr ⟨hholds, Or.inr ⟨hrepeats, hback⟩⟩

end Item

namespace Rule

/-- A beginning of a rule, followed by the items. -/
def follow : Language Symbol → List (Item Symbol) → Language Symbol
  | before, [] => before
  | before, item :: items => follow (before * item.language) items

/-- The words of skipped symbols. -/
def skipped (rule : Rule Symbol) : Language Symbol :=
  {word | ∀ symbol ∈ word, rule.skip symbol = true}

def language (rule : Rule Symbol) : Language Symbol :=
  follow rule.skipped rule.items

theorem follow_eq (before : Language Symbol) (items : List (Item Symbol)) :
    follow before items = before * (items.map Item.language).prod := by
  induction items generalizing before with
  | nil => rw [follow, List.map_nil, List.prod_nil, mul_one]
  | cons item items ih => rw [follow, ih, List.map_cons, List.prod_cons, mul_assoc]

/-- A symbol that no part of a rule holds on stands in no word that matches. -/
theorem notMem_of_mem_language {rule : Rule Symbol} {symbol : Symbol}
    (hskip : rule.skip symbol = false)
    (hitems : ∀ item ∈ rule.items, item.holds symbol = false) {word : List Symbol}
    (hword : word ∈ rule.language) : symbol ∉ word := by
  have hfollow (items : List (Item Symbol)) {before : Language Symbol}
      (hbefore : ∀ word ∈ before, symbol ∉ word)
      (hall : ∀ item ∈ items, item.holds symbol = false) :
      ∀ word ∈ follow before items, symbol ∉ word := by
    induction items generalizing before with
    | nil => exact hbefore
    | cons item items ih =>
        refine ih ?_ fun other hother => hall other (List.mem_cons_of_mem _ hother)
        intro word hword
        obtain ⟨front, hfront, back, hback, rfl⟩ := Language.mem_mul.mp hword
        rw [List.mem_append, not_or]
        exact ⟨hbefore front hfront, item.notMem_of_mem_language
          (hall item List.mem_cons_self) hback⟩
  refine hfollow rule.items (fun other hother hmem => ?_) hitems word hword
  rw [hother symbol hmem] at hskip
  cases hskip

/-! ## Marks -/

/-- The marks of a word behind a beginning of a rule, and behind each item more. -/
def MarksFrom : Language Symbol → List (Item Symbol) → List Symbol → List Bool → Prop
  | before, [], word, [here] => here = true ↔ word ∈ before
  | before, item :: items, word, here :: later =>
      (here = true ↔ word ∈ before) ∧ MarksFrom (before * item.language) items word later
  | _, _, _, _ => False

def Marks (rule : Rule Symbol) (word : List Symbol) (marks : List Bool) : Prop :=
  MarksFrom rule.skipped rule.items word marks

/-- The later marks behind one more symbol, given the mark in front of them. -/
def advance (symbol : Symbol) : Bool → List (Item Symbol) → List Bool → List Bool
  | before, item :: items, here :: later =>
      (item.holds symbol && (before || item.repeats && here)) ::
        advance symbol here items later
  | _, _, _ => []

/-- The marks behind one more symbol. -/
def step (rule : Rule Symbol) (marks : List Bool) (symbol : Symbol) : List Bool :=
  match marks with
  | here :: later => (rule.skip symbol && here) :: advance symbol here rule.items later
  | [] => []

/-- The marks of the empty word. -/
def start (rule : Rule Symbol) : List Bool :=
  true :: rule.items.map fun _ => false

/-- The mark behind the last item. -/
def complete (marks : List Bool) : Bool :=
  marks.getLast? = some true

def isDead (marks : List Bool) : Bool :=
  marks.all (! ·)

/-- The marks tell no symbols apart that every part of the rule holds on alike. -/
theorem step_congr {rule : Rule Symbol} {symbol other : Symbol}
    (hskip : rule.skip symbol = rule.skip other)
    (hitems : ∀ item ∈ rule.items, item.holds symbol = item.holds other)
    (marks : List Bool) : rule.step marks symbol = rule.step marks other := by
  have hadvance (items : List (Item Symbol)) (before : Bool) (later : List Bool)
      (hall : ∀ item ∈ items, item.holds symbol = item.holds other) :
      advance symbol before items later = advance other before items later := by
    induction items generalizing before later with
    | nil => rfl
    | cons item items ih =>
        cases later with
        | nil => rfl
        | cons here later =>
            rw [advance, advance, hall item List.mem_cons_self,
              ih _ _ fun next hnext => hall next (List.mem_cons_of_mem _ hnext)]
  cases marks with
  | nil => rfl
  | cons here later => rw [step, step, hskip, hadvance _ _ _ hitems]

theorem not_marksFrom_nil (before : Language Symbol) (items : List (Item Symbol))
    (word : List Symbol) : ¬ MarksFrom before items word [] := by
  cases items with
  | nil => exact id
  | cons item items => exact id

theorem MarksFrom.head {before : Language Symbol} {items : List (Item Symbol)}
    {word : List Symbol} {here : Bool} {later : List Bool}
    (hmarks : MarksFrom before items word (here :: later)) : here = true ↔ word ∈ before := by
  cases items with
  | nil =>
      cases later with
      | nil => exact hmarks
      | cons mark later => exact hmarks.elim
  | cons item items => exact hmarks.1

theorem MarksFrom.advance {before : Language Symbol} {items : List (Item Symbol)}
    {word : List Symbol} {here next : Bool} {later : List Bool} {symbol : Symbol}
    (hmarks : MarksFrom before items word (here :: later))
    (hnext : next = true ↔ word ++ [symbol] ∈ before) :
    MarksFrom before items (word ++ [symbol]) (next :: advance symbol here items later) := by
  induction items generalizing before here next later with
  | nil =>
      cases later with
      | nil => exact hnext
      | cons mark later => exact hmarks.elim
  | cons item items ih =>
      cases later with
      | nil => exact (not_marksFrom_nil _ _ _ hmarks.2).elim
      | cons mark later =>
          obtain ⟨hhere, hrest⟩ := hmarks
          refine ⟨hnext, ih hrest ?_⟩
          rw [item.snoc_mem_mul word symbol, ← hhere, ← hrest.head]
          simp

theorem Marks.step {rule : Rule Symbol} {word : List Symbol} {marks : List Bool}
    (hmarks : rule.Marks word marks) (symbol : Symbol) :
    rule.Marks (word ++ [symbol]) (rule.step marks symbol) := by
  cases marks with
  | nil => exact (not_marksFrom_nil _ _ _ hmarks).elim
  | cons here later =>
      refine MarksFrom.advance hmarks ?_
      have hhere := MarksFrom.head hmarks
      have hsnoc : word ++ [symbol] ∈ rule.skipped ↔
          rule.skip symbol = true ∧ word ∈ rule.skipped := by
        constructor
        · intro hall
          exact ⟨hall symbol (by simp), fun other hother => hall other (by simp [hother])⟩
        · rintro ⟨hlast, hall⟩ other hother
          rcases List.mem_append.mp hother with hin | hin
          · exact hall other hin
          · rw [List.mem_singleton.mp hin]
            exact hlast
      rw [hsnoc, Bool.and_eq_true, hhere]

/-- The empty word stands behind the skipped symbols and behind no item. -/
theorem marksFrom_nil {before : Language Symbol} {here : Bool}
    (hhere : here = true ↔ [] ∈ before) (items : List (Item Symbol)) :
    MarksFrom before items [] (here :: items.map fun _ => false) := by
  induction items generalizing before here with
  | nil => exact hhere
  | cons item items ih =>
      refine ⟨hhere, ih ?_⟩
      refine iff_of_false (by simp) fun hmem => ?_
      obtain ⟨front, -, back, hback, happend⟩ := Language.mem_mul.mp hmem
      obtain ⟨-, rfl⟩ := List.append_eq_nil_iff.mp happend
      exact item.nil_notMem_language hback

theorem marks_start (rule : Rule Symbol) : rule.Marks [] rule.start := by
  have hnil : [] ∈ rule.skipped := by
    intro symbol hmem
    cases hmem
  exact marksFrom_nil (iff_of_true rfl hnil) rule.items

/-- The last mark is the rule's own. -/
theorem MarksFrom.complete_iff {before : Language Symbol} {items : List (Item Symbol)}
    {word : List Symbol} {marks : List Bool} (hmarks : MarksFrom before items word marks) :
    complete marks = true ↔ word ∈ follow before items := by
  induction items generalizing before marks with
  | nil =>
      cases marks with
      | nil => exact (not_marksFrom_nil _ _ _ hmarks).elim
      | cons here later =>
          cases later with
          | nil => simpa [complete, follow] using hmarks.head
          | cons mark later => exact hmarks.elim
  | cons item items ih =>
      cases marks with
      | nil => exact (not_marksFrom_nil _ _ _ hmarks).elim
      | cons here later =>
          rw [follow, ← ih hmarks.2]
          cases later with
          | nil => exact (not_marksFrom_nil _ _ _ hmarks.2).elim
          | cons mark later => simp [complete]

theorem Marks.complete_iff {rule : Rule Symbol} {word : List Symbol} {marks : List Bool}
    (hmarks : rule.Marks word marks) : complete marks = true ↔ word ∈ rule.language :=
  MarksFrom.complete_iff hmarks

/-! ## Dead words -/

theorem isDead_advance (symbol : Symbol) (items : List (Item Symbol)) {later : List Bool}
    (hdead : isDead later = true) :
    isDead (advance symbol false items later) = true := by
  induction items generalizing later with
  | nil => cases later <;> rfl
  | cons item items ih =>
      cases later with
      | nil => rfl
      | cons mark later =>
          simp only [isDead, List.all_cons, Bool.and_eq_true, Bool.not_eq_true'] at hdead
          obtain ⟨rfl, hlater⟩ := hdead
          have hrest := ih hlater
          simpa [advance, isDead] using hrest

theorem isDead_step {rule : Rule Symbol} {marks : List Bool} (hdead : isDead marks = true)
    (symbol : Symbol) : isDead (rule.step marks symbol) = true := by
  cases marks with
  | nil => rfl
  | cons here later =>
      simp only [isDead, List.all_cons, Bool.and_eq_true, Bool.not_eq_true'] at hdead
      obtain ⟨rfl, hlater⟩ := hdead
      have hrest := isDead_advance symbol rule.items hlater
      simpa [step, isDead] using hrest

theorem not_complete_of_isDead {marks : List Bool} (hdead : isDead marks = true) :
    complete marks = false := by
  cases hlast : marks.getLast? with
  | none => simp [complete, hlast]
  | some mark =>
      have hmem := List.mem_of_getLast? hlast
      have hfalse := List.all_eq_true.mp hdead mark hmem
      simp only [Bool.not_eq_true'] at hfalse
      simp [complete, hlast, hfalse]

/-- Nothing that begins with a dead word matches. -/
theorem notMem_of_isDead {rule : Rule Symbol} {word : List Symbol} {marks : List Bool}
    (hmarks : rule.Marks word marks) (hdead : isDead marks = true) (rest : List Symbol) :
    word ++ rest ∉ rule.language := by
  induction rest generalizing word marks with
  | nil =>
      rw [List.append_nil]
      intro hmem
      have hcomplete := hmarks.complete_iff.mpr hmem
      rw [not_complete_of_isDead hdead] at hcomplete
      cases hcomplete
  | cons symbol rest ih =>
      rw [← List.singleton_append, ← List.append_assoc]
      exact ih (hmarks.step symbol) (isDead_step hdead symbol)

end Rule

end PdoCassandra.Foundation
