import Mathlib.Data.List.Nodup
import Mathlib.Logic.Function.Basic

/-!
# Objects that are made and deleted

An object is known by its number in the order in which the objects were made.
Only an object that is there can be deleted, so that none is deleted twice.  Holders
have a pointer each; an object that no holder has is leaked, and stays so.
-/

namespace PdoCassandra.Foundation

structure Memory (Object : Type) where
  made : List Object
  freed : List Nat
  freed_made : ∀ p ∈ freed, p < made.length
  nodup : freed.Nodup

namespace Memory

variable {Object : Type}

def empty : Memory Object := ⟨[], [], fun _ hmem => (List.not_mem_nil hmem).elim, List.nodup_nil⟩

/-- The object is made and not deleted. -/
def Live (memory : Memory Object) (p : Nat) : Prop :=
  p < memory.made.length ∧ p ∉ memory.freed

instance (memory : Memory Object) (p : Nat) : Decidable (memory.Live p) :=
  inferInstanceAs (Decidable (_ ∧ _))

/-- `new`: the object behind all others. -/
def push (memory : Memory Object) (object : Object) : Memory Object where
  made := memory.made ++ [object]
  freed := memory.freed
  freed_made p hmem := by
    rw [List.length_append]
    exact Nat.lt_add_right _ (memory.freed_made p hmem)
  nodup := memory.nodup

/-- `delete`, of an object that is there. -/
def delete (memory : Memory Object) (p : Nat) : Option (Memory Object) :=
  if hlive : memory.Live p then
    some
      { made := memory.made
        freed := p :: memory.freed
        freed_made := List.forall_mem_cons.mpr ⟨hlive.1, memory.freed_made⟩
        nodup := List.nodup_cons.mpr ⟨hlive.2, memory.nodup⟩ }
  else none

/-- The object behind a pointer. -/
def read (memory : Memory Object) (p : Nat) : Option Object :=
  if memory.Live p then memory.made[p]? else none

variable {memory next : Memory Object} {object : Object} {p q : Nat}

theorem live_push_iff :
    (memory.push object).Live p ↔ memory.Live p ∨ p = memory.made.length := by
  have hfresh : memory.made.length ∉ memory.freed := fun hmem =>
    Nat.lt_irrefl _ (memory.freed_made _ hmem)
  simp only [Live, push, List.length_append, List.length_singleton, Nat.lt_succ_iff_lt_or_eq]
  constructor
  · rintro ⟨hold | hnew, hkept⟩
    · exact Or.inl ⟨hold, hkept⟩
    · exact Or.inr hnew
  · rintro (⟨hold, hkept⟩ | rfl)
    · exact ⟨Or.inl hold, hkept⟩
    · exact ⟨Or.inr rfl, hfresh⟩

theorem not_live_length : ¬ memory.Live memory.made.length := fun hlive =>
  Nat.lt_irrefl _ hlive.1

theorem read_push_length : (memory.push object).read memory.made.length = some object := by
  rw [read, if_pos (live_push_iff.mpr (Or.inr rfl))]
  exact List.getElem?_concat_length

theorem read_push_of_live (hlive : memory.Live p) :
    (memory.push object).read p = memory.read p := by
  rw [read, read, if_pos hlive, if_pos (live_push_iff.mpr (Or.inl hlive))]
  exact List.getElem?_append_left hlive.1

theorem exists_delete (hlive : memory.Live p) : ∃ next, memory.delete p = some next :=
  ⟨_, dif_pos hlive⟩

theorem live_delete_iff (hdelete : memory.delete p = some next) :
    next.Live q ↔ memory.Live q ∧ q ≠ p := by
  unfold delete at hdelete
  split at hdelete
  · cases hdelete
    simp only [Live, List.mem_cons, not_or]
    constructor
    · rintro ⟨hmade, hne, hkept⟩
      exact ⟨⟨hmade, hkept⟩, hne⟩
    · rintro ⟨⟨hmade, hkept⟩, hne⟩
      exact ⟨hmade, hne, hkept⟩
  · cases hdelete

theorem read_delete_of_ne (hdelete : memory.delete p = some next) (hne : q ≠ p) :
    next.read q = memory.read q := by
  have hlive := live_delete_iff (q := q) hdelete
  have hmade : next.made = memory.made := by
    unfold delete at hdelete
    split at hdelete
    · cases hdelete
      rfl
    · cases hdelete
  by_cases hq : memory.Live q
  · rw [read, read, if_pos hq, if_pos (hlive.mpr ⟨hq, hne⟩), hmade]
  · rw [read, read, if_neg hq, if_neg fun hnext => hq (hlive.mp hnext).1]

end Memory

/-! ## Holders -/

/-- The objects, and the pointer of each holder, `none` for `NULL`. -/
structure Holdings (Holder Object : Type) where
  memory : Memory Object := .empty
  pointer : Holder → Option Nat := fun _ => none

namespace Holdings

variable {Holder Object : Type}

/-- `new`, for nobody. -/
def drop (holdings : Holdings Holder Object) (object : Object) : Holdings Holder Object :=
  { holdings with memory := holdings.memory.push object }

/-- What a holder has. -/
def get (holdings : Holdings Holder Object) (holder : Holder) : Option Object :=
  (holdings.pointer holder).bind holdings.memory.read

/-- Stored pointers are of objects that are there, and no two are the same. -/
structure Sound (holdings : Holdings Holder Object) : Prop where
  live : ∀ {holder p}, holdings.pointer holder = some p → holdings.memory.Live p
  apart : ∀ {first second p}, holdings.pointer first = some p → holdings.pointer second = some p →
    first = second

/-- The object is there, and nobody has it. -/
def Leaked (holdings : Holdings Holder Object) (p : Nat) : Prop :=
  holdings.memory.Live p ∧ ∀ holder, holdings.pointer holder ≠ some p

/-- Some holders have all that is there. -/
structure Tidy (holders : List Holder) (holdings : Holdings Holder Object) : Prop where
  sound : holdings.Sound
  null : ∀ other, other ∉ holders → holdings.pointer other = none
  kept : ∀ p, ¬ holdings.Leaked p

/-- What is leaked is of a kind. -/
def OnlyLeaks (Kind : Object → Prop) (holdings : Holdings Holder Object) : Prop :=
  ∀ {p object}, holdings.Leaked p → holdings.memory.read p = some object → Kind object

variable {holdings next : Holdings Holder Object} {holder other : Holder} {object : Object}
  {Kind : Object → Prop} {p : Nat}

theorem Sound.ne_length (hsound : holdings.Sound) (hpointer : holdings.pointer holder = some p) :
    p ≠ holdings.memory.made.length := by
  rintro rfl
  exact Memory.not_live_length (hsound.live hpointer)

theorem tidy_empty : ({} : Holdings Holder Object).Tidy [] where
  sound := ⟨nofun, nofun⟩
  null _ _ := rfl
  kept p hleaked := Nat.not_lt_zero p hleaked.1.1

/-! ### An object for nobody -/

theorem Sound.drop (hsound : holdings.Sound) (object : Object) : (holdings.drop object).Sound where
  live hpointer := Memory.live_push_iff.mpr (Or.inl (hsound.live hpointer))
  apart := hsound.apart

theorem Sound.get_drop (hsound : holdings.Sound) (holder : Holder) :
    (holdings.drop object).get holder = holdings.get holder :=
  Option.bind_congr fun _ hpointer => Memory.read_push_of_live (hsound.live hpointer)

theorem Sound.leaked_drop_iff (hsound : holdings.Sound) :
    (holdings.drop object).Leaked p ↔ holdings.Leaked p ∨ p = holdings.memory.made.length := by
  rw [Leaked, Holdings.drop, Memory.live_push_iff]
  constructor
  · rintro ⟨hlive | hnew, hnobody⟩
    · exact Or.inl ⟨hlive, hnobody⟩
    · exact Or.inr hnew
  · rintro (⟨hlive, hnobody⟩ | hnew)
    · exact ⟨Or.inl hlive, hnobody⟩
    · exact ⟨Or.inr hnew, fun holder hholder => hsound.ne_length hholder hnew⟩

theorem Sound.onlyLeaks_drop (hsound : holdings.Sound) (hleaks : holdings.OnlyLeaks Kind)
    (hkind : Kind object) : (holdings.drop object).OnlyLeaks Kind := by
  intro p found hleaked hread
  rcases hsound.leaked_drop_iff.mp hleaked with hold | rfl
  · exact hleaks hold ((Memory.read_push_of_live hold.1).symm.trans hread)
  · exact Option.some.inj (Memory.read_push_length.symm.trans hread) ▸ hkind

/-! ### An object for a holder -/

variable [DecidableEq Holder]

/-- `new`, for a holder, whatever it had before. -/
def store (holdings : Holdings Holder Object) (holder : Holder) (object : Object) :
    Holdings Holder Object where
  memory := holdings.memory.push object
  pointer := Function.update holdings.pointer holder (some holdings.memory.made.length)

/-- `delete` of what a holder has; that of `NULL` does nothing. -/
def release (holdings : Holdings Holder Object) (holder : Holder) : Option (Holdings Holder Object) :=
  match holdings.pointer holder with
  | none => some holdings
  | some p =>
      (holdings.memory.delete p).map fun memory =>
        ⟨memory, Function.update holdings.pointer holder none⟩

def releaseAll (holdings : Holdings Holder Object) : List Holder → Option (Holdings Holder Object)
  | [] => some holdings
  | holder :: holders => (holdings.release holder).bind fun next => next.releaseAll holders

theorem pointer_store (holdings : Holdings Holder Object) (holder other : Holder) (object : Object) :
    (holdings.store holder object).pointer other =
      if other = holder then some holdings.memory.made.length else holdings.pointer other :=
  Function.update_apply ..

theorem Sound.store (hsound : holdings.Sound) (holder : Holder) (object : Object) :
    (holdings.store holder object).Sound := by
  refine ⟨fun {other p} hpointer => ?_, fun {first second p} hfirst hsecond => ?_⟩
  · rw [pointer_store] at hpointer
    split at hpointer
    · exact Memory.live_push_iff.mpr (Or.inr (Option.some.inj hpointer).symm)
    · exact Memory.live_push_iff.mpr (Or.inl (hsound.live hpointer))
  · rw [pointer_store] at hfirst hsecond
    split at hfirst
    · split at hsecond
      · simp only [*]
      · exact absurd (Option.some.inj hfirst).symm (hsound.ne_length hsecond)
    · split at hsecond
      · exact absurd (Option.some.inj hsecond).symm (hsound.ne_length hfirst)
      · exact hsound.apart hfirst hsecond

theorem get_store_self (holdings : Holdings Holder Object) (holder : Holder) (object : Object) :
    (holdings.store holder object).get holder = some object := by
  rw [get, pointer_store, if_pos rfl]
  exact Memory.read_push_length

theorem Sound.get_store_of_ne (hsound : holdings.Sound) (hne : other ≠ holder) :
    (holdings.store holder object).get other = holdings.get other := by
  rw [get, pointer_store, if_neg hne]
  exact Option.bind_congr fun _ hpointer => Memory.read_push_of_live (hsound.live hpointer)

/-- What a holder had is leaked by what it has next. -/
theorem Sound.leaked_store_iff (hsound : holdings.Sound) :
    (holdings.store holder object).Leaked p ↔ holdings.Leaked p ∨ holdings.pointer holder = some p := by
  have hnobody : (∀ other, (holdings.store holder object).pointer other ≠ some p) ↔
      p ≠ holdings.memory.made.length ∧ ∀ other, other ≠ holder → holdings.pointer other ≠ some p := by
    constructor
    · intro hall
      refine ⟨?_, fun other hne => ?_⟩
      · rintro rfl
        exact hall holder (by rw [pointer_store, if_pos rfl])
      · have hother := hall other
        rwa [pointer_store, if_neg hne] at hother
    · rintro ⟨hold, hall⟩ other hother
      rw [pointer_store] at hother
      split at hother
      · exact hold (Option.some.inj hother).symm
      · exact hall other ‹_› hother
  rw [Leaked, hnobody, Holdings.store, Memory.live_push_iff]
  constructor
  · rintro ⟨hlive, hne, hothers⟩
    have hlive := hlive.resolve_right hne
    rcases Classical.em (holdings.pointer holder = some p) with hhad | hnot
    · exact Or.inr hhad
    · refine Or.inl ⟨hlive, fun other hother => ?_⟩
      rcases Classical.em (other = holder) with rfl | hne
      · exact hnot hother
      · exact hothers other hne hother
  · rintro (⟨hlive, hnobody⟩ | hhad)
    · refine ⟨Or.inl hlive, ?_, fun other _ => hnobody other⟩
      rintro rfl
      exact Memory.not_live_length hlive
    · refine ⟨Or.inl (hsound.live hhad), hsound.ne_length hhad, fun other hne hother => ?_⟩
      exact hne (hsound.apart hother hhad)

/-- A new holder has what is made for it. -/
theorem Tidy.store {holders : List Holder} (htidy : holdings.Tidy holders)
    (hnew : holder ∉ holders) (object : Object) :
    (holdings.store holder object).Tidy (holder :: holders) where
  sound := htidy.sound.store holder object
  null other hother := by
    rw [List.mem_cons, not_or] at hother
    rw [pointer_store, if_neg hother.1, htidy.null other hother.2]
  kept p hleaked := by
    rcases htidy.sound.leaked_store_iff.mp hleaked with hold | hhad
    · exact htidy.kept p hold
    · rw [htidy.null holder hnew] at hhad
      cases hhad

/-- It is enough that what the holder had is of the kind. -/
theorem Sound.onlyLeaks_store (hsound : holdings.Sound) (hleaks : holdings.OnlyLeaks Kind)
    (hhad : ∀ {old}, holdings.get holder = some old → Kind old) :
    (holdings.store holder object).OnlyLeaks Kind := by
  intro p found hleaked hread
  rcases hsound.leaked_store_iff.mp hleaked with hold | hstored
  · exact hleaks hold ((Memory.read_push_of_live hold.1).symm.trans hread)
  · have hlive := hsound.live hstored
    refine hhad ?_
    rw [get, hstored, Option.bind_some]
    exact (Memory.read_push_of_live hlive).symm.trans hread

/-! ### The object of a holder deleted -/

/-- A sound holdings does not delete what is not there. -/
theorem Sound.exists_release (hsound : holdings.Sound) (holder : Holder) :
    ∃ next, holdings.release holder = some next := by
  unfold release
  cases hpointer : holdings.pointer holder with
  | none => exact ⟨holdings, rfl⟩
  | some p =>
      obtain ⟨memory, hdelete⟩ := Memory.exists_delete (hsound.live hpointer)
      simp only [hdelete, Option.map_some]
      exact ⟨_, rfl⟩

theorem release_cases (hrelease : holdings.release holder = some next) :
    (holdings.pointer holder = none ∧ next = holdings) ∨
      ∃ p memory, holdings.pointer holder = some p ∧ holdings.memory.delete p = some memory ∧
        next = ⟨memory, Function.update holdings.pointer holder none⟩ := by
  unfold release at hrelease
  cases hpointer : holdings.pointer holder with
  | none =>
      simp only [hpointer, Option.some.injEq] at hrelease
      exact Or.inl ⟨rfl, hrelease.symm⟩
  | some p =>
      simp only [hpointer] at hrelease
      obtain ⟨memory, hdelete, rfl⟩ := Option.map_eq_some_iff.mp hrelease
      exact Or.inr ⟨p, memory, rfl, hdelete, rfl⟩

theorem pointer_release (hrelease : holdings.release holder = some next) (other : Holder) :
    next.pointer other = if other = holder then none else holdings.pointer other := by
  rcases release_cases hrelease with ⟨hnull, rfl⟩ | ⟨p, memory, -, -, rfl⟩
  · split
    · simp only [*]
    · rfl
  · exact Function.update_apply ..

theorem Sound.release (hsound : holdings.Sound) (hrelease : holdings.release holder = some next) :
    next.Sound := by
  have hkept : ∀ {other p}, next.pointer other = some p →
      other ≠ holder ∧ holdings.pointer other = some p := by
    intro other p hpointer
    rw [pointer_release hrelease] at hpointer
    split at hpointer
    · cases hpointer
    · exact ⟨‹_›, hpointer⟩
  refine ⟨fun {other p} hpointer => ?_, fun hfirst hsecond => ?_⟩
  · obtain ⟨hne, hold⟩ := hkept hpointer
    rcases release_cases hrelease with ⟨-, rfl⟩ | ⟨q, memory, hstored, hdelete, rfl⟩
    · exact hsound.live hold
    · refine (Memory.live_delete_iff hdelete).mpr ⟨hsound.live hold, ?_⟩
      rintro rfl
      exact hne (hsound.apart hold hstored)
  · exact hsound.apart (hkept hfirst).2 (hkept hsecond).2

theorem Sound.get_release (hsound : holdings.Sound) (hrelease : holdings.release holder = some next)
    (other : Holder) : next.get other = if other = holder then none else holdings.get other := by
  rw [get, pointer_release hrelease]
  split
  · rfl
  · refine Option.bind_congr fun p hpointer => ?_
    rcases release_cases hrelease with ⟨-, rfl⟩ | ⟨q, memory, hstored, hdelete, rfl⟩
    · rfl
    · refine Memory.read_delete_of_ne hdelete ?_
      rintro rfl
      exact ‹¬ other = holder› (hsound.apart hpointer hstored)

theorem Sound.leaked_release_iff (hsound : holdings.Sound)
    (hrelease : holdings.release holder = some next) : next.Leaked p ↔ holdings.Leaked p := by
  rcases release_cases hrelease with ⟨-, rfl⟩ | ⟨q, memory, hstored, hdelete, rfl⟩
  · exact Iff.rfl
  · rw [Leaked, Leaked, Memory.live_delete_iff hdelete, and_assoc]
    refine and_congr Iff.rfl ⟨fun hall other hother => ?_, fun hall => ⟨?_, fun other => ?_⟩⟩
    · have hsame := hall.2 other
      rw [pointer_release hrelease] at hsame
      split at hsame
      · subst other
        exact hall.1 (Option.some.inj (hother.symm.trans hstored))
      · exact hsame hother
    · rintro rfl
      exact hall holder hstored
    · rw [pointer_release hrelease]
      split
      · exact nofun
      · exact hall other

/-- What is left is as it was. -/
theorem read_release (hrelease : holdings.release holder = some next)
    (hlive : next.memory.Live p) : next.memory.read p = holdings.memory.read p := by
  rcases release_cases hrelease with ⟨-, rfl⟩ | ⟨q, memory, hstored, hdelete, rfl⟩
  · rfl
  · exact Memory.read_delete_of_ne hdelete ((Memory.live_delete_iff hdelete).mp hlive).2

theorem Sound.onlyLeaks_release (hsound : holdings.Sound) (hleaks : holdings.OnlyLeaks Kind)
    (hrelease : holdings.release holder = some next) : next.OnlyLeaks Kind := by
  intro p found hleaked hread
  refine hleaks ((hsound.leaked_release_iff hrelease).mp hleaked) ?_
  exact (read_release hrelease hleaked.1).symm.trans hread

/-- All of a number of holders give up what they have, and no other does. -/
theorem Sound.exists_releaseAll (hsound : holdings.Sound) (holders : List Holder) :
    ∃ next, holdings.releaseAll holders = some next ∧ next.Sound ∧
      (∀ other, next.pointer other = if other ∈ holders then none else holdings.pointer other) ∧
      (∀ other, next.get other = if other ∈ holders then none else holdings.get other) ∧
      (∀ p, next.Leaked p ↔ holdings.Leaked p) ∧
      ∀ Kind, holdings.OnlyLeaks Kind → next.OnlyLeaks Kind := by
  induction holders generalizing holdings with
  | nil =>
      refine ⟨holdings, rfl, hsound, fun other => ?_, fun other => ?_, fun p => Iff.rfl,
        fun _ => id⟩
      · rw [if_neg List.not_mem_nil]
      · rw [if_neg List.not_mem_nil]
  | cons holder holders ih =>
      obtain ⟨middle, hrelease⟩ := hsound.exists_release holder
      obtain ⟨next, hnext, hkept, hpointer, hget, hleaked, honly⟩ :=
        ih (hsound.release hrelease)
      refine ⟨next, ?_, hkept, fun other => ?_, fun other => ?_, fun p => ?_,
        fun Kind hleaks => ?_⟩
      · rw [releaseAll, hrelease, Option.bind_some, hnext]
      · rw [hpointer, pointer_release hrelease]
        by_cases hhere : other = holder <;> by_cases hthere : other ∈ holders <;>
          simp [hhere, hthere]
      · rw [hget, hsound.get_release hrelease]
        by_cases hhere : other = holder <;> by_cases hthere : other ∈ holders <;>
          simp [hhere, hthere]
      · exact (hleaked p).trans (hsound.leaked_release_iff hrelease)
      · exact honly Kind (hsound.onlyLeaks_release hleaks hrelease)

end Holdings

end PdoCassandra.Foundation
