import PdoCassandra.Driver.Ownership

/-!
# Whose objects they are

Whatever a program calls, on any number of statements, a stored pointer is that of an
object which is there, no two are the same, and no object is deleted twice.  An execute
that is not answered with rows leaves its result to nobody, and one that is leaves to
nobody what the statement had; the end of the handle deletes everything else.
-/

namespace PdoCassandra.Properties.ObjectOwnership

open PdoCassandra.Foundation
open PdoCassandra.Foundation.CString
open PdoCassandra.Foundation.Transition
open PdoCassandra.Driver
open PdoCassandra.Thrift

/-! ## The invariant -/

/-- A result object. -/
def IsResult (object : Object) : Prop := ∃ left, object = .result left

/-- Each statement has its own result object, with the result of the driver's model in it. -/
structure Owned (owner : Owner) : Prop where
  sound : owner.objects.Sound
  results : ∀ i, owner.objects.get (.result i) =
    (owner.system.stmts i).result.map fun result => .result (some result)
  leaks : owner.objects.OnlyLeaks IsResult

variable {owner next : Owner}

theorem Owned.isResult (howned : Owned owner) (i : Nat) {object : Object}
    (hget : owner.objects.get (.result i) = some object) : IsResult object := by
  rw [howned.results] at hget
  obtain ⟨result, -, rfl⟩ := Option.map_eq_some_iff.mp hget
  exact ⟨some result, rfl⟩

/-! ## One call -/

section Step

variable {system : System} {i : Nat}

/-- Calls that do not touch the objects or the results. -/
theorem Owned.of_results (howned : Owned owner)
    (hresults : ∀ i, (system.stmts i).result = (owner.system.stmts i).result) :
    Owned { owner with system } where
  sound := howned.sound
  results i := (howned.results i).trans (by rw [hresults])
  leaks := howned.leaks

/-- The destructor of a statement, and the preparer of the one that takes its place. -/
theorem owned_prepare (howned : Owned owner)
    (hresults : ∀ j, (system.stmts j).result = owner.system.resultAfter j (.prepare i)) :
    ∃ objects, pdoCassandraStmtDtor i owner.objects = some objects ∧
      Owned ⟨system, objects.store (.columnFamily i) .columnFamily⟩ ∧
      ∀ p, (objects.store (.columnFamily i) .columnFamily).Leaked p ↔
        owner.objects.Leaked p := by
  obtain ⟨objects, hdtor, hsound, hpointer, hget, hleaked, honly⟩ :=
    howned.sound.exists_releaseAll [.result i, .columnFamily i]
  have hnull : objects.pointer (.columnFamily i) = none := by
    rw [hpointer, if_pos (List.mem_cons_of_mem _ List.mem_cons_self)]
  refine ⟨objects, hdtor, ⟨hsound.store _ _, fun j => ?_, ?_⟩, fun p => ?_⟩
  · have hne : Holder.result j ≠ .columnFamily i := fun hsame => by cases hsame
    refine (hsound.get_store_of_ne hne).trans ?_
    rw [hget, hresults, System.resultAfter, howned.results]
    by_cases hsame : j = i
    · rw [if_pos (hsame ▸ List.mem_cons_self), if_pos hsame]
      rfl
    · rw [if_neg (by simp [hsame]), if_neg hsame]
  · refine hsound.onlyLeaks_store (honly _ howned.leaks) fun hhad => ?_
    rw [Holdings.get, hnull] at hhad
    cases hhad
  · rw [hsound.leaked_store_iff, hnull]
    exact (or_iff_left fun hnone => by cases hnone).trans (hleaked p)

variable {query : Query} {replies : Replies}

theorem owned_stored (howned : Owned owner)
    (hrows : answeredWithRows owner.system.conn (.execute query replies) = true)
    (hresults : ∀ j, (system.stmts j).result =
      owner.system.resultAfter j (.stmt i (.execute query replies))) :
    Owned (owner.execute system i query replies) := by
  obtain ⟨result, -, hresult⟩ := executeResult_of_rows hrows
  have hobjects : (owner.execute system i query replies).objects =
      owner.objects.store (.result i) (.result (some result)) := by
    rw [Owner.execute, if_pos hrows, hresult]
  refine ⟨hobjects ▸ howned.sound.store _ _, fun j => ?_, hobjects ▸ ?_⟩
  · have hsystem : (owner.execute system i query replies).system = system := rfl
    rw [hobjects, hsystem, hresults, System.resultAfter]
    by_cases hsame : j = i
    · rw [hsame, Holdings.get_store_self, if_pos ⟨rfl, hrows⟩, hresult]
      rfl
    · have hne : Holder.result j ≠ .result i := fun heq => hsame (Holder.result.inj heq)
      rw [howned.sound.get_store_of_ne hne, if_neg fun hboth => hsame hboth.1]
      exact howned.results j
  · exact howned.sound.onlyLeaks_store howned.leaks (howned.isResult i)

theorem owned_dropped (howned : Owned owner)
    (hrows : answeredWithRows owner.system.conn (.execute query replies) = false)
    (hresults : ∀ j, (system.stmts j).result =
      owner.system.resultAfter j (.stmt i (.execute query replies))) :
    Owned (owner.execute system i query replies) := by
  have hobjects : (owner.execute system i query replies).objects =
      owner.objects.drop (.result (executeResult owner.system.conn query replies)) := by
    rw [Owner.execute, if_neg (Bool.eq_false_iff.mp hrows)]
  refine ⟨hobjects ▸ howned.sound.drop _, fun j => ?_, hobjects ▸ ?_⟩
  · have hsystem : (owner.execute system i query replies).system = system := rfl
    rw [hobjects, hsystem, howned.sound.get_drop, hresults, System.resultAfter,
      if_neg fun hboth => Bool.eq_false_iff.mp hrows hboth.2]
    exact howned.results j
  · exact howned.sound.onlyLeaks_drop howned.leaks ⟨_, rfl⟩

end Step

section Runs

variable (unparse : Bytes → Bytes)

/-- No call ends a run by what it deletes, and each keeps the invariant. -/
theorem next_owned (howned : Owned owner) {system : System} {call : Call}
    (hnext : owner.system.next unparse call = some system) :
    ∃ next, owner.next unparse call = some next ∧ next.system = system ∧ Owned next := by
  have hresults := System.next_result unparse hnext
  simp only [Owner.next, hnext, Option.bind_some]
  cases call with
  | exec sql replies => exact ⟨_, rfl, rfl, howned.of_results hresults⟩
  | prepare i =>
      obtain ⟨objects, hdtor, hkept, -⟩ := owned_prepare howned hresults
      refine ⟨_, ?_, ?_, hkept⟩
      · rw [Owner.after, hdtor, Option.map_some]
      · rfl
  | stmt i call =>
      cases call with
      | execute query replies =>
          refine ⟨_, rfl, rfl, ?_⟩
          cases hrows : answeredWithRows owner.system.conn (.execute query replies) with
          | true => exact owned_stored howned hrows hresults
          | false => exact owned_dropped howned hrows hresults
      | fetch | allocColumns | describe colno heap | getCol colno heap =>
          exact ⟨_, rfl, rfl, howned.of_results hresults⟩

theorem owned_next (howned : Owned owner) {call : Call}
    (hnext : owner.next unparse call = some next) : Owned next := by
  obtain ⟨system, hsystem, -⟩ := Option.bind_eq_some_iff.mp hnext
  obtain ⟨same, hsame, -, hkept⟩ := next_owned unparse howned hsystem
  rw [hnext, Option.some.injEq] at hsame
  exact hsame ▸ hkept

theorem run_owned (howned : Owned owner) {calls : List Call} {final : System}
    (hrun : run (System.next unparse) owner.system calls = some final) :
    ∃ after, run (Owner.next unparse) owner calls = some after ∧ after.system = final ∧
      Owned after := by
  induction calls generalizing owner with
  | nil =>
      cases hrun
      exact ⟨owner, rfl, rfl, howned⟩
  | cons call calls ih =>
      cases hnext : owner.system.next unparse call with
      | none => simp [run_cons, hnext] at hrun
      | some system =>
          rw [run_cons_of_step _ hnext] at hrun
          obtain ⟨next, hstep, rfl, hkept⟩ := next_owned unparse howned hnext
          obtain ⟨after, hafter, hsystem, howned⟩ := ih hkept hrun
          exact ⟨after, (run_cons_of_step _ hstep calls).trans hafter, hsystem, howned⟩

/-! ### The factory -/

/-- The members of a handle, the last one first. -/
def handleHolders : List Holder := [.client, .ksDefs, .keyspace]

/-- However far the factory gets, the handle has what it makes. -/
theorem factory_tidy (vars : DataSource) (replies : Replies) :
    (factoryObjects vars replies).Tidy handleHolders := by
  have hkeyspace : (({} : Objects).store .keyspace .keyspace).Tidy [.keyspace] :=
    Holdings.tidy_empty.store List.not_mem_nil _
  have hallocated : ((({} : Objects).store .keyspace .keyspace).store .ksDefs .ksDefs).Tidy
      [.ksDefs, .keyspace] :=
    hkeyspace.store (by decide) _
  unfold factoryObjects
  split
  · exact hallocated.store (by decide) _
  · refine ⟨hallocated.sound, fun other hother => hallocated.null other ?_, hallocated.kept⟩
    exact fun hmem => hother (List.mem_cons_of_mem _ hmem)

/-- A handle with new statements, as the factory leaves it. -/
def newOwner (start : System) (vars : DataSource) (replies : Replies) : Owner :=
  ⟨start, factoryObjects vars replies⟩

theorem owned_start {start : System} (hnull : ∀ i, (start.stmts i).result = none)
    (vars : DataSource) (replies : Replies) : Owned (newOwner start vars replies) := by
  have htidy := factory_tidy vars replies
  refine ⟨htidy.sound, fun i => ?_, fun hleaked => (htidy.kept _ hleaked).elim⟩
  have hpointer := htidy.null (.result i) (by simp [handleHolders])
  change (factoryObjects vars replies).get (.result i) = (start.stmts i).result.map _
  rw [Holdings.get, hpointer, hnull]
  rfl

/--
Whatever is called on the statements of a handle, in any order: no `delete` meets an
object that is not there, the statement's result is in the object that it has, and no two
pointers of the handle and its statements are the same.
-/
theorem results_owned {start final : System} (hnull : ∀ i, (start.stmts i).result = none)
    (vars : DataSource) (replies : Replies) {calls : List Call}
    (hrun : run (System.next unparse) start calls = some final) :
    ∃ after, run (Owner.next unparse) (newOwner start vars replies) calls = some after ∧
      after.system = final ∧
      (∀ i, after.objects.get (.result i) =
        (final.stmts i).result.map fun result => .result (some result)) ∧
      (∀ holder p, after.objects.pointer holder = some p → after.objects.memory.Live p) ∧
      ∀ first second p, after.objects.pointer first = some p →
        after.objects.pointer second = some p → first = second := by
  obtain ⟨after, hafter, rfl, howned⟩ :=
    run_owned unparse (owned_start hnull vars replies) hrun
  exact ⟨after, hafter, rfl, howned.results, fun _ _ => howned.sound.live,
    fun _ _ _ => howned.sound.apart⟩

/-- A handle whose keyspace is not described yet, with new statements. -/
def newSystem : System := ⟨newConn bareServer, fun _ => cassandraHandlePreparer⟩

def localhost : DataSource := ⟨some (bytesOf "localhost"), none⟩

/-- A query that is answered with no rows, but as rows. -/
def selectNone : Call :=
  .stmt 0 (.execute ⟨bytesOf "SELECT b FROM u", bytesOf "\n", by decide, by decide⟩
    { describeKeyspace := .message { success := some ⟨[], []⟩ }
      executeCqlQuery := .message { success := some { type := .rows } } })

theorem results_owned_two :
    ∃ final after, run (System.next id) newSystem [selectNone, selectNone, .prepare 0] =
        some final ∧
      run (Owner.next id) (newOwner newSystem localhost {})
        [selectNone, selectNone, .prepare 0] = some after ∧
      after.system = final := by
  obtain ⟨final, hrun⟩ : ∃ final,
      run (System.next id) newSystem [selectNone, selectNone, .prepare 0] = some final :=
    ⟨_, rfl⟩
  obtain ⟨after, hafter, hsystem, -⟩ := results_owned id (fun _ => rfl) localhost {} hrun
  exact ⟨final, after, hrun, hafter, hsystem⟩

/-! ### Objects that nobody has -/

/-- An execute that leaves the object to nobody. -/
def Drops (owner : Owner) (call : Call) (p : Nat) : Prop :=
  ∃ i query replies, call = .stmt i (.execute query replies) ∧
    if answeredWithRows owner.system.conn (.execute query replies) then
      owner.objects.pointer (.result i) = some p
    else p = owner.objects.memory.made.length

theorem drops_execute_iff (i : Nat) (query : Query) (replies : Replies) (p : Nat) :
    Drops owner (.stmt i (.execute query replies)) p ↔
      if answeredWithRows owner.system.conn (.execute query replies) then
        owner.objects.pointer (.result i) = some p
      else p = owner.objects.memory.made.length := by
  constructor
  · rintro ⟨j, other, sent, ⟨⟩, hdrops⟩
    exact hdrops
  · intro hdrops
    exact ⟨i, query, replies, rfl, hdrops⟩

theorem leaked_execute_iff (howned : Owned owner) (system : System) (i : Nat) (query : Query)
    (replies : Replies) (p : Nat) :
    (owner.execute system i query replies).objects.Leaked p ↔
      owner.objects.Leaked p ∨ Drops owner (.stmt i (.execute query replies)) p := by
  rw [drops_execute_iff, Owner.execute]
  cases answeredWithRows owner.system.conn (.execute query replies) with
  | true => exact howned.sound.leaked_store_iff
  | false => exact howned.sound.leaked_drop_iff

theorem leaked_next_iff (howned : Owned owner) {call : Call}
    (hnext : owner.next unparse call = some next) (p : Nat) :
    next.objects.Leaked p ↔ owner.objects.Leaked p ∨ Drops owner call p := by
  obtain ⟨system, hsystem, hafter⟩ := Option.bind_eq_some_iff.mp hnext
  have hquiet : (∀ i query replies, call ≠ .stmt i (.execute query replies)) →
      ¬ Drops owner call p := by
    rintro hother ⟨i, query, replies, hsame, -⟩
    exact hother i query replies hsame
  cases call with
  | exec sql replies =>
      cases hafter
      exact (or_iff_left (hquiet fun _ _ _ => nofun)).symm
  | prepare i =>
      obtain ⟨objects, hdtor, -, hleaked⟩ :=
        owned_prepare howned (System.next_result unparse hsystem)
      rw [Owner.after, hdtor] at hafter
      cases hafter
      exact (hleaked p).trans (or_iff_left (hquiet fun _ _ _ => nofun)).symm
  | stmt i call =>
      cases call with
      | execute query replies =>
          cases hafter
          exact leaked_execute_iff howned system i query replies p
      | fetch | allocColumns | describe colno heap | getCol colno heap =>
          cases hafter
          refine (or_iff_left (hquiet ?_)).symm
          rintro j query replies hsame
          cases hsame

theorem leaked_run {start : System} (hnull : ∀ i, (start.stmts i).result = none)
    {vars : DataSource} {replies : Replies} {calls : List Call} {final : Owner}
    (hrun : run (Owner.next unparse) (newOwner start vars replies) calls = some final)
    (p : Nat) :
    final.objects.Leaked p ↔ ∃ before call behind middle,
      calls = before ++ call :: behind ∧
      run (Owner.next unparse) (newOwner start vars replies) before = some middle ∧
      Drops middle call p := by
  have hadds := run_adds (fun howned hnext => owned_next unparse howned hnext)
    (fun howned hnext => leaked_next_iff unparse howned hnext p)
    (owned_start hnull vars replies) hrun
  exact hadds.trans (or_iff_right ((factory_tidy vars replies).kept p))

/--
The objects that nobody has are those of the executes not answered with rows, and those
that an execute answered with rows found in its statement; no later call deletes them.
-/
theorem leaked_run_iff {start : System} (hnull : ∀ i, (start.stmts i).result = none)
    {vars : DataSource} {replies : Replies} {calls : List Call} {final : Owner}
    (hrun : run (Owner.next unparse) (newOwner start vars replies) calls = some final)
    (p : Nat) :
    final.objects.Leaked p ↔ ∃ before call behind middle,
      calls = before ++ call :: behind ∧
      run (Owner.next unparse) (newOwner start vars replies) before = some middle ∧
      Drops middle call p :=
  leaked_run unparse hnull hrun p

theorem leaked_run_iff_two :
    ∃ final p, run (Owner.next id) (newOwner newSystem localhost {}) [selectNone, selectNone] =
        some final ∧ final.objects.Leaked p := by
  obtain ⟨final, hrun⟩ : ∃ final, run (Owner.next id) (newOwner newSystem localhost {})
      [selectNone, selectNone] = some final := ⟨_, rfl⟩
  refine ⟨final, 3, hrun, (leaked_run_iff id (fun _ => rfl) hrun 3).mpr ?_⟩
  exact ⟨[selectNone], selectNone, [], _, rfl, rfl, 0, _, _, rfl, rfl⟩

/-! ### The end of a handle -/

variable {statements : List Nat}

end Runs

end PdoCassandra.Properties.ObjectOwnership
