import PdoCassandra.Driver.Pdo

/-!
# Where the cursor may point

`S->result` and `S->index` are set by the `ROWS` arm of execute only, while PDO
fetches after any execute that returned `1`.  The calls on a statement are
followed with the handle left arbitrary at each of them.
-/

namespace PdoCassandra.Properties.CursorSafety

open PdoCassandra.Foundation.CString
open PdoCassandra.Foundation.Transition
open PdoCassandra.Driver
open PdoCassandra.Driver.CqlParser
open PdoCassandra.Thrift

/-! ## The calls on one statement -/

/-- A call, and the handle and session that it meets. -/
abbrev Event := Conn × StmtCall

/-- A statement with what PDO knows of its history. -/
structure Tracked where
  stmt : Stmt
  /-- The last fetch returned `1`, and no execute has been made since. -/
  current : Bool := false
  /-- The server has answered some execute with rows. -/
  opened : Bool := false

/-- Whether a row is current behind a call that returned `value`. -/
def Tracked.currentAfter (tracked : Tracked) (value : Int) : StmtCall → Bool
  | .execute _ _ => false
  | .fetch => value = 1
  | _ => tracked.current

def Tracked.next (unparse : Bytes → Bytes) (tracked : Tracked) (event : Event) :
    Option Tracked :=
  let effect := tracked.stmt.call unparse event.1 event.2
  match effect.exit with
  | .ret value =>
      some
        { stmt := effect.stmt
          current := tracked.currentAfter value event.2
          opened := tracked.opened || answeredWithRows event.1 event.2 }
  | _ => none

/-- PDO fetches from an executed statement, and reads columns of a current row. -/
def Legal (tracked : Tracked) (event : Event) : Prop :=
  (event.2 = .fetch → tracked.stmt.executed = true) ∧
    (event.2.readsRow = true → tracked.current = true)

/-- The call reads neither through a null result nor outside its rows. -/
def Safe (unparse : Bytes → Bytes) (tracked : Tracked) (event : Event) : Prop :=
  (tracked.stmt.call unparse event.1 event.2).exit ≠ .fault .nullResult ∧
    (tracked.stmt.call unparse event.1 event.2).exit ≠ .fault .rowIndex

/-- A fetch comes behind an execute that was answered with rows. -/
def FetchesRows (tracked : Tracked) (event : Event) : Prop :=
  event.2 = .fetch → tracked.opened = true

/-! ## The invariant -/

structure Inv (tracked : Tracked) : Prop where
  opened : tracked.opened = true ↔ tracked.stmt.result ≠ none
  current : tracked.current = true → ∃ row, tracked.stmt.row = .ok row

/-- A statement keeps its result unless execute is answered with rows. -/
theorem execute_result (unparse : Bytes → Bytes) (conn : Conn) (stmt : Stmt)
    (query : Query) (replies : Replies) :
    (stmt.call unparse conn (.execute query replies)).stmt.result ≠ none ↔
      stmt.result ≠ none ∨ answeredWithRows conn (.execute query replies) = true := by
  cases hrows : answeredWithRows conn (.execute query replies) with
  | true =>
      obtain ⟨result, -, hstored⟩ := Stmt.call_execute_rows unparse conn stmt hrows
      simp [hstored]
  | false =>
      obtain ⟨hkept, -⟩ := Stmt.call_execute_kept unparse conn stmt hrows
      simp [hkept]

theorem next_eq_some {unparse : Bytes → Bytes} {tracked next : Tracked} {event : Event}
    (hnext : tracked.next unparse event = some next) :
    ∃ value, (tracked.stmt.call unparse event.1 event.2).exit = .ret value ∧
      next =
        { stmt := (tracked.stmt.call unparse event.1 event.2).stmt
          current := tracked.currentAfter value event.2
          opened := tracked.opened || answeredWithRows event.1 event.2 } := by
  unfold Tracked.next at hnext
  simp only at hnext
  split at hnext
  · rename_i value hret
    cases hnext
    exact ⟨value, hret, rfl⟩
  · cases hnext

/-- The row that is read does not depend on the array of columns. -/
theorem inv_columns {tracked : Tracked} (hinv : Inv tracked)
    (columns : Option (List PdoColumnData)) :
    Inv { tracked with stmt := { tracked.stmt with columns } } :=
  ⟨hinv.opened, hinv.current⟩

theorem inv_next {unparse : Bytes → Bytes} {tracked next : Tracked} {event : Event}
    (hinv : Inv tracked) (hnext : tracked.next unparse event = some next) : Inv next := by
  obtain ⟨conn, call⟩ := event
  obtain ⟨value, hret, rfl⟩ := next_eq_some hnext
  by_cases hreads : call.readsRow = true
  · obtain ⟨columns, hframe⟩ := Stmt.call_frame unparse conn tracked.stmt hreads
    have hafter := inv_columns hinv columns
    rw [← hframe] at hafter
    cases call with
    | execute query replies | fetch => cases hreads
    | allocColumns | describe colno heap | getCol colno heap =>
        simpa [answeredWithRows, Tracked.currentAfter] using hafter
  · cases call with
    | execute query replies =>
        constructor
        · rw [execute_result, ← hinv.opened, Bool.or_eq_true]
        · intro hcurrent
          cases hcurrent
    | fetch =>
        rcases hcall : pdoCassandraStmtFetch tracked.stmt with ⟨exit, left⟩
        simp only [Stmt.call, hcall] at hret ⊢
        cases pdoCassandraStmtFetch_exit hcall with
        | nullResult hresult => cases hret
        | undescribed hresult hrow hcolumns hfree => cases hret
        | exhausted hresult hrow =>
            cases hret
            constructor
            · simpa [answeredWithRows] using hinv.opened
            · intro hcurrent
              cases hcurrent
        | @fetched result row hresult hrow hcolumns =>
            constructor
            · simpa [answeredWithRows] using hinv.opened
            · intro _
              refine ⟨row, ?_⟩
              simp only [Stmt.row, hresult, hrow]
    | allocColumns | describe colno heap | getCol colno heap => exact absurd rfl hreads

/-! ## One call -/

/-- With a current row, reading columns is safe. -/
theorem safe_of_readsRow {unparse : Bytes → Bytes} {tracked : Tracked} {event : Event}
    {row : CqlRow} (hrow : tracked.stmt.row = .ok row)
    (hreads : event.2.readsRow = true) : Safe unparse tracked event := by
  obtain ⟨conn, call⟩ := event
  unfold Safe
  cases call with
  | execute query replies | fetch => cases hreads
  | allocColumns => simp [Stmt.call]
  | describe colno heap =>
      simp only [Stmt.call, pdoCassandraStmtDescribe, hrow]
      repeat' split
      all_goals simp
  | getCol colno heap =>
      simp only [Stmt.call, pdoCassandraStmtGetCol, hrow]
      split
      · simp
      · simp

theorem safe_execute (unparse : Bytes → Bytes) (tracked : Tracked) (conn : Conn)
    (query : Query) (replies : Replies) :
    Safe unparse tracked (conn, .execute query replies) := by
  unfold Safe
  simp only [Stmt.call]
  rcases hcall : pdoCassandraStmtExecute conn tracked.stmt query replies with
    ⟨outcome, after, left⟩
  cases pdoCassandraStmtExecute_exit hcall with
  | describeRaised hcache =>
      exact ⟨catchInvalidRequest_exit_ne_fault _ _ _, catchInvalidRequest_exit_ne_fault _ _ _⟩
  | overrun hcache hscan => simp
  | used hcache hscan huse hset => simp
  | useRaised hcache hscan huse hset =>
      exact ⟨catchInvalidRequest_exit_ne_fault _ _ _, catchInvalidRequest_exit_ne_fault _ _ _⟩
  | queried hcache hscan huse hquery => simp
  | queryRaised hcache hscan huse hquery =>
      exact ⟨catchInvalidRequest_exit_ne_fault _ _ _, catchInvalidRequest_exit_ne_fault _ _ _⟩

/-- A fetch needs a result, and nothing else. -/
theorem safe_fetch_iff (unparse : Bytes → Bytes) (tracked : Tracked) (conn : Conn) :
    Safe unparse tracked (conn, .fetch) ↔ tracked.stmt.result ≠ none := by
  unfold Safe
  simp only [Stmt.call]
  rcases hcall : pdoCassandraStmtFetch tracked.stmt with ⟨exit, left⟩
  cases pdoCassandraStmtFetch_exit hcall with
  | nullResult hresult => simp [hresult]
  | undescribed hresult hrow hcolumns hfree =>
      obtain ⟨rfl, -⟩ | rfl := efreeNames_error hfree
      · simp [hresult]
      · simp [hresult]
  | exhausted hresult hrow => simp [hresult]
  | fetched hresult hrow hcolumns => simp [hresult]

theorem safe_iff_fetchesRows {unparse : Bytes → Bytes} {tracked : Tracked}
    {event : Event} (hinv : Inv tracked) (hlegal : Legal tracked event) :
    Safe unparse tracked event ↔ FetchesRows tracked event := by
  obtain ⟨conn, call⟩ := event
  by_cases hreads : call.readsRow = true
  · obtain ⟨row, hrow⟩ := hinv.current (hlegal.2 hreads)
    apply iff_of_true (safe_of_readsRow hrow hreads)
    rintro rfl
    cases hreads
  · cases call with
    | execute query replies =>
        exact iff_of_true (safe_execute unparse tracked conn query replies)
          fun hfetch => by cases hfetch
    | fetch =>
        rw [safe_fetch_iff, ← hinv.opened]
        simp [FetchesRows]
    | allocColumns | describe colno heap | getCol colno heap => exact absurd rfl hreads

/-! ## Runs -/

/-- A statement that has just been prepared. -/
def prepared : Tracked where
  stmt := cassandraHandlePreparer

theorem inv_prepared : Inv prepared where
  opened := by simp [prepared, cassandraHandlePreparer]
  current := by simp [prepared]

/--
In a run that PDO can make on a statement, no call reads through a null result or
outside the rows, exactly when each fetch comes behind an execute that was
answered with rows.
-/
theorem eachStep_safe_iff (unparse : Bytes → Bytes) {events : List Event}
    (hlegal : EachStep (Tracked.next unparse) Legal prepared events) :
    EachStep (Tracked.next unparse) (Safe unparse) prepared events ↔
      EachStep (Tracked.next unparse) FetchesRows prepared events :=
  eachStep_congr (fun hinv _ hnext => inv_next hinv hnext) safe_iff_fetchesRows
    inv_prepared hlegal

/-- Columns of a current row may be read in any order. -/
theorem legal_of_readsRow {unparse : Bytes → Bytes} {tracked : Tracked}
    (hcurrent : tracked.current = true) {events : List Event}
    (hreads : ∀ event ∈ events, event.2.readsRow = true) :
    EachStep (Tracked.next unparse) Legal tracked events := by
  induction events generalizing tracked with
  | nil => trivial
  | cons event events ih =>
      obtain ⟨conn, call⟩ := event
      have hread := hreads _ List.mem_cons_self
      refine ⟨⟨?_, fun _ => hcurrent⟩, fun next hnext => ih ?_ fun other hmem =>
        hreads other (List.mem_cons_of_mem _ hmem)⟩
      · rintro rfl
        cases hread
      · obtain ⟨value, -, rfl⟩ := next_eq_some hnext
        cases call with
        | execute query replies | fetch => cases hread
        | allocColumns | describe colno heap | getCol colno heap => exact hcurrent

/-- Nothing closes a statement once it has been answered with rows. -/
theorem fetchesRows_of_opened {unparse : Bytes → Bytes} {tracked : Tracked}
    (hopened : tracked.opened = true) (events : List Event) :
    EachStep (Tracked.next unparse) FetchesRows tracked events := by
  induction events generalizing tracked with
  | nil => trivial
  | cons event events ih =>
      refine ⟨fun _ => hopened, fun next hnext => ih ?_⟩
      obtain ⟨value, -, rfl⟩ := next_eq_some hnext
      simp [hopened]

/-- A handle that has an empty schema in its cache. -/
def cachedConn : Conn :=
  ⟨⟨[], fun _ => some ⟨[], []⟩⟩, bareServer⟩

/-- An execute that is answered with a result, and a fetch. -/
def executeAndFetch (query : Query) (result : CqlResult) : List Event :=
  [(cachedConn, .execute query { executeCqlQuery := .message { success := some result } }),
    (cachedConn, .fetch)]

/-- PDO's allocation, and the calls for the first columns of the current row. -/
def readColumns (count : Nat) : List Event :=
  (cachedConn, .allocColumns) :: (List.range count).flatMap fun i =>
    [(cachedConn, .describe (Int32.ofNat i) Heap.zeros),
      (cachedConn, .getCol (Int32.ofNat i) Heap.zeros)]

theorem readsRow_readColumns {count : Nat} {event : Event}
    (hevent : event ∈ readColumns count) : event.2.readsRow = true := by
  rcases List.mem_cons.mp hevent with rfl | hevent
  · rfl
  · obtain ⟨i, -, hevent⟩ := List.mem_flatMap.mp hevent
    simp only [List.mem_cons, List.not_mem_nil, or_false] at hevent
    rcases hevent with rfl | rfl
    · rfl
    · rfl

/-- A `SELECT` of any columns. -/
def selectQuery : Query :=
  ⟨bytesOf "SELECT a FROM t", bytesOf "\n", by decide, by decide⟩

/-- A row of one column, and one of two. -/
def twoRows : CqlResult where
  type := .rows
  rows :=
    [⟨[⟨bytesOf "a", bytesOf "1"⟩]⟩,
      ⟨[⟨bytesOf "a", bytesOf "2"⟩, ⟨bytesOf "b", bytesOf "3"⟩]⟩]

/-- A `SELECT` answered with two rows, both of which are read, and a fetch behind them. -/
theorem eachStep_safe_select :
    EachStep (Tracked.next id) (Safe id) prepared
      (executeAndFetch selectQuery twoRows ++
        (readColumns 1 ++ (cachedConn, .fetch) :: (readColumns 2 ++ [(cachedConn, .fetch)]))) := by
  refine (eachStep_safe_iff id ?_).mpr ?_
  · refine EachStep.append ?_ rfl (EachStep.append ?_ rfl
      ⟨⟨fun _ => rfl, ?_⟩, fun second hsecond => ?_⟩)
    · refine ⟨⟨by simp, by simp [StmtCall.readsRow]⟩, fun next hnext => ?_⟩
      cases hnext
      exact ⟨⟨fun _ => rfl, by simp [StmtCall.readsRow]⟩, fun _ _ => trivial⟩
    · exact legal_of_readsRow rfl fun _ => readsRow_readColumns
    · simp [StmtCall.readsRow]
    · cases hsecond
      refine EachStep.append (legal_of_readsRow rfl fun _ => readsRow_readColumns) rfl
        ⟨⟨fun _ => rfl, by simp [StmtCall.readsRow]⟩, fun _ _ => trivial⟩
  · refine ⟨by simp [FetchesRows], fun opened hopened => ?_⟩
    cases hopened
    exact fetchesRows_of_opened rfl _

/-- PDO fetches behind an execute that was answered with `VOID`. -/
theorem not_eachStep_safe_void :
    EachStep (Tracked.next id) Legal prepared
        (executeAndFetch ⟨bytesOf "TRUNCATE t", [], by decide, by decide⟩ { type := .void }) ∧
      ¬ EachStep (Tracked.next id) (Safe id) prepared
        (executeAndFetch ⟨bytesOf "TRUNCATE t", [], by decide, by decide⟩ { type := .void }) := by
  constructor
  · refine ⟨⟨by simp, by simp [StmtCall.readsRow]⟩, fun next hnext => ?_⟩
    cases hnext
    exact ⟨⟨fun _ => rfl, by simp [StmtCall.readsRow]⟩, fun _ _ => trivial⟩
  · rintro ⟨-, hfetch⟩
    exact absurd rfl (hfetch _ rfl).1.1

end PdoCassandra.Properties.CursorSafety
