import Mathlib.Data.List.TakeWhile
import PdoCassandra.Driver.Pdo

/-!
# The handle's keyspace and the session's

A `USE` that the driver recognises moves both, and so does every failure leave
both alone.  The two part when the connection is opened with a keyspace, which is
stored but not sent, and when a query that only the server reads as a `USE` goes
through.
-/

namespace PdoCassandra.Properties.SessionKeyspace

open PdoCassandra.Foundation.CString
open PdoCassandra.Foundation.Transition
open PdoCassandra.Driver
open PdoCassandra.Thrift

/-- The handle and the session name the same keyspace. -/
def Agree (system : System) : Prop :=
  system.conn.H.keyspace = system.conn.server.keyspace

/-- A query that is sent and answered is no `USE` of another keyspace. -/
def KeepsSession (system : System) (call : Call) : Prop :=
  ∀ query replies, Sends system.conn.H call query replies →
    (∃ result, recvExecuteCqlQuery replies.executeCqlQuery = .ok result) →
    ∀ keyspace, system.conn.server.cqlUse query.text = some keyspace →
      keyspace = system.conn.H.keyspace

/-! ## One call -/

/-- For a query that is sent and answered, the condition is about its `USE`. -/
theorem keepsSession_iff {system : System} {call : Call} {query : Query}
    {replies : Replies} {result : CqlResult}
    (hsends : Sends system.conn.H call query replies)
    (hquery : recvExecuteCqlQuery replies.executeCqlQuery = .ok result) :
    KeepsSession system call ↔
      ∀ keyspace, system.conn.server.cqlUse query.text = some keyspace →
        keyspace = system.conn.H.keyspace := by
  constructor
  · intro hkeeps
    exact hkeeps query replies hsends ⟨result, hquery⟩
  · intro huse other sent hother _
    obtain ⟨rfl, rfl⟩ := hsends.unique hother
    exact huse

theorem keepsSession_of_quiet {system : System} {call : Call}
    (hquiet : ∀ query replies, ¬ Sends system.conn.H call query replies) :
    KeepsSession system call :=
  fun query replies hsends => absurd hsends (hquiet query replies)

theorem agree_call_iff {unparse : Bytes → Bytes} {system : System}
    (hagree : Agree system) (call : Call) :
    Agree (system.call unparse call).2 ↔ KeepsSession system call := by
  have hstep := connStep unparse system call
  unfold Agree at hagree ⊢
  generalize (system.call unparse call).2.conn = after at hstep ⊢
  cases hstep with
  | quiet hquiet =>
      have hsame := (Call.cache_keyspace system.conn.H call).trans hagree
      exact iff_of_true hsame (keepsSession_of_quiet hquiet)
  | used hquiet => exact iff_of_true rfl (keepsSession_of_quiet hquiet)
  | @queried query replies result hsends hquery =>
      rw [keepsSession_iff hsends hquery]
      simp only [Call.cache_keyspace]
      cases system.conn.server.cqlUse query.text with
      | none => simpa using hagree
      | some keyspace => simp [eq_comm]
  | @queryRaised query replies e hsends hquery =>
      have hsame := (Call.cache_keyspace system.conn.H call).trans hagree
      apply iff_of_true hsame
      intro other sent hother hok
      obtain ⟨rfl, rfl⟩ := hsends.unique hother
      obtain ⟨result, hresult⟩ := hok
      rw [hquery] at hresult
      cases hresult

theorem next_agree_iff {unparse : Bytes → Bytes} {system next : System} {call : Call}
    (hagree : Agree system) (hnext : system.next unparse call = some next) :
    Agree next ↔ KeepsSession system call := by
  obtain ⟨value, hcall⟩ := system.next_eq_some unparse hnext
  have hiff := @agree_call_iff unparse system hagree call
  rwa [hcall] at hiff

/-- A call that does not return has not moved the session. -/
theorem keepsSession_of_next_eq_none {unparse : Bytes → Bytes} {system : System}
    {call : Call} (hnext : system.next unparse call = none) :
    KeepsSession system call := by
  intro query replies hsends hok
  obtain ⟨result, hquery⟩ := hok
  exact absurd hnext (hsends.next_ne_none unparse hquery)

/-! ## Runs -/

/--
After a successful connect, the two keyspaces agree throughout a run exactly when
the DSN names no keyspace and no call of the run sends a `USE` of another
keyspace that the driver does not recognise.
-/
theorem eachState_agree_iff (unparse : Bytes → Bytes) {vars : DataSource}
    {credentials : Credentials} {server : Server} {replies : Replies}
    (hopen : (pdoCassandraHandleFactory vars credentials server replies).1.exit = .ret 1)
    (stmts : Nat → Stmt) (calls : List Call) :
    EachState (System.next unparse) Agree
        (opened vars credentials server replies stmts) calls ↔
      vars.keyspace.getD [] = [] ∧
        EachStep (System.next unparse) KeepsSession
          (opened vars credentials server replies stmts) calls := by
  have hstart : Agree (opened vars credentials server replies stmts) ↔
      vars.keyspace.getD [] = [] := by
    simp only [Agree, opened, pdoCassandraHandleFactory_opened hopen]
  have hruns (hagree : Agree (opened vars credentials server replies stmts)) :
      EachState (System.next unparse) Agree
          (opened vars credentials server replies stmts) calls ↔
        EachStep (System.next unparse) KeepsSession
          (opened vars credentials server replies stmts) calls :=
    eachState_iff_eachStep next_agree_iff keepsSession_of_next_eq_none hagree
  constructor
  · intro hall
    exact ⟨hstart.mp hall.start, (hruns hall.start).mp hall⟩
  · rintro ⟨hkeyspace, hsteps⟩
    exact (hruns (hstart.mpr hkeyspace)).mpr hsteps

/-! ## A server that reads `USE` -/

/-- CQL separates tokens by spaces, tabs and newlines. -/
def isSeparator (byte : UInt8) : Bool :=
  byte = ch ' ' || byte = ch '\t' || byte = ch '\n'

/-- The bytes of a name that is written without quotes. -/
def isNameByte (byte : UInt8) : Bool :=
  (ch 'a' ≤ lower byte && lower byte ≤ ch 'z') || (ch '0' ≤ byte && byte ≤ ch '9') ||
    byte = ch '_'

/-- The two tokens `USE` and the name of a keyspace are read as a `USE` of it. -/
def ReadsUse (cqlUse : Bytes → Option Bytes) : Prop :=
  ∀ use blanks keyspace : Bytes, use.map lower = bytesOf "use" → blanks ≠ [] →
    (∀ byte ∈ blanks, isSeparator byte = true) → keyspace ≠ [] →
    (∀ byte ∈ keyspace, isNameByte byte = true) →
    cqlUse (use ++ blanks ++ keyspace) = some keyspace

/-- A reader of the name behind a first word. -/
def useReader (query : Bytes) : Option Bytes :=
  if (query.take 3).map lower = bytesOf "use" then
    some (((query.drop 3).dropWhile isSeparator).takeWhile isNameByte)
  else none

theorem isSeparator_of_isNameByte {byte : UInt8} (hname : isNameByte byte = true) :
    isSeparator byte = false := by
  revert byte
  apply forall_byte
  decide +kernel

theorem readsUse_useReader : ReadsUse useReader := by
  intro use blanks keyspace huse _ hblanks hne hnames
  have hlength : use.length = 3 := by
    rw [← List.length_map (f := lower), huse]
    decide
  obtain ⟨first, rest, rfl⟩ := List.exists_cons_of_ne_nil hne
  have hfirst := isSeparator_of_isNameByte (hnames first List.mem_cons_self)
  have hword : (use ++ blanks ++ first :: rest).take 3 = use := by
    rw [List.append_assoc, List.take_left' hlength]
  have hbehind : (use ++ blanks ++ first :: rest).drop 3 = blanks ++ first :: rest := by
    rw [List.append_assoc, List.drop_left' hlength]
  have hname : (blanks ++ first :: rest).dropWhile isSeparator = first :: rest := by
    rw [List.dropWhile_append_of_pos hblanks, List.dropWhile_cons_of_neg (by simp [hfirst])]
  rw [useReader, hword, if_pos huse, hbehind, hname, List.takeWhile_eq_self_iff.mpr hnames]

/-- A server without keyspaces. -/
def readingServer : Server :=
  ⟨[], fun _ => some ⟨[], []⟩, useReader⟩

/-- A query that is answered with a result. -/
def answeredBy (result : CqlResult) : Replies :=
  { executeCqlQuery := .message { success := some result } }

/-- The session is moved by the driver, and then to the same keyspace by the server. -/
theorem eachState_agree_use :
    EachState (System.next id) Agree
      (opened ⟨some (bytesOf "localhost"), none⟩ ⟨none, none⟩ readingServer {}
        fun _ => cassandraHandlePreparer)
      [.exec ⟨bytesOf "USE ks", [], by decide, by decide⟩ {},
        .exec ⟨bytesOf "USE\tks", [], by decide, by decide⟩ (answeredBy { type := .void }),
        .stmt 0 (.execute ⟨bytesOf "SELECT a FROM t", bytesOf "\n", by decide, by decide⟩
          { answeredBy { type := .rows, rows := [⟨[⟨bytesOf "a", bytesOf "1"⟩]⟩] } with
            describeKeyspace := .message { success := some ⟨bytesOf "ks", []⟩ } }),
        .stmt 0 .fetch] := by
  refine (eachState_agree_iff id (by decide) _ _).mpr ⟨rfl, ?_, fun used hused => ?_⟩
  · exact keepsSession_of_quiet fun _ _ =>
      not_sends_of_use (show useTarget _ = some (bytesOf "ks") by decide) (Or.inl ⟨_, rfl⟩)
  cases hused
  refine ⟨(keepsSession_iff (.exec (by decide)) rfl).mpr fun keyspace huse => ?_,
    fun moved hmoved => ?_⟩
  · have hsame : some (bytesOf "ks") = some keyspace := huse
    cases hsame
    rfl
  cases hmoved
  refine ⟨(keepsSession_iff (.execute (fun _ => ⟨_, rfl⟩) (by decide) (by decide)) rfl).mpr
    fun keyspace huse => ?_, fun selected hselected => ?_⟩
  · exact absurd (show none = some keyspace from huse) (by simp)
  · exact ⟨keepsSession_of_quiet fun _ _ hsends => (by cases hsends), fun _ _ => trivial⟩

/-- On a server that reads it, a `USE` with a tab moves the session alone. -/
theorem not_agree_tab {cqlUse : Bytes → Option Bytes} (hreads : ReadsUse cqlUse) :
    ¬ EachState (System.next id) Agree
      (opened ⟨some (bytesOf "localhost"), none⟩ ⟨none, none⟩ ⟨[], fun _ => none, cqlUse⟩ {}
        fun _ => cassandraHandlePreparer)
      [.exec ⟨bytesOf "USE\tks", [], by decide, by decide⟩ (answeredBy { type := .void })] := by
  rintro ⟨-, hafter⟩
  have hmoved : Option.getD (cqlUse (bytesOf "USE\tks")) [] = [] := (hafter _ rfl).symm
  have hblank : ∀ byte ∈ bytesOf "\t", isSeparator byte = true :=
    List.all_eq_true.mp (by decide)
  have hname : ∀ byte ∈ bytesOf "ks", isNameByte byte = true :=
    List.all_eq_true.mp (by decide)
  have huse := hreads (bytesOf "USE") (bytesOf "\t") (bytesOf "ks") (by decide) (by decide)
    hblank (by decide) hname
  have hquery : bytesOf "USE\tks" = bytesOf "USE" ++ bytesOf "\t" ++ bytesOf "ks" := by
    decide
  rw [hquery, huse] at hmoved
  exact absurd hmoved (by decide)

/--
Connecting with `keyspace=ks` leaves the session without one; a `USE` with a tab
moves the session alone, on every server that reads it as one.
-/
theorem not_agree_connect_and_tab :
    ((pdoCassandraHandleFactory ⟨some (bytesOf "localhost"), some (bytesOf "ks")⟩
        ⟨none, none⟩ readingServer {}).1.exit = .ret 1 ∧
      ¬ Agree (opened ⟨some (bytesOf "localhost"), some (bytesOf "ks")⟩ ⟨none, none⟩
        readingServer {} fun _ => cassandraHandlePreparer)) ∧
    ReadsUse useReader ∧
    ∀ cqlUse, ReadsUse cqlUse →
      ¬ EachState (System.next id) Agree
        (opened ⟨some (bytesOf "localhost"), none⟩ ⟨none, none⟩ ⟨[], fun _ => none, cqlUse⟩ {}
          fun _ => cassandraHandlePreparer)
        [.exec ⟨bytesOf "USE\tks", [], by decide, by decide⟩
          (answeredBy { type := .void })] :=
  ⟨⟨by decide, by unfold Agree; decide⟩, readsUse_useReader, fun _ => not_agree_tab⟩

end PdoCassandra.Properties.SessionKeyspace
