import PdoCassandra.Driver.Statement
import PdoCassandra.Foundation.Printf

/-!
# The text of an `InvalidRequestException`

The factory hands `e.why` to `zend_throw_exception` as it is; the doer and execute
hand it to `zend_throw_exception_ex` as a format, with no argument behind it.
-/

namespace PdoCassandra.Properties.ErrorText

open PdoCassandra.Foundation.CString
open PdoCassandra.Foundation.Printf
open PdoCassandra.Driver
open PdoCassandra.Driver.CqlParser
open PdoCassandra.Thrift

section

variable {Arg : Type} (convert : Convert Arg) (undefined : Undefined Arg) (args : Nat → Arg)

/-- The message of the exception, and the number of arguments taken to build it. -/
def build : Thrown → Printed
  | .literal message => ⟨message, 0⟩
  | .formatted message => format convert undefined args message

/-- The exception has `why` for its message, and no argument is taken. -/
def Carries (why : Bytes) (outcome : Outcome) : Prop :=
  outcome.thrown.map (build convert undefined args) = some ⟨why, 0⟩

end

/-- A client call raised an `InvalidRequestException` with this text. -/
def Refuses (why : Bytes) (outcome : Outcome) : Prop :=
  outcome.raised = some (.invalidRequest why)

/-! ## The two ways of throwing -/

section

variable {Arg : Type} {why : Bytes}

theorem refuses_catchInvalidRequest {failure : Int} {e : TException}
    (hrefuses : Refuses why (catchInvalidRequest failure e)) :
    (catchInvalidRequest failure e).thrown = some (.formatted (cstr why)) := by
  cases e with
  | invalidRequest text =>
      cases hrefuses
      rfl
  | _ => cases hrefuses

theorem refuses_catchConnect {e : TException} (hrefuses : Refuses why (catchConnect e)) :
    (catchConnect e).thrown = some (.literal (cstr why)) := by
  cases e with
  | invalidRequest text =>
      cases hrefuses
      rfl
  | _ => cases hrefuses

/-- A text used as a format. -/
theorem carries_formatted_iff (convert : Convert Arg) (args : Nat → Arg) {outcome : Outcome}
    (hfree : 0 ∉ why) (hthrown : outcome.thrown = some (.formatted (cstr why))) :
    (∀ undefined, Carries convert undefined args why outcome) ↔ ch '%' ∉ why := by
  rw [← format_eq_self_iff convert args why]
  simp only [Carries, hthrown, (cstr_eq_self_iff why).mpr hfree, Option.map_some, build,
    Option.some.injEq]

theorem carries_literal (convert : Convert Arg) (undefined : Undefined Arg)
    (args : Nat → Arg) {outcome : Outcome} (hfree : 0 ∉ why)
    (hthrown : outcome.thrown = some (.literal (cstr why))) :
    Carries convert undefined args why outcome := by
  simp only [Carries, hthrown, (cstr_eq_self_iff why).mpr hfree, Option.map_some, build]

end

/-! ## The three entry points -/

section

variable {why : Bytes}

theorem refuses_doer {conn : Conn} {sql : Query} {replies : Replies}
    (hrefuses : Refuses why (cassandraHandleDoer conn sql replies).1) :
    (cassandraHandleDoer conn sql replies).1.thrown = some (.formatted (cstr why)) := by
  rcases hcall : cassandraHandleDoer conn sql replies with ⟨outcome, after⟩
  rw [hcall] at hrefuses
  cases cassandraHandleDoer_exit hcall with
  | used huse hset | queried huse hquery => cases hrefuses
  | useRaised huse hset | queryRaised huse hquery => exact refuses_catchInvalidRequest hrefuses

theorem refuses_execute {conn : Conn} {stmt : Stmt} {query : Query} {replies : Replies}
    (hrefuses : Refuses why (pdoCassandraStmtExecute conn stmt query replies).1) :
    (pdoCassandraStmtExecute conn stmt query replies).1.thrown =
      some (.formatted (cstr why)) := by
  rcases hcall : pdoCassandraStmtExecute conn stmt query replies with ⟨outcome, after, left⟩
  rw [hcall] at hrefuses
  cases pdoCassandraStmtExecute_exit hcall with
  | overrun hcache hscan | used hcache hscan huse hset | queried hcache hscan huse hquery =>
      cases hrefuses
  | describeRaised hcache => exact refuses_catchInvalidRequest hrefuses
  | useRaised hcache hscan huse hset | queryRaised hcache hscan huse hquery =>
      exact refuses_catchInvalidRequest hrefuses

theorem refuses_factory {vars : DataSource} {credentials : Credentials} {server : Server}
    {replies : Replies}
    (hrefuses : Refuses why (pdoCassandraHandleFactory vars credentials server replies).1) :
    (pdoCassandraHandleFactory vars credentials server replies).1.thrown =
      some (.literal (cstr why)) := by
  unfold pdoCassandraHandleFactory at hrefuses ⊢
  cases hhost : vars.host with
  | none =>
      rw [hhost] at hrefuses
      cases hrefuses
  | some host =>
      simp only [hhost] at hrefuses ⊢
      cases hconnect : connect vars credentials (newConn server) replies with
      | ok conn =>
          rw [hconnect] at hrefuses
          cases hrefuses
      | error e =>
          rw [hconnect] at hrefuses
          exact refuses_catchConnect hrefuses

end

/--
Of the refusals with a given text, the doer's and execute's carry it exactly when it
holds no percent sign, whatever conversions print and whatever the argument area
holds; the factory's carry every text.
-/
theorem carries_iff {Arg : Type} (convert : Convert Arg) (args : Nat → Arg) {why : Bytes}
    (hfree : 0 ∉ why) :
    (∀ conn sql replies, Refuses why (cassandraHandleDoer conn sql replies).1 →
      ((∀ undefined, Carries convert undefined args why
        (cassandraHandleDoer conn sql replies).1) ↔ ch '%' ∉ why)) ∧
    (∀ conn stmt query replies,
      Refuses why (pdoCassandraStmtExecute conn stmt query replies).1 →
        ((∀ undefined, Carries convert undefined args why
          (pdoCassandraStmtExecute conn stmt query replies).1) ↔ ch '%' ∉ why)) ∧
    (∀ vars credentials server replies,
      Refuses why (pdoCassandraHandleFactory vars credentials server replies).1 →
        ∀ undefined, Carries convert undefined args why
          (pdoCassandraHandleFactory vars credentials server replies).1) :=
  ⟨fun _ _ _ hrefuses => carries_formatted_iff convert args hfree (refuses_doer hrefuses),
    fun _ _ _ _ hrefuses =>
      carries_formatted_iff convert args hfree (refuses_execute hrefuses),
    fun _ _ _ _ hrefuses undefined =>
      carries_literal convert undefined args hfree (refuses_factory hrefuses)⟩

/-- A query that the server refuses with a text. -/
def refusedQuery (why : Bytes) : Outcome :=
  (cassandraHandleDoer (newConn bareServer) ⟨bytesOf "SELECT c FROM t", [], by decide, by decide⟩
    { executeCqlQuery := .message { ire := some why } }).1

/-- A text without a percent sign. -/
theorem carries_plain_text :
    Carries (fun _ _ => []) silent (fun _ => ()) (bytesOf "no such column")
      (refusedQuery (bytesOf "no such column")) := by
  have hfree : 0 ∉ bytesOf "no such column" := by decide
  have hrefuses : Refuses (bytesOf "no such column")
      (refusedQuery (bytesOf "no such column")) := rfl
  exact ((carries_iff (fun _ _ => []) (fun _ => ()) hfree).1 _ _ _ hrefuses).mpr
    (by decide) silent

/-- One of two percent signs is lost, and `%s` takes an argument that was not passed. -/
theorem not_carries_percent :
    Refuses (bytesOf "no value '100%%'") (refusedQuery (bytesOf "no value '100%%'")) ∧
    ¬ Carries (fun _ _ => []) silent (fun _ => ()) (bytesOf "no value '100%%'")
      (refusedQuery (bytesOf "no value '100%%'")) ∧
    (refusedQuery (bytesOf "no value '100%%'")).thrown.map
        (build (fun _ _ => []) silent fun _ => ()) =
      some ⟨bytesOf "no value '100%'", 0⟩ ∧
    (refusedQuery (bytesOf "no value '%s'")).thrown.map
        (build (fun _ _ => []) silent fun _ => ()) =
      some ⟨bytesOf "no value ''", 1⟩ := by
  have hdoubled : (refusedQuery (bytesOf "no value '100%%'")).thrown.map
      (build (fun _ _ => []) silent fun _ => ()) =
        some ⟨bytesOf "no value '100%'", 0⟩ := by decide
  refine ⟨rfl, fun hcarries => ?_, hdoubled, by decide⟩
  rw [Carries, hdoubled] at hcarries
  exact absurd hcarries (by decide)

end PdoCassandra.Properties.ErrorText
