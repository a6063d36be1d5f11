import PdoCassandra.Driver.Handle
import PdoCassandra.Foundation.Literal

/-!
# What `cassandra_handle_quoter` produces

The quoter encloses the C string at its argument and escapes nothing, although it
reserves room for an escaped text.
-/

namespace PdoCassandra.Properties.Quoting

open PdoCassandra.Foundation.CString
open PdoCassandra.Foundation.Literal
open PdoCassandra.Driver

/--
The text is one literal for `v`, and in a query a lexer ends it where the quoter
did, unless a quote follows.
-/
def QuotesSafely (v : Bytes) : Prop :=
  IsLiteral (ch '\'') (cassandraHandleQuoter v) v ∧
    ∀ rest : Bytes, rest.head? ≠ some (ch '\'') →
      lexLiteral (ch '\'') (cassandraHandleQuoter v ++ rest) = some (v, rest)

/-- Nothing is cut off by the buffer. -/
theorem cassandraHandleQuoter_eq {v : Bytes} (hlength : v.length ≤ 2 ^ 29) :
    cassandraHandleQuoter v = ch '\'' :: (cstr v ++ [ch '\'']) := by
  have hsize := quotedSize_of_le hlength
  have htext : bytesOf "'" ++ cstr v ++ bytesOf "'" = ch '\'' :: (cstr v ++ [ch '\'']) := rfl
  have hfits : (ch '\'' :: (cstr v ++ [ch '\''])).length ≤ 2 * v.length + 3 - 1 := by
    have hcstr := cstr_length_le v
    simp only [List.length_cons, List.length_append, List.length_nil]
    omega
  rw [cassandraHandleQuoter, snprintf, htext, hsize, List.take_of_length_le hfits]
  apply (cstr_eq_self_iff _).mpr
  intro hnul
  have hquote : (0 : UInt8) ≠ ch '\'' := by decide
  rcases List.mem_cons.mp hnul with hzero | hnul
  · exact hquote hzero
  · rcases List.mem_append.mp hnul with hzero | hzero
    · exact cstr_nulFree v hzero
    · exact hquote (List.mem_singleton.mp hzero)

/-- The C string at a text is the text escaped only when there is nothing to escape. -/
theorem cstr_eq_escape_iff (quote : UInt8) (v : Bytes) :
    cstr v = escape quote v ↔ 0 ∉ v ∧ quote ∉ v := by
  constructor
  · intro hsame
    have hlength := congrArg List.length hsame
    rw [escape_length] at hlength
    have hcstr := cstr_length_le v
    have hfree : quote ∉ v := List.count_eq_zero.mp (by omega)
    rw [escape_of_not_mem hfree] at hsame
    exact ⟨(cstr_eq_self_iff v).mp hsame, hfree⟩
  · rintro ⟨hnul, hfree⟩
    rw [(cstr_eq_self_iff v).mpr hnul, escape_of_not_mem hfree]

/-- Up to the length that PDO hands over, only a NUL or a quote is mishandled. -/
theorem quotesSafely_iff {v : Bytes} (hlength : v.length ≤ 2 ^ 29) :
    QuotesSafely v ↔ 0 ∉ v ∧ ch '\'' ∉ v := by
  rw [← cstr_eq_escape_iff, ← isLiteral_enclosed_iff, ← cassandraHandleQuoter_eq hlength]
  constructor
  · intro hsafe
    exact hsafe.1
  · intro hliteral
    exact ⟨hliteral, fun rest hrest => hliteral.lex hrest⟩

theorem quotesSafely_word : QuotesSafely (bytesOf "word") :=
  (quotesSafely_iff (by decide)).mpr (by decide)

/-- A quote ends the literal early; a NUL loses the rest of the text. -/
theorem not_quotesSafely_quote_and_nul :
    ¬ QuotesSafely (bytesOf "a'b") ∧ ¬ QuotesSafely [ch 'a', 0, ch 'b'] := by
  constructor
  · rintro ⟨-, hlex⟩
    exact absurd (hlex [] (by decide)) (by decide)
  · rintro ⟨-, hlex⟩
    exact absurd (hlex [] (by decide)) (by decide)

end PdoCassandra.Properties.Quoting
