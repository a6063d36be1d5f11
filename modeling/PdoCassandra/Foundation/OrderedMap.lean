import Mathlib.Logic.Function.Basic

/-!
# Maps in the order of their keys
-/

namespace PdoCassandra.Foundation

/-- The entries of a map, each key once and in increasing order. -/
structure OrderedMap (Key Value : Type) [LT Key] where
  entries : List (Key × Value)
  sorted : entries.Pairwise fun first second => first.1 < second.1

variable {Key Value : Type} [LT Key]

namespace OrderedMap

theorem ext_entries {first second : OrderedMap Key Value}
    (hentries : first.entries = second.entries) : first = second := by
  cases first
  cases second
  cases hentries
  rfl

def empty : OrderedMap Key Value := ⟨[], List.Pairwise.nil⟩

variable [DecidableLT Key] [DecidableEq Key]

/-- Put a value under its key, in place of the value that the key had. -/
def insertEntry (key : Key) (value : Value) : List (Key × Value) → List (Key × Value)
  | [] => [(key, value)]
  | entry :: entries =>
      if entry.1 = key then (key, value) :: entries
      else if entry.1 < key then entry :: insertEntry key value entries
      else (key, value) :: entry :: entries

theorem mem_insertEntry {key : Key} {value : Value} {entries : List (Key × Value)}
    {entry : Key × Value} (hmem : entry ∈ insertEntry key value entries) :
    entry = (key, value) ∨ entry ∈ entries := by
  induction entries with
  | nil => exact Or.inl (List.mem_singleton.mp hmem)
  | cons head entries ih =>
      unfold insertEntry at hmem
      split at hmem
      · exact (List.mem_cons.mp hmem).imp_right fun hold => List.mem_cons_of_mem _ hold
      · split at hmem
        · rcases List.mem_cons.mp hmem with hhead | htail
          · exact Or.inr (hhead ▸ List.mem_cons_self)
          · exact (ih htail).imp_right fun hold => List.mem_cons_of_mem _ hold
        · exact List.mem_cons.mp hmem

/-- A key behind all others goes to the end. -/
theorem insertEntry_last [Std.Irrefl (· < · : Key → Key → Prop)] {key : Key} {value : Value}
    {entries : List (Key × Value)} (hlast : ∀ entry ∈ entries, entry.1 < key) :
    insertEntry key value entries = entries ++ [(key, value)] := by
  induction entries with
  | nil => rfl
  | cons head entries ih =>
      have hlt : head.1 < key := hlast head List.mem_cons_self
      have hne : head.1 ≠ key := by
        intro heq
        exact Std.Irrefl.irrefl key (heq ▸ hlt)
      rw [insertEntry, if_neg hne, if_pos hlt,
        ih fun entry hentry => hlast entry (List.mem_cons_of_mem _ hentry), List.cons_append]

variable
  [Trans (· < · : Key → Key → Prop) (· < · : Key → Key → Prop) (· < · : Key → Key → Prop)]
  [Std.Trichotomous (· < · : Key → Key → Prop)]

theorem insertEntry_sorted (key : Key) (value : Value) {entries : List (Key × Value)}
    (hsorted : entries.Pairwise fun first second => first.1 < second.1) :
    (insertEntry key value entries).Pairwise fun first second => first.1 < second.1 := by
  induction hsorted with
  | nil => exact List.pairwise_singleton _ _
  | @cons head entries hhead htail ih =>
      unfold insertEntry
      split
      case isTrue heq =>
        refine List.Pairwise.cons (fun entry hentry => ?_) htail
        exact heq ▸ hhead entry hentry
      case isFalse hne =>
        split
        case isTrue hlt =>
          refine List.Pairwise.cons (fun entry hentry => ?_) ih
          rcases mem_insertEntry hentry with rfl | hold
          · exact hlt
          · exact hhead entry hold
        case isFalse hnlt =>
          have hkey : key < head.1 := by
            rcases Std.lt_trichotomy head.1 key with hlt | heq | hgt
            · exact absurd hlt hnlt
            · exact absurd heq hne
            · exact hgt
          refine List.Pairwise.cons (fun entry hentry => ?_) (List.Pairwise.cons hhead htail)
          rcases List.mem_cons.mp hentry with rfl | hold
          · exact hkey
          · exact Std.lt_trans hkey (hhead entry hold)

def insert (map : OrderedMap Key Value) (key : Key) (value : Value) :
    OrderedMap Key Value :=
  ⟨insertEntry key value map.entries, insertEntry_sorted key value map.sorted⟩

variable [Std.Irrefl (· < · : Key → Key → Prop)]

/-- Inserting in increasing order behind what is there puts the entries at the end. -/
theorem foldl_insert_entries (map : OrderedMap Key Value) {entries : List (Key × Value)}
    (hsorted : (map.entries ++ entries).Pairwise fun first second => first.1 < second.1) :
    (entries.foldl (fun map entry => map.insert entry.1 entry.2) map).entries =
      map.entries ++ entries := by
  induction entries generalizing map with
  | nil => exact (List.append_nil _).symm
  | cons entry entries ih =>
      have hlast : ∀ first ∈ map.entries, first.1 < entry.1 := by
        intro first hfirst
        exact (List.pairwise_append.mp hsorted).2.2 first hfirst entry List.mem_cons_self
      have hinsert : (map.insert entry.1 entry.2).entries = map.entries ++ [entry] :=
        insertEntry_last hlast
      rw [List.foldl_cons, ih, hinsert, List.append_assoc, List.singleton_append]
      rwa [hinsert, List.append_assoc]

/-- A map is what its own entries build. -/
theorem foldl_insert_empty (map : OrderedMap Key Value) :
    map.entries.foldl (fun map entry => map.insert entry.1 entry.2) empty = map :=
  ext_entries (foldl_insert_entries empty map.sorted)

end OrderedMap

end PdoCassandra.Foundation
