/-!
Tables: lists of entries whose keys are strictly increasing. `insert` keeps one
entry for a key and the entries in order, so a table lists its content the same
way whatever the order of insertion was.
-/

namespace Groundplan

/-- Entries in increasing order of key. -/
abbrev Table (κ : Type u) (α : Type v) := List (κ × α)

namespace Table

variable {κ : Type u} {α : Type v} {β : Type w} [Ord κ]

def find? (key : κ) : Table κ α → Option α
  | [] => none
  | (other, value) :: rest =>
      if compare key other = .eq then some value else find? key rest

def has (key : κ) (table : Table κ α) : Bool := (find? key table).isSome

/-- Store `value` under `key`, replacing an earlier entry of the same key. -/
def insert (key : κ) (value : α) : Table κ α → Table κ α
  | [] => [(key, value)]
  | (other, old) :: rest =>
      match compare key other with
      | .lt => (key, value) :: (other, old) :: rest
      | .eq => (key, value) :: rest
      | .gt => (other, old) :: insert key value rest

/-- Replace the value under `key` by `change` of it, which sees `none` when the
key is absent. -/
def alter (key : κ) (change : Option α → α) (table : Table κ α) : Table κ α :=
  insert key (change (find? key table)) table

/-- Put a key into a list of strictly increasing keys. -/
def insertKey (key : κ) : List κ → List κ
  | [] => [key]
  | other :: rest =>
      match compare key other with
      | .lt => key :: other :: rest
      | .eq => other :: rest
      | .gt => other :: insertKey key rest

/-- The table of `entries`; a later entry replaces an earlier one of its key. -/
def ofList (entries : List (κ × α)) : Table κ α :=
  entries.foldl (fun table entry => insert entry.1 entry.2 table) []

/-- The keys in increasing order. -/
def keys (table : Table κ α) : List κ := table.map Prod.fst

def values (table : Table κ α) : List α := table.map Prod.snd

/-- All entries of `right`, and those of `left` whose key `right` does not have. -/
def union (left right : Table κ α) : Table κ α :=
  right.foldl (fun table entry => insert entry.1 entry.2 table) left

/-- The keys are strictly increasing. -/
def Ordered (table : Table κ α) : Prop :=
  table.Pairwise fun left right => compare left.1 right.1 = .lt

example : insert "b" 1 [("a", 0), ("c", 2)] = [("a", 0), ("b", 1), ("c", 2)] := by decide

example : ofList [("b", 1), ("a", 2), ("b", 3)] = [("a", 2), ("b", 3)] := by decide

@[simp] theorem find?_nil (key : κ) : find? key ([] : Table κ α) = none := rfl

theorem find?_cons_self [Std.LawfulEqOrd κ] (key : κ) (value : α) (rest : Table κ α) :
    find? key ((key, value) :: rest) = some value := by
  simp [find?]

theorem find?_cons_of_ne [Std.LawfulEqOrd κ] {key other : κ} (different : key ≠ other)
    (value : α) (rest : Table κ α) : find? key ((other, value) :: rest) = find? key rest := by
  have apart : compare key other ≠ .eq := fun equal =>
    different (Std.LawfulEqOrd.eq_of_compare equal)
  rw [find?, if_neg apart]

theorem mem_of_find? [Std.LawfulEqOrd κ] {key : κ} {value : α} {table : Table κ α}
    (found : find? key table = some value) : (key, value) ∈ table := by
  induction table with
  | nil => simp at found
  | cons entry rest induction =>
      rcases entry with ⟨other, old⟩
      rw [find?] at found
      split at found
      · next equal =>
          have same : key = other := Std.LawfulEqOrd.eq_of_compare equal
          simp_all
      · exact List.mem_cons_of_mem _ (induction found)

theorem mem_keys_of_has [Std.LawfulEqOrd κ] {key : κ} {table : Table κ α}
    (holds : has key table = true) : key ∈ keys table := by
  induction table with
  | nil => simp [has] at holds
  | cons entry rest induction =>
      obtain ⟨other, old⟩ := entry
      rw [has, find?] at holds
      split at holds
      · next equal =>
          have same : key = other := Std.LawfulEqOrd.eq_of_compare equal
          simp [keys, same]
      · exact List.mem_cons_of_mem _ (induction holds)

theorem find?_insert_self [Std.LawfulEqOrd κ] (key : κ) (value : α) (table : Table κ α) :
    find? key (insert key value table) = some value := by
  induction table with
  | nil => simp [insert, find?]
  | cons entry rest induction =>
      obtain ⟨other, old⟩ := entry
      rw [insert]
      split
      · simp [find?]
      · simp [find?]
      · next later => simp [find?, later, induction]

theorem find?_insert_of_ne [Std.LawfulEqOrd κ] {key wanted : κ} (different : wanted ≠ key)
    (value : α) (table : Table κ α) :
    find? wanted (insert key value table) = find? wanted table := by
  have apart : compare wanted key ≠ .eq := fun equal =>
    different (Std.LawfulEqOrd.eq_of_compare equal)
  induction table with
  | nil => simp [insert, find?, apart]
  | cons entry rest induction =>
      obtain ⟨other, old⟩ := entry
      rw [insert]
      split
      · simp [find?, apart]
      · next equal =>
          have same : key = other := Std.LawfulEqOrd.eq_of_compare equal
          subst same
          simp [find?, apart]
      · simp [find?, induction]

theorem find?_insert [Std.LawfulEqOrd κ] [DecidableEq κ] (key wanted : κ) (value : α)
    (table : Table κ α) :
    find? wanted (insert key value table) =
      if wanted = key then some value else find? wanted table := by
  split
  · next equal => subst equal; exact find?_insert_self _ _ _
  · next different => exact find?_insert_of_ne different _ _

theorem length_insertKey_le (key : κ) (keys : List κ) :
    (insertKey key keys).length ≤ keys.length + 1 := by
  induction keys with
  | nil => exact Nat.le_refl _
  | cons first rest induction =>
      rw [insertKey]
      split
      · exact Nat.le_refl _
      · exact Nat.le_succ _
      · simp only [List.length_cons]
        omega

end Table

end Groundplan
