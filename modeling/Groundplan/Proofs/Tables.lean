import Groundplan.NameTable
/-!
Laws of tables. A table that is built by insertion is ordered, so each of its
keys has one entry, and looking a key up finds exactly that entry.
-/

namespace Groundplan

/-! ## Order of names -/

namespace FullName

theorem compare_eq_compareLex :
    (compare : FullName → FullName → Ordering) =
      compareLex (compareOn FullName.module) (compareOn FullName.path) := rfl

instance : Std.TransOrd FullName := by
  rw [Std.TransOrd, compare_eq_compareLex]
  infer_instance

instance : Std.LawfulEqOrd FullName where
  compare_self := by
    intro name
    rw [compare_eq_compareLex]
    simp [compareLex, compareOn]
  eq_of_compare := by
    intro left right equal
    have parts := Ordering.then_eq_eq.mp equal
    cases left
    cases right
    rw [FullName.mk.injEq]
    exact ⟨Std.LawfulEqOrd.eq_of_compare parts.1, Std.LawfulEqOrd.eq_of_compare parts.2⟩

end FullName

/-- Paths with a common start are ordered like what follows it. -/
theorem compare_append_append (front left right : List String) :
    compare (front ++ left) (front ++ right) = compare left right := by
  induction front with
  | nil => rfl
  | cons first others induction =>
      have step : compare (first :: others ++ left) (first :: others ++ right) =
          (compare first first).then (compare (others ++ left) (others ++ right)) :=
        List.compareLex_cons_cons
      rw [step, induction, Std.compare_self, Ordering.eq_then]

/-- A start of a path comes before the whole path. -/
theorem compare_start (front : List String) (key : String) (rest : List String) :
    compare front (front ++ key :: rest) = .lt := by
  have cut := compare_append_append front [] (key :: rest)
  rw [List.append_nil] at cut
  exact cut.trans List.compareLex_nil_cons

theorem compare_concat_concat (front : List String) (left right : String) :
    compare (front ++ [left]) (front ++ [right]) = compare left right := by
  have step : compare [left] [right] =
      (compare left right).then (compare ([] : List String) []) := List.compareLex_cons_cons
  rw [compare_append_append, step, Std.compare_self, Ordering.then_eq]

namespace Table

variable {κ : Type u} {α : Type v} {β : Type w}

/-- Of the items of a list only one passes a check that is passed once. -/
theorem eq_of_countP_eq_one {items : List α} {check : α → Bool} (once : items.countP check = 1)
    {left right : α} (inLeft : left ∈ items) (inRight : right ∈ items)
    (passLeft : check left = true) (passRight : check right = true) : left = right := by
  rw [List.countP_eq_length_filter] at once
  rcases List.length_eq_one_iff.mp once with ⟨only, alone⟩
  have isLeft : left ∈ items.filter check := List.mem_filter.mpr ⟨inLeft, passLeft⟩
  have isRight : right ∈ items.filter check := List.mem_filter.mpr ⟨inRight, passRight⟩
  rw [alone, List.mem_singleton] at isLeft isRight
  rw [isLeft, isRight]

/-! ## Keys and entries -/

@[simp] theorem keys_nil : keys ([] : Table κ α) = [] := rfl

@[simp] theorem keys_cons (entry : κ × α) (table : Table κ α) :
    keys (entry :: table) = entry.1 :: keys table := rfl

theorem mem_keys_of_mem {key : κ} {value : α} {table : Table κ α}
    (member : (key, value) ∈ table) : key ∈ keys table :=
  List.mem_map.mpr ⟨(key, value), member, rfl⟩

theorem eq_of_nodup_keys {entries : List (κ × α)} (nodup : (keys entries).Nodup) {key : κ}
    {first second : α} (listed : (key, first) ∈ entries) (again : (key, second) ∈ entries) :
    first = second := by
  induction entries with
  | nil => cases listed
  | cons entry rest induction =>
      rcases List.nodup_cons.mp nodup with ⟨fresh, nodup⟩
      rcases List.mem_cons.mp listed with rfl | listed <;>
        rcases List.mem_cons.mp again with same | again
      · exact (congrArg Prod.snd same).symm
      · exact absurd (mem_keys_of_mem again) fresh
      · exact absurd (same ▸ mem_keys_of_mem listed) fresh
      · exact induction nodup listed again

variable [Ord κ]

theorem mem_of_mem_insert {key : κ} {value : α} {table : Table κ α} {entry : κ × α}
    (member : entry ∈ insert key value table) : entry = (key, value) ∨ entry ∈ table := by
  induction table with
  | nil => exact Or.inl (List.mem_singleton.mp member)
  | cons first rest induction =>
      rcases first with ⟨other, old⟩
      rw [insert] at member
      split at member
      · exact List.mem_cons.mp member
      · rcases List.mem_cons.mp member with equal | member
        · exact Or.inl equal
        · exact Or.inr (List.mem_cons_of_mem _ member)
      · rcases List.mem_cons.mp member with equal | member
        · exact Or.inr (equal ▸ List.mem_cons_self)
        · exact (induction member).imp id (List.mem_cons_of_mem _)

private theorem mem_of_mem_foldl_insert {entries : List (κ × α)} {table : Table κ α}
    {entry : κ × α}
    (member : entry ∈ entries.foldl (fun table entry => insert entry.1 entry.2 table) table) :
    entry ∈ entries ∨ entry ∈ table := by
  induction entries generalizing table with
  | nil => exact Or.inr member
  | cons first rest induction =>
      rcases induction member with member | member
      · exact Or.inl (List.mem_cons_of_mem _ member)
      · rcases mem_of_mem_insert member with equal | member
        · exact Or.inl (equal ▸ List.mem_cons_self)
        · exact Or.inr member

theorem mem_of_mem_ofList {entries : List (κ × α)} {entry : κ × α}
    (member : entry ∈ ofList entries) : entry ∈ entries := by
  rcases mem_of_mem_foldl_insert member with member | member
  · exact member
  · cases member

theorem ordered_nil : Ordered ([] : Table κ α) := List.Pairwise.nil

theorem ordered_iff_keys {table : Table κ α} :
    Ordered table ↔ (keys table).Pairwise fun left right => compare left right = .lt := by
  rw [Ordered, keys, List.pairwise_map]

/-- Whether keys are in strictly increasing order. -/
def Ascending (keys : List κ) : Prop :=
  keys.Pairwise fun left right => compare left right = .lt

private theorem insert_map (transform : κ → α → β) (key : κ) (value : α) (table : Table κ α) :
    insert key (transform key value) (table.map fun entry => (entry.1, transform entry.1 entry.2)) =
      (insert key value table).map fun entry => (entry.1, transform entry.1 entry.2) := by
  induction table with
  | nil => rfl
  | cons entry rest induction =>
      rw [List.map_cons, insert, insert]
      cases compare key entry.1 with
      | lt => rfl
      | eq => rfl
      | gt => rw [List.map_cons, induction]

/-- Values that depend on their keys can be changed before or after a table is made. -/
theorem ofList_map (transform : κ → α → β) (entries : List (κ × α)) :
    ofList (entries.map fun entry => (entry.1, transform entry.1 entry.2)) =
      (ofList entries).map fun entry => (entry.1, transform entry.1 entry.2) := by
  have general : ∀ table : Table κ α,
      (entries.map fun entry => (entry.1, transform entry.1 entry.2)).foldl
          (fun table entry => insert entry.1 entry.2 table)
          (table.map fun entry => (entry.1, transform entry.1 entry.2)) =
        (entries.foldl (fun table entry => insert entry.1 entry.2 table) table).map
          fun entry => (entry.1, transform entry.1 entry.2) := by
    induction entries with
    | nil => exact fun table => rfl
    | cons entry rest induction =>
        intro table
        rw [List.map_cons, List.foldl_cons, List.foldl_cons, insert_map, induction]
  exact general []

variable [Std.LawfulEqOrd κ]

theorem find?_eq_none_iff {key : κ} {table : Table κ α} :
    find? key table = none ↔ key ∉ keys table := by
  induction table with
  | nil => simp
  | cons entry rest induction =>
      rcases entry with ⟨other, old⟩
      by_cases same : key = other
      · subst same
        simp [find?_cons_self]
      · rw [find?_cons_of_ne same, induction]
        simp [same]

theorem exists_find?_of_mem_keys {key : κ} {table : Table κ α} (member : key ∈ keys table) :
    ∃ value, find? key table = some value := by
  cases found : find? key table with
  | none => exact absurd member (find?_eq_none_iff.mp found)
  | some value => exact ⟨value, rfl⟩

theorem mem_keys_iff_find? {key : κ} {table : Table κ α} :
    key ∈ keys table ↔ ∃ value, find? key table = some value := by
  constructor
  · exact exists_find?_of_mem_keys
  · intro ⟨value, found⟩
    exact mem_keys_of_mem (mem_of_find? found)

theorem has_iff_mem_keys {key : κ} {table : Table κ α} :
    has key table = true ↔ key ∈ keys table := by
  rw [has, Option.isSome_iff_exists, mem_keys_iff_find?]

theorem mem_keys_insert {key wanted : κ} {value : α} {table : Table κ α} :
    wanted ∈ keys (insert key value table) ↔ wanted = key ∨ wanted ∈ keys table := by
  by_cases same : wanted = key
  · subst same
    simp [mem_keys_iff_find?, find?_insert_self]
  · simp [mem_keys_iff_find?, find?_insert_of_ne same, same]

/-- Leaving out entries by their keys leaves the others as they are. -/
theorem find?_filter (kept : κ → Bool) {key : κ} (isKept : kept key = true) (table : Table κ α) :
    find? key (table.filter fun entry => kept entry.1) = find? key table := by
  induction table with
  | nil => rfl
  | cons entry rest induction =>
      rcases entry with ⟨other, old⟩
      rw [List.filter_cons]
      by_cases same : key = other
      · subst same
        rw [if_pos isKept, find?_cons_self, find?_cons_self]
      · split
        · rw [find?_cons_of_ne same, find?_cons_of_ne same, induction]
        · rw [find?_cons_of_ne same, induction]

/-- A table whose values depend on their keys is looked up like the original. -/
theorem find?_map (transform : κ → α → β) (key : κ) (table : Table κ α) :
    find? key (table.map fun entry => (entry.1, transform entry.1 entry.2)) =
      (find? key table).map (transform key) := by
  induction table with
  | nil => rfl
  | cons entry rest induction =>
      rcases entry with ⟨other, old⟩
      rw [List.map_cons]
      by_cases same : key = other
      · subst same
        rw [find?_cons_self, find?_cons_self, Option.map_some]
      · rw [find?_cons_of_ne same, find?_cons_of_ne same, induction]

/-- Listed items are found under their keys, whatever is kept of them. -/
theorem find?_ofList_map (key : κ) (given : α → κ) (transform : α → β) (items : List α) :
    find? key (ofList (items.map fun item => (given item, transform item))) =
      (find? key (ofList (items.map fun item => (given item, item)))).map transform := by
  have mapped := ofList_map (fun _ => transform) (items.map fun item => (given item, item))
  rw [List.map_map] at mapped
  exact (congrArg (find? key) mapped).trans (find?_map (fun _ => transform) key _)

/-! ## Ordered tables -/

theorem Ordered.nodup_keys {table : Table κ α} (ordered : Ordered table) :
    (keys table).Nodup := by
  refine List.pairwise_map.mpr (ordered.imp ?_)
  intro left right before same
  rw [same] at before
  simp at before

theorem Ordered.find?_eq_some_iff {table : Table κ α} (ordered : Ordered table) {key : κ}
    {value : α} : find? key table = some value ↔ (key, value) ∈ table := by
  refine ⟨mem_of_find?, ?_⟩
  intro member
  induction table with
  | nil => cases member
  | cons entry rest induction =>
      rcases entry with ⟨other, old⟩
      have parts := List.pairwise_cons.mp ordered
      rcases List.mem_cons.mp member with equal | member
      · cases equal
        exact find?_cons_self key value rest
      · have after : compare other key = .lt := parts.1 (key, value) member
        have different : key ≠ other := by
          intro same
          rw [same] at after
          simp at after
        rw [find?_cons_of_ne different]
        exact induction parts.2 member

theorem mem_insertKey {key other : κ} {keys : List κ} :
    other ∈ insertKey key keys ↔ other = key ∨ other ∈ keys := by
  induction keys with
  | nil => simp [insertKey]
  | cons first rest induction =>
      rw [insertKey]
      split
      · simp
      · next equal =>
          have same : key = first := Std.LawfulEqOrd.eq_of_compare equal
          subst same
          simp
      · simp only [List.mem_cons, induction]
        exact or_left_comm

theorem Ascending.nodup {keys : List κ} (ascending : Ascending keys) : keys.Nodup :=
  ascending.imp fun before same => by
    rw [same] at before
    simp at before

/-! ## Tables of lists -/

private theorem find?_foldl_insert (key : κ) (entries : List (κ × α)) (table : Table κ α) :
    find? key (entries.foldl (fun table entry => insert entry.1 entry.2 table) table) =
      (find? key (ofList entries)).or (find? key table) := by
  induction entries generalizing table with
  | nil => rfl
  | cons entry rest induction =>
      rw [ofList, List.foldl_cons, List.foldl_cons, induction,
        induction (insert entry.1 entry.2 []), Option.or_assoc]
      congr 1
      by_cases same : key = entry.1
      · subst same
        rw [find?_insert_self, find?_insert_self, Option.some_or]
      · rw [find?_insert_of_ne same, find?_insert_of_ne same, find?_nil, Option.none_or]

omit [Std.LawfulEqOrd κ] in
theorem ofList_append (earlier later : List (κ × α)) :
    ofList (earlier ++ later) =
      later.foldl (fun table entry => insert entry.1 entry.2 table) (ofList earlier) :=
  List.foldl_append

/-- The later list counts before the earlier one. -/
theorem find?_ofList_append (key : κ) (earlier later : List (κ × α)) :
    find? key (ofList (earlier ++ later)) =
      (find? key (ofList later)).or (find? key (ofList earlier)) := by
  rw [ofList_append]
  exact find?_foldl_insert key later _

/-- The last entry of a key counts. -/
theorem find?_ofList [DecidableEq κ] (key : κ) (entries : List (κ × α)) :
    find? key (ofList entries) =
      (entries.reverse.find? fun entry => entry.1 = key).map Prod.snd := by
  induction entries with
  | nil => rfl
  | cons entry rest induction =>
      have single : find? key (ofList [entry]) = if key = entry.1 then some entry.2 else none :=
        find?_insert _ _ _ _
      rw [← List.singleton_append, find?_ofList_append, single, induction, List.reverse_append,
        List.find?_append, Option.map_or]
      congr 1
      by_cases same : entry.1 = key <;> simp [same, eq_comm]

theorem mem_keys_ofList {key : κ} {entries : List (κ × α)} :
    key ∈ keys (ofList entries) ↔ ∃ value, (key, value) ∈ entries := by
  constructor
  · intro member
    rcases exists_find?_of_mem_keys member with ⟨value, found⟩
    exact ⟨value, mem_of_mem_ofList (mem_of_find? found)⟩
  · rintro ⟨value, member⟩
    rcases List.append_of_mem member with ⟨before, after, split⟩
    rw [mem_keys_iff_find?, ← Option.isSome_iff_exists, split, ← List.singleton_append,
      find?_ofList_append, find?_ofList_append]
    have self : find? key (ofList [(key, value)]) = some value := find?_insert_self _ _ _
    rw [self]
    simp

theorem find?_ofList_eq_none {key : κ} {entries : List (κ × α)}
    (absent : ∀ entry ∈ entries, entry.1 ≠ key) : find? key (ofList entries) = none := by
  rw [find?_eq_none_iff, mem_keys_ofList]
  rintro ⟨value, member⟩
  exact absent _ member rfl

/-- The last entry of a key is the one that no later entry of the key follows. -/
theorem find?_ofList_eq_some_iff_append [DecidableEq κ] {key : κ} {value : α}
    {entries : List (κ × α)} : find? key (ofList entries) = some value ↔
      ∃ earlier later, entries = earlier ++ (key, value) :: later ∧
        ∀ entry ∈ later, entry.1 ≠ key := by
  constructor
  · intro found
    rw [find?_ofList] at found
    rcases Option.map_eq_some_iff.mp found with ⟨⟨other, last⟩, atEnd, rfl⟩
    rcases List.find?_eq_some_iff_append.mp atEnd with ⟨isKey, later, earlier, split, others⟩
    cases of_decide_eq_true isKey
    refine ⟨earlier.reverse, later.reverse, ?_, ?_⟩
    · rw [← List.reverse_reverse entries, split]
      simp
    · intro entry member
      simpa using others entry (List.mem_reverse.mp member)
  · rintro ⟨earlier, later, rfl, others⟩
    have self : find? key (ofList [(key, value)]) = some value := find?_insert_self _ _ _
    rw [← List.singleton_append, find?_ofList_append, find?_ofList_append,
      find?_ofList_eq_none others, self]
    rfl

/-- A list without repeated keys is looked up like its table. -/
theorem find?_ofList_eq_some_iff {entries : List (κ × α)} (nodup : (keys entries).Nodup)
    {key : κ} {value : α} :
    find? key (ofList entries) = some value ↔ (key, value) ∈ entries := by
  refine ⟨fun found => mem_of_mem_ofList (mem_of_find? found), fun member => ?_⟩
  rcases exists_find?_of_mem_keys (mem_keys_ofList.mpr ⟨value, member⟩) with ⟨counted, found⟩
  have listed := mem_of_mem_ofList (mem_of_find? found)
  rw [found, eq_of_nodup_keys nodup listed member]

/-- What is kept of items, under their keys. -/
def kept (given : ι → κ) (keep : ι → Option α) (items : List ι) : List (κ × α) :=
  items.filterMap fun item => (keep item).map fun value => (given item, value)

/-- The last item with a key of which anything is kept counts. -/
theorem find?_ofList_kept [DecidableEq κ] (given : ι → κ) (keep : ι → Option α) (items : List ι)
    (key : κ) : find? key (ofList (kept given keep items)) =
      items.reverse.findSome? fun item => if given item = key then keep item else none := by
  induction items with
  | nil => rfl
  | cons item rest induction =>
      rw [List.reverse_cons, List.findSome?_append, ← induction, kept, List.filterMap_cons]
      cases found : keep item with
      | none => simp [kept, found]
      | some value =>
          dsimp only [Option.map_some]
          rw [← List.singleton_append, find?_ofList_append]
          congr 1
          by_cases same : given item = key
          · subst same
            simp [found, find?_cons_self, ofList, insert]
          · simp [same, ofList, insert, find?_cons_of_ne (Ne.symm same)]

/-- Of items with different keys, the one with the wanted key says what is kept under it. -/
theorem find?_ofList_kept_of_nodup {given : ι → κ} {items : List ι}
    (nodup : (items.map given).Nodup) (keep : ι → Option α) (key : κ) :
    find? key (ofList (kept given keep items)) =
      (find? key (ofList (items.map fun item => (given item, item)))).bind keep := by
  have listed : keys (items.map fun item => (given item, item)) = items.map given := by
    rw [keys, List.map_map]
    rfl
  have keptKeys : keys (kept given keep items) =
      (items.filter fun item => (keep item).isSome).map given := by
    clear nodup listed
    induction items with
    | nil => rfl
    | cons item rest induction =>
        rw [kept] at induction ⊢
        cases found : keep item <;> simp [found, ← induction]
  have nodupKept := keptKeys ▸ nodup.sublist (List.filter_sublist.map given)
  refine Option.ext fun value => ?_
  rw [find?_ofList_eq_some_iff nodupKept, Option.bind_eq_some_iff]
  simp only [find?_ofList_eq_some_iff (listed ▸ nodup), kept, List.mem_filterMap, List.mem_map,
    Option.map_eq_some_iff, Prod.mk.injEq]
  constructor
  · rintro ⟨item, member, _, found, rfl, rfl⟩
    exact ⟨item, ⟨item, member, rfl, rfl⟩, found⟩
  · rintro ⟨_, ⟨item, member, rfl, rfl⟩, found⟩
    exact ⟨item, member, value, found, rfl, rfl⟩

/-- Of lists that stand under different keys, only the one under `outer` can hold `key`. -/
theorem find?_ofList_flatMap {ι : Type x} [Ord ι] [Std.LawfulEqOrd ι] [DecidableEq ι]
    {lists : Table ι β} {inner : ι × β → List (κ × α)} {outer : ι} {key : κ}
    (nodup : (keys lists).Nodup)
    (elsewhere : ∀ entry ∈ lists, entry.1 ≠ outer → ∀ item ∈ inner entry, item.1 ≠ key) :
    find? key (ofList (lists.flatMap inner)) =
      (find? outer lists).bind fun value => find? key (ofList (inner (outer, value))) := by
  induction lists with
  | nil => rfl
  | cons first rest induction =>
      have parts := List.nodup_cons.mp nodup
      have below := induction parts.2 fun entry member =>
        elsewhere entry (List.mem_cons_of_mem _ member)
      rw [List.flatMap_cons, find?_ofList_append, below]
      rcases first with ⟨given, value⟩
      by_cases same : outer = given
      · subst same
        rw [find?_cons_self, find?_eq_none_iff.mpr parts.1]
        rfl
      · have unlisted := elsewhere (given, value) List.mem_cons_self (Ne.symm same)
        rw [find?_cons_of_ne same, find?_ofList_eq_none unlisted, Option.or_none]

variable [Std.TransOrd κ]

theorem ordered_insert (key : κ) (value : α) {table : Table κ α} (ordered : Ordered table) :
    Ordered (insert key value table) := by
  induction table with
  | nil => exact List.pairwise_singleton _ _
  | cons entry rest induction =>
      rcases entry with ⟨other, old⟩
      have parts := List.pairwise_cons.mp ordered
      rw [insert]
      split
      · next before =>
          refine List.pairwise_cons.mpr ⟨?_, ordered⟩
          intro later member
          rcases List.mem_cons.mp member with equal | member
          · exact equal ▸ before
          · exact Std.TransCmp.lt_trans before (parts.1 later member)
      · next equal =>
          have same : key = other := Std.LawfulEqOrd.eq_of_compare equal
          subst same
          exact List.pairwise_cons.mpr ⟨parts.1, parts.2⟩
      · next after =>
          refine List.pairwise_cons.mpr ⟨?_, induction parts.2⟩
          intro later member
          rcases mem_of_mem_insert member with equal | member
          · exact equal ▸ Std.OrientedCmp.gt_iff_lt.mp after
          · exact parts.1 later member

private theorem ordered_foldl_insert (entries : List (κ × α)) {table : Table κ α}
    (ordered : Ordered table) :
    Ordered (entries.foldl (fun table entry => insert entry.1 entry.2 table) table) := by
  induction entries generalizing table with
  | nil => exact ordered
  | cons entry rest induction => exact induction (ordered_insert entry.1 entry.2 ordered)

theorem ordered_ofList (entries : List (κ × α)) : Ordered (ofList entries) :=
  ordered_foldl_insert entries ordered_nil

/-- Ordered tables that are looked up alike are the same table. -/
theorem Ordered.ext {left right : Table κ α} (inLeft : Ordered left) (inRight : Ordered right)
    (same : ∀ key, find? key left = find? key right) : left = right := by
  have distinct : ∀ {table : Table κ α}, Ordered table → table.Nodup := fun ordered =>
    ordered.imp fun before equal => by
      rw [equal] at before
      simp at before
  have perm : left.Perm right := by
    rw [List.perm_ext_iff_of_nodup (distinct inLeft) (distinct inRight)]
    rintro ⟨key, value⟩
    rw [← inLeft.find?_eq_some_iff, ← inRight.find?_eq_some_iff, same key]
  refine List.Perm.eq_of_pairwise ?_ inLeft inRight perm
  intro first second _ _ before after
  rw [Std.OrientedCmp.gt_of_lt after] at before
  cases before

theorem ascending_insertKey (key : κ) {keys : List κ} (ascending : Ascending keys) :
    Ascending (insertKey key keys) := by
  induction keys with
  | nil => exact List.pairwise_singleton _ _
  | cons first rest induction =>
      have parts := List.pairwise_cons.mp ascending
      rw [insertKey]
      split
      · next before =>
          refine List.pairwise_cons.mpr ⟨?_, ascending⟩
          intro later member
          rcases List.mem_cons.mp member with rfl | member
          · exact before
          · exact Std.TransCmp.lt_trans before (parts.1 later member)
      · exact ascending
      · next after =>
          refine List.pairwise_cons.mpr ⟨?_, induction parts.2⟩
          intro later member
          rcases mem_insertKey.mp member with rfl | member
          · exact Std.OrientedCmp.gt_iff_lt.mp after
          · exact parts.1 later member

/-- Ascending lists of the same keys are the same list. -/
theorem Ascending.ext {left right : List κ} (inLeft : Ascending left) (inRight : Ascending right)
    (same : ∀ key, key ∈ left ↔ key ∈ right) : left = right := by
  have perm : left.Perm right := (List.perm_ext_iff_of_nodup inLeft.nodup inRight.nodup).mpr same
  refine List.Perm.eq_of_pairwise ?_ inLeft inRight perm
  intro first second _ _ before after
  rw [Std.OrientedCmp.gt_of_lt after] at before
  cases before

/-! ## Tables of the same entries in another order -/

/-- Lists that have no keys in common add up to one table, whatever their order. -/
theorem ofList_flatMap_perm {first second : List ι} {inner : ι → List (κ × α)}
    (perm : first.Perm second)
    (apart : first.Pairwise fun one other =>
      ∀ entry ∈ inner one, ∀ item ∈ inner other, entry.1 ≠ item.1) :
    ofList (first.flatMap inner) = ofList (second.flatMap inner) := by
  refine (ordered_ofList _).ext (ordered_ofList _) fun key => ?_
  induction perm with
  | nil => rfl
  | cons one _ induction =>
      rw [List.flatMap_cons, List.flatMap_cons, find?_ofList_append, find?_ofList_append,
        induction (List.pairwise_cons.mp apart).2]
  | swap one other rest =>
      have distinct := (List.pairwise_cons.mp apart).1 one List.mem_cons_self
      simp only [List.flatMap_cons, find?_ofList_append, Option.or_assoc]
      congr 1
      cases found : find? key (ofList (inner other)) with
      | none => simp
      | some value =>
          have absent : find? key (ofList (inner one)) = none :=
            find?_ofList_eq_none fun entry member same =>
              distinct _ (mem_of_mem_ofList (mem_of_find? found)) entry member same.symm
          simp [absent]
  | trans perm _ left right =>
      have symmetric : ∀ {one other : ι}, (∀ entry ∈ inner one, ∀ item ∈ inner other,
          entry.1 ≠ item.1) → ∀ entry ∈ inner other, ∀ item ∈ inner one, entry.1 ≠ item.1 :=
        fun apart entry member item isItem => (apart item isItem entry member).symm
      exact (left apart).trans (right (perm.pairwise apart symmetric))

/-- A list without repeated keys gives one table, whatever its order. -/
theorem ofList_perm {first second : List (κ × α)} (perm : first.Perm second)
    (nodup : (keys first).Nodup) : ofList first = ofList second := by
  have permuted : (keys second).Nodup := (perm.map Prod.fst).nodup_iff.mp nodup
  refine (ordered_ofList _).ext (ordered_ofList _) fun key => Option.ext fun value => ?_
  rw [find?_ofList_eq_some_iff nodup, find?_ofList_eq_some_iff permuted, perm.mem_iff]

theorem ofList_map_perm {first second : List ι} (perm : first.Perm second) {given : ι → κ}
    (nodup : (first.map given).Nodup) (transform : ι → α) :
    ofList (first.map fun item => (given item, transform item)) =
      ofList (second.map fun item => (given item, transform item)) := by
  refine ofList_perm (perm.map _) ?_
  rw [keys, List.map_map]
  exact nodup

theorem Ordered.ofList_eq {table : Table κ α} (ordered : Ordered table) :
    ofList table = table := by
  refine (ordered_ofList _).ext ordered fun key => Option.ext fun value => ?_
  rw [find?_ofList_eq_some_iff ordered.nodup_keys, ordered.find?_eq_some_iff]

/-- What is made of the entries of a table is found like the entries. -/
theorem Ordered.find?_ofList_map {table : Table κ α} (ordered : Ordered table)
    (transform : κ → α → β) (key : κ) :
    find? key (ofList (table.map fun entry => (entry.1, transform entry.1 entry.2))) =
      (find? key table).map (transform key) := by
  rw [ofList_map, ordered.ofList_eq, find?_map]

/-- A union with a table adds the entries that it was made of, one after the other. -/
theorem union_ofList {table : Table κ α} (ordered : Ordered table) (entries : List (κ × α)) :
    union table (ofList entries) =
      entries.foldl (fun table entry => insert entry.1 entry.2 table) table := by
  refine (ordered_foldl_insert _ ordered).ext (ordered_foldl_insert _ ordered) fun key => ?_
  rw [find?_foldl_insert, find?_foldl_insert, (ordered_ofList entries).ofList_eq]

/-- The entries of the right table count before those of the left one. -/
theorem find?_union {right : Table κ α} (ordered : Ordered right) (key : κ)
    (left : Table κ α) : find? key (union left right) = (find? key right).or (find? key left) := by
  rw [union, find?_foldl_insert, ordered.ofList_eq]

section Insert

variable [DecidableEq κ] {table : Table κ α} (ordered : Ordered table) {key other : κ}
include ordered

theorem insert_insert_self (value later : α) :
    insert key later (insert key value table) = insert key later table := by
  refine (ordered_insert _ _ (ordered_insert _ _ ordered)).ext (ordered_insert _ _ ordered) ?_
  intro wanted
  simp only [find?_insert]
  split <;> rfl

theorem insert_comm (different : key ≠ other) (value added : α) :
    insert other added (insert key value table) = insert key value (insert other added table) := by
  refine (ordered_insert _ _ (ordered_insert _ _ ordered)).ext
    (ordered_insert _ _ (ordered_insert _ _ ordered)) ?_
  intro wanted
  simp only [find?_insert]
  by_cases atKey : wanted = key
  · rw [if_pos atKey, if_pos atKey, if_neg fun atOther => different (atKey.symm.trans atOther)]
  · rw [if_neg atKey, if_neg atKey]

end Insert

end Table

end Groundplan
