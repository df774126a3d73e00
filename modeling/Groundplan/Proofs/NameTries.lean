import Mathlib.Data.List.Dedup
import Groundplan.NameTrie
import Groundplan.Proofs.Resolution
/-!
Tables of names as tries. A trie answers every question like the ordered table of the same
additions, and both answer as a finite map does.
-/

namespace Groundplan

/-! ## Nodes -/

private theorem findSome?_nothing {ι : Type u} {β : Type v} (items : List ι) :
    (items.findSome? fun _ => (none : Option β)) = none :=
  List.findSome?_eq_none_iff.mpr fun _ _ => rfl

namespace TrieNode

variable {α : Type u}

theorem find?_bare (path : LocalName) : find? path (bare : TrieNode α) = none := by
  cases path <;> rfl

/-- A path that is added has its value, and all others have what they had. -/
theorem find?_add (value : α) (path other : LocalName) (here : TrieNode α) :
    find? other (add value path here) = if other = path then some value else find? other here := by
  induction path generalizing other here with
  | nil =>
      cases other with
      | nil => rfl
      | cons key rest => rfl
  | cons key rest induction =>
      cases other with
      | nil => rfl
      | cons given others =>
          rw [add, find?, children, Table.alter, Table.find?_insert]
          by_cases same : given = key
          · subst same
            rw [if_pos rfl, Option.bind_some, induction]
            cases found : Table.find? given here.children with
            | none => simp [find?, found, find?_bare]
            | some child => simp [find?, found]
          · rw [if_neg same, if_neg fun equal => same (List.cons.inj equal).1]
            rfl

/-- The last value on the way is the one of the longest start with a value. -/
theorem longest?_eq (path : LocalName) (here : TrieNode α) (depth : Nat)
    (best : Option (Nat × α)) :
    longest? best depth path here =
      ((List.range path.length).reverse.findSome? fun dropped =>
        (find? (path.take (dropped + 1)) here).map fun value => (depth + (dropped + 1), value)).or
        best := by
  induction path generalizing here depth best with
  | nil => rfl
  | cons key rest induction =>
      rw [List.length_cons, List.range_succ_eq_map, List.reverse_cons, List.findSome?_append,
        ← List.map_reverse, List.findSome?_map, longest?]
      cases found : Table.find? key here.children with
      | none => simp [find?, found, Function.comp_def, findSome?_nothing]
      | some child =>
          dsimp only
          rw [induction, Option.or_assoc]
          congr 2
          · funext dropped
            simp [find?, found, Nat.add_assoc, Nat.add_comm 1]
          · cases held : child.value? <;> simp [find?, found, held]

/-- Whether the keys at every node are in strict order. -/
inductive Ordered : TrieNode α → Prop where
  | node {value : Option α} {children : List (String × TrieNode α)}
      (ordered : Table.Ordered children) (below : ∀ entry ∈ children, entry.2.Ordered) :
      (node value children).Ordered

theorem ordered_bare : (bare : TrieNode α).Ordered := .node Table.ordered_nil (by simp)

theorem Ordered.ordered_children {here : TrieNode α} (ordered : here.Ordered) :
    Table.Ordered here.children := by
  cases ordered with
  | node ordered _ => exact ordered

theorem Ordered.child {here : TrieNode α} (ordered : here.Ordered) :
    ∀ entry ∈ here.children, entry.2.Ordered := by
  cases ordered with
  | node _ below => exact below

/-- A node in order, or a bare one where there is none. -/
theorem ordered_getD {κ : Type v} [Ord κ] [Std.LawfulEqOrd κ] {key : κ}
    {nodes : Table κ (TrieNode α)} (below : ∀ entry ∈ nodes, entry.2.Ordered) :
    ((Table.find? key nodes).getD bare).Ordered := by
  cases found : Table.find? key nodes with
  | none => exact ordered_bare
  | some child => exact below _ (Table.mem_of_find? found)

theorem Ordered.add {path : LocalName} {here : TrieNode α} (value : α) (ordered : here.Ordered) :
    (add value path here).Ordered := by
  induction path generalizing here with
  | nil => exact .node ordered.ordered_children ordered.child
  | cons key rest induction =>
      apply Ordered.node (Table.ordered_insert _ _ ordered.ordered_children)
      intro entry member
      rcases Table.mem_of_mem_insert member with rfl | member
      · exact induction (ordered_getD ordered.child)
      · exact ordered.child entry member

theorem childEntries_eq (children : List (String × TrieNode α)) :
    childEntries children =
      children.flatMap fun child =>
        child.2.entries.map fun entry => (child.1 :: entry.1, entry.2) := by
  induction children with
  | nil => rfl
  | cons child rest induction => rw [childEntries, induction, List.flatMap_cons]

/-- The entries of a node in order are what is found in it. -/
theorem mem_entries {path : LocalName} {value : α} {here : TrieNode α} (ordered : here.Ordered) :
    (path, value) ∈ here.entries ↔ here.find? path = some value := by
  induction path generalizing here with
  | nil =>
      rcases here with ⟨own, children⟩
      rw [entries, childEntries_eq, find?]
      simp [value?]
  | cons key rest induction =>
      rcases here with ⟨own, children⟩
      have inChild : (key :: rest, value) ∈ (node own children).entries ↔
          ∃ child, (key, child) ∈ children ∧ (rest, value) ∈ child.entries := by
        rw [entries, childEntries_eq]
        simp
      rw [inChild, find?, Option.bind_eq_some_iff]
      refine exists_congr fun child => ?_
      have listed : Table.find? key children = some child ↔ (key, child) ∈ children :=
        ordered.ordered_children.find?_eq_some_iff
      rw [TrieNode.children, listed]
      exact and_congr_right fun member => induction (ordered.child _ member)

/-- The paths of a node in order are in strict order, key by key. -/
theorem ordered_entries {here : TrieNode α} (ordered : here.Ordered) :
    here.entries.Pairwise fun left right => compare left.1 right.1 = .lt := by
  induction ordered with
  | @node own children ordered below induction =>
      rw [entries, childEntries_eq, List.pairwise_append, List.pairwise_flatMap]
      refine ⟨?_, ⟨?_, ?_⟩, ?_⟩
      · cases own <;> simp
      · intro child member
        rw [List.pairwise_map]
        refine (induction child member).imp fun {left right} before => ?_
        have step : compare (child.1 :: left.1) (child.1 :: right.1) =
            (compare child.1 child.1).then (compare left.1 right.1) := List.compareLex_cons_cons
        rw [step, Std.compare_self, before]
        rfl
      · refine ordered.imp fun {left right} before => ?_
        intro first inFirst second inSecond
        rcases List.mem_map.mp inFirst with ⟨entry, _, rfl⟩
        rcases List.mem_map.mp inSecond with ⟨other, _, rfl⟩
        have step : compare (left.1 :: entry.1) (right.1 :: other.1) =
            (compare left.1 right.1).then (compare entry.1 other.1) := List.compareLex_cons_cons
        rw [step, before]
        rfl
      · intro first inOwn second inChildren
        rcases List.mem_map.mp inOwn with ⟨_, _, rfl⟩
        rcases List.mem_flatMap.mp inChildren with ⟨child, _, member⟩
        rcases List.mem_map.mp member with ⟨entry, _, rfl⟩
        exact List.compareLex_nil_cons

end TrieNode

/-! ## Tries and tables -/

namespace NameTrie

variable {α : Type u} {trie : NameTrie α}

theorem find?_add (trie : NameTrie α) (name other : FullName) (value : α) :
    (trie.add name value).find? other = if other = name then some value else trie.find? other := by
  rw [find?, add, Table.alter, Table.find?_insert]
  by_cases sameModule : other.module = name.module
  · have samePath : other = name ↔ other.path = name.path := by
      rw [FullName.mk.injEq, and_iff_right sameModule]
    rw [if_pos sameModule, Option.bind_some, TrieNode.find?_add, find?, sameModule]
    simp only [samePath]
    cases Table.find? name.module trie.modules with
    | none => simp [TrieNode.find?_bare]
    | some root => simp
  · rw [if_neg sameModule, if_neg fun same => sameModule (congrArg FullName.module same)]
    rfl

/-- Additions after a trie count before it, like those of a table. -/
theorem find?_foldl_add (additions : List (FullName × α)) (trie : NameTrie α) (name : FullName) :
    (additions.foldl (fun trie added => trie.add added.1 added.2) trie).find? name =
      (Table.find? name (Table.ofList additions)).or (trie.find? name) := by
  induction additions generalizing trie with
  | nil => rfl
  | cons added rest induction =>
      have single : Table.find? name (Table.ofList [added]) =
          if name = added.1 then some added.2 else none := Table.find?_insert _ _ _ _
      rw [List.foldl_cons, induction, find?_add, ← List.singleton_append,
        Table.find?_ofList_append, single, Option.or_assoc]
      congr 1
      split <;> simp

theorem find?_ofList (additions : List (FullName × α)) (name : FullName) :
    (ofList additions).find? name = Table.find? name (Table.ofList additions) := by
  rw [ofList, find?_foldl_add]
  exact Option.or_none

/-- Whether the modules, and the keys at every node, are in strict order. -/
structure Ordered (trie : NameTrie α) : Prop where
  modules : Table.Ordered trie.modules
  below : ∀ root ∈ trie.modules, root.2.Ordered

theorem Ordered.add (ordered : trie.Ordered) (name : FullName) (value : α) :
    (trie.add name value).Ordered where
  modules := Table.ordered_insert _ _ ordered.modules
  below root member := by
    rcases Table.mem_of_mem_insert member with rfl | member
    · exact (TrieNode.ordered_getD ordered.below).add value
    · exact ordered.below root member

theorem ordered_foldl_add (additions : List (FullName × α)) (ordered : trie.Ordered) :
    (additions.foldl (fun trie added => trie.add added.1 added.2) trie).Ordered := by
  induction additions generalizing trie with
  | nil => exact ordered
  | cons added rest induction => exact induction (ordered.add added.1 added.2)

theorem ordered_ofList (additions : List (FullName × α)) : (ofList additions).Ordered :=
  ordered_foldl_add additions ⟨Table.ordered_nil, by simp [empty]⟩

theorem Ordered.mem_entries (ordered : trie.Ordered) {name : FullName} {value : α} :
    (name, value) ∈ trie.entries ↔ trie.find? name = some value := by
  have inRoot : (name, value) ∈ trie.entries ↔
      ∃ root, (name.module, root) ∈ trie.modules ∧ (name.path, value) ∈ root.entries := by
    rcases name with ⟨module, path⟩
    rw [entries]
    simp
  rw [inRoot, find?, Option.bind_eq_some_iff]
  refine exists_congr fun root => ?_
  rw [ordered.modules.find?_eq_some_iff]
  exact and_congr_right fun member => TrieNode.mem_entries (ordered.below _ member)

theorem Ordered.ordered_entries (ordered : trie.Ordered) : Table.Ordered trie.entries := by
  rw [Table.Ordered, entries, List.pairwise_flatMap]
  constructor
  · intro root member
    rw [List.pairwise_map]
    refine (TrieNode.ordered_entries (ordered.below root member)).imp fun {left right} before => ?_
    have step : compare (⟨root.1, left.1⟩ : FullName) ⟨root.1, right.1⟩ =
        (compare root.1 root.1).then (compare left.1 right.1) := rfl
    rw [step, Std.compare_self, before]
    rfl
  · refine ordered.modules.imp fun {left right} before => ?_
    intro first inFirst second inSecond
    rcases List.mem_map.mp inFirst with ⟨entry, _, rfl⟩
    rcases List.mem_map.mp inSecond with ⟨other, _, rfl⟩
    have step : compare (⟨left.1, entry.1⟩ : FullName) ⟨right.1, other.1⟩ =
        (compare left.1 right.1).then (compare entry.1 other.1) := rfl
    rw [step, before]
    rfl

theorem entries_ofList (additions : List (FullName × α)) :
    (ofList additions).entries = Table.ofList additions := by
  have ordered := ordered_ofList additions
  apply ordered.ordered_entries.ext (Table.ordered_ofList additions)
  intro name
  apply Option.ext
  intro value
  rw [ordered.ordered_entries.find?_eq_some_iff, ordered.mem_entries, find?_ofList]

theorem longestStart?_eq (trie : NameTrie α) {table : NameTable α} {name : FullName}
    (alike : ∀ path, trie.find? ⟨name.module, path⟩ = Table.find? ⟨name.module, path⟩ table) :
    trie.longestStart? name = NameTable.longestStart? table name := by
  rw [longestStart?, NameTable.longestStart?, NameTable.starts, List.findSome?_map]
  simp only [Function.comp_def, ← alike, find?]
  cases found : Table.find? name.module trie.modules with
  | none => simp [findSome?_nothing]
  | some root =>
      rw [Option.bind_some, TrieNode.longest?_eq, Option.or_none, List.map_findSome?]
      congr 1
      funext dropped
      simp [Function.comp_def]

/-- A trie without values is empty, and one in which a name is found is not. -/
theorem find?_of_isEmpty (isEmpty : trie.isEmpty = true) (name : FullName) :
    trie.find? name = none := by
  rw [NameTrie.isEmpty, List.all_eq_true] at isEmpty
  rw [find?, Option.bind_eq_none_iff]
  intro root found
  have alone := isEmpty _ (Table.mem_of_find? found)
  rw [Bool.and_eq_true, Option.isNone_iff_eq_none, List.isEmpty_iff] at alone
  cases pathKeys : name.path with
  | nil => exact alone.1
  | cons key rest => rw [TrieNode.find?, alone.2]; rfl

theorem isEmpty_ofList (additions : List (FullName × α)) :
    (ofList additions).isEmpty = (Table.ofList additions).isEmpty := by
  rw [Bool.eq_iff_iff, List.isEmpty_iff]
  constructor
  · intro isEmpty
    apply (Table.ordered_ofList additions).ext Table.ordered_nil
    intro name
    rw [← find?_ofList, find?_of_isEmpty isEmpty, Table.find?_nil]
  · intro same
    cases additions with
    | nil => rfl
    | cons added rest =>
        have listed : added.1 ∈ Table.keys (Table.ofList (added :: rest)) :=
          Table.mem_keys_ofList.mpr ⟨added.2, List.mem_cons_self⟩
        rw [same] at listed
        cases listed

/-- A trie answers every question like the table of the same additions. -/
theorem answers_ofList (additions : List (FullName × α)) :
    (ofList additions).answers = NameTable.answers (Table.ofList additions) := by
  have finds : (ofList additions).find? =
      fun name => Table.find? name (Table.ofList additions) := by
    funext name
    exact find?_ofList additions name
  have longest : (ofList additions).longestStart? =
      NameTable.longestStart? (Table.ofList additions) := by
    funext name
    exact longestStart?_eq _ fun path => find?_ofList additions ⟨name.module, path⟩
  rw [answers, NameTable.answers, finds, longest, size, entries_ofList, isEmpty_ofList]

end NameTrie

/-! ## Answers of a finite map -/

/-- The value that was added last under a name. -/
def lastAdded? {α : Type u} (additions : List (FullName × α)) (name : FullName) : Option α :=
  (additions.reverse.find? fun added => added.1 = name).map Prod.snd

/-- The answers of the finite map of additions. Names are listed in the order of their modules
and then of their paths, key by key. -/
structure NameAnswers.OfMap {α : Type u} (additions : List (FullName × α))
    (answers : NameAnswers α) : Prop where
  found : ∀ name, answers.find? name = lastAdded? additions name
  listed : ∀ name value, (name, value) ∈ answers.entries ↔ lastAdded? additions name = some value
  ascending : answers.entries.Pairwise fun earlier later =>
    (compare earlier.1.module later.1.module).then (compare earlier.1.path later.1.path) = .lt
  counted : answers.size = (additions.map Prod.fst).dedup.length
  empty : answers.isEmpty = true ↔ additions = []
  longest : ∀ name start value, answers.longestStart? name = some (start, value) ↔
    IsLongestStart (additions.map Prod.fst) name start ∧ lastAdded? additions start = some value
  unstarted : ∀ name, answers.longestStart? name = none ↔ ¬HasStart (additions.map Prod.fst) name

namespace NameTable

variable {α : Type u}

theorem mem_keys_ofList_iff {additions : List (FullName × α)} {name : FullName} :
    name ∈ Table.keys (Table.ofList additions) ↔ name ∈ additions.map Prod.fst := by
  rw [Table.mem_keys_ofList]
  simp

theorem find?_of_longestStart? {table : NameTable α} {wanted start : FullName} {value : α}
    (selected : longestStart? table wanted = some (start, value)) :
    Table.find? start table = some value := by
  rcases List.exists_of_findSome?_eq_some selected with ⟨path, _, hit⟩
  rcases Option.map_eq_some_iff.mp hit with ⟨entry, present, same⟩
  cases same
  exact present

theorem hasStart_congr {left right : List FullName} (same : ∀ name, name ∈ left ↔ name ∈ right)
    {wanted : FullName} : HasStart left wanted ↔ HasStart right wanted := by
  simp only [HasStart, same]

theorem isLongestStart_congr {left right : List FullName}
    (same : ∀ name, name ∈ left ↔ name ∈ right) {wanted start : FullName} :
    IsLongestStart left wanted start ↔ IsLongestStart right wanted start := by
  constructor
  · intro ⟨named, sameModule, isStart, longest⟩
    exact ⟨(same start).mp named, sameModule, isStart,
      fun other member => longest other ((same other).mpr member)⟩
  · intro ⟨named, sameModule, isStart, longest⟩
    exact ⟨(same start).mpr named, sameModule, isStart,
      fun other member => longest other ((same other).mp member)⟩

/-- There is only one longest start. -/
theorem eq_of_isLongestStart {names : List FullName} {wanted left right : FullName}
    (inLeft : IsLongestStart names wanted left) (inRight : IsLongestStart names wanted right) :
    left = right := by
  have paths : left.path = right.path :=
    (inRight.longest left inLeft.named inLeft.sameModule inLeft.start).eq_of_length_le
      (inLeft.longest right inRight.named inRight.sameModule inRight.start).length_le
  rw [FullName.mk.injEq]
  exact ⟨inLeft.sameModule.trans inRight.sameModule.symm, paths⟩

theorem longestStart?_eq_some_iff {table : NameTable α}
    (nonempty : ∀ name ∈ Table.keys table, name.path ≠ []) {wanted start : FullName} {value : α} :
    longestStart? table wanted = some (start, value) ↔
      IsLongestStart (Table.keys table) wanted start ∧ Table.find? start table = some value := by
  constructor
  · intro selected
    exact ⟨longestStart?_eq_some nonempty selected, find?_of_longestStart? selected⟩
  · intro ⟨longest, found⟩
    cases selected : longestStart? table wanted with
    | none => exact absurd longest.hasStart (longestStart?_eq_none nonempty selected)
    | some other =>
        rcases other with ⟨other, given⟩
        have same := eq_of_isLongestStart (longestStart?_eq_some nonempty selected) longest
        have held := find?_of_longestStart? selected
        rw [same, found] at held
        rw [same, Option.some.inj held]

theorem longestStart?_eq_none_iff {table : NameTable α}
    (nonempty : ∀ name ∈ Table.keys table, name.path ≠ []) {wanted : FullName} :
    longestStart? table wanted = none ↔ ¬HasStart (Table.keys table) wanted := by
  refine ⟨longestStart?_eq_none nonempty, fun unstarted => ?_⟩
  cases selected : longestStart? table wanted with
  | none => rfl
  | some other => exact absurd (longestStart?_eq_some nonempty selected).hasStart unstarted

theorem length_ofList (additions : List (FullName × α)) :
    (Table.ofList additions).length = (additions.map Prod.fst).dedup.length := by
  have nodup := (Table.ordered_ofList additions).nodup_keys
  have perm : (Table.keys (Table.ofList additions)).Perm (additions.map Prod.fst).dedup := by
    rw [List.perm_ext_iff_of_nodup nodup (List.nodup_dedup _)]
    intro name
    rw [mem_keys_ofList_iff, List.mem_dedup]
  rw [← perm.length_eq, Table.keys, List.length_map]

theorem ofList_eq_nil_iff {additions : List (FullName × α)} :
    Table.ofList additions = [] ↔ additions = [] := by
  constructor
  · intro same
    have counted := length_ofList additions
    rw [same, List.length_nil, eq_comm, List.length_eq_zero_iff, List.dedup_eq_nil] at counted
    exact List.map_eq_nil_iff.mp counted
  · intro same
    rw [same]
    rfl

theorem ofMap_ofList {additions : List (FullName × α)}
    (nonempty : ∀ added ∈ additions, added.1.path ≠ []) :
    (answers (Table.ofList additions)).OfMap additions := by
  have ordered := Table.ordered_ofList additions
  have names : ∀ name, name ∈ Table.keys (Table.ofList additions) ↔
      name ∈ additions.map Prod.fst := fun name => mem_keys_ofList_iff
  have paths : ∀ name ∈ Table.keys (Table.ofList additions), name.path ≠ [] := by
    intro name member
    rcases List.mem_map.mp ((names name).mp member) with ⟨added, listed, rfl⟩
    exact nonempty added listed
  have last : ∀ name, lastAdded? additions name = Table.find? name (Table.ofList additions) :=
    fun name => (Table.find?_ofList name additions).symm
  refine ⟨fun name => (last name).symm, ?_, ordered, length_ofList additions, ?_, ?_, ?_⟩
  · intro name value
    rw [last]
    exact ordered.find?_eq_some_iff.symm
  · rw [answers, List.isEmpty_iff, ofList_eq_nil_iff]
  · intro wanted start value
    rw [← isLongestStart_congr names, last]
    exact longestStart?_eq_some_iff paths
  · intro wanted
    rw [← hasStart_congr names]
    exact longestStart?_eq_none_iff paths

end NameTable

/-- A trie and a table answer as the finite map of the same additions does. -/
theorem NameTrie.refines_map {α : Type u} {additions : List (FullName × α)}
    (nonempty : ∀ added ∈ additions, added.1.path ≠ []) :
    (ofList additions).answers.OfMap additions ∧
      (NameTable.answers (Table.ofList additions)).OfMap additions := by
  have answered := NameTable.ofMap_ofList nonempty
  exact ⟨(answers_ofList additions).symm ▸ answered, answered⟩

/-- Some additions, one of them made again, and one with a bare node on its way. -/
def bucketAdditions : List (FullName × Nat) :=
  [(⟨[], ["t", "b"]⟩, 1), (⟨[], ["t", "b", "rule", "id"]⟩, 2), (⟨["net"], ["t"]⟩, 3),
    (⟨[], ["t", "b"]⟩, 4)]

theorem NameTrie.refines_map_buckets :
    (∀ added ∈ bucketAdditions, added.1.path ≠ []) ∧
      (ofList bucketAdditions).size = 3 ∧
      (ofList bucketAdditions).longestStart? ⟨[], ["t", "b", "rule", "name"]⟩ =
        some (⟨[], ["t", "b"]⟩, 4) ∧
      (ofList bucketAdditions).longestStart? ⟨["net"], ["u", "b"]⟩ = none := by
  have nonempty : ∀ added ∈ bucketAdditions, added.1.path ≠ [] := by decide
  have answered := (refines_map nonempty).1
  have longest : IsLongestStart (bucketAdditions.map Prod.fst) ⟨[], ["t", "b", "rule", "name"]⟩
      ⟨[], ["t", "b"]⟩ := ⟨by decide, rfl, by decide, by decide⟩
  have unstarted : ¬HasStart (bucketAdditions.map Prod.fst) ⟨["net"], ["u", "b"]⟩ := by
    rw [HasStart]
    decide
  exact ⟨nonempty, answered.counted, (answered.longest _ _ _).mpr ⟨longest, by decide⟩,
    (answered.unstarted _).mpr unstarted⟩

end Groundplan
