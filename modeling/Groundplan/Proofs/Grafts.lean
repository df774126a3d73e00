import Groundplan.Proofs.Tables
import Groundplan.Value.Tree
/-!
Grafts on value trees. A graft decides what stands at its own path, leaves alone
what stands at paths apart from it, and hides what would stand below a plain value.
-/

namespace Groundplan.Value

/-! ## Parts of a value -/

/-- The fields of an object; any other value has none. -/
def fields : Value → List (String × Value)
  | object fields => fields
  | _ => []

/-- The part of a value at the end of `path`, if objects lead to it. -/
def at? : Value → List String → Option Value
  | value, [] => some value
  | value, key :: rest => (Table.find? key value.fields).bind fun part => part.at? rest

@[simp] theorem at?_nil (value : Value) : value.at? [] = some value := rfl

@[simp] theorem at?_cons (value : Value) (key : String) (rest : List String) :
    value.at? (key :: rest) = (Table.find? key value.fields).bind fun part => part.at? rest :=
  rfl

@[simp] theorem fields_object (fields : List (String × Value)) : (object fields).fields = fields :=
  rfl

theorem isObject_of_find? {value part : Value} {key : String}
    (found : Table.find? key value.fields = some part) : value = object value.fields := by
  cases value with
  | object => rfl
  | _ => cases found

theorem lookup_of_at? {value part : Value} {path : List String}
    (found : value.at? path = some part) : value.lookup path = part := by
  induction path generalizing value with
  | nil => simpa [lookup] using found
  | cons key rest induction =>
      rcases Option.bind_eq_some_iff.mp found with ⟨next, atKey, below⟩
      rw [isObject_of_find? atKey, lookup, atKey]
      exact induction below

/-- A path that leads to nothing: some object or plain value on it lacks its next key. -/
inductive Blocked : List String → Value → Prop where
  | absent {key : String} {rest : List String} {value : Value} (known : value.isUnknown = false)
      (missing : Table.find? key value.fields = none) : Blocked (key :: rest) value
  | field {key : String} {rest : List String} {value part : Value}
      (found : Table.find? key value.fields = some part) (below : Blocked rest part) :
      Blocked (key :: rest) value

theorem Blocked.lookup {value : Value} {path : List String} (blocked : Blocked path value) :
    value.lookup path = null := by
  induction blocked with
  | @absent key rest value known missing =>
      cases value with
      | object fields =>
          rw [fields_object] at missing
          rw [Value.lookup, missing]
      | unknown => cases known
      | _ => simp [Value.lookup]
  | field found _ induction =>
      rw [isObject_of_find? found, Value.lookup, found]
      exact induction

theorem Blocked.append {value : Value} {path : List String} (blocked : Blocked path value)
    (rest : List String) : Blocked (path ++ rest) value := by
  induction blocked with
  | absent known missing => exact .absent known missing
  | field found _ induction => exact .field found induction

/-! ## Merging -/

theorem merge_plain {left right : Value} (plain : right.isObject = false) :
    left.merge right = right := by
  cases right with
  | object => cases plain
  | _ => cases left <;> simp [merge]

/-- Only objects are merged; otherwise the right side is taken. -/
theorem merge_cases (left right : Value) : merge left right = right ∨
    ∃ lefts rights, left = object lefts ∧ right = object rights ∧
      merge left right = object (mergeFields lefts rights) := by
  cases right with
  | object rights =>
      cases left with
      | object lefts => exact .inr ⟨lefts, rights, rfl, rfl, by rw [merge]⟩
      | _ => exact .inl (by simp [merge])
  | _ => exact .inl (merge_plain rfl)

theorem mergeFields_cons (left : List (String × Value)) (key : String) (value : Value)
    (rest : List (String × Value)) :
    mergeFields left ((key, value) :: rest) =
      mergeFields (Table.insert key
        (((Table.find? key left).map fun earlier => earlier.merge value).getD value) left) rest := by
  rw [mergeFields]
  cases Table.find? key left <;> rfl

theorem find?_mergeFields {left right : List (String × Value)} (ordered : Table.Ordered right)
    (key : String) :
    Table.find? key (mergeFields left right) =
      match Table.find? key right with
      | some value =>
          some (((Table.find? key left).map fun earlier => earlier.merge value).getD value)
      | none => Table.find? key left := by
  induction right generalizing left with
  | nil => simp [mergeFields]
  | cons first rest induction =>
      rcases first with ⟨other, value⟩
      have fresh : other ∉ Table.keys rest := (List.nodup_cons.mp ordered.nodup_keys).1
      rw [mergeFields_cons, induction (List.pairwise_cons.mp ordered).2]
      by_cases same : key = other
      · subst same
        rw [Table.find?_eq_none_iff.mpr fresh, Table.find?_insert_self, Table.find?_cons_self]
      · rw [Table.find?_insert_of_ne same, Table.find?_cons_of_ne same]

theorem ordered_mergeFields {left right : List (String × Value)} (ordered : Table.Ordered left) :
    Table.Ordered (mergeFields left right) := by
  induction right generalizing left with
  | nil => simpa [mergeFields] using ordered
  | cons first rest induction =>
      rw [mergeFields_cons]
      exact induction (Table.ordered_insert _ _ ordered)

/-- Whether a value is an object with ordered fields. -/
def IsTable (value : Value) : Prop := value.isObject = true ∧ Table.Ordered value.fields

theorem IsTable.eq_object {value : Value} (isTable : value.IsTable) :
    value = object value.fields := by
  cases value with
  | object => rfl
  | _ => cases isTable.1

theorem IsTable.isUnknown_eq {value : Value} (isTable : value.IsTable) :
    value.isUnknown = false := by
  rw [isTable.eq_object]
  rfl

/-! ## Grafts -/

theorem graft_cons (tree : Value) (key : String) (rest : List String) (value : Value) :
    tree.graft (key :: rest) value =
      object (Table.insert key
        (((Table.find? key tree.fields).map fun part => part.graft rest value).getD
          (nest rest value)) tree.fields) := by
  cases tree with
  | object fields =>
      rw [graft, nest, merge, mergeFields_cons, mergeFields]
      rfl
  | _ => simp [graft, nest, merge, fields, Table.insert]

theorem isTable_graft {tree : Value} (isTable : tree.IsTable) {path : List String}
    (nonempty : path ≠ []) (value : Value) : (tree.graft path value).IsTable := by
  cases path with
  | nil => exact absurd rfl nonempty
  | cons key rest =>
      rw [graft_cons]
      exact ⟨rfl, Table.ordered_insert _ _ isTable.2⟩

theorem at?_nest (path : List String) (value : Value) :
    (nest path value).at? path = some value := by
  induction path with
  | nil => rfl
  | cons key rest induction =>
      rw [nest, at?_cons, fields_object, Table.find?_cons_self]
      exact induction

theorem at?_graft_plain (tree : Value) (path : List String) {value : Value}
    (plain : value.isObject = false) : (tree.graft path value).at? path = some value := by
  induction path generalizing tree with
  | nil => rw [graft, nest, merge_plain plain, at?_nil]
  | cons key rest induction =>
      rw [graft_cons, at?_cons, fields_object, Table.find?_insert_self]
      cases Table.find? key tree.fields with
      | none => exact at?_nest rest value
      | some part => exact induction part

theorem at?_graft_of_none {tree : Value} {path : List String} (value : Value)
    (vacant : tree.at? path = none) : (tree.graft path value).at? path = some value := by
  induction path generalizing tree with
  | nil => cases vacant
  | cons key rest induction =>
      rw [graft_cons, at?_cons, fields_object, Table.find?_insert_self]
      cases atKey : Table.find? key tree.fields with
      | none => exact at?_nest rest value
      | some part => exact induction (by simpa [atKey] using vacant)

/-! ## Paths apart -/

/-- Whether neither of two paths is a start of the other. -/
def Apart (left right : List String) : Prop := ¬left <+: right ∧ ¬right <+: left

instance (left right : List String) : Decidable (Apart left right) :=
  inferInstanceAs (Decidable (¬left <+: right ∧ ¬right <+: left))

theorem Apart.symm {left right : List String} (apart : Apart left right) : Apart right left :=
  ⟨apart.2, apart.1⟩

theorem not_apart_nil (path : List String) : ¬Apart [] path := fun apart =>
  apart.1 List.nil_prefix

theorem apart_cons {left right : String} {lefts rights : List String} :
    Apart (left :: lefts) (right :: rights) ↔ left = right → Apart lefts rights := by
  simp only [Apart, List.cons_prefix_cons, not_and]
  constructor
  · intro apart same
    exact ⟨apart.1 same, apart.2 same.symm⟩
  · intro apart
    exact ⟨fun same => (apart same).1, fun same => (apart same.symm).2⟩

theorem at?_nest_of_apart {left right : List String} (apart : Apart left right) (value : Value) :
    (nest left value).at? right = none := by
  induction left generalizing right with
  | nil => exact absurd apart (not_apart_nil right)
  | cons key rest induction =>
      cases right with
      | nil => exact absurd apart.symm (not_apart_nil _)
      | cons other others =>
          rw [nest, at?_cons, fields_object]
          by_cases same : other = key
          · subst same
            rw [Table.find?_cons_self]
            exact induction (apart_cons.mp apart rfl)
          · rw [Table.find?_cons_of_ne same]
            rfl

theorem at?_graft_of_apart {left right : List String} (apart : Apart left right) (tree : Value)
    (value : Value) : (tree.graft left value).at? right = tree.at? right := by
  induction left generalizing right tree with
  | nil => exact absurd apart (not_apart_nil right)
  | cons key rest induction =>
      cases right with
      | nil => exact absurd apart.symm (not_apart_nil _)
      | cons other others =>
          rw [graft_cons, at?_cons, at?_cons, fields_object]
          by_cases same : other = key
          · subst same
            have below := apart_cons.mp apart rfl
            rw [Table.find?_insert_self]
            cases Table.find? other tree.fields with
            | none => exact at?_nest_of_apart below value
            | some part => exact induction below part
          · rw [Table.find?_insert_of_ne same]

theorem blocked_nest_of_apart {left right : List String} (apart : Apart left right)
    (value : Value) : Blocked right (nest left value) := by
  induction left generalizing right with
  | nil => exact absurd apart (not_apart_nil right)
  | cons key rest induction =>
      cases right with
      | nil => exact absurd apart.symm (not_apart_nil _)
      | cons other others =>
          by_cases same : other = key
          · subst same
            have found : Table.find? other (nest (other :: rest) value).fields =
                some (nest rest value) := Table.find?_cons_self _ _ _
            exact .field found (induction (apart_cons.mp apart rfl))
          · have missing : Table.find? other (nest (key :: rest) value).fields = none :=
              Table.find?_cons_of_ne same _ _
            exact .absent rfl missing

theorem Blocked.graft_of_apart {left right : List String} {tree : Value}
    (blocked : Blocked right tree) (apart : Apart left right) (value : Value) :
    Blocked right (tree.graft left value) := by
  induction blocked generalizing left with
  | @absent key rest tree known missing =>
      cases left with
      | nil => exact absurd apart (not_apart_nil _)
      | cons other others =>
          rw [graft_cons]
          by_cases same : key = other
          · subst same
            apply Blocked.field (Table.find?_insert_self _ _ _)
            rw [missing]
            exact blocked_nest_of_apart (apart_cons.mp apart rfl) value
          · refine .absent rfl ?_
            rw [fields_object, Table.find?_insert_of_ne same, missing]
  | @field key rest tree part found below induction =>
      cases left with
      | nil => exact absurd apart (not_apart_nil _)
      | cons other others =>
          rw [graft_cons]
          by_cases same : key = other
          · subst same
            apply Blocked.field (Table.find?_insert_self _ _ _)
            rw [found]
            exact induction (apart_cons.mp apart rfl)
          · exact .field ((Table.find?_insert_of_ne same _ _).trans found) below

/-! ## Grafts in any order -/

/-- Whether the objects that a path leads through have ordered fields. -/
def OrderedAlong : List String → Value → Prop
  | [], _ => True
  | key :: rest, value =>
      Table.Ordered value.fields ∧
        ∀ part, Table.find? key value.fields = some part → OrderedAlong rest part

theorem orderedAlong_empty (path : List String) : OrderedAlong path (object []) := by
  cases path with
  | nil => trivial
  | cons key rest => exact ⟨Table.ordered_nil, fun part found => by cases found⟩

/-- What is nested at a path that is not empty is a graft on an object without fields. -/
theorem graft_empty {path : List String} (nonempty : path ≠ []) (value : Value) :
    (object []).graft path value = nest path value := by
  cases path with
  | nil => exact absurd rfl nonempty
  | cons key rest => rw [graft_cons]; rfl

theorem OrderedAlong.graft_of_apart {left right : List String} {tree : Value}
    (ordered : OrderedAlong right tree) (apart : Apart left right) (value : Value) :
    OrderedAlong right (tree.graft left value) := by
  induction left generalizing right tree with
  | nil => exact absurd apart (not_apart_nil right)
  | cons key rest induction =>
      cases right with
      | nil => trivial
      | cons other others =>
          rw [graft_cons]
          refine ⟨Table.ordered_insert _ _ ordered.1, fun part found => ?_⟩
          rw [fields_object, Table.find?_insert] at found
          by_cases same : other = key
          · subst same
            have below := apart_cons.mp apart rfl
            rw [if_pos rfl, Option.some.injEq] at found
            subst found
            cases atKey : Table.find? other tree.fields with
            | none =>
                have nonempty : rest ≠ [] := fun empty =>
                  not_apart_nil others (empty ▸ below)
                rw [Option.map_none, Option.getD_none, ← graft_empty nonempty]
                exact induction (orderedAlong_empty others) below
            | some earlier => exact induction (ordered.2 earlier atKey) below
          · rw [if_neg same] at found
            exact ordered.2 part found

/-- Grafts at paths apart can change places. -/
theorem graft_comm {left right : List String} {tree : Value} (apart : Apart left right)
    (inLeft : OrderedAlong left tree) (inRight : OrderedAlong right tree) (first second : Value) :
    (tree.graft left first).graft right second = (tree.graft right second).graft left first := by
  induction left generalizing right tree with
  | nil => exact absurd apart (not_apart_nil right)
  | cons key rest induction =>
      cases right with
      | nil => exact absurd apart.symm (not_apart_nil _)
      | cons other others =>
          simp only [graft_cons, fields_object]
          by_cases same : key = other
          · subst same
            have below := apart_cons.mp apart rfl
            rw [Table.find?_insert_self, Table.find?_insert_self,
              Table.insert_insert_self inLeft.1, Table.insert_insert_self inLeft.1]
            cases atKey : Table.find? key tree.fields with
            | none =>
                have leftNonempty : rest ≠ [] := fun empty =>
                  not_apart_nil others (empty ▸ below)
                have rightNonempty : others ≠ [] := fun empty =>
                  not_apart_nil rest (empty ▸ below.symm)
                have swapped := induction below (orderedAlong_empty rest)
                  (orderedAlong_empty others)
                rw [graft_empty leftNonempty, graft_empty rightNonempty] at swapped
                simp only [Option.map_none, Option.getD_none, Option.map_some, Option.getD_some,
                  swapped]
            | some part =>
                have swapped := induction below (inLeft.2 part atKey) (inRight.2 part atKey)
                simp only [Option.map_some, Option.getD_some, swapped]
          · rw [Table.find?_insert_of_ne (Ne.symm same), Table.find?_insert_of_ne same,
              Table.insert_comm inLeft.1 same]

/-! ## Hidden paths -/

theorem blocked_append {tree part : Value} {front rest : List String}
    (found : tree.at? front = some part) (blocked : Blocked rest part) :
    Blocked (front ++ rest) tree := by
  induction front generalizing tree with
  | nil =>
      cases found
      exact blocked
  | cons key others induction =>
      rcases Option.bind_eq_some_iff.mp found with ⟨next, atKey, below⟩
      exact .field atKey (induction below)

theorem Blocked.at? {tree : Value} {path : List String} (blocked : Blocked path tree) :
    tree.at? path = none := by
  induction blocked with
  | absent _ missing => simp [missing]
  | field found _ induction => simpa [found] using induction

/-- A text that stands at a proper start of a path. -/
structure Hides (graft : List String × Value) (path : List String) : Prop where
  start : graft.1 <+: path
  proper : graft.1 ≠ path
  text : ∃ text, graft.2 = string text

theorem Hides.blocked {graft : List String × Value} {path : List String}
    (hides : Hides graft path) (tree : Value) : Blocked path (tree.graft graft.1 graft.2) := by
  rcases hides.start with ⟨rest, same⟩
  rcases hides.text with ⟨text, isText⟩
  cases rest with
  | nil => exact absurd (by simpa using same) hides.proper
  | cons key others =>
      subst same
      have found : (tree.graft graft.1 graft.2).at? graft.1 = some graft.2 :=
        at?_graft_plain tree graft.1 (by rw [isText]; rfl)
      exact blocked_append found (.absent (by rw [isText]; rfl) (by rw [isText]; rfl))

/-! ## Rows of grafts -/

/-- Make grafts one after the other. -/
def graftAll (tree : Value) (grafts : List (List String × Value)) : Value :=
  grafts.foldl (fun tree graft => tree.graft graft.1 graft.2) tree

theorem graftAll_append (tree : Value) (first second : List (List String × Value)) :
    tree.graftAll (first ++ second) = (tree.graftAll first).graftAll second :=
  List.foldl_append

variable {grafts : List (List String × Value)} {path : List String}

theorem isTable_graftAll {tree : Value} (isTable : tree.IsTable)
    (nonempty : ∀ graft ∈ grafts, graft.1 ≠ []) : (tree.graftAll grafts).IsTable := by
  induction grafts generalizing tree with
  | nil => exact isTable
  | cons first rest induction =>
      exact induction (isTable_graft isTable (nonempty first List.mem_cons_self) first.2)
        fun graft member => nonempty graft (List.mem_cons_of_mem _ member)

theorem at?_graftAll_of_apart (apart : ∀ graft ∈ grafts, Apart graft.1 path) (tree : Value) :
    (tree.graftAll grafts).at? path = tree.at? path := by
  induction grafts generalizing tree with
  | nil => rfl
  | cons first rest induction =>
      have below := induction (fun graft member => apart graft (List.mem_cons_of_mem _ member))
        (tree.graft first.1 first.2)
      exact below.trans (at?_graft_of_apart (apart first List.mem_cons_self) tree first.2)

theorem Blocked.graftAll {tree : Value} (blocked : Blocked path tree)
    (sparing : ∀ graft ∈ grafts, Apart graft.1 path ∨ Hides graft path) :
    Blocked path (tree.graftAll grafts) := by
  induction grafts generalizing tree with
  | nil => exact blocked
  | cons first rest induction =>
      apply induction _ fun graft member => sparing graft (List.mem_cons_of_mem _ member)
      rcases sparing first List.mem_cons_self with apart | hides
      · exact blocked.graft_of_apart apart first.2
      · exact hides.blocked tree

theorem blocked_graftAll_of_hides
    (sparing : ∀ graft ∈ grafts, Apart graft.1 path ∨ Hides graft path)
    {cover : List String × Value} (member : cover ∈ grafts) (hides : Hides cover path)
    (tree : Value) : Blocked path (tree.graftAll grafts) := by
  rcases List.append_of_mem member with ⟨before, after, split⟩
  subst split
  rw [graftAll_append]
  exact (hides.blocked (tree.graftAll before)).graftAll fun graft listed =>
    sparing graft (List.mem_append_right _ (List.mem_cons_of_mem _ listed))

theorem at?_graftAll_of_none {tree : Value} (vacant : tree.at? path = none)
    (sparing : ∀ graft ∈ grafts, Apart graft.1 path ∨ Hides graft path) :
    (tree.graftAll grafts).at? path = none := by
  induction grafts generalizing tree with
  | nil => exact vacant
  | cons first rest induction =>
      apply induction _ fun graft member => sparing graft (List.mem_cons_of_mem _ member)
      rcases sparing first List.mem_cons_self with apart | hides
      · rw [at?_graft_of_apart apart, vacant]
      · exact (hides.blocked tree).at?

/-- Grafts at paths apart give the same tree in any order. -/
theorem graftAll_perm {first second : List (List String × Value)} (perm : first.Perm second)
    (apart : first.Pairwise fun left right => Apart left.1 right.1) {tree : Value}
    (ordered : ∀ graft ∈ first, OrderedAlong graft.1 tree) :
    tree.graftAll first = tree.graftAll second := by
  induction perm generalizing tree with
  | nil => rfl
  | @cons graft first second _ induction =>
      have parts := List.pairwise_cons.mp apart
      exact induction parts.2 fun other member =>
        (ordered other (List.mem_cons_of_mem _ member)).graft_of_apart (parts.1 other member) _
  | swap left right rest =>
      have pair := (List.pairwise_cons.mp apart).1 left List.mem_cons_self
      have swapped := graft_comm pair (ordered right List.mem_cons_self)
        (ordered left (List.mem_cons_of_mem _ List.mem_cons_self)) right.2 left.2
      exact congrArg (fun tree => graftAll tree rest) swapped
  | trans firstPerm _ firstInduction secondInduction =>
      rw [firstInduction apart ordered]
      exact secondInduction (apart.perm firstPerm Apart.symm) fun graft member =>
        ordered graft (firstPerm.mem_iff.mpr member)

/-- What stands at a path is seen after grafts that at most hide it, exactly if
none of them does. -/
theorem lookup_graftAll_eq_iff {tree part : Value} (found : tree.at? path = some part)
    (sparing : ∀ graft ∈ grafts, Apart graft.1 path ∨ Hides graft path) :
    (tree.graftAll grafts).lookup path = part ↔
      part = null ∨ ∀ graft ∈ grafts, ¬Hides graft path := by
  by_cases hidden : ∃ graft ∈ grafts, Hides graft path
  · rcases hidden with ⟨cover, member, hides⟩
    rw [(blocked_graftAll_of_hides sparing member hides tree).lookup]
    constructor
    · exact fun same => Or.inl same.symm
    · rintro (same | none)
      · exact same.symm
      · exact absurd hides (none cover member)
  · have apart : ∀ graft ∈ grafts, Apart graft.1 path := by
      intro graft member
      rcases sparing graft member with apart | hides
      · exact apart
      · exact absurd ⟨graft, member, hides⟩ hidden
    have seen := (at?_graftAll_of_apart apart tree).trans found
    rw [lookup_of_at? seen]
    constructor
    · exact fun _ => Or.inr fun graft member hides => hidden ⟨graft, member, hides⟩
    · exact fun _ => rfl

end Groundplan.Value
