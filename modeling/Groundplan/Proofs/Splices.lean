import Groundplan.Proofs.Shadowing
/-!
Splices into value trees. A splice puts a text at the end of a path, by a merge in which the
tree is the right side. So it adds where the tree has nothing and leaves alone whatever the
tree has, be it at the path, on the way to it or elsewhere.
-/

namespace Groundplan.Value

/-- Put a text at the end of a path, unless something stands there or on the way. -/
def splice (text : String) (tree : Value) (path : List String) : Value :=
  (nest path (string text)).merge tree

/-- Splice a text in at paths, one after the other. -/
def spliceAll (text : String) (tree : Value) (paths : List (List String)) : Value :=
  paths.foldl (splice text) tree

/-! ## Parts of trees -/

theorem at?_append (tree : Value) (front rest : List String) :
    tree.at? (front ++ rest) = (tree.at? front).bind fun part => part.at? rest := by
  induction front generalizing tree with
  | nil => rfl
  | cons key others induction =>
      rw [List.cons_append, at?_cons, at?_cons]
      cases Table.find? key tree.fields with
      | none => rfl
      | some next => exact induction next

theorem at?_of_plain {tree : Value} (plain : tree.isObject = false) (key : String)
    (rest : List String) : tree.at? (key :: rest) = none := by
  cases tree with
  | object => cases plain
  | _ => rfl

/-- A plain value that stands on the way to the end of a path. -/
def Obstructs (tree : Value) (path front : List String) : Prop :=
  front <+: path ∧ front ≠ path ∧ ∃ part, tree.at? front = some part ∧ part.isObject = false

theorem Obstructs.mono {tree : Value} {path longer front : List String}
    (obstructs : tree.Obstructs path front) (starts : path <+: longer) :
    tree.Obstructs longer front := by
  rcases obstructs with ⟨below, proper, plain⟩
  refine ⟨below.trans starts, ?_, plain⟩
  rintro rfl
  exact proper (below.eq_of_length_le starts.length_le)

theorem Obstructs.at?_eq_none {tree : Value} {path front : List String}
    (obstructs : tree.Obstructs path front) : tree.at? path = none := by
  rcases obstructs with ⟨⟨rest, rfl⟩, proper, part, found, plain⟩
  rw [at?_append, found]
  cases rest with
  | nil => exact absurd (List.append_nil front).symm proper
  | cons key others => exact at?_of_plain plain key others

/-- Whether a splice has nothing to do: something stands at the path or a plain value on the
way to it. -/
inductive Taken : List String → Value → Prop where
  | here {tree : Value} : Taken [] tree
  | plain {path : List String} {tree : Value} (noObject : tree.isObject = false) :
      Taken path tree
  | field {key : String} {rest : List String} {tree part : Value}
      (found : Table.find? key tree.fields = some part) (below : Taken rest part) :
      Taken (key :: rest) tree

theorem taken_of_at? {tree part : Value} {path : List String} (found : tree.at? path = some part) :
    Taken path tree := by
  induction path generalizing tree with
  | nil => exact .here
  | cons key rest induction =>
      rcases Option.bind_eq_some_iff.mp found with ⟨next, atKey, below⟩
      exact .field atKey (induction below)

theorem Taken.exists_obstructs {tree : Value} {path : List String} (taken : Taken path tree)
    (vacant : tree.at? path = none) : ∃ front, tree.Obstructs path front := by
  induction taken with
  | here => cases vacant
  | @plain path tree noObject =>
      cases path with
      | nil => cases vacant
      | cons key rest =>
          exact ⟨[], List.nil_prefix, (List.cons_ne_nil key rest).symm, tree, rfl, noObject⟩
  | @field key rest tree part found _ induction =>
      rw [at?_cons, found] at vacant
      rcases induction vacant with ⟨front, ⟨others, split⟩, proper, plain, stands, noObject⟩
      refine ⟨key :: front, ⟨others, by rw [List.cons_append, split]⟩, ?_, plain, ?_, noObject⟩
      · exact fun same => proper (List.cons.inj same).2
      · rw [at?_cons, found]
        exact stands

theorem taken_of_obstructs {tree : Value} {path front : List String}
    (obstructs : tree.Obstructs path front) : Taken path tree := by
  rcases obstructs with ⟨⟨rest, rfl⟩, proper, part, found, plain⟩
  clear proper
  induction front generalizing tree with
  | nil =>
      cases found
      exact .plain plain
  | cons key others induction =>
      rcases Option.bind_eq_some_iff.mp found with ⟨next, atKey, below⟩
      exact .field atKey (induction below)

/-! ## One splice -/

variable {text : String} {tree : Value}

@[simp] theorem splice_nil (text : String) (tree : Value) : tree.splice text [] = tree := by
  rw [splice, nest]
  rcases merge_cases (string text) tree with same | ⟨_, _, isObject, _⟩
  · exact same
  · cases isObject

theorem splice_of_plain (plain : tree.isObject = false) (path : List String) :
    tree.splice text path = tree :=
  merge_plain plain

theorem canonical_nest (path : List String) {leaf : Value} (canonical : leaf.Canonical) :
    (nest path leaf).Canonical := by
  induction path with
  | nil => exact canonical
  | cons key rest induction =>
      rw [nest, canonical_object]
      refine ⟨List.pairwise_singleton _ _, fun field member => ?_⟩
      rw [List.mem_singleton.mp member]
      exact induction

theorem Canonical.splice (canonical : tree.Canonical) (path : List String) :
    (tree.splice text path).Canonical :=
  (canonical_nest path (by simp [Canonical])).merge canonical

theorem isObject_splice (text : String) (tree : Value) (path : List String) :
    (tree.splice text path).isObject = tree.isObject := by
  cases tree with
  | object fields =>
      rcases merge_cases (nest path (string text)) (object fields) with same | ⟨_, _, _, _, same⟩
      · rw [Value.splice, same]
      · rw [Value.splice, same]
        rfl
  | _ => rw [splice_of_plain rfl]

/-- A splice changes the field that its path starts with and no other one. -/
theorem find?_fields_splice (text : String) (isTable : tree.IsTable) (key : String)
    (rest : List String) (other : String) :
    Table.find? other (tree.splice text (key :: rest)).fields =
      if other = key then
        some (((Table.find? key tree.fields).map fun part => part.splice text rest).getD
          (nest rest (string text)))
      else Table.find? other tree.fields := by
  rw [Value.splice, find?_fields_merge isTable, nest, fields_object]
  by_cases same : other = key
  · subst same
    rw [if_pos rfl, Table.find?_cons_self]
    cases Table.find? other tree.fields <;> rfl
  · rw [if_neg same, Table.find?_cons_of_ne same]
    cases Table.find? other tree.fields <;> rfl

theorem isTable_of_canonical (canonical : tree.Canonical) (isObject : tree.isObject = true) :
    tree.IsTable :=
  ⟨isObject, canonical.ordered⟩

/-- What may become of a value where nothing gets lost: an object may get more fields, and
anything else stays as it is. -/
inductive Outlasts : Value → Value → Prop where
  | plain {value : Value} (noObject : value.isObject = false) : Outlasts value value
  | object {before after : Value} (isObject : before.isObject = true)
      (stays : after.isObject = true) : Outlasts before after

theorem Outlasts.refl (value : Value) : Outlasts value value := by
  cases isObject : value.isObject with
  | false => exact .plain isObject
  | true => exact .object isObject isObject

theorem Outlasts.trans {first second third : Value} (left : Outlasts first second)
    (right : Outlasts second third) : Outlasts first third := by
  cases left with
  | plain => exact right
  | object isObject stays =>
      cases right with
      | plain => exact .object isObject stays
      | object _ last => exact .object isObject last

theorem Outlasts.eq_of_plain {before after : Value} (outlasts : Outlasts before after)
    (plain : before.isObject = false) : after = before := by
  cases outlasts with
  | plain => rfl
  | object isObject => rw [plain] at isObject; cases isObject

/-- What stands somewhere outlasts a splice. -/
theorem outlasts_splice (text : String) (canonical : tree.Canonical) (spliced : List String)
    {path : List String} {part : Value} (found : tree.at? path = some part) :
    ∃ later, (tree.splice text spliced).at? path = some later ∧ Outlasts part later := by
  induction spliced generalizing tree path with
  | nil => exact ⟨part, by rw [splice_nil, found], .refl part⟩
  | cons key rest induction =>
      cases isObject : tree.isObject with
      | false => exact ⟨part, by rw [splice_of_plain isObject, found], .refl part⟩
      | true =>
          cases path with
          | nil =>
              cases found
              exact ⟨_, rfl, .object isObject (by rw [isObject_splice, isObject])⟩
          | cons other others =>
              have isTable := isTable_of_canonical canonical isObject
              rcases Option.bind_eq_some_iff.mp found with ⟨next, atOther, below⟩
              rw [at?_cons, find?_fields_splice text isTable]
              by_cases same : other = key
              · subst same
                rcases induction (canonical.part atOther) below with ⟨later, stands, outlasts⟩
                refine ⟨later, ?_, outlasts⟩
                rw [if_pos rfl, atOther]
                exact stands
              · refine ⟨part, ?_, .refl part⟩
                rw [if_neg same, atOther]
                exact below

/-- What a splice leads to where nothing stood: the text at the end of its path, or an object
with a field on the way there. -/
inductive Spliced (text : String) (paths : List (List String)) (path : List String) :
    Value → Prop where
  | leaf (member : path ∈ paths) : Spliced text paths path (string text)
  | inner {part below : Value} {key : String} {rest : List String}
      (member : path ++ key :: rest ∈ paths)
      (found : Table.find? key part.fields = some below) : Spliced text paths path part

theorem Spliced.mono {paths others : List (List String)} {path : List String} {part : Value}
    (spliced : Spliced text paths path part) (subset : paths ⊆ others) :
    Spliced text others path part := by
  cases spliced with
  | leaf member => exact .leaf (subset member)
  | inner member found => exact .inner (subset member) found

private theorem Spliced.cons {spliced path : List String} {part : Value} (key : String)
    (here : Spliced text [spliced] path part) :
    Spliced text [key :: spliced] (key :: path) part := by
  cases here with
  | leaf member =>
      rw [List.mem_singleton] at member
      exact .leaf (by rw [member, List.mem_singleton])
  | inner member found =>
      rw [List.mem_singleton] at member
      exact .inner (by rw [List.cons_append, member, List.mem_singleton]) found

theorem spliced_of_nest {spliced path : List String} {part : Value}
    (found : (nest spliced (string text)).at? path = some part) :
    Spliced text [spliced] path part := by
  induction spliced generalizing path with
  | nil =>
      cases path with
      | nil =>
          cases found
          exact .leaf List.mem_cons_self
      | cons key rest => cases found
  | cons key rest induction =>
      cases path with
      | nil =>
          cases found
          exact .inner List.mem_cons_self (Table.find?_cons_self _ _ _)
      | cons other others =>
          rcases Option.bind_eq_some_iff.mp found with ⟨next, atOther, below⟩
          rw [nest, fields_object] at atOther
          by_cases same : other = key
          · subst same
            rw [Table.find?_cons_self, Option.some.injEq] at atOther
            subst atOther
            exact (induction below).cons other
          · rw [Table.find?_cons_of_ne same] at atOther
            cases atOther

/-- A splice adds nothing but the text and the objects that lead to it. -/
theorem spliced_of_vacant (canonical : tree.Canonical) {spliced path : List String} {part : Value}
    (vacant : tree.at? path = none) (found : (tree.splice text spliced).at? path = some part) :
    Spliced text [spliced] path part := by
  induction spliced generalizing tree path with
  | nil =>
      rw [splice_nil, vacant] at found
      cases found
  | cons key rest induction =>
      cases isObject : tree.isObject with
      | false =>
          rw [splice_of_plain isObject, vacant] at found
          cases found
      | true =>
          cases path with
          | nil => cases vacant
          | cons other others =>
              have isTable := isTable_of_canonical canonical isObject
              rw [at?_cons, find?_fields_splice text isTable] at found
              rw [at?_cons] at vacant
              by_cases same : other = key
              · subst same
                rw [if_pos rfl, Option.bind_some] at found
                cases atOther : Table.find? other tree.fields with
                | none =>
                    rw [atOther] at found
                    exact (spliced_of_nest found).cons other
                | some next =>
                    rw [atOther] at found vacant
                    exact (induction (canonical.part atOther) vacant found).cons other
              · rw [if_neg same, vacant] at found
                cases found

theorem taken_splice_self (canonical : tree.Canonical) (path : List String) :
    Taken path (tree.splice text path) := by
  induction path generalizing tree with
  | nil => exact .here
  | cons key rest induction =>
      cases isObject : tree.isObject with
      | false => exact .plain (by rw [isObject_splice, isObject])
      | true =>
          have isTable := isTable_of_canonical canonical isObject
          have atKey := find?_fields_splice text isTable key rest key
          rw [if_pos rfl] at atKey
          refine .field atKey ?_
          cases found : Table.find? key tree.fields with
          | none => exact taken_of_at? (at?_nest rest (string text))
          | some part => exact induction (canonical.part found)

theorem Obstructs.splice {path front : List String} (obstructs : tree.Obstructs path front)
    (canonical : tree.Canonical) (spliced : List String) :
    (tree.splice text spliced).Obstructs path front := by
  rcases obstructs with ⟨start, proper, part, found, plain⟩
  rcases outlasts_splice text canonical spliced found with ⟨later, stands, outlasts⟩
  cases outlasts.eq_of_plain plain
  exact ⟨start, proper, part, stands, plain⟩

theorem Taken.splice {path : List String} (taken : Taken path tree) (canonical : tree.Canonical)
    (spliced : List String) : Taken path (tree.splice text spliced) := by
  cases found : tree.at? path with
  | some part =>
      rcases outlasts_splice text canonical spliced found with ⟨later, stands, _⟩
      exact taken_of_at? stands
  | none =>
      rcases taken.exists_obstructs found with ⟨front, obstructs⟩
      exact taken_of_obstructs (obstructs.splice canonical spliced)

/-- A splice that has nothing to do changes nothing. -/
theorem Taken.splice_eq {path : List String} (taken : Taken path tree)
    (canonical : tree.Canonical) : tree.splice text path = tree := by
  induction taken with
  | here => exact splice_nil text _
  | plain noObject => exact splice_of_plain noObject _
  | @field key rest tree part found below induction =>
      have isObject : tree.isObject = true := by
        rw [isObject_of_find? found]
        rfl
      have isTable := isTable_of_canonical canonical isObject
      have after : (tree.splice text (key :: rest)).IsTable :=
        isTable_of_canonical (canonical.splice _) (by rw [isObject_splice, isObject])
      have fields : (tree.splice text (key :: rest)).fields = tree.fields := by
        apply Table.Ordered.ext after.2 isTable.2
        intro other
        rw [find?_fields_splice text isTable]
        split
        · next same =>
            subst same
            rw [found, Option.map_some, Option.getD_some, induction (canonical.part found)]
        · rfl
      rw [after.eq_object, fields, ← isTable.eq_object]

/-! ## Rows of splices -/

variable {paths : List (List String)}

theorem Canonical.spliceAll (canonical : tree.Canonical) (paths : List (List String)) :
    (tree.spliceAll text paths).Canonical := by
  induction paths generalizing tree with
  | nil => exact canonical
  | cons first rest induction => exact induction (canonical.splice first)

theorem spliceAll_of_plain (plain : tree.isObject = false) (paths : List (List String)) :
    tree.spliceAll text paths = tree := by
  induction paths with
  | nil => rfl
  | cons first rest induction =>
      rw [Value.spliceAll, List.foldl_cons, splice_of_plain plain]
      exact induction

theorem isObject_spliceAll (text : String) (tree : Value) (paths : List (List String)) :
    (tree.spliceAll text paths).isObject = tree.isObject := by
  induction paths generalizing tree with
  | nil => rfl
  | cons first rest induction => exact (induction _).trans (isObject_splice text tree first)

theorem isTable_splice (text : String) (isTable : tree.IsTable) (path : List String) :
    (tree.splice text path).IsTable := by
  cases path with
  | nil => rwa [splice_nil]
  | cons key rest =>
      rw [Value.splice, isTable.eq_object, nest, merge]
      exact ⟨rfl, ordered_mergeFields (List.pairwise_singleton _ _)⟩

/-- What splices leave under a key follows from what stands there and from those of their paths
that start with it. -/
theorem find?_fields_spliceAll (text : String) {left right : Value} (leftTable : left.IsTable)
    (rightTable : right.IsTable) {key : String}
    (equal : Table.find? key left.fields = Table.find? key right.fields)
    (paths : List (List String)) :
    Table.find? key (left.spliceAll text paths).fields =
      Table.find? key (right.spliceAll text
        (paths.filter fun path => path.head? = some key)).fields := by
  induction paths generalizing left right with
  | nil => exact equal
  | cons first rest induction =>
      rw [Value.spliceAll, List.foldl_cons]
      by_cases starts : first.head? = some key
      · rw [List.filter_cons_of_pos (by simpa using starts), Value.spliceAll, List.foldl_cons]
        refine induction (isTable_splice text leftTable first)
          (isTable_splice text rightTable first) ?_
        rcases List.head?_eq_some_iff.mp starts with ⟨others, rfl⟩
        rw [find?_fields_splice text leftTable, find?_fields_splice text rightTable, if_pos rfl,
          if_pos rfl, equal]
      · rw [List.filter_cons_of_neg (by simpa using starts)]
        refine induction (isTable_splice text leftTable first) rightTable ?_
        cases first with
        | nil => rwa [splice_nil]
        | cons other others =>
            have different : key ≠ other := fun same => starts (by rw [same, List.head?_cons])
            rwa [find?_fields_splice text leftTable, if_neg different]

theorem spliceAll_append (first second : List (List String)) :
    tree.spliceAll text (first ++ second) = (tree.spliceAll text first).spliceAll text second :=
  List.foldl_append

theorem outlasts_spliceAll (text : String) (canonical : tree.Canonical)
    (paths : List (List String)) {path : List String} {part : Value}
    (found : tree.at? path = some part) :
    ∃ later, (tree.spliceAll text paths).at? path = some later ∧ Outlasts part later := by
  induction paths generalizing tree part with
  | nil => exact ⟨part, found, .refl part⟩
  | cons first rest induction =>
      rcases outlasts_splice text canonical first found with ⟨next, stands, outlasts⟩
      rcases induction (canonical.splice first) stands with ⟨later, remains, further⟩
      exact ⟨later, remains, outlasts.trans further⟩

theorem Obstructs.spliceAll {path front : List String} (obstructs : tree.Obstructs path front)
    (canonical : tree.Canonical) (paths : List (List String)) :
    (tree.spliceAll text paths).Obstructs path front := by
  induction paths generalizing tree with
  | nil => exact obstructs
  | cons first rest induction =>
      exact induction (obstructs.splice canonical first) (canonical.splice first)

theorem Taken.spliceAll {path : List String} (taken : Taken path tree)
    (canonical : tree.Canonical) (paths : List (List String)) :
    Taken path (tree.spliceAll text paths) := by
  induction paths generalizing tree with
  | nil => exact taken
  | cons first rest induction =>
      exact induction (taken.splice canonical first) (canonical.splice first)

theorem taken_spliceAll (canonical : tree.Canonical) {path : List String} (member : path ∈ paths) :
    Taken path (tree.spliceAll text paths) := by
  induction paths generalizing tree with
  | nil => cases member
  | cons first rest induction =>
      rcases List.mem_cons.mp member with rfl | member
      · exact (taken_splice_self canonical path).spliceAll (canonical.splice path) rest
      · exact induction (canonical.splice first) member

/-- What a splice led to is still what splices lead to when more of them follow. -/
theorem Spliced.spliceAll {path : List String} {part : Value} (here : Spliced text paths path part)
    (canonical : tree.Canonical) (found : tree.at? path = some part)
    (others : List (List String)) :
    ∃ later, (tree.spliceAll text others).at? path = some later ∧
      Spliced text paths path later := by
  cases here with
  | leaf member =>
      rcases outlasts_spliceAll text canonical others found with ⟨later, stands, outlasts⟩
      cases outlasts.eq_of_plain rfl
      exact ⟨_, stands, .leaf member⟩
  | @inner _ below key rest member atKey =>
      -- The field on the way to the text stays, so the object does not get empty.
      have deeper : tree.at? (path ++ [key]) = some below := by
        rw [at?_append, found, Option.bind_some, at?_cons, atKey]
        rfl
      rcases outlasts_spliceAll text canonical others deeper with ⟨last, remains, _⟩
      rw [at?_append] at remains
      rcases Option.bind_eq_some_iff.mp remains with ⟨later, stands, inLater⟩
      rcases Option.bind_eq_some_iff.mp inLater with ⟨field, atField, _⟩
      exact ⟨later, stands, .inner member atField⟩

/-- Splices add nothing but the text and the objects that lead to it. -/
theorem spliced_spliceAll (canonical : tree.Canonical) {path : List String} {part : Value}
    (vacant : tree.at? path = none) (found : (tree.spliceAll text paths).at? path = some part) :
    Spliced text paths path part := by
  induction paths generalizing tree with
  | nil =>
      rw [Value.spliceAll, List.foldl_nil, vacant] at found
      cases found
  | cons first rest induction =>
      have after : (tree.splice text first).Canonical := canonical.splice first
      cases once : (tree.splice text first).at? path with
      | none => exact (induction after once found).mono (List.subset_cons_self _ _)
      | some next =>
          have here := spliced_of_vacant canonical vacant once
          rcases here.spliceAll after once rest with ⟨later, stands, spliced⟩
          cases found.symm.trans stands
          exact spliced.mono (List.cons_subset_cons first (List.nil_subset rest))

/-! ## Splices in order -/

/-- What keeps a text from a path beyond it: a plain value of the tree, or another of the paths
that the tree has nothing at. -/
inductive Hinders (paths : List (List String)) (tree : Value) (front : List String) : Prop where
  | plain {part : Value} (found : tree.at? front = some part) (noObject : part.isObject = false)
  | vacant (member : front ∈ paths) (nothing : tree.at? front = none)

/-- In ascending order the longer paths come later, so nothing stands at a path before its turn
that was not there from the start. -/
theorem at?_spliceAll_before (text : String) (canonical : tree.Canonical)
    {before after : List (List String)} {front : List String}
    (ascending : Table.Ascending (before ++ front :: after))
    (nothing : tree.at? front = none) : (tree.spliceAll text before).at? front = none := by
  cases found : (tree.spliceAll text before).at? front with
  | none => rfl
  | some part =>
      have earlier : ∀ path ∈ before, compare path front = .lt := fun path member =>
        (List.pairwise_append.mp ascending).2.2 path member front List.mem_cons_self
      cases spliced_spliceAll canonical nothing found with
      | leaf member =>
          have before := earlier front member
          rw [Std.compare_self] at before
          cases before
      | inner member _ =>
          have before := earlier _ member
          rw [Std.OrientedCmp.gt_of_lt (compare_start front _ _)] at before
          cases before

/-- A splice where nothing stands puts the text there, unless something obstructs it. -/
theorem splice_cases (text : String) (canonical : tree.Canonical) {path : List String}
    (nothing : tree.at? path = none) :
    (tree.splice text path).at? path = some (string text) ∨
      ∃ front, (tree.splice text path).Obstructs path front := by
  cases found : (tree.splice text path).at? path with
  | none => exact .inr ((taken_splice_self canonical path).exists_obstructs found)
  | some part =>
      left
      cases spliced_of_vacant canonical nothing found with
      | leaf => rfl
      | inner member => simp at member

/-- In ascending order no longer path can take the place of the text. -/
theorem spliceAll_cases (text : String) (canonical : tree.Canonical)
    (ascending : Table.Ascending paths) {path : List String} (member : path ∈ paths)
    (nothing : tree.at? path = none) :
    (tree.spliceAll text paths).at? path = some (string text) ∨
      ∃ front, (tree.spliceAll text paths).Obstructs path front := by
  rcases List.append_of_mem member with ⟨before, after, rfl⟩
  have canonicalBefore : (tree.spliceAll text before).Canonical := canonical.spliceAll before
  have canonicalThere : ((tree.spliceAll text before).splice text path).Canonical :=
    canonicalBefore.splice path
  have still := at?_spliceAll_before text canonical ascending nothing
  rw [spliceAll_append]
  rcases splice_cases text canonicalBefore still with stands | ⟨front, obstructs⟩
  · rcases outlasts_spliceAll text canonicalThere after stands with ⟨later, remains, outlasts⟩
    cases outlasts.eq_of_plain rfl
    exact .inl remains
  · exact .inr ⟨front, obstructs.spliceAll canonicalThere after⟩

theorem Hinders.exists_obstructs {front path : List String} (hinders : Hinders paths tree front)
    (text : String) (canonical : tree.Canonical) (ascending : Table.Ascending paths)
    (starts : front <+: path) (proper : front ≠ path) :
    ∃ stop, (tree.spliceAll text paths).Obstructs path stop := by
  cases hinders with
  | plain found noObject =>
      have obstructs : tree.Obstructs path front := ⟨starts, proper, _, found, noObject⟩
      exact ⟨front, obstructs.spliceAll canonical paths⟩
  | vacant member nothing =>
      rcases spliceAll_cases text canonical ascending member nothing with
        stands | ⟨stop, obstructs⟩
      · exact ⟨front, starts, proper, _, stands, rfl⟩
      · exact ⟨stop, obstructs.mono starts⟩

/-- Splices in ascending order leave one of their paths without anything exactly if something
hinders it. -/
theorem at?_spliceAll_eq_none_iff (text : String) (canonical : tree.Canonical)
    (ascending : Table.Ascending paths) {path : List String} (member : path ∈ paths) :
    (tree.spliceAll text paths).at? path = none ↔
      ∃ front, front <+: path ∧ front ≠ path ∧ Hinders paths tree front := by
  constructor
  · intro nothing
    rcases (taken_spliceAll canonical member).exists_obstructs nothing with
      ⟨front, starts, proper, part, found, noObject⟩
    refine ⟨front, starts, proper, ?_⟩
    cases earlier : tree.at? front with
    | some configured =>
        rcases outlasts_spliceAll text canonical paths earlier with ⟨later, stands, outlasts⟩
        cases found.symm.trans stands
        cases outlasts with
        | plain => exact .plain earlier noObject
        | object _ stays => rw [noObject] at stays; cases stays
    | none =>
        cases spliced_spliceAll canonical earlier found with
        | leaf recorded => exact .vacant recorded earlier
        | inner _ atKey => rw [isObject_of_find? atKey] at noObject; cases noObject
  · rintro ⟨front, starts, proper, hinders⟩
    rcases hinders.exists_obstructs text canonical ascending starts proper with ⟨stop, obstructs⟩
    exact obstructs.at?_eq_none

/-! ## Splices made again -/

/-- Splices that were made already change nothing when they are made again. -/
theorem spliceAll_spliceAll (canonical : tree.Canonical) (paths : List (List String)) :
    (tree.spliceAll text paths).spliceAll text paths = tree.spliceAll text paths := by
  have again : ∀ others ⊆ paths, (tree.spliceAll text paths).spliceAll text others =
      tree.spliceAll text paths := by
    intro others subset
    induction others with
    | nil => rfl
    | cons first rest induction =>
        have taken : Taken first (tree.spliceAll text paths) :=
          taken_spliceAll canonical (subset List.mem_cons_self)
        have rest := induction fun path member => subset (List.mem_cons_of_mem _ member)
        rw [Value.spliceAll, List.foldl_cons, taken.splice_eq (canonical.spliceAll paths)]
        exact rest
  exact again paths (List.Subset.refl paths)

end Groundplan.Value
