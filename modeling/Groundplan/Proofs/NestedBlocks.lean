import Groundplan.Proofs.Instances
/-!
Nested blocks. The object of a body has a list for each kind of block in it. The list follows
the blocks as they are written: an object for a plain block, and for a dynamic block an object
for each of its instances, side by side with the others.
-/

namespace Groundplan

/-! ## What blocks give -/

/-- A body without the settings and blocks that only say how it is evaluated. -/
def Body.described (body : Body) : Body where
  settings := body.settings.filter fun setting => !Term.metaArguments.contains setting.key
  blocks := body.blocks.filter fun block => !Term.metaArguments.contains block.kind

namespace Block

/-- The kind of the objects that a block gives: that of its label if it is dynamic, and
otherwise its own. -/
inductive Gives : Block → String → Prop where
  | plain {block : Block} (isPlain : block.kind ≠ "dynamic") : block.Gives block.kind
  | dynamic {block : Block} {kind : String} (isDynamic : block.kind = "dynamic")
      (labelled : block.labels.head? = some kind) : block.Gives kind

/-- The body of the first block of content in a dynamic block. -/
def content (block : Block) : Body :=
  ((block.blocks.find? fun inner => inner.kind = "content").map Block.body).getD .empty

/-- The scopes of the instances of a dynamic block: one for each key of a map in the order of
the keys, one for each item of a list, one for a collection that is unknown and none for a value
that is no collection. Without a collection there is one instance and no variable. -/
inductive InstanceScopes (evaluator : Evaluator) (scope : Value) (block : Block)
    (iterator : String) : List Value → Prop where
  | single (absent : block.body.value? "for_each" = none) :
      InstanceScopes evaluator scope block iterator [scope]
  | unknown {collection : Expression} (given : block.body.value? "for_each" = some collection)
      (isUnknown : (evaluator collection scope).value = .unknown) :
      InstanceScopes evaluator scope block iterator
        [scope.merge (Term.itemBinding iterator (some .unknown) .unknown)]
  | map {collection : Expression} {fields : List (String × Value)}
      (given : block.body.value? "for_each" = some collection)
      (isMap : (evaluator collection scope).value = .object fields)
      (inOrder : Table.Ordered fields) :
      InstanceScopes evaluator scope block iterator (fields.map fun field =>
        scope.merge (Term.itemBinding iterator (some (.string field.1)) field.2))
  | list {collection : Expression} {items : List Value}
      (given : block.body.value? "for_each" = some collection)
      (isList : (evaluator collection scope).value = .list items) :
      InstanceScopes evaluator scope block iterator (items.map fun item =>
        scope.merge (Term.itemBinding iterator
          (if collection.isCallTo "toset" then some item else none) item))
  | other {collection : Expression} (given : block.body.value? "for_each" = some collection)
      (noCollection : (evaluator collection scope).value.kind ∉ ["unknown", "object", "list"]) :
      InstanceScopes evaluator scope block iterator []

end Block

mutual

/-- The object of a body: a field for each setting and each kind that a block gives, and no
other. A kind has the list of what the blocks give for it, also where a setting has its name. -/
inductive IsObject (evaluator : Evaluator) : Value → Body → Value → Prop where
  | object {scope : Value} {body : Body} {fields : List (String × Value)}
      (items : String → List Value) (inOrder : Table.Ordered fields)
      (keys : ∀ key, key ∈ Table.keys fields ↔
        (∃ setting ∈ body.settings, setting.key = key) ∨ ∃ block ∈ body.blocks, block.Gives key)
      (settings : ∀ key, (∀ block ∈ body.blocks, ¬block.Gives key) →
        Table.find? key fields =
          (body.settings.reverse.find? fun setting => setting.key = key).map fun setting =>
            (evaluator setting.value scope).value)
      (nested : ∀ kind, ∀ block ∈ body.blocks, block.Gives kind →
        Table.find? kind fields = some (.list (items kind)))
      (listed : ∀ kind, NestedItems evaluator scope kind body.blocks (items kind)) :
      IsObject evaluator scope body (.object fields)

/-- What blocks give for a kind, in the order in which they are written. -/
inductive NestedItems (evaluator : Evaluator) :
    Value → String → List Block → List Value → Prop where
  | nil {scope : Value} {kind : String} : NestedItems evaluator scope kind [] []
  | plain {scope object : Value} {block : Block} {rest : List Block} {items : List Value}
      (isPlain : block.kind ≠ "dynamic") (own : IsObject evaluator scope block.body object)
      (others : NestedItems evaluator scope block.kind rest items) :
      NestedItems evaluator scope block.kind (block :: rest) (object :: items)
  | dynamic {scope : Value} {kind iterator : String} {block : Block} {rest : List Block}
      {scopes objects items : List Value} (isDynamic : block.kind = "dynamic")
      (labelled : block.labels.head? = some kind)
      (named : iterator = Term.dynamicIterator kind block.settings)
      (instances : block.InstanceScopes evaluator scope iterator scopes)
      (own : InstanceObjects evaluator block.content scopes objects)
      (others : NestedItems evaluator scope kind rest items) :
      NestedItems evaluator scope kind (block :: rest) (objects ++ items)
  | other {scope : Value} {kind : String} {block : Block} {rest : List Block} {items : List Value}
      (gives : ¬block.Gives kind) (others : NestedItems evaluator scope kind rest items) :
      NestedItems evaluator scope kind (block :: rest) items

/-- An object of a body for each of some scopes. -/
inductive InstanceObjects (evaluator : Evaluator) : Body → List Value → List Value → Prop where
  | nil {body : Body} : InstanceObjects evaluator body [] []
  | cons {body : Body} {scope object : Value} {scopes objects : List Value}
      (own : IsObject evaluator scope body object)
      (others : InstanceObjects evaluator body scopes objects) :
      InstanceObjects evaluator body (scope :: scopes) (object :: objects)

end

/-! ## Induction over bodies -/

namespace Body

private theorem sizeOf_blocks_lt {block : Block} {blocks : List Block} (member : block ∈ blocks) :
    sizeOf block.blocks < sizeOf blocks := by
  have listed := List.sizeOf_lt_of_mem member
  rcases block with ⟨kind, labels, span, settings, inner⟩
  rw [Block.mk.sizeOf_spec] at listed
  dsimp only
  omega

private theorem sizeOf_content_lt {block : Block} {blocks : List Block} (member : block ∈ blocks) :
    sizeOf block.content.blocks < sizeOf blocks := by
  have outer := sizeOf_blocks_lt member
  rw [Block.content]
  cases found : block.blocks.find? fun inner => inner.kind = "content" with
  | none =>
      have blank : sizeOf (empty.blocks) = 1 := rfl
      have least : 0 < sizeOf block.blocks := by
        cases block.blocks with
        | nil => exact Nat.one_pos
        | cons first rest =>
            rw [List.cons.sizeOf_spec]
            omega
      rw [Option.map_none, Option.getD_none, blank]
      omega
  | some inner => exact Nat.lt_trans (sizeOf_blocks_lt (List.mem_of_find?_eq_some found)) outer

/-- Induction over the bodies of the blocks of a body and over their contents. -/
theorem induction_blocks {motive : Body → Prop}
    (step : ∀ body, (∀ block ∈ body.blocks, motive block.body ∧ motive block.content) →
      motive body) (body : Body) : motive body := by
  refine step body fun block member => ?_
  have inner : sizeOf block.body.blocks < sizeOf body.blocks := sizeOf_blocks_lt member
  have content : sizeOf block.content.blocks < sizeOf body.blocks := sizeOf_content_lt member
  exact ⟨induction_blocks step block.body, induction_blocks step block.content⟩
termination_by sizeOf body.blocks

end Body

/-! ## Terms of blocks -/

namespace Term

/-- What the term of a nested body computes. -/
def ofNested (body : Body) : TermBody Term :=
  .block (settingTable [] body.settings) (nestedOf [] body.blocks [])

/-- The term of a dynamic block of a kind. -/
def ofDynamic (kind : String) (block : Block) : Term :=
  { ofTermBody (ofNested block.content) with
    forEach := block.body.value? "for_each"
    iterator := some (dynamicIterator kind block.settings) }

theorem contentOf_eq (blocks : List Block) :
    contentOf blocks =
      (blocks.find? fun inner => inner.kind = "content").map fun inner => ofNested inner.body := by
  induction blocks with
  | nil => rfl
  | cons block rest induction =>
      rcases block with ⟨kind, labels, span, settings, inner⟩
      rw [contentOf, induction, List.find?_cons]
      by_cases isContent : kind = "content" <;> simp [isContent, ofNested, Block.body]

theorem nestedOne_of_dynamic {block : Block} (isDynamic : block.kind = "dynamic") :
    nestedOne block = block.labels.head?.map fun kind => (kind, ofDynamic kind block) := by
  rcases block with ⟨kind, labels, span, settings, blocks⟩
  cases isDynamic
  have content : (contentOf blocks).getD (.block [] []) =
      ofNested (Block.content ⟨"dynamic", labels, span, settings, blocks⟩) := by
    rw [contentOf_eq, Block.content]
    cases blocks.find? fun inner => inner.kind = "content" <;> rfl
  rw [nestedOne, content]
  rfl

theorem nestedOne_of_plain {block : Block} (isPlain : block.kind ≠ "dynamic") :
    nestedOne block = some (block.kind, ofTermBody (ofNested block.body)) := by
  rcases block with ⟨kind, labels, span, settings, blocks⟩
  rw [nestedOne]
  · rfl
  · exact isPlain

/-- The term of a block that gives objects of a kind. -/
def nestedTerm? (kind : String) (block : Block) : Option Term :=
  (nestedOne block).bind fun nested => if nested.1 = kind then some nested.2 else none

/-- The nested terms of a kind. -/
def nestedTerms (kind : String) (blocks : List Block) : List Term :=
  blocks.filterMap (nestedTerm? kind)

theorem nestedTerm?_of_dynamic {kind : String} {block : Block} (isDynamic : block.kind = "dynamic")
    (labelled : block.labels.head? = some kind) :
    nestedTerm? kind block = some (ofDynamic kind block) := by
  rw [nestedTerm?, nestedOne_of_dynamic isDynamic, labelled]
  simp

theorem nestedTerm?_of_plain {block : Block} (isPlain : block.kind ≠ "dynamic") :
    nestedTerm? block.kind block = some (ofTermBody (ofNested block.body)) := by
  rw [nestedTerm?, nestedOne_of_plain isPlain]
  simp

theorem nestedTerm?_eq_none_iff {kind : String} {block : Block} :
    nestedTerm? kind block = none ↔ ¬block.Gives kind := by
  constructor
  · intro nothing gives
    cases gives with
    | plain isPlain => rw [nestedTerm?_of_plain isPlain] at nothing; cases nothing
    | dynamic isDynamic labelled =>
        rw [nestedTerm?_of_dynamic isDynamic labelled] at nothing; cases nothing
  · intro gives
    by_cases isDynamic : block.kind = "dynamic"
    · rw [nestedTerm?, nestedOne_of_dynamic isDynamic]
      cases labelled : block.labels.head? with
      | none => rfl
      | some label =>
          have different : label ≠ kind := by
            intro same
            exact gives (.dynamic isDynamic (same ▸ labelled))
          simp [different]
    · have different : block.kind ≠ kind := by
        intro same
        exact gives (same ▸ .plain isDynamic)
      rw [nestedTerm?, nestedOne_of_plain isDynamic]
      simp [different]

theorem nestedTerms_eq_nil_iff {kind : String} {blocks : List Block} :
    nestedTerms kind blocks = [] ↔ ∀ block ∈ blocks, ¬block.Gives kind := by
  simp only [nestedTerms, List.filterMap_eq_nil_iff, nestedTerm?_eq_none_iff]

theorem nestedTerms_ne_nil_iff {kind : String} {blocks : List Block} :
    nestedTerms kind blocks ≠ [] ↔ ∃ block ∈ blocks, block.Gives kind := by
  rw [ne_eq, nestedTerms_eq_nil_iff]
  simp

/-! ## Grouping by kind -/

theorem ordered_nestedOf (skipped : List String) (blocks : List Block)
    {taken : Table String (List Term)} (inOrder : Table.Ordered taken) :
    Table.Ordered (nestedOf skipped blocks taken) := by
  induction blocks generalizing taken with
  | nil => exact inOrder
  | cons block rest induction =>
      rw [nestedOf]
      split
      · exact induction inOrder
      · split
        · exact induction (Table.ordered_insert _ _ inOrder)
        · exact induction inOrder

/-- Leaving out kinds of blocks is the same before and while they are grouped. -/
theorem nestedOf_skipped (skipped : List String) (blocks : List Block)
    (taken : Table String (List Term)) :
    nestedOf skipped blocks taken =
      nestedOf [] (blocks.filter fun block => !skipped.contains block.kind) taken := by
  induction blocks generalizing taken with
  | nil => rfl
  | cons block rest induction =>
      rw [nestedOf, List.filter_cons]
      cases left : skipped.contains block.kind with
      | true => simp [induction]
      | false => simp [nestedOf, induction]

/-- The terms of a kind are grouped in the order in which their blocks are written. -/
theorem find?_nestedOf (kind : String) (blocks : List Block) (taken : Table String (List Term)) :
    Table.find? kind (nestedOf [] blocks taken) =
      if nestedTerms kind blocks = [] then Table.find? kind taken
      else some ((Table.find? kind taken).getD [] ++ nestedTerms kind blocks) := by
  induction blocks generalizing taken with
  | nil => rfl
  | cons block rest induction =>
      have unskipped : ([] : List String).contains block.kind = false := rfl
      rw [nestedOf, unskipped, nestedTerms, List.filterMap_cons, nestedTerm?]
      cases nested : nestedOne block with
      | none => exact induction taken
      | some named =>
          rcases named with ⟨given, term⟩
          simp only [Bool.false_eq_true, if_false, Option.bind_some]
          rw [induction, addNested, Table.alter, Table.find?_insert, ← nestedTerms]
          by_cases same : given = kind
          · subst same
            by_cases alone : nestedTerms given rest = [] <;> simp [alone]
          · have different : kind ≠ given := fun equal => same equal.symm
            simp only [same, different, if_false]

theorem ofBody_body (body : Body) : (ofBody body).body = ofNested body.described := by
  have settings : settingTable metaArguments body.settings =
      settingTable [] body.described.settings := by
    simp [settingTable, Body.described]
  have blocks : nestedOf metaArguments body.blocks [] = nestedOf [] body.described.blocks [] :=
    nestedOf_skipped _ _ _
  rw [ofBody, settings, blocks]
  rfl

/-! ## Values of nested terms -/

variable {evaluator : Evaluator} {scope : Value}

/-- The objects of nested terms stand side by side. -/
theorem evaluateTerms_eq {terms : List Term} (nested : ∀ term ∈ terms, term.IsBlock) :
    (evaluateTerms evaluator scope terms).1 = terms.flatMap (instanceValues evaluator scope) := by
  induction terms with
  | nil => rfl
  | cons term rest induction =>
      have isBlock := nested term List.mem_cons_self
      have others := induction fun other member => nested other (List.mem_cons_of_mem _ member)
      rw [evaluateTerms, List.flatMap_cons, ← others]
      rcases value_evaluate evaluator scope isBlock.everyInstance with
        ⟨replicated, value⟩ | ⟨single, value⟩
      · simp only [value, replicated, if_true]
      · have isObject := (isBlock.isTable_of_mem (value ▸ List.mem_singleton_self _)).1
        rw [value]
        cases same : (term.evaluate evaluator scope).value with
        | list items =>
            rw [same] at isObject
            cases isObject
        | _ => rfl

theorem evaluateBlocks_eq (blocks : List (String × List Term)) :
    (evaluateBlocks evaluator scope blocks).1 =
      blocks.map fun entry => (entry.1, .list (evaluateTerms evaluator scope entry.2).1) := by
  induction blocks with
  | nil => rfl
  | cons entry rest induction =>
      rw [evaluateBlocks, List.map_cons, ← induction]

/-! ## Fields of an object -/

theorem find?_settingTable (key : String) (settings : List Setting) :
    Table.find? key (settingTable [] settings) =
      (settings.reverse.find? fun setting => setting.key = key).map Setting.value := by
  have all : (settings.filter fun setting => !([] : List String).contains setting.key) = settings :=
    List.filter_eq_self.mpr fun _ _ => rfl
  rw [settingTable, all, Table.find?_ofList, ← List.map_reverse, List.find?_map, Option.map_map]
  rfl

theorem value_evaluateBody_ofNested (body : Body) :
    (evaluateBody evaluator scope (ofNested body)).value = .object (Table.ofList
      (((settingTable [] body.settings).map fun setting =>
          (setting.1, (evaluator setting.2 scope).value)) ++
        (nestedOf [] body.blocks []).map fun entry =>
          (entry.1, .list (evaluateTerms evaluator scope entry.2).1))) := by
  rw [ofNested, evaluateBody, ← evaluateBlocks_eq]
  dsimp only [Value.ofEntries]
  rw [List.map_map]
  rfl

/-- A kind that a block gives has the list of its terms; only otherwise there is a setting. -/
theorem find?_fields_ofNested (evaluator : Evaluator) (scope : Value) (body : Body)
    (key : String) :
    Table.find? key (evaluateBody evaluator scope (ofNested body)).value.fields =
      if nestedTerms key body.blocks = [] then
        (body.settings.reverse.find? fun setting => setting.key = key).map fun setting =>
          (evaluator setting.value scope).value
      else some (.list (evaluateTerms evaluator scope (nestedTerms key body.blocks)).1) := by
  have settings : Table.Ordered (settingTable [] body.settings) := Table.ordered_ofList _
  have blocks := ordered_nestedOf [] body.blocks Table.ordered_nil
  have given := settings.find?_ofList_map (fun _ value => (evaluator value scope).value) key
  have nested := blocks.find?_ofList_map
    (fun _ terms => Value.list (evaluateTerms evaluator scope terms).1) key
  rw [value_evaluateBody_ofNested, Value.fields_object, Table.find?_ofList_append, given, nested,
    find?_nestedOf, find?_settingTable, Option.map_map]
  split
  · exact Option.none_or
  · rfl

theorem mem_keys_fields_ofNested (evaluator : Evaluator) (scope : Value) (body : Body)
    (key : String) :
    key ∈ Table.keys (evaluateBody evaluator scope (ofNested body)).value.fields ↔
      (∃ setting ∈ body.settings, setting.key = key) ∨ ∃ block ∈ body.blocks, block.Gives key := by
  rw [Table.mem_keys_iff_find?, find?_fields_ofNested]
  by_cases nothing : nestedTerms key body.blocks = []
  · have unfilled : ¬∃ block ∈ body.blocks, block.Gives key := by
      intro filled
      exact nestedTerms_ne_nil_iff.mpr filled nothing
    rw [if_pos nothing, or_iff_left unfilled, ← Option.isSome_iff_exists, Option.isSome_map,
      List.find?_isSome]
    simp
  · rw [if_neg nothing]
    exact ⟨fun _ => .inr (nestedTerms_ne_nil_iff.mp nothing), fun _ => ⟨_, rfl⟩⟩

/-! ## Objects of bodies -/

theorem instanceObjects_map {body : Body} {scopes : List Value} {value : Value → Value}
    (own : ∀ inner ∈ scopes, IsObject evaluator inner body (value inner)) :
    InstanceObjects evaluator body scopes (scopes.map value) := by
  induction scopes with
  | nil => exact .nil
  | cons inner rest induction =>
      apply InstanceObjects.cons (own inner List.mem_cons_self)
      exact induction fun other member => own other (List.mem_cons_of_mem _ member)

theorem instanceScopes_ofDynamic (inOrder : evaluator.Canonical) (canonical : scope.Canonical)
    (kind : String) (block : Block) :
    block.InstanceScopes evaluator scope (dynamicIterator kind block.settings)
      ((ofDynamic kind block).bodyScopes evaluator scope) := by
  cases given : block.body.value? "for_each" with
  | none =>
      have unnamed : (ofDynamic kind block).iterationName? = none := by
        rw [ofDynamic, given]
        rfl
      rw [bodyScopes_of_unnamed unnamed]
      exact .single given
  | some collection =>
      have scopes : (ofDynamic kind block).bodyScopes evaluator scope =
          (itemBindings (dynamicIterator kind block.settings) (collection.isCallTo "toset")
            (evaluator collection scope).value).1.map scope.merge := by
        rw [ofDynamic, given]
        rfl
      have fieldsInOrder := (inOrder collection scope canonical).ordered
      rw [scopes]
      cases value : (evaluator collection scope).value with
      | unknown => exact .unknown given value
      | object fields =>
          rw [value] at fieldsInOrder
          rw [itemBindings, List.map_map]
          exact .map given value fieldsInOrder
      | list items =>
          rw [itemBindings, List.map_map]
          exact .list given value
      | _ => exact .other given (by simp [value, Value.kind])

/-- The items of a kind, where the bodies and contents of the blocks have their objects. -/
theorem nestedItems_of_blocks (inOrder : evaluator.Canonical) (canonical : scope.Canonical)
    (kind : String) {blocks : List Block}
    (objects : ∀ block ∈ blocks, ∀ body, body = block.body ∨ body = block.content →
      ∀ inner : Value, inner.Canonical →
        IsObject evaluator inner body (evaluateBody evaluator inner (ofNested body)).value) :
    NestedItems evaluator scope kind blocks
      ((nestedTerms kind blocks).flatMap (instanceValues evaluator scope)) := by
  induction blocks with
  | nil => exact .nil
  | cons block rest induction =>
      have others := induction fun other member => objects other (List.mem_cons_of_mem _ member)
      have own := objects block List.mem_cons_self
      rw [nestedTerms, List.filterMap_cons, ← nestedTerms]
      by_cases gives : block.Gives kind
      · cases gives with
        | plain isPlain =>
            rw [nestedTerm?_of_plain isPlain]
            exact .plain isPlain (own block.body (.inl rfl) scope canonical) others
        | dynamic isDynamic labelled =>
            rw [nestedTerm?_of_dynamic isDynamic labelled]
            apply NestedItems.dynamic isDynamic labelled rfl
              (instanceScopes_ofDynamic inOrder canonical kind block) _ others
            apply instanceObjects_map
            intro inner isInstance
            exact own block.content (.inr rfl) inner
              (canonical_of_mem_bodyScopes inOrder canonical isInstance)
      · rw [nestedTerm?_eq_none_iff.mpr gives]
        exact .other gives others

theorem isBlock_of_mem_nestedTerms {kind : String} {blocks : List Block} {term : Term}
    (member : term ∈ nestedTerms kind blocks) : term.IsBlock := by
  rcases List.mem_filterMap.mp member with ⟨block, _, found⟩
  have gives : block.Gives kind := by
    refine Classical.byContradiction fun otherwise => ?_
    rw [nestedTerm?_eq_none_iff.mpr otherwise] at found
    cases found
  cases gives with
  | plain isPlain =>
      rw [nestedTerm?_of_plain isPlain] at found
      cases found
      exact ⟨⟨_, _, rfl⟩, rfl⟩
  | dynamic isDynamic labelled =>
      rw [nestedTerm?_of_dynamic isDynamic labelled] at found
      cases found
      exact ⟨⟨_, _, rfl⟩, rfl⟩

theorem isObject_evaluateBody (inOrder : evaluator.Canonical) (body : Body) :
    ∀ scope : Value, scope.Canonical →
      IsObject evaluator scope body (evaluateBody evaluator scope (ofNested body)).value := by
  induction body using Body.induction_blocks with
  | step body induction =>
      intro scope canonical
      have found := find?_fields_ofNested evaluator scope body
      have keys := mem_keys_fields_ofNested evaluator scope body
      have listed := fun kind => nestedItems_of_blocks inOrder canonical kind
        fun block member other same => same.elim
          (fun equal => equal ▸ (induction block member).1)
          (fun equal => equal ▸ (induction block member).2)
      rw [value_evaluateBody_ofNested] at found keys ⊢
      simp only [Value.fields_object, evaluateTerms_eq fun _ => isBlock_of_mem_nestedTerms] at found
      refine .object _ (Table.ordered_ofList _) keys ?_ ?_ listed
      · intro key unfilled
        rw [found, if_pos (nestedTerms_eq_nil_iff.mpr unfilled)]
      · intro kind block member gives
        rw [found, if_neg (nestedTerms_ne_nil_iff.mpr ⟨block, member, gives⟩)]

/-- A term with a count or a collection is a list with an object of the body for each of its
instances. -/
theorem instanceObjects_evaluate (inOrder : evaluator.Canonical) (canonical : scope.Canonical)
    {body : Body}
    (replicates : (body.value? "count").isSome ∨ (body.value? "for_each").isSome) :
    ∃ objects, ((ofBody body).evaluate evaluator scope).value = .list objects ∧
      InstanceObjects evaluator body.described ((ofBody body).bodyScopes evaluator scope)
        objects := by
  have isReplicated : (ofBody body).isReplicated = true := by
    simpa [ofBody, Term.isReplicated] using replicates
  rcases value_evaluate evaluator scope (isBlock_ofBody body).everyInstance with
    ⟨_, value⟩ | ⟨single, _⟩
  · refine ⟨_, value, ?_⟩
    rw [instanceValues, ofBody_body]
    apply instanceObjects_map
    intro inner isInstance
    exact isObject_evaluateBody inOrder body.described inner
      (canonical_of_mem_bodyScopes inOrder canonical isInstance)
  · rw [isReplicated] at single
    cases single

theorem isObject_evaluate (inOrder : evaluator.Canonical) (canonical : scope.Canonical)
    {body : Body} (uncounted : body.value? "count" = none)
    (iterates : body.value? "for_each" = none) :
    IsObject evaluator scope body.described ((ofBody body).evaluate evaluator scope).value := by
  rw [evaluate_of_unreplicated uncounted iterates, ofBody_body]
  exact isObject_evaluateBody inOrder body.described scope canonical

/-- The term of a body with a count or a collection is evaluated to a list with an object of the
body for each instance, and otherwise to one object of the body. -/
theorem nested_blocks_in_place (inOrder : evaluator.Canonical) (canonical : scope.Canonical)
    (body : Body) :
    ((body.value? "count").isSome ∨ (body.value? "for_each").isSome →
      ∃ objects, ((ofBody body).evaluate evaluator scope).value = .list objects ∧
        InstanceObjects evaluator body.described ((ofBody body).bodyScopes evaluator scope)
          objects) ∧
    (body.value? "count" = none → body.value? "for_each" = none →
      IsObject evaluator scope body.described ((ofBody body).evaluate evaluator scope).value) ∧
    ((∃ items, ((ofBody body).evaluate evaluator scope).value = .list items) ↔
      (body.value? "count").isSome ∨ (body.value? "for_each").isSome) := by
  refine ⟨instanceObjects_evaluate inOrder canonical, isObject_evaluate inOrder canonical, ?_, ?_⟩
  · intro listed
    rcases listed with ⟨items, value⟩
    refine Classical.byContradiction fun otherwise => ?_
    rw [not_or, Option.not_isSome_iff_eq_none, Option.not_isSome_iff_eq_none] at otherwise
    have isObject := isObject_evaluate inOrder canonical otherwise.1 otherwise.2
    rw [value] at isObject
    cases isObject
  · intro replicates
    rcases instanceObjects_evaluate inOrder canonical replicates with ⟨objects, value, _⟩
    exact ⟨objects, value⟩

/-- A block of a rule for a port. -/
def portRule (port : Expression) : Block :=
  ⟨"rule", [], ⟨0, 0⟩, [⟨"port", ⟨0, 0⟩, port⟩], []⟩

/-- The port of an instance of `portRules`. -/
def portRead : Expression := .traversal (.read "rule") [.member "value"]

/-- A rule for each of two ports. -/
def portRules : Block :=
  ⟨"dynamic", ["rule"], ⟨0, 0⟩,
    [⟨"for_each", ⟨0, 0⟩, .list [.number (.ofNat 80), .number (.ofNat 443)]⟩],
    [⟨"content", [], ⟨0, 0⟩, [⟨"port", ⟨0, 0⟩, portRead⟩], []⟩]⟩

/-- Two plain rules, and rules for a list of ports between them. -/
def rulesBody : Body where
  settings := [⟨"name", ⟨0, 0⟩, .string "web"⟩]
  blocks := [portRule (.number (.ofNat 22)), ⟨"lifecycle", [], ⟨0, 0⟩, [], []⟩, portRules,
    portRule (.number (.ofNat 8080))]

theorem instanceValues_portRules :
    instanceValues Expression.evaluateIn (.object []) (ofDynamic "rule" portRules) =
      [.object [("port", .ofNat 80)], .object [("port", .ofNat 443)]] := by
  have alone (value : Value) : (Value.object []).merge (itemBinding "rule" none value) =
      itemBinding "rule" none value := Value.graft_empty (List.cons_ne_nil _ _) _
  have scopes : (ofDynamic "rule" portRules).bodyScopes Expression.evaluateIn (.object []) =
      [itemBinding "rule" none (.ofNat 80), itemBinding "rule" none (.ofNat 443)] := by
    rw [← alone (.ofNat 80), ← alone (.ofNat 443)]
    rfl
  have first : portRead.evaluate (Expression.scopeOf (itemBinding "rule" none (.ofNat 80))) =
      .ok (.number (.ofNat 80)) := rfl
  have second : portRead.evaluate (Expression.scopeOf (itemBinding "rule" none (.ofNat 443))) =
      .ok (.number (.ofNat 443)) := rfl
  have body : (ofDynamic "rule" portRules).body = .block [("port", portRead)] [] := rfl
  rw [instanceValues, scopes, body]
  simp only [List.map_cons, List.map_nil, evaluateBody]
  rw [Expression.evaluateIn_of_evaluate (by decide +kernel) first,
    Expression.evaluateIn_of_evaluate (by decide +kernel) second]
  rfl

/-- The objects stand in the order of the blocks. -/
theorem value_evaluate_rulesBody :
    ((ofBody rulesBody).evaluate Expression.evaluateIn (.object [])).value =
      .object [("name", .string "web"), ("rule", .list [.object [("port", .ofNat 22)],
        .object [("port", .ofNat 80)], .object [("port", .ofNat 443)],
        .object [("port", .ofNat 8080)]])] := by
  have terms : nestedOf [] rulesBody.described.blocks [] =
      [("rule", nestedTerms "rule" rulesBody.described.blocks)] := rfl
  have rules : nestedTerms "rule" rulesBody.described.blocks =
      [ofTermBody (ofNested (portRule (.number (.ofNat 22))).body), ofDynamic "rule" portRules,
        ofTermBody (ofNested (portRule (.number (.ofNat 8080))).body)] := rfl
  rw [evaluate_of_unreplicated rfl rfl, ofBody_body, value_evaluateBody_ofNested, terms,
    List.map_singleton, evaluateTerms_eq fun _ => isBlock_of_mem_nestedTerms, rules,
    List.flatMap_cons, List.flatMap_cons, instanceValues_portRules]
  rfl

theorem nested_blocks_in_place_rules :
    IsObject Expression.evaluateIn (.object []) rulesBody.described
      (.object [("name", .string "web"), ("rule", .list [.object [("port", .ofNat 22)],
        .object [("port", .ofNat 80)], .object [("port", .ofNat 443)],
        .object [("port", .ofNat 8080)]])]) := by
  have blank : (Value.object []).Canonical :=
    Value.canonical_object.mpr ⟨Table.ordered_nil, by simp⟩
  rw [← value_evaluate_rulesBody]
  exact (nested_blocks_in_place Expression.canonical_evaluateIn blank rulesBody).2.1 rfl rfl

end Term

end Groundplan
