import Groundplan.Proofs.Graphs
import Groundplan.Proofs.References
/-!
Schedules of an analysis. The graph of a tree has the texts of its terms as nodes
and their dependencies as edges, so a schedule accounts for every term as long as
no text reads back as the name of another term.
-/

namespace Groundplan.Analysis

/-! ## The graph of a term -/

/-- Whether `dependency` is on another term than `name`, namely on `producer`. -/
def DependsOn (name : FullName) (dependency : Dependency) (producer : FullName) : Prop :=
  dependency.source? = some producer ∧ producer ≠ name

variable {name : FullName} {graph : Graph}

theorem addSource_eq_self {dependency : Dependency}
    (own : ∀ producer, ¬DependsOn name dependency producer) :
    addSource name graph dependency = graph := by
  cases produced : dependency.source? with
  | none => simp only [addSource, produced]
  | some source =>
      have same : source = name :=
        Decidable.byContradiction fun different => own source ⟨produced, different⟩
      simp only [addSource, produced, if_pos same]

theorem addSource_eq_addEdge {dependency : Dependency} {producer : FullName}
    (depends : DependsOn name dependency producer) :
    addSource name graph dependency = graph.addEdge producer.text name.text := by
  simp only [addSource, depends.1, if_neg depends.2]

private theorem dependsOn_cases (name : FullName) (dependency : Dependency) :
    (∃ producer, DependsOn name dependency producer) ∨
      ∀ producer, ¬DependsOn name dependency producer := by
  by_cases depends : ∃ producer, DependsOn name dependency producer
  · exact Or.inl depends
  · exact Or.inr fun producer holds => depends ⟨producer, holds⟩

private theorem DependsOn.unique {dependency : Dependency} {left right : FullName}
    (first : DependsOn name dependency left) (second : DependsOn name dependency right) :
    left = right :=
  Option.some.inj (first.1.symm.trans second.1)

theorem ordered_addSource (ordered : graph.Ordered) (dependency : Dependency) :
    (addSource name graph dependency).Ordered := by
  rcases dependsOn_cases name dependency with ⟨producer, depends⟩ | own
  · rw [addSource_eq_addEdge depends]
    exact Graph.ordered_addEdge ordered _ _
  · rw [addSource_eq_self own]
    exact ordered

theorem edge_addSource {dependency : Dependency} {source target : String} :
    (addSource name graph dependency).Edge source target ↔
      graph.Edge source target ∨ ∃ producer, DependsOn name dependency producer ∧
        source = producer.text ∧ target = name.text := by
  rcases dependsOn_cases name dependency with ⟨producer, depends⟩ | own
  · rw [addSource_eq_addEdge depends, Graph.edge_addEdge, or_comm]
    apply or_congr_right
    constructor
    · exact fun same => ⟨producer, depends, same⟩
    · rintro ⟨other, otherDepends, same⟩
      exact depends.unique otherDepends ▸ same
  · rw [addSource_eq_self own]
    constructor
    · exact Or.inl
    · rintro (edge | ⟨producer, depends, _⟩)
      · exact edge
      · exact absurd depends (own producer)

theorem mem_nodes_addSource {dependency : Dependency} {node : String}
    (started : name.text ∈ graph.nodes) :
    node ∈ (addSource name graph dependency).nodes ↔
      node ∈ graph.nodes ∨ ∃ producer, DependsOn name dependency producer ∧
        node = producer.text := by
  rcases dependsOn_cases name dependency with ⟨producer, depends⟩ | own
  · rw [addSource_eq_addEdge depends, Graph.mem_nodes_addEdge]
    constructor
    · rintro (same | same | member)
      · exact Or.inr ⟨producer, depends, same⟩
      · exact Or.inl (same ▸ started)
      · exact Or.inl member
    · rintro (member | ⟨other, otherDepends, same⟩)
      · exact Or.inr (Or.inr member)
      · exact Or.inl (depends.unique otherDepends ▸ same)
  · rw [addSource_eq_self own]
    constructor
    · exact Or.inl
    · rintro (member | ⟨producer, depends, _⟩)
      · exact member
      · exact absurd depends (own producer)

private theorem foldl_addSource (dependencies : List Dependency)
    (ordered : graph.Ordered) (started : name.text ∈ graph.nodes) :
    (dependencies.foldl (addSource name) graph).Ordered ∧
    (∀ source target, (dependencies.foldl (addSource name) graph).Edge source target ↔
      graph.Edge source target ∨ ∃ dependency ∈ dependencies, ∃ producer,
        DependsOn name dependency producer ∧ source = producer.text ∧ target = name.text) ∧
    (∀ node, node ∈ (dependencies.foldl (addSource name) graph).nodes ↔
      node ∈ graph.nodes ∨ ∃ dependency ∈ dependencies, ∃ producer,
        DependsOn name dependency producer ∧ node = producer.text) := by
  induction dependencies generalizing graph with
  | nil => simp [ordered]
  | cons first rest induction =>
      have grown : name.text ∈ (addSource name graph first).nodes :=
        (mem_nodes_addSource started).mpr (Or.inl started)
      rcases induction (ordered_addSource ordered first) grown with ⟨built, edges, nodes⟩
      refine ⟨built, ?_, ?_⟩
      · intro source target
        rw [List.foldl_cons, edges, edge_addSource]
        simp only [List.mem_cons, exists_eq_or_imp, or_assoc]
      · intro node
        rw [List.foldl_cons, nodes, mem_nodes_addSource started]
        simp only [List.mem_cons, exists_eq_or_imp, or_assoc]

theorem ordered_addTerm (ordered : graph.Ordered) (dependencies : List Dependency) :
    (addTerm graph name dependencies).Ordered :=
  (foldl_addSource dependencies (Graph.ordered_addNode ordered _)
    (Graph.mem_nodes_addNode.mpr (Or.inl rfl))).1

theorem edge_addTerm (ordered : graph.Ordered) {dependencies : List Dependency}
    {source target : String} :
    (addTerm graph name dependencies).Edge source target ↔
      graph.Edge source target ∨ ∃ dependency ∈ dependencies, ∃ producer,
        DependsOn name dependency producer ∧ source = producer.text ∧ target = name.text := by
  have edges := (foldl_addSource dependencies (Graph.ordered_addNode ordered name.text)
    (Graph.mem_nodes_addNode.mpr (Or.inl rfl))).2.1 source target
  rw [Graph.edge_addNode] at edges
  exact edges

theorem mem_nodes_addTerm (ordered : graph.Ordered) {dependencies : List Dependency}
    {node : String} :
    node ∈ (addTerm graph name dependencies).nodes ↔
      (node = name.text ∨ node ∈ graph.nodes) ∨ ∃ dependency ∈ dependencies, ∃ producer,
        DependsOn name dependency producer ∧ node = producer.text := by
  have nodes := (foldl_addSource dependencies (Graph.ordered_addNode ordered name.text)
    (Graph.mem_nodes_addNode.mpr (Or.inl rfl))).2.2 node
  rw [Graph.mem_nodes_addNode] at nodes
  exact nodes

/-! ## The graph of an analysis -/

private theorem foldl_addTerm (entries : List (FullName × List Dependency))
    (ordered : graph.Ordered) :
    (entries.foldl (fun graph entry => addTerm graph entry.1 entry.2) graph).Ordered ∧
    (∀ source target,
      (entries.foldl (fun graph entry => addTerm graph entry.1 entry.2) graph).Edge
          source target ↔
        graph.Edge source target ∨ ∃ entry ∈ entries, ∃ dependency ∈ entry.2, ∃ producer,
          DependsOn entry.1 dependency producer ∧ source = producer.text ∧
            target = entry.1.text) ∧
    (∀ node,
      node ∈ (entries.foldl (fun graph entry => addTerm graph entry.1 entry.2) graph).nodes ↔
        node ∈ graph.nodes ∨ ∃ entry ∈ entries, node = entry.1.text ∨
          ∃ dependency ∈ entry.2, ∃ producer, DependsOn entry.1 dependency producer ∧
            node = producer.text) := by
  induction entries generalizing graph with
  | nil => simp [ordered]
  | cons first rest induction =>
      rcases induction (ordered_addTerm ordered first.2) with ⟨built, edges, nodes⟩
      refine ⟨built, ?_, ?_⟩
      · intro source target
        rw [List.foldl_cons, edges, edge_addTerm ordered]
        simp only [List.mem_cons, exists_eq_or_imp, or_assoc]
      · intro node
        rw [List.foldl_cons, nodes, mem_nodes_addTerm ordered]
        simp only [List.mem_cons, exists_eq_or_imp, or_assoc]
        rw [or_left_comm]

theorem ordered_graph (analysis : Analysis) : analysis.graph.Ordered :=
  (foldl_addTerm analysis.dependencies Graph.ordered_empty).1

theorem edge_graph_iff {analysis : Analysis} {source target : String} :
    analysis.graph.Edge source target ↔
      ∃ entry ∈ analysis.dependencies, ∃ dependency ∈ entry.2, ∃ producer,
        DependsOn entry.1 dependency producer ∧ source = producer.text ∧
          target = entry.1.text := by
  rw [graph, (foldl_addTerm analysis.dependencies Graph.ordered_empty).2.1]
  apply or_iff_right
  rintro ⟨targets, listed, _⟩
  cases listed

theorem mem_nodes_graph_iff {analysis : Analysis} {node : String} :
    node ∈ analysis.graph.nodes ↔
      ∃ entry ∈ analysis.dependencies, node = entry.1.text ∨
        ∃ dependency ∈ entry.2, ∃ producer, DependsOn entry.1 dependency producer ∧
          node = producer.text := by
  rw [graph, (foldl_addTerm analysis.dependencies Graph.ordered_empty).2.2]
  exact or_iff_right List.not_mem_nil

/-! ## The graph of a tree -/

variable {tree : ModuleTree}

theorem ordered_dependencies (tree : ModuleTree) :
    Table.Ordered (ofTree tree).dependencies := by
  rw [ofTree_dependencies, dependenciesOf]
  exact List.pairwise_map.mpr (ordered_terms tree)

theorem mem_dependencies_iff {entry : FullName × List Dependency} :
    entry ∈ (ofTree tree).dependencies ↔
      entry.1 ∈ (ofTree tree).names ∧ entry.2 = (ofTree tree).dependenciesFor entry.1 := by
  rcases entry with ⟨name, dependencies⟩
  have lookup : Table.find? name (ofTree tree).dependencies = some dependencies ↔
      (name, dependencies) ∈ (ofTree tree).dependencies :=
    (ordered_dependencies tree).find?_eq_some_iff
  rw [← lookup, ← keys_dependencies, Table.mem_keys_iff_find?, dependenciesFor]
  constructor
  · intro found
    exact ⟨⟨dependencies, found⟩, by simp [found]⟩
  · rintro ⟨⟨given, found⟩, same⟩
    simpa [found] using same.symm

theorem edge_graph {source target : String} :
    (ofTree tree).graph.Edge source target ↔
      ∃ name ∈ (ofTree tree).names, ∃ dependency ∈ (ofTree tree).dependenciesFor name,
        ∃ producer, DependsOn name dependency producer ∧ source = producer.text ∧
          target = name.text := by
  rw [edge_graph_iff]
  constructor
  · rintro ⟨⟨name, dependencies⟩, listed, dependency, member, holds⟩
    rcases mem_dependencies_iff.mp listed with ⟨named, same⟩
    exact ⟨name, named, dependency, same ▸ member, holds⟩
  · rintro ⟨name, named, dependency, member, holds⟩
    exact ⟨(name, _), mem_dependencies_iff.mpr ⟨named, rfl⟩, dependency, member, holds⟩

theorem mem_nodes_graph {node : String} :
    node ∈ (ofTree tree).graph.nodes ↔ ∃ name ∈ (ofTree tree).names, node = name.text := by
  rw [mem_nodes_graph_iff]
  constructor
  · rintro ⟨entry, listed, same | ⟨dependency, member, producer, depends, same⟩⟩
    · exact ⟨entry.1, (mem_dependencies_iff.mp listed).1, same⟩
    · rw [(mem_dependencies_iff.mp listed).2] at member
      exact ⟨producer, source_mem_names member depends.1, same⟩
  · rintro ⟨name, named, same⟩
    exact ⟨(name, (ofTree tree).dependenciesFor name),
      mem_dependencies_iff.mpr ⟨named, rfl⟩, Or.inl same⟩

/-! ## Schedules -/

instance decidableEqOk [DecidableEq α] (result : Except ε α) (value : α) :
    Decidable (result = .ok value) :=
  match result with
  | .ok found => decidable_of_iff (found = value) (by rw [Except.ok.injEq])
  | .error _ => isFalse (by intro same; cases same)

theorem termOfKey?_eq_some {key : String} {name : FullName} :
    (ofTree tree).termOfKey? key = some name ↔
      FullName.read key = .ok name ∧ name ∈ (ofTree tree).names := by
  cases reading : FullName.read key with
  | error => simp [termOfKey?, reading]
  | ok found =>
      simp only [termOfKey?, reading, Table.has_iff_mem_keys, keys_dependencies,
        Except.ok.injEq]
      by_cases known : found ∈ (ofTree tree).names
      · rw [if_pos known, Option.some.injEq]
        constructor
        · intro same
          exact ⟨same, same ▸ known⟩
        · exact And.left
      · rw [if_neg known]
        constructor
        · intro same
          cases same
        · rintro ⟨same, named⟩
          exact absurd (same ▸ named) known

/-- A schedule comes from an order of the texts of all terms. -/
theorem exists_keys {schedule : Schedule} (scheduled : (ofTree tree).schedule = .ok schedule) :
    ∃ keys, (ofTree tree).graph.order = .ok keys ∧ keys.Nodup ∧
      (∀ key, key ∈ keys ↔ ∃ name ∈ (ofTree tree).names, key = name.text) ∧
      schedule.order = keys.filterMap (ofTree tree).termOfKey? ∧
      schedule.badKeys = keys.filter fun key => ((ofTree tree).termOfKey? key).isNone := by
  rw [Analysis.schedule] at scheduled
  cases ordering : (ofTree tree).graph.order with
  | error stuck => rw [ordering] at scheduled; cases scheduled
  | ok keys =>
      rw [ordering] at scheduled
      cases scheduled
      have perm := Graph.order_perm (ordered_graph (ofTree tree)) ordering
      refine ⟨keys, rfl, ?_, ?_, rfl, rfl⟩
      · exact perm.nodup_iff.mpr (Table.Ordered.nodup_keys (ordered_graph (ofTree tree)))
      · intro key
        rw [perm.mem_iff, mem_nodes_graph]

/-- The local that the other one reads comes first. -/
def sampleSchedule : Schedule := ⟨[⟨[], ["local", "size"]⟩, ⟨[], ["local", "total"]⟩], []⟩

theorem schedule_sampleTree : (ofTree sampleTree).schedule = .ok sampleSchedule := by
  decide +kernel

theorem mem_names_of_mem_order {schedule : Schedule}
    (scheduled : (ofTree tree).schedule = .ok schedule) {name : FullName}
    (listed : name ∈ schedule.order) : name ∈ (ofTree tree).names := by
  rcases exists_keys scheduled with ⟨keys, _, _, _, order, _⟩
  rw [order] at listed
  rcases List.mem_filterMap.mp listed with ⟨key, _, term⟩
  exact (termOfKey?_eq_some.mp term).2

/-- The terms of a schedule are those whose names read back from their texts. -/
theorem mem_order_iff {schedule : Schedule} (scheduled : (ofTree tree).schedule = .ok schedule)
    {name : FullName} (named : name ∈ (ofTree tree).names) :
    name ∈ schedule.order ↔ FullName.read name.text = .ok name := by
  rcases exists_keys scheduled with ⟨keys, _, _, texts, order, _⟩
  rw [order, List.mem_filterMap]
  constructor
  · rintro ⟨key, _, term⟩
    exact FullName.read_text_of_read (termOfKey?_eq_some.mp term).1
  · intro reads
    exact ⟨name.text, (texts _).mpr ⟨name, named, rfl⟩, termOfKey?_eq_some.mpr ⟨reads, named⟩⟩

/-! ## Names that nothing else reads back as -/

/-- Whether no other term has a text that reads back as a name. -/
def ReadsAlone (analysis : Analysis) (name : FullName) : Prop :=
  ∀ other ∈ analysis.names, FullName.read other.text = .ok name → other = name

instance (analysis : Analysis) (name : FullName) : Decidable (analysis.ReadsAlone name) :=
  inferInstanceAs (Decidable (∀ other ∈ analysis.names,
    FullName.read other.text = .ok name → other = name))

section ReadsAlone

variable {schedule : Schedule} {name : FullName} (alone : (ofTree tree).ReadsAlone name)
  (scheduled : (ofTree tree).schedule = .ok schedule)
include alone scheduled

/-- The own text is the only key that gives the term. -/
theorem ReadsAlone.count_order (named : name ∈ (ofTree tree).names)
    (reads : FullName.read name.text = .ok name) : schedule.order.count name = 1 := by
  rcases exists_keys scheduled with ⟨keys, _, nodup, texts, order, _⟩
  have listed : name.text ∈ keys := (texts _).mpr ⟨name, named, rfl⟩
  have own : ∀ key ∈ keys, ((ofTree tree).termOfKey? key == some name) = true ↔
      (key == name.text) = true := by
    intro key member
    rw [beq_iff_eq, beq_iff_eq, termOfKey?_eq_some]
    constructor
    · rintro ⟨reading, _⟩
      rcases (texts key).mp member with ⟨other, otherNamed, same⟩
      subst same
      rw [alone other otherNamed reading]
    · intro same
      exact ⟨same ▸ reads, named⟩
  rw [order, List.count_filterMap, List.countP_congr own]
  exact nodup.count.trans (if_pos listed)

variable {before after : List FullName} (split : schedule.order = before ++ name :: after)
include split

theorem ReadsAlone.not_mem_of_split : name ∉ before ∧ name ∉ after := by
  have listed : name ∈ schedule.order := by rw [split]; simp
  have named := mem_names_of_mem_order scheduled listed
  have once := alone.count_order scheduled named ((mem_order_iff scheduled named).mp listed)
  rw [split, List.count_append, List.count_cons_self] at once
  constructor
  · exact List.count_eq_zero.mp (by omega)
  · exact List.count_eq_zero.mp (by omega)

/-- Every source that is scheduled at all comes before its reader. -/
theorem ReadsAlone.source_mem_before {dependency : Dependency}
    (member : dependency ∈ (ofTree tree).dependenciesFor name) {source : FullName}
    (produced : dependency.source? = some source) (different : source ≠ name)
    (reads : FullName.read source.text = .ok source) : source ∈ before := by
  have named : name ∈ (ofTree tree).names :=
    mem_names_of_mem_order scheduled (by rw [split]; simp)
  rcases exists_keys scheduled with ⟨keys, ordering, _, texts, order, _⟩
  -- The split of the order is one of the keys, at the text of the reader.
  rw [split, eq_comm, List.filterMap_eq_append_iff] at order
  rcases order with ⟨front, back, within, isBefore, atTurn⟩
  rcases List.filterMap_eq_cons_iff.mp atTurn with ⟨skipped, key, rest, isBack, none, term, _⟩
  have inKeys : key ∈ keys := by rw [within, isBack]; simp
  rcases (texts key).mp inKeys with ⟨other, otherNamed, same⟩
  subst same
  have isOwn := alone other otherNamed (termOfKey?_eq_some.mp term).1
  subst isOwn
  rw [within, isBack, ← List.append_assoc] at ordering
  have edge : (ofTree tree).graph.Edge source.text other.text :=
    edge_graph.mpr ⟨other, named, dependency, member, source, ⟨produced, different⟩, rfl, rfl⟩
  have earlier := Graph.mem_before_of_order (ordered_graph (ofTree tree)) ordering edge
  have gives : (ofTree tree).termOfKey? source.text = some source :=
    termOfKey?_eq_some.mpr ⟨reads, source_mem_names member produced⟩
  rcases List.mem_append.mp earlier with inFront | inSkipped
  · rw [← isBefore]
    exact List.mem_filterMap.mpr ⟨source.text, inFront, gives⟩
  · rw [none source.text inSkipped] at gives
    cases gives

end ReadsAlone

/-! ## Schedules of names that read back -/

/-- Whether every name reads back from its text. -/
def ReadsBack (analysis : Analysis) : Prop :=
  ∀ name ∈ analysis.names, FullName.read name.text = .ok name

instance (analysis : Analysis) : Decidable analysis.ReadsBack :=
  inferInstanceAs (Decidable (∀ name ∈ analysis.names, FullName.read name.text = .ok name))

section ReadsBack

variable {schedule : Schedule} (readsBack : (ofTree tree).ReadsBack)
include readsBack

theorem ReadsBack.readsAlone (name : FullName) : (ofTree tree).ReadsAlone name := by
  intro other named reading
  exact Except.ok.inj ((readsBack other named).symm.trans reading)

theorem ReadsBack.eq_of_text {name other : FullName} (named : name ∈ (ofTree tree).names)
    (otherNamed : other ∈ (ofTree tree).names) (same : name.text = other.text) :
    name = other := by
  have reading := readsBack name named
  rw [same, readsBack other otherNamed] at reading
  exact (Except.ok.inj reading).symm

/-- Every source of a term is scheduled before it. -/
theorem source_mem_before (scheduled : (ofTree tree).schedule = .ok schedule)
    {before after : List FullName} {name : FullName}
    (split : schedule.order = before ++ name :: after) {dependency : Dependency}
    (member : dependency ∈ (ofTree tree).dependenciesFor name) {source : FullName}
    (produced : dependency.source? = some source) (different : source ≠ name) :
    source ∈ before :=
  (readsBack.readsAlone name).source_mem_before scheduled split member produced different
    (readsBack source (source_mem_names member produced))

end ReadsBack

/-! ## Terms of a schedule -/

/-- Whether a schedule lists a term once, or leaves it out and reports its text. -/
def ScheduledOnce (schedule : Schedule) (name : FullName) : Prop :=
  schedule.order.count name = 1 ∨ name ∉ schedule.order ∧ name.text ∈ schedule.badKeys

instance (schedule : Schedule) (name : FullName) : Decidable (ScheduledOnce schedule name) :=
  inferInstanceAs (Decidable (_ ∨ _))

/-- Whether no text of a term reads back as another term. -/
def TextsApart (analysis : Analysis) : Prop :=
  ∀ name ∈ analysis.names, ∀ other ∈ analysis.names,
    FullName.read other.text = .ok name → other = name

instance (analysis : Analysis) : Decidable analysis.TextsApart :=
  inferInstanceAs (Decidable (∀ name ∈ analysis.names, ∀ other ∈ analysis.names,
    FullName.read other.text = .ok name → other = name))

variable {schedule : Schedule}

theorem scheduledOnce_of_textsApart (scheduled : (ofTree tree).schedule = .ok schedule)
    (apart : (ofTree tree).TextsApart) {name : FullName} (named : name ∈ (ofTree tree).names) :
    ScheduledOnce schedule name := by
  rcases exists_keys scheduled with ⟨keys, _, _, texts, _, badKeys⟩
  have listed : name.text ∈ keys := (texts _).mpr ⟨name, named, rfl⟩
  by_cases reads : FullName.read name.text = .ok name
  · exact Or.inl (ReadsAlone.count_order (apart name named) scheduled named reads)
  · refine Or.inr ⟨?_, ?_⟩
    · exact fun member => reads ((mem_order_iff scheduled named).mp member)
    · rw [badKeys, List.mem_filter, Option.isNone_iff_eq_none]
      refine ⟨listed, ?_⟩
      cases found : (ofTree tree).termOfKey? name.text with
      | none => rfl
      | some other =>
          have term := termOfKey?_eq_some.mp found
          rw [apart other term.2 name named term.1] at reads
          exact absurd (FullName.read_text_of_read term.1) reads

theorem textsApart_of_scheduledOnce (scheduled : (ofTree tree).schedule = .ok schedule)
    (once : ∀ name ∈ (ofTree tree).names, ScheduledOnce schedule name) :
    (ofTree tree).TextsApart := by
  rcases exists_keys scheduled with ⟨keys, _, nodup, texts, order, badKeys⟩
  intro name named other otherNamed reading
  have reads : FullName.read name.text = .ok name := FullName.read_text_of_read reading
  have own : (ofTree tree).termOfKey? name.text = some name :=
    termOfKey?_eq_some.mpr ⟨reads, named⟩
  have term : (ofTree tree).termOfKey? other.text = some name :=
    termOfKey?_eq_some.mpr ⟨reading, named⟩
  have listed : name.text ∈ keys := (texts _).mpr ⟨name, named, rfl⟩
  have otherListed : other.text ∈ keys := (texts _).mpr ⟨other, otherNamed, rfl⟩
  -- Both texts give `name`, which is listed once, so they are the same text.
  have sameText : other.text = name.text := by
    rcases once name named with one | ⟨absent, _⟩
    · rw [order, List.count_filterMap] at one
      exact Table.eq_of_countP_eq_one one otherListed listed (by simp [term]) (by simp [own])
    · rw [order] at absent
      exact absurd (List.mem_filterMap.mpr ⟨_, listed, own⟩) absent
  -- That text is no bad key, so `other` is listed as well and reads back from it.
  have otherMember : other ∈ schedule.order := by
    rcases once other otherNamed with one | ⟨_, bad⟩
    · exact List.count_pos_iff.mp (by omega)
    · rw [badKeys, List.mem_filter] at bad
      simp [term] at bad
  rw [order] at otherMember
  rcases List.mem_filterMap.mp otherMember with ⟨key, _, gives⟩
  have otherReads := FullName.read_text_of_read (termOfKey?_eq_some.mp gives).1
  exact Except.ok.inj (otherReads.symm.trans reading)

/-- A schedule holds nothing but terms, and it accounts for all of them exactly if
no text of a term reads back as another term. -/
theorem schedule_accounts_iff (scheduled : (ofTree tree).schedule = .ok schedule) :
    (∀ name ∈ schedule.order, name ∈ (ofTree tree).names) ∧
      ((∀ name ∈ (ofTree tree).names, ScheduledOnce schedule name) ↔
        (ofTree tree).TextsApart) :=
  ⟨fun _ listed => mem_names_of_mem_order scheduled listed,
    textsApart_of_scheduledOnce scheduled,
    fun apart _ named => scheduledOnce_of_textsApart scheduled apart named⟩

theorem schedule_accounts_iff_sampleTree :
    (∀ name ∈ sampleSchedule.order, name ∈ (ofTree sampleTree).names) ∧
      ∀ name ∈ (ofTree sampleTree).names, ScheduledOnce sampleSchedule name :=
  ⟨(schedule_accounts_iff schedule_sampleTree).1,
    (schedule_accounts_iff schedule_sampleTree).2.mpr (by decide +kernel)⟩

/-- A resource of the type `.local` has the text `.local.x`, which reads back as the
local `x`. -/
theorem exists_schedule_twice : ∃ tree schedule,
    ModuleTree.ofText "locals \x7b x = 1 \x7d\nresource \".local\" \"x\" \x7b v = 1 \x7d\n" =
      .ok tree ∧ (ofTree tree).schedule = .ok schedule ∧
    ∃ name ∈ (ofTree tree).names, ¬ScheduledOnce schedule name := by
  rcases ModuleTree.exists_ofText
      "locals \x7b x = 1 \x7d\nresource \".local\" \"x\" \x7b v = 1 \x7d\n"
      (fun tree => (ofTree tree).schedule.toOption.any fun schedule =>
        (ofTree tree).names.any fun name => !ScheduledOnce schedule name)
      (by decide +kernel) with ⟨tree, loaded, checked⟩
  cases scheduled : (ofTree tree).schedule with
  | error => simp [scheduled, Except.toOption] at checked
  | ok schedule =>
      refine ⟨tree, schedule, loaded, scheduled, ?_⟩
      simpa [scheduled, Except.toOption] using checked

end Groundplan.Analysis
