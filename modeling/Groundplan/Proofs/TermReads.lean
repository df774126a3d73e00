import Groundplan.Proofs.Reads
import Groundplan.Term
/-!
What a term reads: its dependencies, and besides them only variables that the term or a
term nested in it binds.
-/

namespace Groundplan

/-! ## Terms -/

namespace Term

mutual

/-- All references of a term, those to variables that it binds itself included. -/
def reads : Term → List Reference
  | ⟨body, count, forEach, _, _⟩ =>
      optionalReferences count ++ optionalReferences forEach ++ bodyReads body

def bodyReads : TermBody Term → List Reference
  | .expression expression => expression.references
  | .value _ => []
  | .block settings blocks =>
      settings.flatMap (fun setting => setting.2.references) ++ blockReads blocks

def blockReads : List (String × List Term) → List Reference
  | [] => []
  | (_, terms) :: rest => termReads terms ++ blockReads rest

def termReads : List Term → List Reference
  | [] => []
  | term :: rest => reads term ++ termReads rest

end

mutual

/-- The names of the iteration variables of a term and of the terms nested in it. -/
def iterators : Term → List String
  | ⟨body, _, _, iterator, _⟩ => iterator.toList ++ bodyIterators body

def bodyIterators : TermBody Term → List String
  | .expression _ => []
  | .value _ => []
  | .block _ blocks => blockIterators blocks

def blockIterators : List (String × List Term) → List String
  | [] => []
  | (_, terms) :: rest => termIterators terms ++ blockIterators rest

def termIterators : List Term → List String
  | [] => []
  | term :: rest => iterators term ++ termIterators rest

end

/-- The names that terms can bind for the terms in them. -/
def IsBound (iterators : List String) (name : String) : Prop :=
  name = "count" ∨ name = "each" ∨ name ∈ iterators

theorem isBound_of_binds {term : Term} {name : String} (binds : term.binds name = true) :
    IsBound term.iterator.toList name := by
  simp only [Term.binds, Bool.or_eq_true, Bool.and_eq_true, beq_iff_eq] at binds
  rcases binds with ⟨_, same⟩ | ⟨_, same⟩
  · exact Or.inl same
  · rw [iteratorName] at same
    cases given : term.iterator with
    | none => exact Or.inr (Or.inl (by simpa [given] using same))
    | some iterator => exact Or.inr (Or.inr (by simpa [given] using same))

theorem IsBound.mono {fewer more : List String} (subset : ∀ name ∈ fewer, name ∈ more)
    {name : String} (isBound : IsBound fewer name) : IsBound more name := by
  rcases isBound with same | same | member
  · exact Or.inl same
  · exact Or.inr (Or.inl same)
  · exact Or.inr (Or.inr (subset name member))

mutual

/-- What a term reads is a dependency of it, or a variable that it or a term in it
binds. -/
theorem mem_reads {reference : Reference} : (term : Term) → reference ∈ term.reads →
    reference ∈ term.dependencies ∨ IsBound term.iterators reference.root
  | ⟨body, count, forEach, iterator, firstOnly⟩, member => by
      simp only [reads, List.mem_append] at member
      simp only [dependencies, List.mem_append, List.mem_filter, iterators]
      rcases member with (member | member) | member
      · exact Or.inl (Or.inl (Or.inl member))
      · exact Or.inl (Or.inl (Or.inr member))
      · rcases mem_bodyReads body member with member | isBound
        · cases binds : Term.binds ⟨body, count, forEach, iterator, firstOnly⟩ reference.root with
          | false => exact Or.inl (Or.inr ⟨member, by rw [Bool.not_false]⟩)
          | true =>
              exact Or.inr ((isBound_of_binds binds).mono fun name listed =>
                List.mem_append_left _ listed)
        · exact Or.inr (isBound.mono fun name listed => List.mem_append_right _ listed)

theorem mem_bodyReads {reference : Reference} : (body : TermBody Term) →
    reference ∈ bodyReads body →
    reference ∈ bodyReferences body ∨ IsBound (bodyIterators body) reference.root
  | .expression _, member => Or.inl member
  | .value _, member => by cases member
  | .block settings blocks, member => by
      simp only [bodyReads, List.mem_append] at member
      simp only [bodyReferences, List.mem_append, bodyIterators]
      rcases member with member | member
      · exact Or.inl (Or.inl member)
      · rcases mem_blockReads blocks member with member | isBound
        · exact Or.inl (Or.inr member)
        · exact Or.inr isBound

theorem mem_blockReads {reference : Reference} : (blocks : List (String × List Term)) →
    reference ∈ blockReads blocks →
    reference ∈ blockDependencies blocks ∨ IsBound (blockIterators blocks) reference.root
  | [], member => by cases member
  | (_, terms) :: rest, member => by
      simp only [blockReads, List.mem_append] at member
      simp only [blockDependencies, List.mem_append, blockIterators]
      rcases member with member | member
      · rcases mem_termReads terms member with member | isBound
        · exact Or.inl (Or.inl member)
        · exact Or.inr (isBound.mono fun name listed => List.mem_append_left _ listed)
      · rcases mem_blockReads rest member with member | isBound
        · exact Or.inl (Or.inr member)
        · exact Or.inr (isBound.mono fun name listed => List.mem_append_right _ listed)

theorem mem_termReads {reference : Reference} : (terms : List Term) →
    reference ∈ termReads terms →
    reference ∈ termDependencies terms ∨ IsBound (termIterators terms) reference.root
  | [], member => by cases member
  | term :: rest, member => by
      simp only [termReads, List.mem_append] at member
      simp only [termDependencies, List.mem_append, termIterators]
      rcases member with member | member
      · rcases mem_reads term member with member | isBound
        · exact Or.inl (Or.inl member)
        · exact Or.inr (isBound.mono fun name listed => List.mem_append_left _ listed)
      · rcases mem_termReads rest member with member | isBound
        · exact Or.inl (Or.inr member)
        · exact Or.inr (isBound.mono fun name listed => List.mem_append_right _ listed)

end

mutual

theorem mem_reads_of_mem_dependencies {reference : Reference} : (term : Term) →
    reference ∈ term.dependencies → reference ∈ term.reads
  | ⟨body, count, forEach, iterator, firstOnly⟩, member => by
      simp only [dependencies, List.mem_append, List.mem_filter] at member
      simp only [reads, List.mem_append]
      rcases member with member | ⟨member, _⟩
      · exact Or.inl member
      · exact Or.inr (mem_bodyReads_of_mem body member)

theorem mem_bodyReads_of_mem {reference : Reference} : (body : TermBody Term) →
    reference ∈ bodyReferences body → reference ∈ bodyReads body
  | .expression _, member => member
  | .value _, member => by cases member
  | .block settings blocks, member => by
      simp only [bodyReferences, List.mem_append] at member
      simp only [bodyReads, List.mem_append]
      exact member.imp id (mem_blockReads_of_mem blocks)

theorem mem_blockReads_of_mem {reference : Reference} : (blocks : List (String × List Term)) →
    reference ∈ blockDependencies blocks → reference ∈ blockReads blocks
  | [], member => by cases member
  | (_, terms) :: rest, member => by
      simp only [blockDependencies, List.mem_append] at member
      simp only [blockReads, List.mem_append]
      exact member.imp (mem_termReads_of_mem terms) (mem_blockReads_of_mem rest)

theorem mem_termReads_of_mem {reference : Reference} : (terms : List Term) →
    reference ∈ termDependencies terms → reference ∈ termReads terms
  | [], member => by cases member
  | term :: rest, member => by
      simp only [termDependencies, List.mem_append] at member
      simp only [termReads, List.mem_append]
      exact member.imp (mem_reads_of_mem_dependencies term) (mem_termReads_of_mem rest)

end

theorem rooted_of_mem_optional {expression : Option Expression} {reference : Reference}
    (member : reference ∈ optionalReferences expression) : reference.Rooted := by
  cases expression with
  | none => cases member
  | some expression => exact Expression.rooted_of_mem expression member

mutual

theorem rooted_of_mem_reads {reference : Reference} : (term : Term) →
    reference ∈ term.reads → reference.Rooted
  | ⟨body, count, forEach, _, _⟩, member => by
      simp only [reads, List.mem_append] at member
      rcases member with (member | member) | member
      · exact rooted_of_mem_optional member
      · exact rooted_of_mem_optional member
      · exact rooted_of_mem_bodyReads body member

theorem rooted_of_mem_bodyReads {reference : Reference} : (body : TermBody Term) →
    reference ∈ bodyReads body → reference.Rooted
  | .expression expression, member => Expression.rooted_of_mem expression member
  | .value _, member => by cases member
  | .block settings blocks, member => by
      simp only [bodyReads, List.mem_append] at member
      rcases member with member | member
      · rcases List.mem_flatMap.mp member with ⟨setting, _, listed⟩
        exact Expression.rooted_of_mem setting.2 listed
      · exact rooted_of_mem_blockReads blocks member

theorem rooted_of_mem_blockReads {reference : Reference} :
    (blocks : List (String × List Term)) → reference ∈ blockReads blocks → reference.Rooted
  | [], member => by cases member
  | (_, terms) :: rest, member => by
      simp only [blockReads, List.mem_append] at member
      rcases member with member | member
      · exact rooted_of_mem_termReads terms member
      · exact rooted_of_mem_blockReads rest member

theorem rooted_of_mem_termReads {reference : Reference} : (terms : List Term) →
    reference ∈ termReads terms → reference.Rooted
  | [], member => by cases member
  | term :: rest, member => by
      simp only [termReads, List.mem_append] at member
      rcases member with member | member
      · exact rooted_of_mem_reads term member
      · exact rooted_of_mem_termReads rest member

end

end Term

end Groundplan
