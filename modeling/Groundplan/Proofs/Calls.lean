import Groundplan.Function
/-!
Calls of functions. A function runs on the arguments that its call gives it once they are counted
and checked.
-/

namespace Groundplan.Function

/-- A call with as many arguments as it takes, of the kinds it takes, runs the function. -/
theorem call_eq_run {function : Function} {arguments : List Datum}
    (enough : function.parameters.length ≤ arguments.length)
    (few : function.further = none → arguments.length ≤ function.parameters.length)
    (accepted : function.check 0 function.parameters arguments = .ok ()) :
    function.call arguments = function.run arguments := by
  have count : ¬((arguments.length < function.parameters.length ||
      (function.further.isNone && function.parameters.length < arguments.length)) = true) := by
    simp only [Bool.or_eq_true, decide_eq_true_eq, Bool.and_eq_true, Option.isNone_iff_eq_none]
    rintro (short | ⟨none, long⟩)
    · omega
    · exact absurd (few none) (by omega)
  rw [call]
  simp only [accepted]
  rw [if_neg count]
  rfl

theorem check_further {function : Function} {kind : ParameterKind}
    (further : function.further = some kind) (position : Nat) {arguments : List Datum}
    (accepted : ∀ argument ∈ arguments, kind.accepts argument = true) :
    function.check position [] arguments = .ok () := by
  induction arguments generalizing position with
  | nil => rfl
  | cons first rest induction =>
      have parts := List.forall_mem_cons.mp accepted
      rw [check, further]
      dsimp only
      rw [if_pos parts.1]
      exact induction (position + 1) parts.2

theorem wholeArgument_of_lt {arguments : List Datum} {position : Nat} {value : Int}
    (same : argument arguments position = .number (.integer value)) (small : value < signedLimit) :
    wholeArgument arguments position = .ok value := by
  have signed : (Number.integer value).asSigned? = some value := if_pos small
  rw [wholeArgument, same, Datum.asNumber?, Option.bind_some, signed]

end Groundplan.Function
