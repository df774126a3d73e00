import Groundplan.Function.Text
import Groundplan.Proofs.Calls
import Groundplan.Proofs.Conversions
import Mathlib.Data.List.Forall2
/-!
Formats. A format is made of letters, doubled percent signs and verbs, and each verb takes the next
argument. A format is filled exactly if it can be taken apart so and its verbs meet arguments that
they take; but of the integers a whole number has to be one that a signed word holds.
-/

namespace Groundplan.Function

/-! ## Texts of data -/

/-- The text of a simple datum within another text. -/
inductive Shows : Datum → String → Prop where
  | null : Shows .null ""
  | bool (value : Bool) : Shows (.bool value) (if value then "true" else "false")
  | number (value : Number) : Shows (.number value) value.text
  | string (value : String) : Shows (.string value) value

theorem plainText_eq_ok_iff {datum : Datum} {text : String} :
    plainText datum = .ok text ↔ Shows datum text := by
  constructor
  · intro shown
    cases datum <;> cases shown <;> constructor
  · intro shown
    cases shown <;> rfl

/-! ## Parts -/

/-- What stands for an argument: `%s`, `%d` or `%v`. -/
inductive Verb where
  | text
  | whole
  | value
deriving DecidableEq

namespace Verb

def letter : Verb → Char
  | text => 's'
  | whole => 'd'
  | value => 'v'

/-- Whether an argument is of the form that a verb wants. -/
def Takes : Verb → Datum → Prop
  | whole, datum => ∃ integer : Int, datum = .number (.integer integer)
  | _, datum => ∃ text, Shows datum text

end Verb

inductive FormatPart where
  | letter (c : Char) (plain : c ≠ '%')
  | percent
  | verb (kind : Verb)

namespace FormatPart

def chars : FormatPart → List Char
  | letter c _ => [c]
  | percent => ['%', '%']
  | verb kind => ['%', kind.letter]

def verb? : FormatPart → Option Verb
  | verb kind => some kind
  | _ => none

/-- The parts with a percent sign for each doubled one and the texts for the verbs, in order. -/
def fill : List FormatPart → List String → List Char
  | [], _ => []
  | letter c _ :: parts, texts => c :: fill parts texts
  | percent :: parts, texts => '%' :: fill parts texts
  | verb _ :: parts, texts => (texts.headD "").toList ++ fill parts texts.tail

def verbs (parts : List FormatPart) : List Verb := parts.filterMap verb?

/-- The integers that are met by verbs for whole numbers. -/
def wholes (parts : List FormatPart) (values : List Datum) : List Int :=
  ((verbs parts).zip values).filterMap fun met =>
    match met with
    | (.whole, .number (.integer integer)) => some integer
    | _ => none

/-- Whether a format is made of these parts, and its verbs meet arguments that they take and that
have these texts. -/
structure Fits (format : List Char) (values : List Datum) (parts : List FormatPart)
    (texts : List String) : Prop where
  reads : format = parts.flatMap chars
  enough : (verbs parts).length ≤ values.length
  takes : ∀ met ∈ (verbs parts).zip values, met.1.Takes met.2
  shown : List.Forall₂ Shows (values.take (verbs parts).length) texts

section Fits

variable {rest : List Char} {value : Datum} {values : List Datum} {parts : List FormatPart}
  {text : String} {texts : List String}

theorem fits_nil (values : List Datum) : Fits [] values [] [] :=
  ⟨rfl, Nat.zero_le _, nofun, .nil⟩

theorem Fits.letter (fits : Fits rest values parts texts) {c : Char} (plain : c ≠ '%') :
    Fits (c :: rest) values (.letter c plain :: parts) texts :=
  ⟨congrArg (c :: ·) fits.reads, fits.enough, fits.takes, fits.shown⟩

theorem Fits.percent (fits : Fits rest values parts texts) :
    Fits ('%' :: '%' :: rest) values (.percent :: parts) texts :=
  ⟨congrArg ('%' :: '%' :: ·) fits.reads, fits.enough, fits.takes, fits.shown⟩

theorem Fits.verb (fits : Fits rest values parts texts) {kind : Verb} (takes : kind.Takes value)
    (shown : Shows value text) :
    Fits ('%' :: kind.letter :: rest) (value :: values) (.verb kind :: parts) (text :: texts) where
  reads := congrArg ('%' :: kind.letter :: ·) fits.reads
  enough := Nat.succ_le_succ fits.enough
  takes := List.forall_mem_cons.mpr ⟨takes, fits.takes⟩
  shown := .cons shown fits.shown

end Fits

end FormatPart

/-! ## Filling -/

section Filling

open FormatPart

variable {format : List Char} {values : List Datum} {parts : List FormatPart} {texts : List String}

theorem fillVerbs_letter {c : Char} (plain : c ≠ '%') (rest : List Char) (values : List Datum) :
    fillVerbs (c :: rest) values = (do return c :: (← fillVerbs rest values)) := by
  rw [fillVerbs]
  · intro same
    exact absurd same plain
  · intro verb others same
    exact absurd same plain

theorem fillVerbs_percent (rest : List Char) (values : List Datum) :
    fillVerbs ('%' :: '%' :: rest) values = (do return '%' :: (← fillVerbs rest values)) := rfl

theorem fillVerbs_verb (kind : Verb) {value : Datum} {text : String} (shown : Shows value text)
    (rest : List Char) (values : List Datum) :
    fillVerbs ('%' :: kind.letter :: rest) (value :: values) =
      if kind = .whole ∧ (value.asNumber?.bind Number.asSigned?).isNone then
        .error (.notWhole value)
      else do return text.toList ++ (← fillVerbs rest values) := by
  have plain := plainText_eq_ok_iff.mpr shown
  cases kind <;> simp [fillVerbs, Verb.letter, plain] <;> rfl

/-- What filling a format comes to: the first integer that no signed word holds is refused. -/
def outcome (parts : List FormatPart) (values : List Datum) (texts : List String) :
    Except CallError (List Char) :=
  match (wholes parts values).find? fun integer => (signedLimit : Int) ≤ integer with
  | none => .ok (fill parts texts)
  | some first => .error (.notWhole (.number (.integer first)))

/-- A part that meets no integer, or a small one, adds its characters to the outcome. -/
theorem outcome_cons {part : FormatPart} (added : List Char) {others : List Datum}
    {more : List String} (fills : fill (part :: parts) texts = added ++ fill parts more)
    (wholes_eq : (wholes (part :: parts) values).find? (fun integer =>
      (signedLimit : Int) ≤ integer) = (wholes parts others).find? fun integer =>
      (signedLimit : Int) ≤ integer) :
    outcome (part :: parts) values texts = (do return added ++ (← outcome parts others more)) := by
  rw [outcome, outcome, wholes_eq, fills]
  cases (wholes parts others).find? fun integer => (signedLimit : Int) ≤ integer <;> rfl

theorem fillVerbs_verb_eq_outcome {kind : Verb} {value : Datum} {text : String}
    {rest : List Char} {others : List Datum} {more : List String} (takes : kind.Takes value)
    (shown : Shows value text) (below : fillVerbs rest others = outcome parts others more) :
    fillVerbs ('%' :: kind.letter :: rest) (value :: others) =
      outcome (.verb kind :: parts) (value :: others) (text :: more) := by
  rw [fillVerbs_verb kind shown, below]
  cases kind with
  | text | value =>
      rw [if_neg (by simp)]
      exact (outcome_cons text.toList rfl rfl).symm
  | whole =>
      rcases takes with ⟨integer, rfl⟩
      rw [Datum.asNumber?, Option.bind_some, Number.asSigned?]
      by_cases small : integer < signedLimit
      · rw [if_pos small, if_neg (by simp)]
        refine (outcome_cons text.toList rfl ?_).symm
        exact List.find?_cons_of_neg (by simpa using small)
      · have found : (wholes (.verb .whole :: parts) (.number (.integer integer) :: others)).find?
            (fun integer => (signedLimit : Int) ≤ integer) = some integer :=
          List.find?_cons_of_pos (by simpa using small)
        rw [if_neg small, if_pos ⟨rfl, rfl⟩, outcome, found]

theorem fillVerbs_of_fits (fits : Fits format values parts texts) :
    fillVerbs format values = outcome parts values texts := by
  rcases fits with ⟨rfl, enough, takes, shown⟩
  induction parts generalizing values texts with
  | nil => rfl
  | cons part parts induction =>
      cases part with
      | letter c plain =>
          rw [outcome_cons [c] rfl rfl, ← induction enough takes shown]
          exact fillVerbs_letter plain _ values
      | percent =>
          rw [outcome_cons ['%'] rfl rfl, ← induction enough takes shown]
          exact fillVerbs_percent _ values
      | verb kind =>
          cases values with
          | nil => cases enough
          | cons value others =>
              cases shown with
              | cons first shown =>
                  have takes := List.forall_mem_cons.mp takes
                  exact fillVerbs_verb_eq_outcome takes.1 first
                    (induction (Nat.le_of_succ_le_succ enough) takes.2 shown)

theorem exists_letter_eq {c : Char}
    (isVerb : (decide (c = 's') || decide (c = 'd') || decide (c = 'v')) = true) :
    ∃ kind : Verb, kind.letter = c := by
  simp only [Bool.or_eq_true, decide_eq_true_eq, or_assoc] at isVerb
  rcases isVerb with rfl | rfl | rfl
  · exact ⟨.text, rfl⟩
  · exact ⟨.whole, rfl⟩
  · exact ⟨.value, rfl⟩

/-- A verb takes an argument that is not refused and has a text. -/
theorem takes_of_shows {kind : Verb} {value : Datum} {text : String} (shown : Shows value text)
    (whole : kind = .whole → (value.asNumber?.bind Number.asSigned?).isSome) :
    kind.Takes value := by
  cases kind with
  | text | value => exact ⟨text, shown⟩
  | whole =>
      have signed := whole rfl
      cases value with
      | number number =>
          cases number with
          | integer integer => exact ⟨integer, rfl⟩
          | binary => cases signed
      | _ => cases signed

/-- A format that is filled is made of parts, and its verbs meet what they take. -/
theorem exists_fits {filled : List Char} (run : fillVerbs format values = .ok filled) :
    ∃ parts texts, Fits format values parts texts := by
  fun_induction fillVerbs format values generalizing filled with
  | case1 values => exact ⟨_, _, fits_nil values⟩
  | case3 rest values induction =>
      cases below : fillVerbs rest values with
      | error => rw [below] at run; cases run
      | ok filled =>
          rcases induction below with ⟨parts, texts, fits⟩
          exact ⟨_, _, fits.percent⟩
  | case6 c rest _ isVerb value values signed induction =>
      rcases exists_letter_eq isVerb with ⟨kind, rfl⟩
      cases plain : plainText value with
      | error => rw [plain] at run; cases run
      | ok text =>
          cases below : fillVerbs rest values with
          | error => rw [plain, below] at run; cases run
          | ok filled =>
              rcases induction below with ⟨parts, texts, fits⟩
              have shown := plainText_eq_ok_iff.mp plain
              refine ⟨_, _, fits.verb (takes_of_shows shown fun whole => ?_) shown⟩
              simpa [whole, Verb.letter, Option.isSome_iff_ne_none] using signed
  | case8 c rest values single several induction =>
      have plain : c ≠ '%' := by
        intro same
        cases rest with
        | nil => exact single same rfl
        | cons verb rest => exact several verb rest same rfl
      cases below : fillVerbs rest values with
      | error => rw [below] at run; cases run
      | ok filled =>
          rcases induction below with ⟨parts, texts, fits⟩
          exact ⟨_, _, fits.letter plain⟩
  -- everywhere else the format or an argument is refused
  | _ => cases run

end Filling

/-! ## Calls -/

open FormatPart

theorem call_format (spec : String) (values : List Datum) :
    format.call (.string spec :: values) =
      (fillVerbs spec.toList values).map fun filled => .string (String.ofList filled) := by
  have run : format.call (.string spec :: values) = format.run (.string spec :: values) :=
    call_eq_run (Nat.succ_le_succ (Nat.zero_le _)) (by simp [format])
      (check_further rfl 1 fun _ _ => rfl)
  rw [run]
  change (do return Datum.string (String.ofList (← fillVerbs spec.toList values))) = _
  cases fillVerbs spec.toList values <;> rfl

theorem outcome_eq_ok_iff {parts : List FormatPart} {values : List Datum} {texts : List String}
    {filled : List Char} : outcome parts values texts = .ok filled ↔
      (∀ integer ∈ wholes parts values, integer < signedLimit) ∧ filled = fill parts texts := by
  rw [outcome]
  split
  · next none =>
      rw [List.find?_eq_none] at none
      rw [Except.ok.injEq, eq_comm, iff_and_self]
      intro _ integer member
      simpa using none integer member
  · next first found =>
      refine iff_of_false nofun fun small => ?_
      have great := List.find?_some found
      exact absurd (small.1 first (List.mem_of_find?_eq_some found)) (by simpa using great)

/-- A format is filled exactly if it is made of letters, doubled percent signs and verbs that meet
arguments they take, and the integers among those for whole numbers are below `2 ^ 63`; the first
that is not is refused. -/
theorem format_filled_iff (spec : String) (values : List Datum) :
    (∀ result, format.call (.string spec :: values) = .ok result ↔
      ∃ parts texts, Fits spec.toList values parts texts ∧
        (∀ integer ∈ wholes parts values, integer < signedLimit) ∧
        result = .string (String.ofList (fill parts texts))) ∧
    ∀ parts texts great, Fits spec.toList values parts texts →
      (wholes parts values).find? (fun integer => (signedLimit : Int) ≤ integer) = some great →
      format.call (.string spec :: values) = .error (.notWhole (.number (.integer great))) := by
  rw [call_format]
  refine ⟨fun result => ?_, ?_⟩
  · constructor
    · intro run
      cases filling : fillVerbs spec.toList values with
      | error => rw [filling] at run; cases run
      | ok filled =>
          rw [filling] at run
          cases run
          rcases exists_fits filling with ⟨parts, texts, fits⟩
          have filled := outcome_eq_ok_iff.mp ((fillVerbs_of_fits fits).symm.trans filling)
          exact ⟨parts, texts, fits, filled.1, by rw [filled.2]⟩
    · rintro ⟨parts, texts, fits, small, rfl⟩
      rw [fillVerbs_of_fits fits, outcome_eq_ok_iff.mpr ⟨small, rfl⟩]
      rfl
  · intro parts texts great fits found
    rw [fillVerbs_of_fits fits, outcome, found]
    rfl

def percentage : List FormatPart :=
  [.verb .text, .letter '-' (by decide), .verb .whole, .percent]

theorem fits_percentage (integer : Int) :
    Fits "%s-%d%%".toList [.string "cpu", .number (.integer integer), .list []] percentage
      ["cpu", toString integer] := by
  have whole : Verb.whole.Takes (.number (.integer integer)) := ⟨integer, rfl⟩
  have text : Verb.text.Takes (.string "cpu") := ⟨"cpu", .string "cpu"⟩
  have load := (fits_nil [.list []]).percent.verb whole (.number (.integer integer))
  exact (load.letter (by decide : '-' ≠ '%')).verb text (.string "cpu")

/-- Two verbs, a doubled percent sign and an argument too many. -/
theorem format_filled_iff_percentage :
    format.call [.string "%s-%d%%", .string "cpu", .number (.integer 80), .list []] =
      .ok (.string "cpu-80%") ∧
    format.call [.string "%s-%d%%", .string "cpu", .number (.integer signedLimit), .list []] =
      .error (.notWhole (.number (.integer signedLimit))) := by
  constructor
  · exact ((format_filled_iff _ _).1 _).mpr ⟨_, _, fits_percentage 80, by decide, rfl⟩
  · exact (format_filled_iff _ _).2 _ _ _ (fits_percentage signedLimit) rfl

/-- An integer that the numbers hold is not taken for a whole number. -/
theorem exists_whole_refused : ∃ (spec : String) (integer : Int) (parts : List FormatPart)
    (texts : List String), (Number.integer integer).IsHeld ∧
      Fits spec.toList [.number (.integer integer)] parts texts ∧
      format.call [.string spec, .number (.integer integer)] =
        .error (.notWhole (.number (.integer integer))) := by
  have whole : Verb.whole.Takes (.number (.integer 9223372036854775808)) := ⟨_, rfl⟩
  have fits := (fits_nil []).verb whole (.number (.integer 9223372036854775808))
  exact ⟨"%d", 9223372036854775808, _, _, .integer (by decide) (by decide), fits, rfl⟩

end Groundplan.Function
