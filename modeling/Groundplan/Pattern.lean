import Groundplan.Text.Case
/-!
Search patterns over texts. A pattern is turned into numbered steps, and a
search keeps the threads that are still alive in order of preference, so every
character of the text is looked at once for each step. The match is the
leftmost one, and of those the one that the pattern prefers.
-/

namespace Groundplan

inductive PatternPlace where
  | textStart
  | textEnd
  | lineStart
  | lineEnd
  | wordBoundary
  | noWordBoundary
deriving DecidableEq

inductive Pattern where
  | nothing
  | one (accepts : Char → Bool)
  | place (condition : PatternPlace)
  | sequence (first second : Pattern)
  | either (first second : Pattern)
  /-- From `least` up to `most` times; the greedy form prefers more times. -/
  | times (inner : Pattern) (least : Nat) (most : Option Nat) (greedy : Bool)
  /-- A numbered group whose match can be referred to. -/
  | group (number : Nat) (inner : Pattern)

namespace PatternPlace

private def isWord (c : Option Char) : Bool := (c.map Text.isWordPart).getD false

/-- Whether the condition holds between two characters, which are absent at the
ends of the text. -/
def holds (condition : PatternPlace) (before after : Option Char) : Bool :=
  match condition with
  | textStart => before.isNone
  | textEnd => after.isNone
  | lineStart => before.isNone || before == some '\n'
  | lineEnd => after.isNone || after == some '\n'
  | wordBoundary => isWord before != isWord after
  | noWordBoundary => isWord before == isWord after

end PatternPlace

namespace Pattern

/-! ## Steps -/

/-- One step of a compiled pattern, with the step after it. -/
inductive Step where
  | one (accepts : Char → Bool) (next : Nat)
  | place (condition : PatternPlace) (next : Nat)
  /-- Try the first way, and the second one if that leads nowhere. -/
  | branch (first second : Nat)
  /-- Note the position in a slot. -/
  | note (slot next : Nat)
  | accept

private def push (step : Step) (steps : Array Step) : Array Step × Nat :=
  (steps.push step, steps.size)

private def branchTo (greedy : Bool) (onward away : Nat) : Step :=
  if greedy then .branch onward away else .branch away onward

private def repeatTimes (change : α → α) : Nat → α → α
  | 0, value => value
  | count + 1, value => repeatTimes change count (change value)

/-- Add the steps of a pattern that go on with step `next`; returns the first of
them. -/
def compile : Pattern → Array Step × Nat → Array Step × Nat
  | nothing, (steps, next) => (steps, next)
  | one accepts, (steps, next) => push (.one accepts next) steps
  | place condition, (steps, next) => push (.place condition next) steps
  | sequence first second, after => compile first (compile second after)
  | either first second, (steps, next) =>
      let (steps, left) := compile first (steps, next)
      let (steps, right) := compile second (steps, next)
      push (.branch left right) steps
  | group number inner, (steps, next) =>
      let (steps, ending) := push (.note (2 * number + 1) next) steps
      let (steps, start) := compile inner (steps, ending)
      push (.note (2 * number) start) steps
  | times inner least most greedy, (steps, next) =>
      let tail :=
        match most with
        | none =>
            let loop := steps.size
            let (steps, start) := compile inner (steps.push .accept, loop)
            (steps.set! loop (branchTo greedy start next), loop)
        | some limit =>
            repeatTimes
              (fun (after : Array Step × Nat) =>
                let (steps, start) := compile inner after
                push (branchTo greedy start next) steps)
              (limit - least) (steps, next)
      repeatTimes (compile inner) least tail

structure Program where
  steps : Array Step
  start : Nat

/-- The whole match is group zero. -/
def program (pattern : Pattern) : Program :=
  let (steps, start) := compile (.group 0 pattern) (#[.accept], 0)
  ⟨steps, start⟩

/-! ## Search -/

/-- Positions by slot, the latest note first. -/
abbrev Slots := List (Nat × Nat)

/-- Threads in order of preference, and the steps that were already reached. -/
structure Threads where
  reached : List Nat
  alive : List (Step × Slots)

namespace Program

/-- Follow the steps that take no character. `fuel` bounds the number of steps
in a row, which cannot exceed the number of all steps because none is entered
twice. -/
private def enter (program : Program) (before after : Option Char) (position : Nat) :
    Nat → Nat → Slots → Threads → Threads
  | 0, _, _, threads => threads
  | fuel + 1, index, slots, threads =>
      if threads.reached.contains index then threads
      else
        let threads := { threads with reached := index :: threads.reached }
        match program.steps[index]? with
        | none => threads
        | some (.branch first second) =>
            enter program before after position fuel second slots
              (enter program before after position fuel first slots threads)
        | some (.note slot next) =>
            enter program before after position fuel next ((slot, position) :: slots) threads
        | some (.place condition next) =>
            if condition.holds before after then
              enter program before after position fuel next slots threads
            else threads
        | some step => { threads with alive := (step, slots) :: threads.alive }

private def begin (program : Program) (before after : Option Char) (position : Nat)
    (threads : Threads) : Threads :=
  enter program before after position (program.steps.size + 1) program.start [] threads

/-- Let every thread take the character `c`. A thread that accepts ends all
threads it is preferred to, and its slots are returned. -/
private def advance (program : Program) (c : Char) (after : Option Char) (position : Nat) :
    List (Step × Slots) → Threads → Threads × Option Slots
  | [], next => (next, none)
  | (.accept, slots) :: _, next => (next, some slots)
  | (.one accepts target, slots) :: rest, next =>
      advance program c after position rest
        (if accepts c then
          enter program (some c) after position (program.steps.size + 1) target slots next
        else next)
  | _ :: rest, next => advance program c after position rest next

private def accepted? (threads : List (Step × Slots)) : Option Slots :=
  threads.findSome? fun thread =>
    match thread with
    | (.accept, slots) => some slots
    | _ => none

/-- Run the threads over the rest of the text. New threads start as long as
nothing has matched. -/
private def searchIn (program : Program) (before : Option Char) (position : Nat)
    (threads : Threads) (found : Option Slots) : List Char → Option Slots
  | [] =>
      let threads :=
        if found.isSome then threads else program.begin before none position threads
      (accepted? threads.alive.reverse).orElse fun _ => found
  | c :: rest =>
      let threads :=
        if found.isSome then threads else program.begin before (some c) position threads
      let (next, accepted) :=
        advance program c rest.head? (position + 1) threads.alive.reverse ⟨[], []⟩
      searchIn program (some c) (position + 1) next (accepted.orElse fun _ => found) rest

/-- The slots of the first match in `text`, which starts at `position`. -/
def search (program : Program) (before : Option Char) (position : Nat) (text : List Char) :
    Option Slots :=
  searchIn program before position ⟨[], []⟩ none text

end Program

/-! ## Matches -/

/-- The ends of a group in a match, if it took part. -/
def span? (slots : Slots) (group : Nat) : Option (Nat × Nat) := do
  return (← slots.lookup (2 * group), ← slots.lookup (2 * group + 1))

/-- The matches in a text from `position` on, without overlaps. An empty match
right behind the match before it does not count. -/
private def matchesFrom (program : Program) (text : List Char) :
    Nat → Nat → Option Nat → List Slots
  | 0, _, _ => []
  | fuel + 1, position, lastEnd =>
      if position > text.length then []
      else
        let before := if position = 0 then none else text[position - 1]?
        match program.search before position (text.drop position) with
        | none => []
        | some slots =>
            let (first, last) := (span? slots 0).getD (position, position)
            if first = last && lastEnd == some last then
              matchesFrom program text fuel (last + 1) lastEnd
            else slots :: matchesFrom program text fuel last (some last)

def allMatches (pattern : Pattern) (text : List Char) : List Slots :=
  matchesFrom pattern.program text (2 * text.length + 3) 0 none

end Pattern

end Groundplan
