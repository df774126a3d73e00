import Groundplan.Function
/-!
Functions over numbers. They all compute with binary fractions.
-/

namespace Groundplan.Function

/-- The arguments that are numbers, as binary fractions. -/
def binaries (arguments : List Datum) : List Binary64 :=
  arguments.filterMap fun argument => (argument.asNumber?).map Number.toBinary

def finiteResult (value : Binary64) : Except CallError Datum :=
  if value.isFinite then .ok (.number (.ofBinary value)) else .error (.notFinite value)

/-- A binary fraction as a result. A whole one below `2 ^ 63` in size is taken
for an integer at once. -/
def numberResult (value : Binary64) : Except CallError Datum :=
  match value.toInt? with
  | some whole =>
      if whole.natAbs < signedLimit then .ok (.number (.integer whole)) else finiteResult value
  | none => finiteResult value

def ofBinary (change : Binary64 → Binary64) : Function where
  parameters := [.number]
  further := none
  run := fun arguments => numberResult (change ((binaries arguments).headD .zero))

/-- A function of one number or more, which are taken one after the other. -/
def ofAll (start : Binary64) (pick : Binary64 → Binary64 → Binary64) : Function where
  parameters := [.number]
  further := some .number
  run := fun arguments => numberResult ((binaries arguments).foldl pick start)

def least : Function := ofAll (.infinite false) Binary64.least

def greatest : Function := ofAll (.infinite true) Binary64.greatest

def absolute : Function := ofBinary Binary64.abs

def ceiling : Function := ofBinary Binary64.ceil

def floor : Function := ofBinary Binary64.floor

end Groundplan.Function
