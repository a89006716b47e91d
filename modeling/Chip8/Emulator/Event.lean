import Chip8.Machine.Step

/-!
# Events

An event tells a host why a step or a run came back, and what the last step did.
-/

namespace Chip8

inductive RunReason
  /-- It was one step. -/
  | step
  /-- All steps that were asked for have been made. -/
  | maxSteps
  | awaitingKey
  deriving DecidableEq, Repr

structure StepEvent where
  reason : Option RunReason
  outcome : Option Outcome := none
  /-- Where the last instruction stood. -/
  address : Option Int := none
  /-- The word of the last instruction. -/
  word : Option Int := none
  steps : Int := 0
  message : String := ""
  deriving DecidableEq, Repr

/-- The text of an event: its message, or else a sentence on why control came back. -/
def StepEvent.text (e : StepEvent) : String :=
  if e.message ≠ "" then e.message
  else
    match e.reason with
    | some .step =>
      match e.address, e.word with
      | some address, some word =>
        "Step at " ++ Hex.address address ++ " (" ++ Hex.padded 4 word ++ ")"
      | _, _ => "Single step"
    | some .maxSteps => "Executed " ++ toString e.steps ++ " steps"
    | some .awaitingKey => "Waiting for key press"
    | none => "Unknown"

end Chip8
