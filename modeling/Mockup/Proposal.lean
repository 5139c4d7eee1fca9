import Mockup.Markup.Feature
import Mockup.Plan.Mapping
import Mockup.Plan.Validity
import Mockup.Ui.Validity

/-!
# Proposals

An oracle may propose a tree for a mockup and a plan for a tree. A proposal comes after a delay
and may be a refusal. `Proposal.consult` waits no longer than a given time, `agreed` also checks
what came, and `BuildPlan.proposed` goes on without a proposal where none can be used.
-/

namespace Mockup

/-- Why no proposal can be used. -/
inductive NoProposal where
  /-- The oracle has none. -/
  | unavailable (reason : String)
  /-- What the oracle has is invalid. -/
  | invalid (reason : String)
  /-- The oracle took longer than this time in milliseconds. -/
  | late (timeout : Nat)
  deriving DecidableEq, Repr

/-- The digits of the part below one second, without zeros at their end. -/
def fractionDigits (milliseconds : Nat) : List Char :=
  Text.dropTrailing (· == '0') ((toString (1000 + milliseconds)).toList.drop 1)

/-- A time in milliseconds as a text, in seconds from one second on. -/
def durationText (milliseconds : Nat) : String :=
  if milliseconds = 0 then "0ns"
  else if milliseconds < 1000 then toString milliseconds ++ "ms"
  else
    let fraction := match fractionDigits (milliseconds % 1000) with
      | [] => ""
      | ds => "." ++ String.ofList ds
    toString (milliseconds / 1000) ++ fraction ++ "s"

/-- The text of a reason. -/
def NoProposal.message : NoProposal → String
  | .unavailable reason => "oracle unavailable: " ++ reason
  | .invalid reason => "oracle returned an invalid result: " ++ reason
  | .late timeout => "oracle timed out after " ++ durationText timeout

/-- What an oracle answers, and when. -/
structure Proposal (α : Type) where
  /-- The answer. -/
  answer : Except NoProposal α
  /-- The delay of the answer in milliseconds. -/
  delay : Nat := 0

namespace Proposal

variable {α : Type}

/-- The answer, if it comes in time. -/
def consult (timeout : Nat) (p : Proposal α) : Except NoProposal α :=
  if timeout < p.delay then .error (.late timeout) else p.answer

/-- The answer, if it comes in time and has no problems. -/
def agreed (timeout : Nat) (validate : α → Except (List Problem) Unit) (p : Proposal α) :
    Except NoProposal α := do
  let a ← p.consult timeout
  match validate a with
  | .ok _ => return a
  | .error problems => throw (.invalid (Problem.summary problems))

end Proposal

/-- A source of proposals. -/
structure Oracle where
  /-- The tree for a mockup with these features. -/
  tree : String → List Markup.Feature → Proposal Ui.Tree
  /-- The plan for a tree, with these keys. -/
  plan : Ui.Tree → List String → Proposal BuildPlan

/-- The answer of an oracle that is not there. -/
def Proposal.none {α : Type} : Proposal α :=
  ⟨.error (.unavailable "no oracle configured"), 0⟩

/-- The oracle that never has a proposal. -/
def Oracle.none : Oracle := ⟨fun _ _ => .none, fun _ _ => .none⟩

/-- The plan that an oracle proposes for a tree, bound to a palette, or the plan that follows from
the tree where none can be used. -/
def BuildPlan.proposed (palette : Palette) (timeout : Nat) (p : Proposal BuildPlan) (t : Ui.Tree)
    (name : String) : Planned :=
  match p.agreed timeout BuildPlan.validate with
  | .ok plan => ({ plan with name }).bind palette
  | .error e =>
    let planned := BuildPlan.ofTree palette t name
    { planned with warnings := .noProposal "buildPlan" e.message :: planned.warnings }

end Mockup
