/-!
# Repeated reading

`repeatRead` runs a reading step again and again on what the step before it left. It ends when a
step asks for it, or when a step leaves a text that is no shorter, so it always ends.
-/

namespace Mockup.Text

variable {σ ε : Type}

/-- What a reading step leaves behind. -/
structure Progress (σ : Type) where
  /-- What was gathered so far. -/
  state : σ
  /-- The text that is left. -/
  rest : List Char
  /-- Whether another step is due. -/
  again : Bool

/-- Runs `step` until it asks to end or leaves a text that is no shorter. -/
def repeatRead (step : σ → List Char → Except ε (Progress σ)) (s : σ) (cs : List Char) :
    Except ε (σ × List Char) :=
  match step s cs with
  | .error e => .error e
  | .ok p =>
    if p.again ∧ p.rest.length < cs.length then repeatRead step p.state p.rest
    else .ok (p.state, p.rest)
termination_by cs.length

/-- One step, and then the others. -/
theorem repeatRead_eq (step : σ → List Char → Except ε (Progress σ)) (s : σ) (cs : List Char) :
    repeatRead step s cs = match step s cs with
      | .error e => .error e
      | .ok p =>
        if p.again ∧ p.rest.length < cs.length then repeatRead step p.state p.rest
        else .ok (p.state, p.rest) := by
  rw [repeatRead]

end Mockup.Text
