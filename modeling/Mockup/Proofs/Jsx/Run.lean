import Mockup.Jsx.Scan
import Mockup.Proofs.Jsx.Cursor

/-!
# Runs of a scan

How a run decomposes into steps, and when a text can end. A property that each step keeps holds
after a run (`Scan.run_invariant`).
-/

namespace Mockup.Jsx

@[simp]
theorem failAt_ne_ok {α : Type} {offset : Nat} {cause : ScanError.Cause} {x : α} :
    (failAt offset cause : Except ScanError α) ≠ .ok x := by
  simp [failAt]

namespace Scan

/-- A step reads the situation at the cursor and moves the cursor. -/
theorem step_eq_ok_iff {s t : Scan} {c : Char} :
    s.step c = .ok t ↔ ∃ x, s.situation.read s.cursor c = .ok x ∧ t = ⟨s.cursor.advance c, x⟩ := by
  unfold step
  cases s.situation.read s.cursor c with
  | error e => simp [Except.map]
  | ok x => simp [Except.map, eq_comm]

theorem run_cons (s : Scan) (c : Char) (cs : List Char) :
    s.run (c :: cs) = (s.step c).bind fun t => t.run cs := by
  rw [run]
  cases s.step c <;> rfl

/-- A run over two parts goes through a scan between them. -/
theorem run_append_eq_ok_iff {s t : Scan} {as bs : List Char} :
    s.run (as ++ bs) = .ok t ↔ ∃ m, s.run as = .ok m ∧ m.run bs = .ok t := by
  rw [run_append]
  cases s.run as <;> simp [Except.bind]

theorem run_cons_eq_ok_iff {s t : Scan} {c : Char} {cs : List Char} :
    s.run (c :: cs) = .ok t ↔ ∃ m, s.step c = .ok m ∧ m.run cs = .ok t := by
  rw [run_cons]
  cases s.step c <;> simp [Except.bind]

/-- What each step keeps, a run keeps. -/
theorem run_invariant {P : Scan → Prop}
    (hstep : ∀ {s t : Scan} {c : Char}, P s → s.step c = .ok t → P t) {s t : Scan} (hs : P s)
    {cs : List Char} (h : s.run cs = .ok t) : P t := by
  induction cs generalizing s with
  | nil =>
    cases h
    exact hs
  | cons c cs ih =>
    obtain ⟨m, hm, hrun⟩ := run_cons_eq_ok_iff.1 h
    exact ih (hstep hs hm) hrun

/-- A run passes the text that it reads. -/
theorem passed_of_run {s t : Scan} {cs : List Char} (h : s.run cs = .ok t) :
    t.cursor.passed = s.cursor.passed ++ cs := by
  induction cs generalizing s with
  | nil =>
    cases h
    simp
  | cons c cs ih =>
    obtain ⟨m, hm, hrun⟩ := run_cons_eq_ok_iff.1 h
    obtain ⟨x, -, rfl⟩ := step_eq_ok_iff.1 hm
    simp [ih hrun]

/-- A run from the start has passed the text that it read. -/
theorem passed_of_run_start {t : Scan} {cs : List Char} (h : start.run cs = .ok t) :
    t.cursor.passed = cs := by
  simpa [start] using passed_of_run h

/-- The offset after a run from the start is the length of the text that was read. -/
theorem offset_of_run_start {t : Scan} {cs : List Char} (h : start.run cs = .ok t) :
    t.cursor.offset = Text.byteLength cs := by
  rw [Cursor.offset_eq_byteLength, passed_of_run_start h]

end Scan

/-! ### Ends -/

/-- Whether a text can end in a part of a script. -/
def Script.canEnd (s : Script) : Script.Part → Bool
  | .string .. | .blockComment .. | .pattern .. => false
  | .slash _ => !s.previous.allowsExpression
  | .between | .word _ | .lineComment | .flags | .angle _ => true

/-- At the end of the text nothing may wait and no bracket may be open. -/
theorem Scan.atEnd_eq_ok_iff {s : Script} {outer : List Context} {here : Cursor}
    {es : List Element} :
    finishScript.atEnd s outer here = .ok es ↔ outer = [] ∧ s.due = [] ∧ s.found = es := by
  unfold finishScript.atEnd
  split
  · next h => simpa using fun h' => by simp [h'] at h
  split
  · next h => simpa using fun _ h' => by simp [h'] at h
  · simp_all

theorem Scan.finishScript_eq_ok_iff {s : Script} {outer : List Context} {here : Cursor}
    {part : Script.Part} {es : List Element} :
    finishScript s outer here part = .ok es ↔
      s.canEnd part = true ∧ outer = [] ∧ s.due = [] ∧ s.found = es := by
  cases part with
  | slash start =>
    cases h : s.previous.allowsExpression <;>
      simp [finishScript, Script.canEnd, atEnd_eq_ok_iff, h]
  | _ => simp [finishScript, Script.canEnd, atEnd_eq_ok_iff]

/-- A text ends well in a script with nothing around it and nothing open in it. -/
theorem Scan.finish_eq_ok_iff {t : Scan} {es : List Element} :
    t.finish = .ok es ↔ ∃ s part, t.situation = ⟨.script s part, []⟩ ∧ s.canEnd part = true ∧
      s.due = [] ∧ s.found = es := by
  obtain ⟨here, focus, outer⟩ := t
  cases focus with
  | script s part =>
    rw [finish, finishScript_eq_ok_iff]
    constructor
    · rintro ⟨hend, rfl, hdue, hfound⟩
      exact ⟨s, part, rfl, hend, hdue, hfound⟩
    · rintro ⟨s, part, h, hend, hdue, hfound⟩
      cases h
      exact ⟨hend, rfl, hdue, hfound⟩
  | template t part => simp [finish]
  | tag t part => cases part <;> simp [finish]
  | content e part => cases part <;> simp [finish]

/-- The elements of a text are those found by the script that it ends in. -/
theorem scan_eq_ok_iff {source : List Char} {es : List Element} :
    scan source = .ok es ↔ ∃ here s part, Scan.start.run source = .ok ⟨here, .script s part, []⟩ ∧
      s.canEnd part = true ∧ s.due = [] ∧ s.found = es := by
  unfold scan
  cases hrun : Scan.start.run source with
  | error e => simp [Except.bind]
  | ok t =>
    obtain ⟨here, x⟩ := t
    simp only [Except.bind, Scan.finish_eq_ok_iff, Except.ok.injEq, Scan.mk.injEq]
    constructor
    · rintro ⟨s, part, rfl, hend⟩
      exact ⟨here, s, part, ⟨rfl, rfl⟩, hend⟩
    · rintro ⟨_, s, part, ⟨rfl, rfl⟩, hend⟩
      exact ⟨s, part, rfl, hend⟩

end Mockup.Jsx
