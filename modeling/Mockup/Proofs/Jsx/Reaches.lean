import Mockup.Proofs.Jsx.Bytes

/-!
# Two readings side by side

`Reaches source here s rest` says that the rest of a text, read character by character from the
situation `s`, has the outcome of the whole text. The byte reader is compared with that: where it
stops, at a place between two characters, a situation is reached again (`ResumesAt`), or the whole
text is in error as it says (`Ends`).

## Main results

* `Reaches.reads`, `Reaches.replace`: going on over a part of the text, and going on from another
  situation that reads the same.
* `Ends.bind`: one reading after the other.
-/

namespace Mockup.Jsx.Source

open Text (IsBoundary byteLength)

/-! ### Reached situations -/

/-- After what is passed, reading the rest from a situation has the outcome of the whole text. -/
structure Reaches (source : List Char) (here : Cursor) (s : Situation) (rest : List Char) :
    Prop where
  /-- The text is what is passed and the rest. -/
  passed_append : here.passed ++ rest = source
  /-- The outcome of the text is decided by the rest. -/
  scan_eq : scan source = ((⟨here, s⟩ : Scan).run rest).bind Scan.finish

namespace Reaches

variable {source rest cs : List Char} {here : Cursor} {s t : Situation} {c : Char}

/-- At the start the whole text is left. -/
theorem start (source : List Char) :
    Reaches source .start ⟨.script {} .between, []⟩ source :=
  ⟨by simp, rfl⟩

/-- The place of a reached situation is a boundary. -/
theorem isBoundary (h : Reaches source here s rest) : IsBoundary source here.offset :=
  isBoundary_offset h.passed_append

/-- A part of the text is passed by reading it. -/
theorem reads (h : Reaches source here s (cs ++ rest)) (hreads : s.Reads here cs t) :
    Reaches source (here.after cs) t rest := by
  refine ⟨by rw [Cursor.passed_after, List.append_assoc, h.passed_append], ?_⟩
  have hrun : (⟨here, s⟩ : Scan).run cs = .ok ⟨here.after cs, t⟩ := hreads
  rw [h.scan_eq, Scan.run_append, hrun]
  rfl

/-- Before a part of the text stands the situation from which it was read. -/
theorem of_reads (h : Reaches source (here.after cs) t rest) (hreads : s.Reads here cs t) :
    Reaches source here s (cs ++ rest) := by
  have hrun : (⟨here, s⟩ : Scan).run cs = .ok ⟨here.after cs, t⟩ := hreads
  refine ⟨by rw [← h.passed_append, Cursor.passed_after, List.append_assoc], ?_⟩
  rw [h.scan_eq, Scan.run_append, hrun]
  rfl

/-- The next character leads to the next situation. -/
theorem step (h : Reaches source here s (c :: rest)) (hread : s.read here c = .ok t) :
    Reaches source (here.advance c) t rest := by
  have hfirst : Reaches source here s ([c] ++ rest) := h
  exact hfirst.reads (.single hread)

/-- An error at the next character is that of the whole text. -/
theorem scan_eq_error {e : ScanError} (h : Reaches source here s (c :: rest))
    (hread : s.read here c = .error e) : scan source = .error e := by
  have hstep : (⟨here, s⟩ : Scan).step c = .error e := by
    rw [Scan.step, hread]
    rfl
  rw [h.scan_eq, Scan.run_cons, hstep]
  rfl

/-- At the end of the text its outcome is clear. -/
theorem scan_eq_finish (h : Reaches source here s []) : scan source = Scan.finish ⟨here, s⟩ :=
  h.scan_eq

/-- A situation may be replaced by one that reads the next character, or ends, in the same way. -/
theorem replace (h : Reaches source here s rest)
    (hread : ∀ c cs, rest = c :: cs → s.read here c = t.read here c)
    (hfinish : rest = [] → Scan.finish ⟨here, s⟩ = Scan.finish ⟨here, t⟩) :
    Reaches source here t rest := by
  refine ⟨h.passed_append, ?_⟩
  rw [h.scan_eq]
  cases rest with
  | nil => exact hfinish rfl
  | cons c cs =>
    have hstep : (⟨here, s⟩ : Scan).step c = (⟨here, t⟩ : Scan).step c := by
      rw [Scan.step, Scan.step, hread c cs rfl]
    rw [Scan.run_cons, Scan.run_cons, hstep]

/-- Characters that change nothing are skipped. -/
theorem skip {p : Char → Bool} (h : Reaches source here s rest)
    (hread : ∀ c, p c = true → ∀ there, s.read there c = .ok s) :
    Reaches source (here.after (rest.takeWhile p)) s (rest.dropWhile p) := by
  rw [← List.takeWhile_append_dropWhile (p := p) (l := rest)] at h
  refine h.reads (.repeated fun c hc there => ?_)
  exact hread c (List.all_eq_true.1 List.all_takeWhile c hc) there

/-- Characters that change nothing are skipped, and the situation after them is replaced. -/
theorem skip_replace {p : Char → Bool} (h : Reaches source here s rest)
    (hread : ∀ c, p c = true → ∀ there, s.read there c = .ok s)
    (hnext : ∀ c, p c = false → s.read (here.after (rest.takeWhile p)) c =
      t.read (here.after (rest.takeWhile p)) c)
    (hfinish : ∀ there, Scan.finish ⟨there, s⟩ = Scan.finish ⟨there, t⟩) :
    Reaches source (here.after (rest.takeWhile p)) t (rest.dropWhile p) := by
  refine (h.skip hread).replace ?_ fun _ => hfinish _
  intro c cs hrest
  apply hnext
  simpa [hrest] using List.head?_dropWhile_not p rest

end Reaches

/-- A situation is reached at a place, with less than `limit` characters left. -/
def ResumesAt (source : List Char) (limit : Nat) (s : Situation) (place : Nat) : Prop :=
  ∃ here rest, here.offset = place ∧ rest.length < limit ∧ Reaches source here s rest

theorem ResumesAt.mono {source : List Char} {limit limit' place : Nat} {s : Situation}
    (h : ResumesAt source limit s place) (hle : limit ≤ limit') :
    ResumesAt source limit' s place := by
  obtain ⟨here, rest, hplace, hlt, hreaches⟩ := h
  exact ⟨here, rest, hplace, Nat.lt_of_lt_of_le hlt hle, hreaches⟩

/-! ### Readings that end -/

/-- A reading ends: with a value that satisfies `P`, or with the error of the whole text at a
boundary. -/
def Ends {α : Type} (source : List Char) (m : Reading α) (P : α → Prop) : Prop :=
  (∃ a, m = pure a ∧ P a) ∨
    ∃ e, m = throw (.error e) ∧ scan source = .error e ∧ IsBoundary source e.offset

namespace Ends

variable {α β : Type} {source : List Char} {m : Reading α} {P Q : α → Prop} {R : β → Prop}

/-- A value that is there. -/
theorem value {a : α} (h : P a) : Ends source (pure a) P :=
  .inl ⟨a, rfl, h⟩

/-- The error of the whole text. -/
theorem error {place : Nat} {cause : ScanError.Cause} (h : scan source = failAt place cause)
    (hplace : IsBoundary source place) : Ends source (fail place cause) P :=
  .inr ⟨⟨place, cause⟩, rfl, h, hplace⟩

theorem mono (h : Ends source m P) (hPQ : ∀ a, P a → Q a) : Ends source m Q := by
  rcases h with ⟨a, ha, hP⟩ | h
  · exact .inl ⟨a, ha, hPQ a hP⟩
  · exact .inr h

/-- A reading that goes on with the value of another one. -/
theorem bind {f : α → Reading β} (h : Ends source m P) (hf : ∀ a, P a → Ends source (f a) R) :
    Ends source (m >>= f) R := by
  rcases h with ⟨a, rfl, hP⟩ | ⟨e, rfl, herror, hplace⟩
  · rw [pure_bind]
    exact hf a hP
  · exact .inr ⟨e, rfl, herror, hplace⟩

end Ends

end Mockup.Jsx.Source
