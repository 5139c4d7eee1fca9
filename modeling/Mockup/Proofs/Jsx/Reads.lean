import Mockup.Proofs.Jsx.Run

/-!
# Reading forward

`s.Reads here cs t` says that the text `cs`, read from the situation `s` at a place, leads to the
situation `t`. A text is read part by part, and a part that changes nothing may be as long as it
likes.

## Main results

* `Situation.Reads.append`: two texts are read one after the other.
* `Situation.Reads.repeated`: characters that change nothing.
* `Situation.reads_of_run`: a run reads its text.
-/

namespace Mockup.Jsx

/-! ### Places -/

namespace Cursor

/-- The place after a text. -/
def after (here : Cursor) (cs : List Char) : Cursor :=
  cs.foldl advance here

@[simp]
theorem after_nil (here : Cursor) : here.after [] = here := rfl

@[simp]
theorem after_cons (here : Cursor) (c : Char) (cs : List Char) :
    here.after (c :: cs) = (here.advance c).after cs := rfl

@[simp]
theorem after_append (here : Cursor) (as bs : List Char) :
    here.after (as ++ bs) = (here.after as).after bs := by
  rw [after, List.foldl_append]
  rfl

@[simp]
theorem passed_after (here : Cursor) (cs : List Char) :
    (here.after cs).passed = here.passed ++ cs := by
  induction cs generalizing here with
  | nil => simp
  | cons c cs ih => simp [ih]

@[simp]
theorem offset_after (here : Cursor) (cs : List Char) :
    (here.after cs).offset = here.offset + Text.byteLength cs := by
  rw [offset_eq_byteLength, passed_after, Text.byteLength_append, ← offset_eq_byteLength]

/-- The text since a place is what was read from there. -/
theorem since_after (here : Cursor) (cs : List Char) : (here.after cs).since here.offset = cs := by
  rw [here.offset_eq_byteLength]
  exact since_eq (passed_after here cs)

/-- The text since the place after a mark is what was read after the mark. -/
theorem since_after_mark (here : Cursor) {mark : Char} (h : mark.toNat < 0x80) (cs : List Char) :
    ((here.advance mark).after cs).since (here.offset + 1) = cs := by
  have hstart : here.offset + 1 = (here.advance mark).offset := by
    rw [offset_advance, Text.utf8Size_of_toNat_lt h]
  rw [hstart]
  exact since_after (here.advance mark) cs

end Cursor

/-! ### Texts -/

namespace Situation

/-- Reading a text from a situation at a place leads to a situation. -/
def Reads (s : Situation) (here : Cursor) (cs : List Char) (t : Situation) : Prop :=
  (⟨here, s⟩ : Scan).run cs = .ok ⟨here.after cs, t⟩

namespace Reads

variable {s m t : Situation} {here : Cursor} {c : Char} {as bs cs : List Char}

@[simp]
theorem nil (s : Situation) (here : Cursor) : s.Reads here [] s := rfl

/-- A text is read from its first character on. -/
theorem cons (h : s.read here c = .ok m) (hrest : m.Reads (here.advance c) cs t) :
    s.Reads here (c :: cs) t := by
  unfold Reads
  rw [Scan.run_cons_eq_ok_iff]
  exact ⟨_, Scan.step_eq_ok_iff.2 ⟨m, h, rfl⟩, hrest⟩

/-- A text of one character. -/
theorem single (h : s.read here c = .ok t) : s.Reads here [c] t :=
  .cons h (.nil _ _)

/-- Two texts are read one after the other. -/
theorem append (has : s.Reads here as m) (hbs : m.Reads (here.after as) bs t) :
    s.Reads here (as ++ bs) t := by
  unfold Reads
  rw [Scan.run_append_eq_ok_iff, Cursor.after_append]
  exact ⟨_, has, hbs⟩

/-- The situation after the first of two texts. -/
theorem of_append (h : s.Reads here (as ++ bs) t) :
    ∃ m, s.Reads here as m ∧ m.Reads (here.after as) bs t := by
  unfold Reads at h
  obtain ⟨⟨there, m⟩, hm, hrun⟩ := Scan.run_append_eq_ok_iff.1 h
  have hpassed := Scan.passed_of_run hm
  obtain rfl : there = here.after as := Cursor.ext_passed (by simpa using hpassed)
  rw [Cursor.after_append] at hrun
  exact ⟨m, hm, hrun⟩

/-- The situation after the first character of a text. -/
theorem of_cons (h : s.Reads here (c :: cs) t) :
    ∃ m, s.read here c = .ok m ∧ m.Reads (here.advance c) cs t := by
  obtain ⟨m, hm, hrest⟩ := Scan.run_cons_eq_ok_iff.1 h
  obtain ⟨x, hx, rfl⟩ := Scan.step_eq_ok_iff.1 hm
  exact ⟨x, hx, hrest⟩

/-- What a text leads to is determined. -/
theorem unique (h : s.Reads here cs t) (h' : s.Reads here cs m) : t = m := by
  unfold Reads at h h'
  rw [h] at h'
  cases h'
  rfl

/-- Characters that change nothing may be as many as they like. -/
theorem repeated (h : ∀ c ∈ cs, ∀ there, s.read there c = .ok s) : s.Reads here cs s := by
  induction cs generalizing here with
  | nil => exact .nil _ _
  | cons c cs ih =>
    refine .cons (h c List.mem_cons_self here) (ih fun d hd => ?_)
    exact h d (List.mem_cons_of_mem _ hd)

end Reads

/-- A run reads its text. -/
theorem reads_of_run {s : Scan} {u : Scan} {cs : List Char} (h : s.run cs = .ok u) :
    s.situation.Reads s.cursor cs u.situation ∧ u.cursor = s.cursor.after cs := by
  obtain ⟨there, x⟩ := u
  obtain rfl : there = s.cursor.after cs :=
    Cursor.ext_passed (by simpa using Scan.passed_of_run h)
  exact ⟨h, rfl⟩

end Situation

/-- The elements of a text that is read from the start to a good end. -/
theorem scan_eq_of_reads {source : List Char} {t : Situation} {es : List Element}
    (h : Situation.Reads ⟨.script {} .between, []⟩ .start source t)
    (hfinish : Scan.finish ⟨Cursor.start.after source, t⟩ = .ok es) : scan source = .ok es := by
  have hrun : Scan.start.run source = .ok ⟨Cursor.start.after source, t⟩ := h
  rw [scan, hrun]
  exact hfinish

end Mockup.Jsx
