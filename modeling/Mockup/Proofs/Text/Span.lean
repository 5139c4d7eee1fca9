import Mockup.Text.Offset

/-!
# Parts of a text and their places

`HasAt source place part` says that `part` stands in `source` at a byte offset, and `InOrder` that
spans follow one another between two limits. A place that something stands at is the boundary of a
character, and what stands at a place still stands there when the text grows at its end.

## Main results

* `HasAt.slice`: the slice at the place of a part is that part.
* `HasAt.append_right`: growing a text at its end moves nothing.
* `InOrder.append`: spans up to a place and spans from that place on are in order together.
-/

namespace Mockup.Text

/-- The bytes of a text do not depend on its direction. -/
@[simp]
theorem byteLength_reverse (cs : List Char) : byteLength cs.reverse = byteLength cs := by
  induction cs with
  | nil => rfl
  | cons c cs ih => simp [ih, Nat.add_comm]

/-- A text without bytes is empty. -/
theorem eq_nil_of_byteLength_eq_zero {cs : List Char} (h : byteLength cs = 0) : cs = [] := by
  cases cs with
  | nil => rfl
  | cons c cs =>
    have := c.utf8Size_pos
    simp only [byteLength_cons] at h
    omega

/-- The characters of ASCII take one byte. -/
theorem utf8Size_of_toNat_lt {c : Char} (h : c.toNat < 0x80) : c.utf8Size = 1 := by
  rw [Char.utf8Size_eq_one_iff, UInt32.le_iff_toNat_le]
  exact Nat.lt_succ_iff.1 h

/-- Two first parts of one text that have the same length are the same. -/
theorem append_inj_of_byteLength {as bs cs ds : List Char} (h : as ++ bs = cs ++ ds)
    (hlen : byteLength as = byteLength cs) : as = cs ∧ bs = ds := by
  have htake := congrArg (takeBytes (byteLength as)) h
  have hdrop := congrArg (dropBytes (byteLength as)) h
  rw [takeBytes_append, hlen, takeBytes_append] at htake
  rw [dropBytes_append, hlen, dropBytes_append] at hdrop
  exact ⟨htake, hdrop⟩

/-- Taking part of a first text does not need what follows it. -/
theorem takeBytes_append_of_le {n : Nat} {as : List Char} (h : n ≤ byteLength as)
    (bs : List Char) : takeBytes n (as ++ bs) = takeBytes n as := by
  induction as generalizing n with
  | nil =>
    obtain rfl : n = 0 := by simpa using h
    simp
  | cons c cs ih =>
    rw [byteLength_cons] at h
    simp only [List.cons_append, takeBytes]
    rw [ih (by omega)]

/-! ### Parts -/

/-- `part` stands in `source` at a place. -/
def HasAt (source : List Char) (place : Nat) (part : List Char) : Prop :=
  ∃ before after, source = before ++ part ++ after ∧ place = byteLength before

/-- A place between two characters of a text, or at one of its ends. -/
def IsBoundary (source : List Char) (place : Nat) : Prop :=
  ∃ before after, source = before ++ after ∧ place = byteLength before

namespace HasAt

variable {source part rest : List Char} {place : Nat}

/-- What ends a text stands at the length of what comes before it. -/
theorem last (before part : List Char) : HasAt (before ++ part) (byteLength before) part :=
  ⟨before, [], by simp, rfl⟩

/-- Growing a text at its end moves nothing. -/
theorem append_right (h : HasAt source place part) (more : List Char) :
    HasAt (source ++ more) place part := by
  obtain ⟨before, after, rfl, rfl⟩ := h
  exact ⟨before, after ++ more, by simp, rfl⟩

/-- The first half of a part stands where the part stands. -/
theorem left (h : HasAt source place (part ++ rest)) : HasAt source place part := by
  obtain ⟨before, after, rfl, rfl⟩ := h
  exact ⟨before, rest ++ after, by simp, rfl⟩

/-- The second half of a part stands after the first one. -/
theorem right (h : HasAt source place (part ++ rest)) :
    HasAt source (place + byteLength part) rest := by
  obtain ⟨before, after, rfl, rfl⟩ := h
  exact ⟨before ++ part, after, by simp, by simp⟩

/-- A part ends within the text. -/
theorem le (h : HasAt source place part) : place + byteLength part ≤ byteLength source := by
  obtain ⟨before, after, rfl, rfl⟩ := h
  simp

/-- The slice at the place of a part is that part. -/
theorem slice (h : HasAt source place part) :
    slice place (place + byteLength part) source = part := by
  obtain ⟨before, after, rfl, rfl⟩ := h
  exact slice_append before part after

/-- A part begins at a boundary. -/
theorem isBoundary (h : HasAt source place part) : IsBoundary source place := by
  obtain ⟨before, after, rfl, rfl⟩ := h
  exact ⟨before, part ++ after, by simp, rfl⟩

/-- A part ends at a boundary. -/
theorem isBoundary_stop (h : HasAt source place part) :
    IsBoundary source (place + byteLength part) := by
  obtain ⟨before, after, rfl, rfl⟩ := h
  exact ⟨before ++ part, after, by simp, by simp⟩

/-- A character that a front of a text does not hold stands after it. -/
theorem le_of_notMem {before : List Char} {c : Char}
    (h : HasAt (before ++ rest) place (c :: part)) (hc : c ∉ before) :
    byteLength before ≤ place := by
  obtain ⟨front, back, hsource, rfl⟩ := h
  rw [List.append_assoc, List.append_eq_append_iff] at hsource
  rcases hsource with ⟨middle, rfl, -⟩ | ⟨middle, rfl, hmiddle⟩
  · rw [byteLength_append]
    exact Nat.le_add_right _ _
  · cases middle with
    | nil => simp
    | cons b middle =>
      obtain ⟨rfl, -⟩ := List.cons.inj hmiddle
      exact absurd (List.mem_append_right front List.mem_cons_self) hc

/-- What stands in a text, but not at its start, stands after its first character. -/
theorem of_cons {c : Char} (h : HasAt (c :: source) place part) (hpos : 0 < place) :
    ∃ place', place = c.utf8Size + place' ∧ HasAt source place' part := by
  obtain ⟨front, back, hsource, rfl⟩ := h
  cases front with
  | nil => exact absurd hpos (Nat.lt_irrefl 0)
  | cons b front =>
    obtain ⟨rfl, htail⟩ := List.cons.inj hsource
    exact ⟨byteLength front, rfl, front, back, htail, rfl⟩

end HasAt

/-- The slices before and after a part of a text. -/
theorem slices_around {source before part after : List Char} {start stop : Nat}
    (h : source = before ++ part ++ after) (hstart : start = byteLength before)
    (hstop : stop = start + byteLength part) :
    slice 0 start source = before ∧ slice stop (byteLength source) source = after := by
  subst h hstart hstop
  have hbefore : HasAt (before ++ part ++ after) 0 before := ⟨[], part ++ after, by simp, rfl⟩
  have hafter : HasAt (before ++ part ++ after) (byteLength (before ++ part)) after :=
    .last (before ++ part) after
  refine ⟨by simpa using hbefore.slice, ?_⟩
  have hslice := hafter.slice
  rwa [← byteLength_append, byteLength_append before part] at hslice

namespace IsBoundary

variable {source : List Char} {place : Nat}

/-- The end of a text is a boundary. -/
theorem last (source : List Char) : IsBoundary source (byteLength source) :=
  ⟨source, [], by simp, rfl⟩

/-- Growing a text at its end moves no boundary. -/
theorem append_right (h : IsBoundary source place) (more : List Char) :
    IsBoundary (source ++ more) place := by
  obtain ⟨before, after, rfl, rfl⟩ := h
  exact ⟨before, after ++ more, by simp, rfl⟩

/-- A boundary lies within the text. -/
theorem le (h : IsBoundary source place) : place ≤ byteLength source := by
  obtain ⟨before, after, rfl, rfl⟩ := h
  simp

/-- The text before a boundary ends there. -/
theorem byteLength_takeBytes (h : IsBoundary source place) :
    byteLength (takeBytes place source) = place := by
  obtain ⟨before, after, rfl, rfl⟩ := h
  rw [takeBytes_append]

end IsBoundary

/-! ### Spans in order -/

section InOrder

variable {α : Type} {start stop : α → Nat}

/-- Spans that are not empty and follow one another between two limits. -/
def InOrder (start stop : α → Nat) : Nat → List α → Nat → Prop
  | lo, [], hi => lo ≤ hi
  | lo, a :: as, hi => lo ≤ start a ∧ start a < stop a ∧ InOrder start stop (stop a) as hi

namespace InOrder

/-- The limits of spans in order are in order. -/
theorem le {lo hi : Nat} {as : List α} (h : InOrder start stop lo as hi) : lo ≤ hi := by
  induction as generalizing lo with
  | nil => exact h
  | cons a as ih =>
    obtain ⟨hlo, hlt, has⟩ := h
    exact Nat.le_trans hlo (Nat.le_trans (Nat.le_of_lt hlt) (ih has))

/-- The limits may be moved apart. -/
theorem mono {lo lo' hi hi' : Nat} {as : List α} (h : InOrder start stop lo as hi)
    (hlo : lo' ≤ lo) (hhi : hi ≤ hi') : InOrder start stop lo' as hi' := by
  induction as generalizing lo lo' with
  | nil => exact Nat.le_trans hlo (Nat.le_trans h hhi)
  | cons a as ih =>
    obtain ⟨hstart, hlt, has⟩ := h
    exact ⟨Nat.le_trans hlo hstart, hlt, ih has (Nat.le_refl _)⟩

/-- Spans up to a place and spans from that place on are in order together. -/
theorem append {lo mid hi : Nat} {as bs : List α} (has : InOrder start stop lo as mid)
    (hbs : InOrder start stop mid bs hi) : InOrder start stop lo (as ++ bs) hi := by
  induction as generalizing lo with
  | nil => exact hbs.mono has (Nat.le_refl _)
  | cons a as ih =>
    obtain ⟨hstart, hlt, has⟩ := has
    exact ⟨hstart, hlt, ih has⟩

/-- A further span at the end. -/
theorem concat {lo mid hi : Nat} {as : List α} {a : α} (has : InOrder start stop lo as mid)
    (hstart : mid ≤ start a) (hlt : start a < stop a) (hstop : stop a ≤ hi) :
    InOrder start stop lo (as ++ [a]) hi :=
  has.append ⟨hstart, hlt, hstop⟩

/-- Each span lies between the limits and is not empty. -/
theorem of_mem {lo hi : Nat} {as : List α} (h : InOrder start stop lo as hi) {a : α}
    (ha : a ∈ as) : lo ≤ start a ∧ start a < stop a ∧ stop a ≤ hi := by
  induction as generalizing lo with
  | nil => simp at ha
  | cons b bs ih =>
    obtain ⟨hstart, hlt, hbs⟩ := h
    rcases List.mem_cons.1 ha with rfl | ha
    · exact ⟨hstart, hlt, hbs.le⟩
    · obtain ⟨hb, hrest⟩ := ih hbs ha
      exact ⟨by omega, hrest⟩

/-- Each span ends before the later ones begin. -/
theorem pairwise {lo hi : Nat} {as : List α} (h : InOrder start stop lo as hi) :
    as.Pairwise fun a b => stop a ≤ start b := by
  induction as generalizing lo with
  | nil => exact .nil
  | cons a as ih =>
    obtain ⟨-, -, has⟩ := h
    exact .cons (fun b hb => (has.of_mem hb).1) (ih has)

end InOrder

end InOrder

end Mockup.Text
