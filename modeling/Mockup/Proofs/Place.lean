import Mockup.Problem
import Mockup.Proofs.Text.FreshName
import Mockup.Proofs.Text.Words

/-!
# Places in messages

The message of a problem shows its place and then its complaint. If the names on the path are plain,
nothing else can be read as the same text: the path ends at the first colon, a step at a dot, and a
name at a bracket.

* `s.IsPlain` — the name of a step is made of letters and digits.
* `p.IsPlain` — the steps of a problem are plain, and its complaint starts with a colon.
* `place.indices` — the positions in lists along a path.
* `place.route` — what a path starts with, up to the first field that is no list.

## Main results

* `Place.eq_of_text_eq`: paths with the same text are the same path.
* `Problem.place_eq_of_message_eq`: problems with the same message are at the same place.
-/

namespace Mockup

/-! ### Steps -/

/-- The name of a step is made of letters and digits. -/
structure Step.IsPlain (s : Step) : Prop where
  /-- There is a name. -/
  ne_nil : s.name.toList ≠ []
  /-- It has no other characters. -/
  all_isAlphanum : s.name.toList.all Char.isAlphanum = true

namespace Step

variable {s t : Step}

instance (s : Step) : Decidable s.IsPlain :=
  decidable_of_iff (s.name.toList ≠ [] ∧ s.name.toList.all Char.isAlphanum = true)
    ⟨fun ⟨hne, hall⟩ => ⟨hne, hall⟩, fun ⟨hne, hall⟩ => ⟨hne, hall⟩⟩

theorem IsPlain.isAlphanum (h : s.IsPlain) {c : Char} (hc : c ∈ s.name.toList) :
    c.isAlphanum = true :=
  List.all_eq_true.1 h.all_isAlphanum c hc

theorem IsPlain.item {name : String} (h : (⟨name, none⟩ : Step).IsPlain) (i : Nat) :
    (⟨name, some i⟩ : Step).IsPlain :=
  ⟨h.ne_nil, h.all_isAlphanum⟩

/-- The text of a step shows the name, and the position in brackets. -/
theorem toList_text (s : Step) : s.text.toList = s.name.toList ++
    s.index.elim [] fun i => '[' :: (toString i).toList ++ [']'] := by
  obtain ⟨name, index⟩ := s
  cases index with
  | none => exact (List.append_nil _).symm
  | some i => simp [text, String.toList_append]

/-- The name of a step is what its text starts with. -/
theorem IsPlain.takeWhile_text (h : s.IsPlain) :
    s.text.toList.takeWhile Char.isAlphanum = s.name.toList := by
  have hrest : (s.index.elim [] fun i => '[' :: (toString i).toList ++ [']']).takeWhile
      Char.isAlphanum = [] := by
    cases s.index with
    | none => rfl
    | some i => exact List.takeWhile_cons_of_neg (by decide)
  rw [toList_text, List.takeWhile_append_of_pos fun _ => h.isAlphanum, hrest, List.append_nil]

/-- The text of a step has no other marks than brackets. -/
theorem IsPlain.of_mem_text (h : s.IsPlain) {c : Char} (hc : c ∈ s.text.toList) :
    c.isAlphanum = true ∨ c = '[' ∨ c = ']' := by
  rw [toList_text] at hc
  rcases List.mem_append.1 hc with hc | hc
  · exact .inl (h.isAlphanum hc)
  · cases hindex : s.index with
    | none => simp [hindex] at hc
    | some i =>
      rw [hindex, Option.elim_some, List.cons_append, List.mem_cons, List.mem_append,
        List.mem_singleton] at hc
      rcases hc with rfl | hc | rfl
      · exact .inr (.inl rfl)
      · exact .inl (Text.isAlphanum_of_mem_toString hc)
      · exact .inr (.inr rfl)

theorem IsPlain.eq_of_text_eq (hs : s.IsPlain) (ht : t.IsPlain) (h : s.text = t.text) :
    s = t := by
  have hname : s.name = t.name := by
    rw [← String.toList_inj, ← hs.takeWhile_text, ← ht.takeWhile_text, h]
  obtain ⟨name, i⟩ := s
  obtain ⟨name', j⟩ := t
  obtain rfl : name = name' := hname
  -- What follows equal names is the position, if there is one.
  have hindex := congrArg String.toList h
  rw [toList_text, toList_text, List.append_right_inj] at hindex
  cases i with
  | none =>
    cases j with
    | none => rfl
    | some j => cases hindex
  | some i =>
    cases j with
    | none => cases hindex
    | some j =>
      simp only [Option.elim_some, List.cons_append, List.cons.injEq, true_and,
        List.append_left_inj, String.toList_inj] at hindex
      rw [Text.toString_injective hindex]

end Step

/-! ### Paths -/

namespace Place

/-- The positions in lists along a path. -/
def indices (p : Place) : List Nat :=
  p.filterMap Step.index

/-- The part of a path that leads through lists only. -/
def route (p : Place) : Place :=
  p.takeWhile fun s => s.index.isSome

theorem indices_append (p q : Place) : (p ++ q).indices = p.indices ++ q.indices :=
  List.filterMap_append

theorem indices_item (p : Place) (name : String) (i : Nat) :
    (p.item name i).indices = p.indices ++ [i] :=
  indices_append p _

variable {p q : Place}

/-- The route ends where the positions end. -/
theorem route_append (hp : ∀ s ∈ p, s.index.isSome = true) (hq : q.indices = []) :
    (p ++ q).route = p := by
  have hnone := List.filterMap_eq_nil_iff.1 hq
  rw [route, List.takeWhile_append_of_pos hp]
  cases q with
  | nil => exact List.append_nil p
  | cons s q =>
    rw [List.takeWhile_cons_of_neg (by simp [hnone s List.mem_cons_self]), List.append_nil]

/-- The text of a path has no other marks than brackets and dots. -/
theorem of_mem_text (h : ∀ s ∈ p, s.IsPlain) {c : Char} (hc : c ∈ p.text.toList) :
    c.isAlphanum = true ∨ c = '[' ∨ c = ']' ∨ c = '.' := by
  rcases Text.mem_intercalate hc with hc | ⟨t, ht, hc⟩
  · exact .inr (.inr (.inr (List.mem_singleton.1 hc)))
  · obtain ⟨s, hs, rfl⟩ := List.mem_map.1 ht
    rcases (h s hs).of_mem_text hc with hc | hc | hc
    · exact .inl hc
    · exact .inr (.inl hc)
    · exact .inr (.inr (.inl hc))

/-- A path is cut into the texts of its steps at the dots. -/
theorem splitOn_text (h : ∀ s ∈ p, s.IsPlain) (hp : p ≠ []) :
    p.text.toList.splitOn '.' = p.map fun s => s.text.toList := by
  have hdot : ∀ cs ∈ p.map fun s => s.text.toList, '.' ∉ cs := by
    intro cs hcs hmem
    obtain ⟨s, hs, rfl⟩ := List.mem_map.1 hcs
    rcases (h s hs).of_mem_text hmem with hdot | hdot | hdot <;> cases hdot
  have htext : p.text.toList = ['.'].intercalate (p.map fun s => s.text.toList) := by
    rw [text, String.toList_intercalate, List.map_map]
    rfl
  rw [htext, List.splitOn_intercalate '.' hdot (by simpa using hp)]

theorem text_ne_empty (h : ∀ s ∈ p, s.IsPlain) (hp : p ≠ []) : p.text ≠ "" := by
  intro htext
  have hsplit := splitOn_text h hp
  rw [htext, String.toList_empty, List.splitOn_nil] at hsplit
  -- The only piece of an empty text is empty, but the first step has a name.
  cases p with
  | nil => exact hp rfl
  | cons s steps =>
    have hplain := h s List.mem_cons_self
    have hempty : s.text.toList = [] := (List.cons.inj hsplit).1.symm
    apply hplain.ne_nil
    rw [← hplain.takeWhile_text, hempty, List.takeWhile_nil]

theorem eq_of_map_text_eq (hp : ∀ s ∈ p, s.IsPlain) (hq : ∀ s ∈ q, s.IsPlain)
    (h : (p.map fun s => s.text.toList) = q.map fun s => s.text.toList) : p = q := by
  induction p generalizing q with
  | nil => exact (List.map_eq_nil_iff.1 h.symm).symm
  | cons s p ih =>
    obtain ⟨t, q, rfl, htext, hrest⟩ := List.map_eq_cons_iff.1 h.symm
    obtain ⟨hs, hp⟩ := List.forall_mem_cons.1 hp
    obtain ⟨ht, hq⟩ := List.forall_mem_cons.1 hq
    rw [hs.eq_of_text_eq ht (String.toList_inj.1 htext.symm), ih hp hq hrest.symm]

/-- Paths with plain steps and the same text are the same path. -/
theorem eq_of_text_eq (hp : ∀ s ∈ p, s.IsPlain) (hq : ∀ s ∈ q, s.IsPlain)
    (h : p.text = q.text) : p = q := by
  -- Only the empty path has an empty text. All other texts are cut at the dots.
  by_cases hpnil : p = []
  · subst hpnil
    by_contra hqnil
    exact text_ne_empty hq (Ne.symm hqnil) h.symm
  · have hqnil : q ≠ [] := by
      rintro rfl
      exact text_ne_empty hp hpnil h
    refine eq_of_map_text_eq hp hq ?_
    rw [← splitOn_text hp hpnil, ← splitOn_text hq hqnil, h]

end Place

/-! ### Problems below a place -/

/-- A problem is a flaw of something at a place. -/
inductive Problem.IsAt (place : Place) (flaw : Place → Complaint → Prop) : Problem → Prop where
  | mk {rest : Place} {complaint : Complaint} (h : flaw rest complaint) :
    IsAt place flaw ⟨place ++ rest, complaint⟩

/-- A flaw of what a field holds is a flaw at the field. -/
theorem Problem.IsAt.of_field {place : Place} {name : String}
    {flaw outer : Place → Complaint → Prop} {q : Problem} (h : q.IsAt (place.field name) flaw)
    (houter : ∀ rest complaint, flaw rest complaint → outer (⟨name, none⟩ :: rest) complaint) :
    q.IsAt place outer := by
  obtain ⟨hflaw⟩ := h
  rw [Place.field, List.append_assoc]
  exact ⟨houter _ _ hflaw⟩

theorem Problem.isAt_field {place : Place} {name : String} {flaw : Place → Complaint → Prop}
    {rest : Place} {complaint : Complaint} (h : flaw rest complaint) :
    IsAt (place.field name) flaw ⟨place ++ ⟨name, none⟩ :: rest, complaint⟩ := by
  rw [← List.singleton_append, ← List.append_assoc]
  exact ⟨h⟩

theorem Problem.isAt_nil {place : Place} {flaw : Place → Complaint → Prop} {complaint : Complaint}
    (h : flaw [] complaint) : IsAt place flaw ⟨place, complaint⟩ := by
  have hat : IsAt place flaw ⟨place ++ [], complaint⟩ := ⟨h⟩
  rwa [List.append_nil] at hat

/-! ### Messages -/

/-- The place of a problem can be told from its message. -/
structure Problem.IsPlain (p : Problem) : Prop where
  /-- The names on the path are plain. -/
  place : ∀ s ∈ p.place, s.IsPlain
  /-- The complaint starts with a colon. -/
  complaint : p.complaint.text.toList.head? = some ':'

/-- A text starts with the first character of its first part. -/
theorem head?_toList_append {s : String} {c : Char} (h : s.toList.head? = some c) (t : String) :
    (s ++ t).toList.head? = some c := by
  rw [String.toList_append, List.head?_append, h, Option.some_or]

/-- The text of a place ends at the first colon of a message. -/
theorem Problem.IsPlain.takeWhile_message {p : Problem} (h : p.IsPlain) :
    p.message.toList.takeWhile (· ≠ ':') = p.place.text.toList := by
  -- The complaint starts with a colon, and there is none in the place.
  obtain ⟨cs, hcs⟩ := List.head?_eq_some_iff.1 h.complaint
  have hplace : ∀ c ∈ p.place.text.toList, decide (c ≠ ':') = true := by
    intro c hc
    rcases Place.of_mem_text h.place hc with hc | rfl | rfl | rfl
    · refine decide_eq_true ?_
      rintro rfl
      cases hc
    all_goals rfl
  rw [message, String.toList_append, List.takeWhile_append_of_pos hplace, hcs,
    List.takeWhile_cons_of_neg (by decide), List.append_nil]

/-- Problems with the same message are at the same place. -/
theorem Problem.IsPlain.place_eq_of_message_eq {p q : Problem} (hp : p.IsPlain) (hq : q.IsPlain)
    (h : p.message = q.message) : p.place = q.place := by
  refine Place.eq_of_text_eq hp.place hq.place ?_
  rw [← String.toList_inj, ← hp.takeWhile_message, ← hq.takeWhile_message, h]

end Mockup
