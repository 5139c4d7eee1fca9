import Mathlib.Data.List.TakeWhile
import Mockup.Text.Blank

/-!
# Pieces, words, letters and trimmed texts

Facts about the characters of a text that is cut into pieces or trimmed. Letters and digits are
ASCII characters, so what holds of them is checked on finitely many characters.
-/

namespace Mockup.Text

/-! ### Pieces -/

/-- Every character of a text separates pieces or stands in one. -/
theorem mem_pieces_of_mem (sep : Char → Bool) {cs : List Char} {c : Char} (h : c ∈ cs) :
    sep c = true ∨ ∃ p ∈ pieces sep cs, c ∈ p := by
  induction cs with
  | nil => simp at h
  | cons d ds ih =>
    -- A separator begins a new piece, and any other character goes in front of the first one.
    unfold pieces
    split
    · next hsep =>
      rcases List.mem_cons.1 h with rfl | h
      · exact .inl hsep
      · rcases ih h with hsep' | ⟨p, hp, hc⟩
        · exact .inl hsep'
        · exact .inr ⟨p, List.mem_cons_of_mem _ hp, hc⟩
    · split
      · next hnil => exact absurd hnil (pieces_ne_nil sep ds)
      · next p ps hps =>
        rcases List.mem_cons.1 h with rfl | h
        · exact .inr ⟨c :: p, List.mem_cons_self, List.mem_cons_self⟩
        · rcases ih h with hsep | ⟨q, hq, hc⟩
          · exact .inl hsep
          · rw [hps] at hq
            rcases List.mem_cons.1 hq with rfl | hq
            · exact .inr ⟨d :: q, List.mem_cons_self, List.mem_cons_of_mem _ hc⟩
            · exact .inr ⟨q, List.mem_cons_of_mem _ hq, hc⟩

/-- The characters of a piece stand in the text. -/
theorem mem_of_mem_pieces {sep : Char → Bool} {cs p : List Char} {c : Char}
    (hp : p ∈ pieces sep cs) (hc : c ∈ p) : c ∈ cs := by
  induction cs generalizing p with
  | nil => simp_all [pieces]
  | cons d ds ih =>
    unfold pieces at hp
    split at hp
    · rcases List.mem_cons.1 hp with rfl | hp
      · cases hc
      · exact List.mem_cons_of_mem _ (ih hp hc)
    · split at hp
      · next hnil => exact absurd hnil (pieces_ne_nil sep ds)
      · next q qs hq =>
        rw [hq] at ih
        rcases List.mem_cons.1 hp with rfl | hp
        · rcases List.mem_cons.1 hc with rfl | hc
          · exact List.mem_cons_self
          · exact List.mem_cons_of_mem _ (ih List.mem_cons_self hc)
        · exact List.mem_cons_of_mem _ (ih (List.mem_cons_of_mem _ hp) hc)

/-- Texts on both sides of a separating character are cut on their own. -/
theorem pieces_append_cons {sep : Char → Bool} {c : Char} (hc : sep c = true)
    (as bs : List Char) : pieces sep (as ++ c :: bs) = pieces sep as ++ pieces sep bs := by
  induction as with
  | nil => exact if_pos hc
  | cons a as ih =>
    rw [List.cons_append, pieces, pieces, ih]
    split
    · rfl
    · cases hpieces : pieces sep as with
      | nil => exact absurd hpieces (pieces_ne_nil sep as)
      | cons p ps => rfl

/-- A text without separating characters is one piece. -/
theorem pieces_eq_singleton {sep : Char → Bool} {w : List Char} (hw : ∀ c ∈ w, sep c = false) :
    pieces sep w = [w] := by
  induction w with
  | nil => rfl
  | cons d ds ih =>
    obtain ⟨hd, hds⟩ := List.forall_mem_cons.1 hw
    rw [pieces, if_neg (by simp [hd]), ih hds]

/-- Up to a separating character a text is one piece. -/
theorem pieces_append {sep : Char → Bool} {w : List Char} (hw : ∀ c ∈ w, sep c = false) {c : Char}
    (hc : sep c = true) (cs : List Char) : pieces sep (w ++ c :: cs) = w :: pieces sep cs := by
  rw [pieces_append_cons hc, pieces_eq_singleton hw, List.singleton_append]

/-! ### Joined texts -/

/-- The characters of joined texts are those of the texts and those between them. -/
theorem mem_intercalate {sep : String} {parts : List String} {c : Char}
    (h : c ∈ (sep.intercalate parts).toList) : c ∈ sep.toList ∨ ∃ t ∈ parts, c ∈ t.toList := by
  induction parts with
  | nil => simp at h
  | cons t ts ih =>
    by_cases hts : ts = []
    · subst hts
      rw [String.intercalate_singleton] at h
      exact .inr ⟨t, List.mem_cons_self, h⟩
    · rw [String.intercalate_cons_of_ne_nil hts, String.toList_append, String.toList_append,
        List.mem_append, List.mem_append] at h
      rcases h with (h | h) | h
      · exact .inr ⟨t, List.mem_cons_self, h⟩
      · exact .inl h
      · exact (ih h).imp id fun ⟨u, hu, hc⟩ => ⟨u, List.mem_cons_of_mem _ hu, hc⟩

/-! ### Words -/

/-- A text that is one word. -/
def IsWord (t : String) : Prop :=
  t.toList ≠ [] ∧ ∀ c ∈ t.toList, isBlank c = false

theorem isWord_of_mem_words {value t : String} (h : t ∈ words value) : IsWord t := by
  obtain ⟨w, hw, rfl⟩ := List.mem_map.1 h
  rw [IsWord, String.toList_ofList]
  exact ⟨ne_nil_of_mem_wordsOf hw, not_isBlank_of_mem_wordsOf hw⟩

/-- The characters of a word stand in the text. -/
theorem mem_of_mem_words {value t : String} {c : Char} (ht : t ∈ words value) (hc : c ∈ t.toList) :
    c ∈ value.toList := by
  obtain ⟨w, hw, rfl⟩ := List.mem_map.1 ht
  rw [String.toList_ofList] at hc
  exact mem_of_mem_pieces (List.mem_filter.1 hw).1 hc

/-- A word is the only word of itself. -/
theorem IsWord.words_eq {t : String} (h : IsWord t) : words t = [t] := by
  rw [words, wordsOf, pieces_eq_singleton h.2, List.filter_cons_of_pos (by simpa using h.1),
    List.filter_nil, List.map_singleton, String.ofList_toList]

/-- The words of two texts with a space between them are those of the one and those of the other. -/
theorem words_append_space (s t : String) : words (s ++ " " ++ t) = words s ++ words t := by
  have hspace : " ".toList = [' '] := rfl
  rw [words, wordsOf, String.toList_append, String.toList_append, List.append_assoc, hspace,
    List.singleton_append, pieces_append_cons (by decide), List.filter_append, List.map_append]
  rfl

/-- The words of joined texts are those of the texts in order. -/
theorem words_intercalate (parts : List String) :
    words (" ".intercalate parts) = parts.flatMap words := by
  induction parts with
  | nil => rfl
  | cons part parts ih =>
    by_cases hnil : parts = []
    · subst hnil
      rw [String.intercalate_singleton, List.flatMap_singleton]
    · rw [String.intercalate_cons_of_ne_nil hnil, words_append_space, ih, List.flatMap_cons]

/-- Words are split where they were joined. -/
theorem words_intercalate_of_isWord {ts : List String} (h : ∀ t ∈ ts, IsWord t) :
    words (" ".intercalate ts) = ts := by
  rw [words_intercalate]
  induction ts with
  | nil => rfl
  | cons t ts ih =>
    obtain ⟨ht, hts⟩ := List.forall_mem_cons.1 h
    rw [List.flatMap_cons, ht.words_eq, ih hts, List.singleton_append]

/-! ### Letters and digits -/

/-- Letters and digits are ASCII characters. -/
theorem toNat_lt_of_isAlphanum {c : Char} (h : c.isAlphanum = true) : c.toNat < 0x80 := by
  delta Char.isAlphanum Char.isAlpha Char.isUpper Char.isLower Char.isDigit at h
  simp only [Bool.or_eq_true, Bool.and_eq_true, decide_eq_true_eq, UInt32.le_iff_toNat_le] at h
  have hval : c.toNat = c.val.toNat := rfl
  simp at h
  omega

theorem isAlphanum_of_isUpper {c : Char} (h : c.isUpper = true) : c.isAlphanum = true := by
  delta Char.isAlphanum Char.isAlpha
  rw [h, Bool.true_or, Bool.true_or]

/-- What holds of the characters with the codes of ASCII holds of every character of ASCII. -/
theorem of_forall_ascii {p : Char → Prop} (h : ∀ n < 0x80, p (Char.ofNat n)) {c : Char}
    (hc : c.toNat < 0x80) : p c := by
  have hp := h c.toNat hc
  rwa [Char.ofNat_toNat] at hp

/-- A letter or digit as a capital is a letter or digit. -/
theorem isAlphanum_toUpper {c : Char} (h : c.isAlphanum = true) : c.toUpper.isAlphanum = true :=
  of_forall_ascii (p := fun c => c.isAlphanum = true → c.toUpper.isAlphanum = true) (by decide)
    (toNat_lt_of_isAlphanum h) h

/-- A letter or digit in lower case is a letter or digit. -/
theorem isAlphanum_toLower {c : Char} (h : c.isAlphanum = true) : c.toLower.isAlphanum = true :=
  of_forall_ascii (p := fun c => c.isAlphanum = true → c.toLower.isAlphanum = true) (by decide)
    (toNat_lt_of_isAlphanum h) h

/-- A number is written with digits. -/
theorem isAlphanum_of_mem_toString {n : Nat} {c : Char} (h : c ∈ (toString n).toList) :
    c.isAlphanum = true := by
  rw [Nat.toString_eq_ofList_toDigits, String.toList_ofList] at h
  simp [Char.isAlphanum, Nat.isDigit_of_mem_toDigits (by decide) (by decide) h]

/-- No letter or digit is a blank. -/
theorem isBlank_of_isAlphanum {c : Char} (h : c.isAlphanum = true) : isBlank c = false :=
  of_forall_ascii (p := fun c => c.isAlphanum = true → isBlank c = false) (by decide)
    (toNat_lt_of_isAlphanum h) h

/-! ### Texts that are not blank -/

theorem isAllBlank_of_mem {s : String} {c : Char} (hmem : c ∈ s.toList) (hc : isBlank c = false) :
    isAllBlank s = false :=
  List.all_eq_false.2 ⟨c, hmem, by simp [hc]⟩

/-- A text that begins with one that is not blank is not blank. -/
theorem isAllBlank_append_of_left {s : String} (h : isAllBlank s = false) (t : String) :
    isAllBlank (s ++ t) = false := by
  obtain ⟨c, hc, hblank⟩ := List.all_eq_false.1 h
  refine List.all_eq_false.2 ⟨c, ?_, hblank⟩
  rw [String.toList_append]
  exact List.mem_append_left _ hc

/-! ### Trimmed texts -/

/-- A text is what is left when it is trimmed, between blanks. -/
theorem exists_eq_append_trimmed (cs : List Char) :
    ∃ lead trail, cs = lead ++ (trimmed cs ++ trail) ∧ (∀ c ∈ lead, isBlank c = true) ∧
      ∀ c ∈ trail, isBlank c = true := by
  refine ⟨cs.takeWhile isBlank, ((cs.dropWhile isBlank).reverse.takeWhile isBlank).reverse, ?_,
    fun c hc => List.mem_takeWhile_imp hc, fun c hc => ?_⟩
  · rw [trimmed, dropTrailing, ← List.reverse_append, List.takeWhile_append_dropWhile,
      List.reverse_reverse, List.takeWhile_append_dropWhile]
  · exact List.mem_takeWhile_imp (List.mem_reverse.1 hc)

/-- If anything is left of a trimmed text, it is not blank. -/
theorem isAllBlank_trim {s : String} (h : trim s ≠ "") : isAllBlank (trim s) = false := by
  by_contra hblank
  obtain ⟨lead, trail, heq, hlead, htrail⟩ := exists_eq_append_trimmed s.toList
  have hinner : ∀ c ∈ trimmed s.toList, isBlank c = true := by
    simpa [isAllBlank, trim] using hblank
  -- Then the whole text is blank, and all of it is trimmed.
  have hall : ∀ c ∈ s.toList, isBlank c = true := by
    rw [heq, List.forall_mem_append, List.forall_mem_append]
    exact ⟨hlead, hinner, htrail⟩
  apply h
  rw [trim, trimmed, List.dropWhile_eq_nil_iff.2 hall]
  rfl

/-- Nothing is trimmed from a text with a mark at both ends. -/
theorem trimmed_marked {mark : Char} (h : isBlank mark = false) (cs : List Char) :
    trimmed (mark :: (cs ++ [mark])) = mark :: (cs ++ [mark]) := by
  simp [trimmed, dropTrailing, h]

/-- Nothing is trimmed from a text without blanks. -/
theorem trimmed_eq_self {cs : List Char} (h : ∀ c ∈ cs, isBlank c = false) :
    trimmed cs = cs := by
  have keep (ds : List Char) (hds : ∀ c ∈ ds, isBlank c = false) :
      ds.dropWhile isBlank = ds := by
    cases ds with
    | nil => rfl
    | cons d ds => simp [hds d List.mem_cons_self]
  rw [trimmed, dropTrailing, keep cs h, keep cs.reverse (by simpa using h),
    List.reverse_reverse]

end Mockup.Text
