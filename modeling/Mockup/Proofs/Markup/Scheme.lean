import Mockup.Markup.AllowList
import Mockup.Proofs.Text.Words

/-!
# Schemes as a browser reads them

The allow-list looks for the scheme of an address in a form of its own, in which more characters are
left out than a browser leaves out. Where a browser finds a scheme, the allow-list finds the same,
so a kept address leads nowhere else than it seems to. Characters without weight and capitals make
no difference to the verdict on any attribute.

* `browserScheme? cs` — the scheme that a browser finds in an address.
* `Disguises cs ds` — the second text is the first one with characters without weight put in, and
  with letters of ASCII in another case.

## Main results

* `scheme?_normalizedAddress`: the allow-list finds the scheme that a browser finds.
* `toOption_checkAttribute_of_disguises`: the verdict on a disguised value is that on the value.
* `checkAttribute_safe`: which schemes a kept address has, and that no disguise helps.
-/

namespace Mockup.Markup

/-! ### What a browser reads -/

/-- A character that a browser skips in front of an address: a control character or a space. -/
def isSkippedInFront (c : Char) : Bool :=
  c.toNat ≤ 0x20

/-- A character that a browser skips anywhere in an address: a tab or a line break. -/
def isSkippedAnywhere (c : Char) : Bool :=
  c == '\t' || c == '\n' || c == '\r'

/-- The characters of an address that a browser reads. -/
def browserAddress (cs : List Char) : List Char :=
  (cs.dropWhile isSkippedInFront).filter fun c => !isSkippedAnywhere c

/-- The characters before the first colon in lower case, if all of them may stand in a scheme. -/
def schemeBefore? : List Char → Option (List Char)
  | [] => none
  | c :: cs =>
    if c = ':' then some []
    else if c.isAlphanum || c == '+' || c == '-' || c == '.' then
      (schemeBefore? cs).map (c.toLower :: ·)
    else none

/-- The scheme that a browser finds in an address, in lower case: a letter, and what else there is
before the first colon. -/
def browserScheme? (cs : List Char) : Option (List Char) :=
  match browserAddress cs with
  | [] => none
  | c :: cs => if c.isAlpha then (schemeBefore? cs).map (c.toLower :: ·) else none

/-! ### Single characters -/

theorem isWeightless_of_isSkippedInFront {c : Char} (h : isSkippedInFront c = true) :
    isWeightless c = true := by
  have hle : c.toNat ≤ 0x20 := by simpa [isSkippedInFront] using h
  exact Text.of_forall_ascii (p := fun c => c.toNat ≤ 0x20 → isWeightless c = true) (by decide)
    (by omega) hle

theorem isWeightless_of_isSkippedAnywhere {c : Char} (h : isSkippedAnywhere c = true) :
    isWeightless c = true := by
  simp only [isSkippedAnywhere, Bool.or_eq_true, beq_iff_eq] at h
  rcases h with (rfl | rfl) | rfl <;> decide

/-- The lower case of a character of ASCII is one character. -/
theorem lowerCase_of_ascii {c : Char} (h : c.toNat < 0x80) : lowerCase c = [c.toLower] := by
  rw [lowerCase, if_neg (by omega), if_neg (by omega)]

/-- A character that may stand in a scheme has weight, and its lower case may stand there too. -/
theorem isSchemeChar_toLower {c : Char}
    (h : (c.isAlphanum || c == '+' || c == '-' || c == '.') = true) :
    isWeightless c = false ∧ lowerCase c = [c.toLower] ∧ isSchemeChar c.toLower = true := by
  have hascii : c.toNat < 0x80 := by
    simp only [Bool.or_eq_true, beq_iff_eq] at h
    rcases h with ((h | rfl) | rfl) | rfl
    · exact Text.toNat_lt_of_isAlphanum h
    all_goals decide
  have hboth := Text.of_forall_ascii (p := fun c =>
    (c.isAlphanum || c == '+' || c == '-' || c == '.') = true →
      isWeightless c = false ∧ isSchemeChar c.toLower = true) (by decide) hascii h
  exact ⟨hboth.1, lowerCase_of_ascii hascii, hboth.2⟩

theorem isLowerLetter_toLower {c : Char} (h : c.isAlpha = true) :
    isLowerLetter c.toLower = true := by
  have hascii := Text.toNat_lt_of_isAlphanum (c := c) (by rw [Char.isAlphanum, h, Bool.true_or])
  exact Text.of_forall_ascii (p := fun c => c.isAlpha = true → isLowerLetter c.toLower = true)
    (by decide) hascii h

/-- Beyond ASCII a character is its own lower case here. -/
theorem toLower_of_not_ascii {c : Char} (h : 0x80 ≤ c.toNat) : c.toLower = c := by
  refine dif_neg ?_
  rintro ⟨-, hle⟩
  have hnat : c.toNat ≤ 'Z'.toNat := UInt32.le_iff_toNat_le.1 hle
  have hz : 'Z'.toNat = 0x5a := rfl
  omega

/-- Two characters with one lower case are the same character or both of ASCII. -/
theorem eq_or_ascii_of_toLower_eq {c d : Char} (h : c.toLower = d.toLower) :
    c = d ∨ c.toNat < 0x80 ∧ d.toNat < 0x80 := by
  have hlower {e : Char} (he : e.toNat < 0x80) : e.toLower.toNat < 0x80 :=
    Text.of_forall_ascii (p := fun e => e.toLower.toNat < 0x80) (by decide) he
  rcases Nat.lt_or_ge c.toNat 0x80 with hc | hc
  · rcases Nat.lt_or_ge d.toNat 0x80 with hd | hd
    · exact .inr ⟨hc, hd⟩
    · -- The lower case of `c` stays in ASCII, so it is not `d`.
      have := hlower hc
      rw [h, toLower_of_not_ascii hd] at this
      omega
  · rcases Nat.lt_or_ge d.toNat 0x80 with hd | hd
    · have := hlower hd
      rw [← h, toLower_of_not_ascii hc] at this
      omega
    · rw [toLower_of_not_ascii hc, toLower_of_not_ascii hd] at h
      exact .inl h

/-- The case of a letter makes no difference to what is left of it. -/
theorem normalizedAddress_singleton_of_toLower_eq {c d : Char} (h : c.toLower = d.toLower) :
    normalizedAddress [c] = normalizedAddress [d] := by
  rcases eq_or_ascii_of_toLower_eq h with rfl | ⟨hc, hd⟩
  · rfl
  · have hweight {e : Char} (he : e.toNat < 0x80) : isWeightless e = isWeightless e.toLower :=
      Text.of_forall_ascii (p := fun e => isWeightless e = isWeightless e.toLower) (by decide) he
    simp only [normalizedAddress, List.filter_cons, hweight hc, hweight hd, h, List.filter_nil]
    split
    · rw [List.flatMap_singleton, List.flatMap_singleton, lowerCase_of_ascii hc,
        lowerCase_of_ascii hd, h]
    · rfl

/-! ### Normalized addresses -/

theorem normalizedAddress_append (cs ds : List Char) :
    normalizedAddress (cs ++ ds) = normalizedAddress cs ++ normalizedAddress ds := by
  rw [normalizedAddress, List.filter_append, List.flatMap_append, normalizedAddress,
    normalizedAddress]

theorem normalizedAddress_cons (c : Char) (cs : List Char) :
    normalizedAddress (c :: cs) = normalizedAddress [c] ++ normalizedAddress cs :=
  normalizedAddress_append [c] cs

theorem normalizedAddress_of_weightless {c : Char} (h : isWeightless c = true) (cs : List Char) :
    normalizedAddress (c :: cs) = normalizedAddress cs := by
  rw [normalizedAddress, List.filter_cons_of_neg (by simp [h]), normalizedAddress]

theorem normalizedAddress_of_schemeChar {c : Char}
    (h : (c.isAlphanum || c == '+' || c == '-' || c == '.') = true) (cs : List Char) :
    normalizedAddress (c :: cs) = c.toLower :: normalizedAddress cs := by
  obtain ⟨hweight, hlower, -⟩ := isSchemeChar_toLower h
  rw [normalizedAddress, List.filter_cons_of_pos (by simp [hweight]), List.flatMap_cons, hlower,
    List.singleton_append, normalizedAddress]

/-- What a browser skips has no weight. -/
theorem normalizedAddress_browserAddress (cs : List Char) :
    normalizedAddress (browserAddress cs) = normalizedAddress cs := by
  -- A browser skips some characters everywhere and some in front; neither kind has any weight.
  have hfilter (ds : List Char) :
      normalizedAddress (ds.filter fun c => !isSkippedAnywhere c) = normalizedAddress ds := by
    induction ds with
    | nil => rfl
    | cons d ds ih =>
      by_cases h : isSkippedAnywhere d
      · rw [List.filter_cons_of_neg (by simp [h]), ih,
          normalizedAddress_of_weightless (isWeightless_of_isSkippedAnywhere h)]
      · rw [List.filter_cons_of_pos (by simp [h]), normalizedAddress_cons, ih,
          ← normalizedAddress_cons]
  have hfront (ds : List Char) :
      normalizedAddress (ds.dropWhile isSkippedInFront) = normalizedAddress ds := by
    induction ds with
    | nil => rfl
    | cons d ds ih =>
      by_cases h : isSkippedInFront d
      · rw [List.dropWhile_cons_of_pos h, ih,
          normalizedAddress_of_weightless (isWeightless_of_isSkippedInFront h)]
      · rw [List.dropWhile_cons_of_neg h]
  rw [browserAddress, hfilter, hfront]

/-! ### Schemes -/

/-- The characters that a browser finds before the first colon stand there in the normalized
address. -/
theorem exists_normalizedAddress_eq_of_schemeBefore? {cs s : List Char}
    (h : schemeBefore? cs = some s) :
    (∀ c ∈ s, isSchemeChar c = true) ∧ ∃ rest, normalizedAddress cs = s ++ ':' :: rest := by
  induction cs generalizing s with
  | nil => cases h
  | cons c cs ih =>
    unfold schemeBefore? at h
    split at h
    · next hcolon =>
      subst hcolon
      cases h
      exact ⟨List.forall_mem_nil _, _, rfl⟩
    split at h
    · next hchar =>
      obtain ⟨t, ht, rfl⟩ := Option.map_eq_some_iff.1 h
      obtain ⟨hall, rest, hrest⟩ := ih ht
      refine ⟨List.forall_mem_cons.2 ⟨(isSchemeChar_toLower hchar).2.2, hall⟩, rest, ?_⟩
      rw [normalizedAddress_of_schemeChar hchar, hrest, List.cons_append]
    · cases h

/-- The scheme that stands before the first colon is found. -/
theorem scheme?_append_colon {c : Char} {s : List Char} (hc : isLowerLetter c = true)
    (hs : ∀ d ∈ s, isSchemeChar d = true) (rest : List Char) :
    scheme? (c :: s ++ ':' :: rest) = some (c :: s) := by
  have hall : ∀ d ∈ c :: s, isSchemeChar d = true :=
    List.forall_mem_cons.2 ⟨by rw [isSchemeChar, hc]; rfl, hs⟩
  have hfront : (c :: s ++ ':' :: rest).takeWhile isSchemeChar = c :: s := by
    rw [List.takeWhile_append_of_pos hall, List.takeWhile_cons_of_neg (by decide), List.append_nil]
  have hback : (c :: s ++ ':' :: rest).dropWhile isSchemeChar = ':' :: rest := by
    rw [List.dropWhile_append_of_pos hall, List.dropWhile_cons_of_neg (by decide)]
  unfold scheme?
  simp only [hfront, hback, List.head?_cons, Option.any_some, hc, beq_self_eq_true, Bool.and_self,
    if_true]

/-- The allow-list finds the scheme that a browser finds. -/
theorem scheme?_normalizedAddress {cs s : List Char} (h : browserScheme? cs = some s) :
    scheme? (normalizedAddress cs) = some s := by
  rw [← normalizedAddress_browserAddress]
  unfold browserScheme? at h
  split at h
  · cases h
  · next c ds hds =>
    split at h
    · next halpha =>
      -- Both read the same letter first, and the same characters up to the same colon.
      obtain ⟨t, ht, rfl⟩ := Option.map_eq_some_iff.1 h
      obtain ⟨hall, rest, hrest⟩ := exists_normalizedAddress_eq_of_schemeBefore? ht
      have hchar : (c.isAlphanum || c == '+' || c == '-' || c == '.') = true := by
        simp [Char.isAlphanum, halpha]
      rw [hds, normalizedAddress_of_schemeChar hchar, hrest, ← List.cons_append]
      exact scheme?_append_colon (isLowerLetter_toLower halpha) hall rest
    · cases h

/-- A safe address with a scheme is on the web, or holds an image other than a drawing. -/
theorem isSafeAddress_of_scheme? {cs s : List Char} (hscheme : scheme? cs = some s)
    (h : isSafeAddress cs = true) :
    s = "http".toList ∨ s = "https".toList ∨
      s = "data".toList ∧ imageData <+: cs ∧ ¬ drawingData <+: cs := by
  rw [isSafeAddress, hscheme] at h
  simp only at h
  split at h
  · next hweb => exact hweb.imp_right .inl
  split at h
  · next hdata =>
    refine .inr (.inr ⟨hdata, ?_⟩)
    simpa [← List.isPrefixOf_iff_prefix] using h
  · cases h

/-! ### Disguises -/

/-- The second text is the first one with characters without weight put in, and with letters of
ASCII in another case. -/
inductive Disguises : List Char → List Char → Prop
  | nil : Disguises [] []
  | insert {c : Char} {cs ds : List Char} (hweight : isWeightless c = true)
    (h : Disguises cs ds) : Disguises cs (c :: ds)
  | letter {c d : Char} {cs ds : List Char} (hcase : c.toLower = d.toLower)
    (h : Disguises cs ds) : Disguises (c :: cs) (d :: ds)

/-- A text is a disguise of `cs` if taking out all characters without weight leaves `cs`, up to the
case of the letters. -/
theorem disguises_of_map_toLower_eq {cs ds : List Char}
    (h : cs.map Char.toLower = (ds.filter fun c => !isWeightless c).map Char.toLower) :
    Disguises cs ds := by
  induction ds generalizing cs with
  | nil =>
    obtain rfl := List.map_eq_nil_iff.1 h
    exact .nil
  | cons d ds ih =>
    by_cases hweight : isWeightless d
    · rw [List.filter_cons_of_neg (by simp [hweight])] at h
      exact .insert hweight (ih h)
    · rw [List.filter_cons_of_pos (by simp [hweight]), List.map_cons] at h
      obtain ⟨c, cs, rfl, hcase, h⟩ := List.map_eq_cons_iff.1 h
      exact .letter hcase (ih h)

theorem normalizedAddress_eq_of_disguises {cs ds : List Char} (h : Disguises cs ds) :
    normalizedAddress ds = normalizedAddress cs := by
  induction h with
  | nil => rfl
  | insert hweight _ ih => rw [normalizedAddress_of_weightless hweight, ih]
  | letter hcase _ ih =>
    rw [normalizedAddress_cons, ih, ← normalizedAddress_singleton_of_toLower_eq hcase,
      ← normalizedAddress_cons]

/-- The verdict on a disguised value is that on the value. -/
theorem toOption_checkAttribute_of_disguises {value disguised : String}
    (h : Disguises value.toList disguised.toList) (element name : String) :
    (checkAttribute element name disguised).toOption =
      (checkAttribute element name value).toOption := by
  simp only [checkAttribute, normalizedAddress_eq_of_disguises h]
  -- Only the text of the last rejection shows the value itself.
  split
  · rfl
  split
  · rfl
  split
  · rfl
  split <;> rfl

/-! ### Verdicts -/

/-- A kept address is safe. -/
theorem isSafeAddress_of_checkAttribute {element value : String}
    (h : checkAttribute element "href" value = .ok .keep) :
    isSafeAddress (normalizedAddress value.toList) = true := by
  unfold checkAttribute at h
  simp only at h
  split at h
  · cases h
  split at h
  · cases h
  split at h
  · cases h
  split at h
  · cases h
  · next hsafe => simpa using hsafe

/-- A kept address has for a browser no scheme but `http`, `https` and `data`, the last one only for
images other than drawings. An attribute whose value is rejected stays rejected when characters
without weight are put into the value, or letters written in another case. -/
theorem checkAttribute_safe (element : String) :
    (∀ value, checkAttribute element "href" value = .ok .keep →
      ∀ s ∈ browserScheme? value.toList,
        s = "http".toList ∨ s = "https".toList ∨
          s = "data".toList ∧ imageData <+: normalizedAddress value.toList ∧
            ¬ drawingData <+: normalizedAddress value.toList) ∧
      ∀ name value disguised r, Disguises value.toList disguised.toList →
        checkAttribute element name value = .error r →
          ∃ r', checkAttribute element name disguised = .error r' := by
  constructor
  · intro value hkeep s hs
    exact isSafeAddress_of_scheme? (scheme?_normalizedAddress hs)
      (isSafeAddress_of_checkAttribute hkeep)
  · intro name value disguised r hdisguise herror
    have hsame := toOption_checkAttribute_of_disguises hdisguise element name
    rw [herror] at hsame
    cases hcheck : checkAttribute element name disguised with
    | error r' => exact ⟨r', rfl⟩
    | ok v =>
      rw [hcheck] at hsame
      cases hsame

/-- A disguised image address is kept, and a browser reads it as `data`. A script does not get
through in a disguise. -/
theorem checkAttribute_safe_disguised :
    browserScheme? " Da\tTA:image/png;base64,AA".toList = some "data".toList ∧
      imageData <+: normalizedAddress " Da\tTA:image/png;base64,AA".toList ∧
      ∃ r, checkAttribute "image" "fill" "java\nSCRIPT\x01:alert(1)" = .error r := by
  have hscheme : browserScheme? " Da\tTA:image/png;base64,AA".toList = some "data".toList := by
    decide +kernel
  have hkeep : checkAttribute "image" "href" " Da\tTA:image/png;base64,AA" = .ok .keep := by
    decide +kernel
  have hplain : checkAttribute "image" "fill" "javascript:alert(1)" =
      .error (.scriptAddress "fill" "image") := by
    decide +kernel
  have hdisguise :
      Disguises "javascript:alert(1)".toList "java\nSCRIPT\x01:alert(1)".toList :=
    disguises_of_map_toLower_eq (by decide +kernel)
  refine ⟨hscheme, ?_, (checkAttribute_safe "image").2 _ _ _ _ hdisguise hplain⟩
  rcases (checkAttribute_safe "image").1 _ hkeep _ hscheme with h | h | h
  · cases h
  · cases h
  · exact h.2.1

end Mockup.Markup
