import Mockup.Proofs.Except
import Mockup.Xml.Reader

/-!
# What a reader leaves

Every function that reads from the front of a document leaves an end of the text that it was given.
So each part of a document that is read stands somewhere in the text.

## Main results

* `repeatRead_invariant`: what each step keeps is kept by repeated reading.
* `suffix_of_readDeclaration`, `suffix_of_miscellany`, `suffix_of_openingTag`,
  `suffix_of_closingTag`: what is left after the parts of a document.
-/

namespace Mockup

namespace Text

variable {σ ε : Type}

/-- What holds at first and is kept by each step holds when the reading ends. -/
theorem repeatRead_invariant {step : σ → List Char → Except ε (Progress σ)}
    {P : σ → List Char → Prop}
    (hstep : ∀ s cs p, P s cs → step s cs = .ok p → P p.state p.rest) {s t : σ}
    {cs rest : List Char} (h : P s cs) (hread : repeatRead step s cs = .ok (t, rest)) :
    P t rest := by
  -- A reading goes on only with a shorter text, so the induction is on the length of the text.
  induction hlength : cs.length using Nat.strongRecOn generalizing s cs with
  | ind n ih =>
  rw [repeatRead_eq] at hread
  cases hp : step s cs with
  | error e =>
    rw [hp] at hread
    cases hread
  | ok p =>
    have hkept := hstep s cs p h hp
    rw [hp] at hread
    simp only at hread
    split at hread
    · next hagain => exact ih _ (hlength ▸ hagain.2) hkept hread rfl
    · cases hread
      exact hkept

/-- A reading whose steps leave an end of the text leaves an end of the text. -/
theorem suffix_of_repeatRead {step : σ → List Char → Except ε (Progress σ)}
    (hstep : ∀ s cs p, step s cs = .ok p → p.rest <:+ cs) {s t : σ} {cs rest : List Char}
    (hread : repeatRead step s cs = .ok (t, rest)) : rest <:+ cs :=
  repeatRead_invariant (P := fun _ back => back <:+ cs)
    (fun s _ p hback hp => (hstep s _ p hp).trans hback) (List.suffix_refl cs) hread

end Text

namespace Xml

variable {cs rest : List Char}

theorem suffix_skipSpaces (cs : List Char) : skipSpaces cs <:+ cs :=
  List.dropWhile_suffix isSpace

theorem suffix_of_expectChar {due : Char} (h : expectChar due cs = .ok rest) : rest <:+ cs := by
  cases cs with
  | nil => cases h
  | cons c cs =>
    rw [expectChar] at h
    split at h
    · cases h
      exact List.suffix_cons c _
    · cases h

theorem suffix_of_expectText {due : String} (h : expectText due cs = .ok rest) : rest <:+ cs := by
  unfold expectText at h
  split at h
  · cases h
    exact List.drop_suffix _ cs
  · cases h

theorem suffix_of_spanChars {p : Char → Bool} {front : List Char}
    (h : spanChars p cs = .ok (front, rest)) : rest <:+ cs := by
  unfold spanChars at h
  simp only at h
  split at h
  · split at h
    · cases h
      exact List.dropWhile_suffix _
    · cases h
  · cases h
    exact List.nil_suffix

theorem suffix_of_spanBefore {mark front : List Char}
    (h : spanBefore mark cs = .ok (front, rest)) : rest <:+ cs := by
  induction cs generalizing front with
  | nil =>
    cases h
    exact List.nil_suffix
  | cons c cs ih =>
    unfold spanBefore at h
    split at h
    · cases h
    split at h
    · cases h
      exact List.suffix_refl _
    · obtain ⟨⟨front, back⟩, hback, heq⟩ := map_eq_ok_iff.1 h
      cases heq
      exact (ih hback).trans (List.suffix_cons c cs)

theorem suffix_of_simpleName {name : String} (h : simpleName cs = .ok (name, rest)) :
    rest <:+ cs := by
  unfold simpleName at h
  split at h
  · cases h
  · split at h
    · cases h
      exact List.dropWhile_suffix _
    · cases h

theorem suffix_of_qualifiedName {name : QualifiedName}
    (h : qualifiedName cs = .ok (name, rest)) : rest <:+ cs := by
  unfold qualifiedName at h
  split at h
  · split at h
    · cases h
      exact List.dropWhile_suffix _
    · cases h
  · cases h

/-! ### Comments, instructions and attributes -/

theorem suffix_of_readComment {text : String} (h : readComment cs = .ok (text, rest)) :
    rest <:+ cs := by
  unfold readComment at h
  obtain ⟨⟨front, back⟩, hback, h⟩ := bind_eq_ok_iff.1 h
  obtain ⟨after, hafter, h⟩ := bind_eq_ok_iff.1 h
  split at h
  · cases h
  · cases h
    exact (suffix_of_expectText hafter).trans
      ((suffix_of_spanBefore hback).trans (List.drop_suffix 4 cs))

theorem suffix_of_readInstruction {target : String}
    (h : readInstruction cs = .ok (target, rest)) : rest <:+ cs := by
  unfold readInstruction at h
  split at h
  · cases h
  · obtain ⟨⟨name, afterName⟩, hname, h⟩ := bind_eq_ok_iff.1 h
    obtain ⟨⟨front, back⟩, hback, h⟩ := bind_eq_ok_iff.1 h
    obtain ⟨after, hafter, h⟩ := bind_eq_ok_iff.1 h
    cases h
    exact (suffix_of_expectText hafter).trans ((suffix_of_spanBefore hback).trans
      ((suffix_skipSpaces _).trans ((suffix_of_simpleName hname).trans (List.drop_suffix 2 cs))))

theorem suffix_of_equalsSign (h : equalsSign cs = .ok rest) : rest <:+ cs := by
  unfold equalsSign at h
  obtain ⟨after, hafter, h⟩ := bind_eq_ok_iff.1 h
  cases h
  exact (suffix_skipSpaces _).trans ((suffix_of_expectChar hafter).trans (suffix_skipSpaces cs))

theorem suffix_of_openingQuote {quote : Char} (h : openingQuote cs = .ok (quote, rest)) :
    rest <:+ cs := by
  unfold openingQuote at h
  split at h
  · cases h
  · split at h
    · cases h
      exact List.suffix_cons _ _
    · cases h

theorem suffix_of_readAttribute {name : QualifiedName} {value : List Char}
    (h : readAttribute cs = .ok (name, value, rest)) : rest <:+ cs := by
  unfold readAttribute at h
  obtain ⟨⟨_, afterName⟩, hname, h⟩ := bind_eq_ok_iff.1 h
  obtain ⟨afterEquals, hequals, h⟩ := bind_eq_ok_iff.1 h
  obtain ⟨⟨quote, afterQuote⟩, hquote, h⟩ := bind_eq_ok_iff.1 h
  obtain ⟨⟨_, afterValue⟩, hvalue, h⟩ := bind_eq_ok_iff.1 h
  obtain ⟨after, hafter, h⟩ := bind_eq_ok_iff.1 h
  cases h
  exact (suffix_of_expectChar hafter).trans ((suffix_of_spanChars hvalue).trans
    ((suffix_of_openingQuote hquote).trans
      ((suffix_of_equalsSign hequals).trans (suffix_of_qualifiedName hname))))

/-! ### The declaration and what stands around the outermost element -/

theorem suffix_of_declarationSpace (h : declarationSpace cs = .ok rest) : rest <:+ cs := by
  unfold declarationSpace at h
  split at h
  · cases h
    exact List.suffix_refl _
  · split at h
    · cases h
      exact suffix_skipSpaces _
    · cases h

theorem suffix_of_readDeclaration (h : readDeclaration cs = .ok rest) : rest <:+ cs := by
  -- The last setting may be missing; its end mark stands after it all the same.
  have hend (after : List Char) (h : expectText "?>" (skipSpaces after) = .ok rest) :
      rest <:+ after := (suffix_of_expectText h).trans (suffix_skipSpaces after)
  have halone (after : List Char) (h : (if startsWith "standalone" after then
        readAttribute after >>= fun read => expectText "?>" (skipSpaces read.2.2)
      else expectText "?>" (skipSpaces after)) = .ok rest) : rest <:+ after := by
    split at h
    · obtain ⟨⟨_, _, back⟩, hback, h⟩ := bind_eq_ok_iff.1 h
      exact (hend back h).trans (suffix_of_readAttribute hback)
    · exact hend after h
  unfold readDeclaration at h
  obtain ⟨start, hstart, h⟩ := bind_eq_ok_iff.1 h
  have hstart := (suffix_of_declarationSpace hstart).trans (List.drop_suffix 5 cs)
  dsimp only at h
  split at h
  · cases h
  obtain ⟨⟨_, _, afterVersion⟩, hversion, h⟩ := bind_eq_ok_iff.1 h
  obtain ⟨spaced, hspaced, h⟩ := bind_eq_ok_iff.1 h
  have hspaced : spaced <:+ cs :=
    (suffix_of_declarationSpace hspaced).trans ((suffix_of_readAttribute hversion).trans hstart)
  split at h
  · obtain ⟨⟨_, _, back⟩, hback, h⟩ := bind_eq_ok_iff.1 h
    obtain ⟨after, hafter, h⟩ := bind_eq_ok_iff.1 h
    exact (halone after h).trans ((suffix_of_declarationSpace hafter).trans
      ((suffix_of_readAttribute hback).trans hspaced))
  · exact (halone spaced h).trans hspaced

theorem suffix_of_miscellany (h : miscellany cs = .ok rest) : rest <:+ cs := by
  unfold miscellany at h
  obtain ⟨⟨_, back⟩, hback, h⟩ := bind_eq_ok_iff.1 h
  cases h
  refine Text.suffix_of_repeatRead ?_ hback
  intro s ds p hp
  simp only at hp
  split at hp
  · obtain ⟨⟨_, after⟩, hafter, hp⟩ := bind_eq_ok_iff.1 hp
    cases hp
    exact (suffix_of_readComment hafter).trans (suffix_skipSpaces ds)
  · split at hp
    · obtain ⟨⟨_, after⟩, hafter, hp⟩ := bind_eq_ok_iff.1 hp
      cases hp
      exact (suffix_of_readInstruction hafter).trans (suffix_skipSpaces ds)
    · cases hp
      exact suffix_skipSpaces ds

/-! ### Tags -/

theorem suffix_of_tagStep {s : TagState} {p : Text.Progress TagState}
    (h : tagStep s cs = .ok p) : p.rest <:+ cs := by
  unfold tagStep at h
  split at h
  · cases h
    exact List.suffix_refl _
  · next c ds =>
    have hspaces := suffix_skipSpaces (c :: ds)
    -- After blanks stands the end of the tag, with a slash or without, or an attribute.
    split at h
    · cases h
    · next back heq =>
      rw [heq] at hspaces
      obtain ⟨after, hafter, h⟩ := bind_eq_ok_iff.1 h
      cases h
      exact (suffix_of_expectChar hafter).trans ((List.suffix_cons _ back).trans hspaces)
    · next back heq =>
      rw [heq] at hspaces
      cases h
      exact (List.suffix_cons _ back).trans hspaces
    · next d back _ _ heq =>
      rw [heq] at hspaces
      dsimp only at h
      split at h
      · cases h
      obtain ⟨⟨_, _, after⟩, hafter, h⟩ := bind_eq_ok_iff.1 h
      obtain ⟨_, -, h⟩ := bind_eq_ok_iff.1 h
      obtain ⟨_, -, h⟩ := bind_eq_ok_iff.1 h
      cases h
      exact (suffix_of_readAttribute hafter).trans hspaces

theorem suffix_of_openingTag {tag : Tag} (h : openingTag cs = .ok (tag, rest)) : rest <:+ cs := by
  unfold openingTag at h
  simp only at h
  obtain ⟨⟨name, afterName⟩, hname, h⟩ := bind_eq_ok_iff.1 h
  dsimp only at h
  split at h
  · cases h
  obtain ⟨⟨s, back⟩, hback, h⟩ := bind_eq_ok_iff.1 h
  cases h
  exact (Text.suffix_of_repeatRead (fun _ _ _ => suffix_of_tagStep) hback).trans
    ((suffix_of_qualifiedName hname).trans (List.drop_suffix 1 cs))

theorem suffix_of_closingTag {name : QualifiedName} (h : closingTag cs = .ok (name, rest)) :
    rest <:+ cs := by
  unfold closingTag at h
  obtain ⟨⟨_, afterName⟩, hname, h⟩ := bind_eq_ok_iff.1 h
  obtain ⟨after, hafter, h⟩ := bind_eq_ok_iff.1 h
  cases h
  exact (suffix_of_expectChar hafter).trans ((suffix_skipSpaces _).trans
    ((suffix_of_qualifiedName hname).trans (List.drop_suffix 2 cs)))

end Xml

end Mockup
