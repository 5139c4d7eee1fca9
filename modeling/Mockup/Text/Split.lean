/-!
# Splitting texts

Texts are split and joined as lists of characters. `splitAt?` looks for a fixed text inside another
one, `pieces` cuts at every separating character, and the lemmas state that nothing is lost.
-/

namespace Mockup.Text

/-- The pieces of a text between the characters that satisfy `sep`, empty pieces included. -/
def pieces (sep : Char → Bool) : List Char → List (List Char)
  | [] => [[]]
  | c :: cs =>
    if sep c then [] :: pieces sep cs
    else match pieces sep cs with
      | [] => [[c]]
      | p :: ps => (c :: p) :: ps

/-- There is always at least one piece. -/
theorem pieces_ne_nil (sep : Char → Bool) (cs : List Char) : pieces sep cs ≠ [] := by
  cases cs with
  | nil => simp [pieces]
  | cons c cs =>
    unfold pieces
    split
    · simp
    · split <;> simp

/-- No piece holds a separating character. -/
theorem not_sep_of_mem_pieces {sep : Char → Bool} {cs p : List Char} (hp : p ∈ pieces sep cs) :
    ∀ c ∈ p, sep c = false := by
  induction cs generalizing p with
  | nil => simp_all [pieces]
  | cons d cs ih =>
    unfold pieces at hp
    split at hp
    · rcases List.mem_cons.1 hp with rfl | h
      · simp
      · exact ih h
    · next hd =>
      split at hp
      · simp_all
      · next q qs hq =>
        rw [hq] at ih
        rcases List.mem_cons.1 hp with rfl | h
        · intro c hc
          rcases List.mem_cons.1 hc with rfl | hc
          · simpa using hd
          · exact ih (List.mem_cons_self ..) c hc
        · exact ih (List.mem_cons_of_mem _ h)

/-- The text before and after the first occurrence of `pattern`. -/
def splitAt? (pattern : List Char) : List Char → Option (List Char × List Char)
  | [] => if pattern.isEmpty then some ([], []) else none
  | c :: cs =>
    if pattern.isPrefixOf (c :: cs) then some ([], (c :: cs).drop pattern.length)
    else (splitAt? pattern cs).map fun (before, after) => (c :: before, after)

/-- The two sides of an occurrence and the pattern between them make up the text. -/
theorem eq_append_of_splitAt? {pattern cs before after : List Char}
    (h : splitAt? pattern cs = some (before, after)) : cs = before ++ pattern ++ after := by
  induction cs generalizing before with
  | nil =>
    unfold splitAt? at h
    split at h <;> simp_all
  | cons c cs ih =>
    unfold splitAt? at h
    split at h
    · next hp =>
      obtain ⟨rest, hrest⟩ := List.isPrefixOf_iff_prefix.1 hp
      simp only [Option.some.injEq, Prod.mk.injEq] at h
      obtain ⟨rfl, rfl⟩ := h
      rw [← hrest]
      simp
    · rw [Option.map_eq_some_iff] at h
      obtain ⟨⟨b, a⟩, hb, heq⟩ := h
      simp only [Prod.mk.injEq] at heq
      obtain ⟨rfl, rfl⟩ := heq
      simp [ih hb]

/-- Whether `pattern` occurs in the text. -/
def contains (pattern cs : List Char) : Bool :=
  (splitAt? pattern cs).isSome

/-- The text without the characters at its end that satisfy `p`. -/
def dropTrailing (p : Char → Bool) (cs : List Char) : List Char :=
  (cs.reverse.dropWhile p).reverse

end Mockup.Text
