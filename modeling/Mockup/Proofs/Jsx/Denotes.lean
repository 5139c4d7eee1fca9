import Mockup.Proofs.Json.Quoted
import Mockup.Text.Split

/-!
# What a literal text stands for

A literal text of a script stands for a sequence of code units of UTF-16. A character stands for its
own units, a backslash with a mark for one unit, and `\u` with four digits of base sixteen for the
unit with that number. Two such units may form the surrogate pair of one character.

## Main results

* `Text.units_injective`: different texts have different code units.
* `Denotes.of_unquote?`: what is read between double quotes is a text with the code units that stand
  there.
* `Denotes.unique`: a literal text stands for one sequence of code units.
-/

namespace Mockup.Text

/-! ### Code units -/

/-- The code units of a character in UTF-16. -/
def unitsOf (c : Char) : List Nat :=
  if c.toNat < 0x10000 then [c.toNat]
  else [0xd800 + (c.toNat - 0x10000) / 0x400, 0xdc00 + (c.toNat - 0x10000) % 0x400]

/-- The code units of a text in UTF-16. -/
def units (cs : List Char) : List Nat :=
  cs.flatMap unitsOf

@[simp]
theorem units_nil : units [] = [] := rfl

@[simp]
theorem units_cons (c : Char) (cs : List Char) : units (c :: cs) = unitsOf c ++ units cs := rfl

/-- A number that is no surrogate is that of a character. -/
theorem toNat_ofNat {n : Nat} (h : n.isValidChar) : (Char.ofNat n).toNat = n := by
  rw [Char.ofNat, dif_pos h]
  rfl

/-- A unit that is no surrogate is a character of its own. -/
theorem unitsOf_ofNat {n : Nat} (hlt : n < 0x10000) (h : n < 0xd800 ∨ 0xe000 ≤ n) :
    unitsOf (Char.ofNat n) = [n] := by
  have hvalid : n.isValidChar := h.imp id fun hle => ⟨by omega, by omega⟩
  rw [unitsOf, toNat_ofNat hvalid, if_pos hlt]

/-- Two surrogates form a character. -/
theorem unitsOf_pair {high low : Nat} (hhigh : 0xd800 ≤ high ∧ high < 0xdc00)
    (hlow : 0xdc00 ≤ low ∧ low < 0xe000) :
    unitsOf (Char.ofNat (0x10000 + (high - 0xd800) * 0x400 + (low - 0xdc00))) = [high, low] := by
  have hvalid : (0x10000 + (high - 0xd800) * 0x400 + (low - 0xdc00)).isValidChar :=
    .inr ⟨by omega, by omega⟩
  rw [unitsOf, toNat_ofNat hvalid, if_neg (by omega), List.cons.injEq, List.cons.injEq]
  exact ⟨by omega, by omega, rfl⟩

/-- The first unit of a character tells whether there is a second one. -/
theorem unitsOf_cases (c : Char) :
    (unitsOf c = [c.toNat] ∧ (c.toNat < 0xd800 ∨ 0xe000 ≤ c.toNat)) ∨
      ∃ high low, unitsOf c = [high, low] ∧ 0xd800 ≤ high ∧ high < 0xe000 ∧
        c.toNat = 0x10000 + (high - 0xd800) * 0x400 + (low - 0xdc00) := by
  have hvalid : c.toNat.isValidChar := c.valid
  by_cases h : c.toNat < 0x10000
  · refine .inl ⟨if_pos h, ?_⟩
    omega
  · refine .inr ⟨_, _, if_neg h, ?_⟩
    omega

/-- Different texts have different code units. -/
theorem units_injective {as bs : List Char} (h : units as = units bs) : as = bs := by
  induction as generalizing bs with
  | nil =>
    cases bs with
    | nil => rfl
    | cons b bs => rcases unitsOf_cases b with ⟨hb, -⟩ | ⟨_, _, hb, -⟩ <;> simp [hb] at h
  | cons a as ih =>
    cases bs with
    | nil => rcases unitsOf_cases a with ⟨ha, -⟩ | ⟨_, _, ha, -⟩ <;> simp [ha] at h
    | cons b bs =>
      rw [units_cons, units_cons] at h
      -- A first unit that is a surrogate belongs to a pair, and any other one is a character of its
      -- own.
      rcases unitsOf_cases a with ⟨ha, hplain⟩ | ⟨high, low, ha, hle, hlt, hnum⟩ <;>
        rcases unitsOf_cases b with ⟨hb, hplain'⟩ | ⟨high', low', hb, hle', hlt', hnum'⟩ <;>
        simp only [ha, hb, List.cons_append, List.nil_append, List.cons.injEq] at h
      · rw [Char.toNat_inj.1 h.1, ih h.2]
      · omega
      · omega
      · obtain ⟨rfl, rfl, hrest⟩ := h
        rw [Char.toNat_inj.1 (hnum.trans hnum'.symm), ih hrest]

end Mockup.Text

namespace Mockup.Jsx

/-! ### Literal texts -/

/-- The code unit that a backslash and a mark stand for. -/
def markedUnit? : Char → Option Nat
  | '"' => some 0x22
  | '\\' => some 0x5c
  | '/' => some 0x2f
  | 'b' => some 0x08
  | 'f' => some 0x0c
  | 'n' => some 0x0a
  | 'r' => some 0x0d
  | 't' => some 0x09
  | _ => none

/-- A literal text stands for code units. The characters of `stops` end it unless they are
escaped. -/
inductive Denotes (stops : List Char) : List Char → List Nat → Prop
  | nil : Denotes stops [] []
  | self {c : Char} {cs : List Char} {us : List Nat} (stop : c ∉ stops) (back : c ≠ '\\')
    (rest : Denotes stops cs us) : Denotes stops (c :: cs) (Text.unitsOf c ++ us)
  | mark {c : Char} {u : Nat} {cs : List Char} {us : List Nat} (mark : markedUnit? c = some u)
    (rest : Denotes stops cs us) : Denotes stops ('\\' :: c :: cs) (u :: us)
  | unit {a b c d : Char} {w x y z : Nat} {cs : List Char} {us : List Nat}
    (first : Json.hexValue? a = some w) (second : Json.hexValue? b = some x)
    (third : Json.hexValue? c = some y) (fourth : Json.hexValue? d = some z)
    (rest : Denotes stops cs us) :
    Denotes stops ('\\' :: 'u' :: a :: b :: c :: d :: cs) ((((w * 16 + x) * 16 + y) * 16 + z) :: us)

/-- The characters of `stops` stand in a text only after backslashes, and each backslash has a
character after it. -/
inductive Shielded (stops : List Char) : List Char → Prop
  | nil : Shielded stops []
  | self {c : Char} {cs : List Char} (stop : c ∉ stops) (back : c ≠ '\\')
    (rest : Shielded stops cs) : Shielded stops (c :: cs)
  | pair {c : Char} {cs : List Char} (rest : Shielded stops cs) : Shielded stops ('\\' :: c :: cs)

namespace Denotes

variable {stops cs front more : List Char} {us vs : List Nat} {c : Char}

/-- Without marks and backslashes a text stands for itself. -/
theorem of_plain (h : ∀ c ∈ cs, c ∉ stops ∧ c ≠ '\\') : Denotes stops cs (Text.units cs) := by
  induction cs with
  | nil => exact .nil
  | cons c cs ih =>
    obtain ⟨hstop, hback⟩ := h c List.mem_cons_self
    exact .self hstop hback (ih fun d hd => h d (List.mem_cons_of_mem _ hd))

/-- A literal text stands for one sequence of code units. -/
theorem unique (h : Denotes stops cs us) (h' : Denotes stops cs vs) : us = vs := by
  -- The first character after a backslash tells which rule applies, so both rules are the same.
  induction h generalizing vs with
  | nil => cases h'; rfl
  | self hstop hback rest ih =>
    cases h' with
    | self _ _ rest' => rw [ih rest']
    | mark | unit => exact absurd rfl hback
  | mark hmark rest ih =>
    cases h' with
    | self _ hback => exact absurd rfl hback
    | mark hmark' rest' => rw [ih rest', Option.some.inj (hmark.symm.trans hmark')]
    | unit => simp [markedUnit?] at hmark
  | unit ha hb hc hd rest ih =>
    cases h' with
    | self _ hback => exact absurd rfl hback
    | mark hmark => simp [markedUnit?] at hmark
    | unit ha' hb' hc' hd' rest' =>
      rw [ih rest', Option.some.inj (ha.symm.trans ha'), Option.some.inj (hb.symm.trans hb'),
        Option.some.inj (hc.symm.trans hc'), Option.some.inj (hd.symm.trans hd')]

/-- The characters that end a literal text stand in it only after backslashes. -/
theorem shielded (hstops : ∀ c ∈ stops, Json.hexValue? c = none) (h : Denotes stops cs us) :
    Shielded stops cs := by
  -- The digits of an escape end no text and escape nothing.
  have digit {c : Char} {n : Nat} {cs : List Char} (hc : Json.hexValue? c = some n)
      (rest : Shielded stops cs) : Shielded stops (c :: cs) := by
    refine .self (fun hmem => ?_) ?_ rest
    · simp [hstops c hmem] at hc
    · rintro rfl
      cases hc
  induction h with
  | nil => exact .nil
  | self hstop hback _ ih => exact .self hstop hback ih
  | mark _ _ ih => exact .pair ih
  | unit ha hb hc hd _ ih => exact .pair (digit ha (digit hb (digit hc (digit hd ih))))

/-- What ends a string stands in its content only after backslashes. -/
theorem shielded_string {quote : Char} (hquote : quote = '"' ∨ quote = '\'')
    (h : Denotes [quote, '\n'] cs us) : Shielded [quote, '\n'] cs := by
  refine h.shielded (List.forall_mem_cons.2 ⟨?_, List.forall_mem_singleton.2 rfl⟩)
  rcases hquote with rfl | rfl <;> rfl

/-- A backtick stands in the content of a template only after a backslash. -/
theorem shielded_template (h : Denotes ['\x60'] cs us) : Shielded ['\x60'] cs :=
  h.shielded (List.forall_mem_singleton.2 rfl)

/-! ### Reading between double quotes -/

/-- A text before another one stands for code units, whatever the other one stands for. -/
def Prefix (stops front : List Char) (us : List Nat) : Prop :=
  ∀ {cs : List Char} {vs : List Nat}, Denotes stops cs vs → Denotes stops (front ++ cs) (us ++ vs)

/-- Four digits of base sixteen after a backslash and their letter stand for one unit. -/
theorem Prefix.codeUnit (stops : List Char) {n : Nat} (h : Json.codeUnit? cs = some (n, more)) :
    n < 0x10000 ∧ ∃ front, cs = front ++ more ∧ Prefix stops ('\\' :: 'u' :: front) [n] := by
  unfold Json.codeUnit? at h
  split at h
  · next a b c d rest =>
    simp only [Option.bind_eq_bind, Option.bind_eq_some_iff, Option.some.injEq,
      Prod.mk.injEq] at h
    obtain ⟨w, ha, x, hb, y, hc, z, hd, rfl, rfl⟩ := h
    have hw := Json.lt_of_hexValue? ha
    have hx := Json.lt_of_hexValue? hb
    have hy := Json.lt_of_hexValue? hc
    have hz := Json.lt_of_hexValue? hd
    exact ⟨by omega, [a, b, c, d], rfl, .unit ha hb hc hd⟩
  · simp at h

/-- A code unit or a surrogate pair stands for the units of one character. -/
theorem Prefix.unicode (stops : List Char) (h : Json.unicode? cs = some (c, more)) :
    ∃ front, cs = front ++ more ∧ Prefix stops ('\\' :: 'u' :: front) (Text.unitsOf c) := by
  unfold Json.unicode? at h
  simp only [Option.bind_eq_bind, Option.bind_eq_some_iff] at h
  obtain ⟨⟨high, rest⟩, hunit, h⟩ := h
  obtain ⟨hlt, first, rfl, hfirst⟩ := Prefix.codeUnit stops hunit
  -- A high surrogate takes the low one that has to follow it; any other unit stands alone.
  split at h
  · next hhigh =>
    split at h
    · next tail heq =>
      obtain rfl : rest = _ := heq
      simp only [Option.bind_eq_some_iff] at h
      obtain ⟨⟨low, last⟩, hunit', h⟩ := h
      obtain ⟨-, second, rfl, hsecond⟩ := Prefix.codeUnit stops hunit'
      split at h
      · next hlow =>
        simp only [Option.some.injEq, Prod.mk.injEq] at h
        obtain ⟨rfl, rfl⟩ := h
        refine ⟨first ++ '\\' :: 'u' :: second, by simp, fun {cs vs} hrest => ?_⟩
        rw [Text.unitsOf_pair hhigh hlow]
        simpa using hfirst (hsecond hrest)
      · simp at h
    · simp at h
  · next hhigh =>
    split at h
    · simp at h
    · next hlow =>
      simp only [Option.some.injEq, Prod.mk.injEq] at h
      obtain ⟨rfl, rfl⟩ := h
      refine ⟨first, rfl, ?_⟩
      rwa [Text.unitsOf_ofNat hlt (by omega)]

/-- What follows a backslash stands for the units of one character. -/
theorem Prefix.escape (h : Json.escape? cs = some (c, more)) :
    ∃ front, cs = front ++ more ∧ Prefix stops ('\\' :: front) (Text.unitsOf c) := by
  unfold Json.escape? at h
  split at h
  case h_9 =>
    obtain ⟨front, rfl, hfront⟩ := Prefix.unicode stops h
    exact ⟨'u' :: front, rfl, hfront⟩
  case h_10 => simp at h
  all_goals
    cases h
    exact ⟨[_], rfl, .mark rfl⟩

/-- What is read between double quotes has the code units that stand there. -/
theorem of_unquote? {text : List Char} (h : Json.unquote? cs = some (text, more)) :
    ∃ front, cs = front ++ '"' :: more ∧ Denotes ['"', '\n'] front (Text.units text) := by
  -- The cases are those of the reader: the end of the text, the quote, an escape that fails or is
  -- read, a control character and any other character.
  fun_induction Json.unquote? cs generalizing text with
  | case1 => simp at h
  | case2 rest =>
    cases h
    exact ⟨[], rfl, .nil⟩
  | case3 => simp at h
  | case4 cs c rest hescape ih =>
    obtain ⟨⟨tail, last⟩, htail, heq⟩ := Option.map_eq_some_iff.1 h
    cases heq
    obtain ⟨front, rfl, hfront⟩ := ih htail
    obtain ⟨first, rfl, hfirst⟩ := Prefix.escape hescape
    exact ⟨'\\' :: (first ++ front), by simp, hfirst hfront⟩
  | case5 => simp at h
  | case6 c rest hquote hback hlow ih =>
    obtain ⟨⟨tail, last⟩, htail, heq⟩ := Option.map_eq_some_iff.1 h
    cases heq
    obtain ⟨front, rfl, hfront⟩ := ih htail
    have hstop : c ∉ ['"', '\n'] := by
      rw [List.mem_cons, List.mem_singleton, not_or]
      exact ⟨by simpa using hquote, by rintro rfl; exact hlow (by decide)⟩
    exact ⟨c :: front, rfl, .self hstop (by simpa using hback) hfront⟩

end Denotes

/-! ### Tokens -/

/-- A text is one token of a script, a string or a template without substitutions, and `text` has
the code units that it stands for. -/
inductive Token : List Char → List Char → Prop
  | string {quote : Char} {content text : List Char} (quote_eq : quote = '"' ∨ quote = '\'')
    (denotes : Denotes [quote, '\n'] content (Text.units text)) :
    Token (quote :: (content ++ [quote])) text
  | template {content text : List Char}
    (substitution : Text.contains ['$', '\x7b'] content = false)
    (denotes : Denotes ['\x60'] content (Text.units text)) :
    Token ('\x60' :: (content ++ ['\x60'])) text

/-- A token stands for one text. -/
theorem Token.unique {token text text' : List Char} (h : Token token text)
    (h' : Token token text') : text = text' := by
  cases h with
  | string hquote hdenotes =>
    -- The first character of a token tells its kind, so both tokens are of the same kind.
    generalize htoken : _ :: (_ ++ [_]) = token at h'
    cases h' with
    | string _ hdenotes' =>
      obtain ⟨rfl, heq⟩ := List.cons.inj htoken
      obtain ⟨rfl, -⟩ := List.append_inj' heq rfl
      exact Text.units_injective (hdenotes.unique hdenotes')
    | template =>
      obtain ⟨rfl, -⟩ := List.cons.inj htoken
      simp at hquote
  | template _ hdenotes =>
    generalize htoken : _ :: (_ ++ [_]) = token at h'
    cases h' with
    | string hquote =>
      obtain ⟨rfl, -⟩ := List.cons.inj htoken
      simp at hquote
    | template _ hdenotes' =>
      obtain ⟨rfl, -⟩ := List.append_inj' (List.cons.inj htoken).2 rfl
      exact Text.units_injective (hdenotes.unique hdenotes')

end Mockup.Jsx
