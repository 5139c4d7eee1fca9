import Mockup.Jsx.ByteScan
import Mockup.Proofs.Jsx.Reads
import Mockup.Proofs.Text.Slice

/-!
# The bytes at a cursor

What the byte reader sees at a place between two characters. A character of ASCII is one byte, and
all bytes of any other character lie above ASCII, so that no byte inside a character can be taken
for a character of its own.

## Main results

* `exists_byteAt?`: every byte of a character above ASCII lies above ASCII.
* `after_inside`: what passes over bytes above ASCII gets from inside a character to its end.
* `skipWhile_eq`: skipping bytes skips characters, if the test is the same for all above ASCII.
* `slice_since`: the text between a boundary and a cursor behind it.
-/

namespace Mockup.Jsx.Source

open Text (IsBoundary byteLength)

/-! ### Characters above ASCII -/

section

variable {c d : Char}

/-- A character above ASCII is none of ASCII. -/
theorem ne_of_high (hc : 0x80 ≤ c.toNat) (hd : d.toNat < 0x80) : c ≠ d := by
  rintro rfl
  omega

/-- A character above ASCII is behind the end of every range in ASCII. -/
theorem not_le_high (hc : 0x80 ≤ c.toNat) (d : Char) (hd : d.toNat < 0x80) : ¬c.val ≤ d.val :=
  fun hle => absurd (Nat.le_trans hc (UInt32.le_iff_toNat_le.1 hle)) (Nat.not_le.2 hd)

theorem isAlpha_high (hc : 0x80 ≤ c.toNat) : c.isAlpha = false := by
  have hupper : c.isUpper = false :=
    decide_eq_false fun h => not_le_high hc 'Z' (by decide) h.2
  have hlower : c.isLower = false :=
    Bool.and_eq_false_iff.2 (.inr (decide_eq_false (not_le_high hc 'z' (by decide))))
  exact Bool.or_eq_false_iff.2 ⟨hupper, hlower⟩

theorem isAlphanum_high (hc : 0x80 ≤ c.toNat) : c.isAlphanum = false := by
  have hdigit : c.isDigit = false :=
    Bool.and_eq_false_iff.2 (.inr (decide_eq_false (not_le_high hc '9' (by decide))))
  exact Bool.or_eq_false_iff.2 ⟨isAlpha_high hc, hdigit⟩

theorem isTagChar_high (hc : 0x80 ≤ c.toNat) : isTagChar c = false := by
  simp [isTagChar, isAlphanum_high hc, ne_of_high hc]

theorem isAttributeChar_high (hc : 0x80 ≤ c.toNat) : isAttributeChar c = false := by
  simp [isAttributeChar, isAlphanum_high hc, ne_of_high hc]

theorem isAsciiBlank_high (hc : 0x80 ≤ c.toNat) : Text.isAsciiBlank c = false := by
  simp [Text.isAsciiBlank, ne_of_high hc]

theorem isWordChar_high (hc : 0x80 ≤ c.toNat) : isWordChar c = true := by
  simp [isWordChar, hc]

theorem opensElement_high (hc : 0x80 ≤ c.toNat) : opensElement c = false := by
  simp [opensElement, isAlpha_high hc, ne_of_high hc]

end

/-- A test that is the same for all characters above ASCII. -/
def Uniform (p : Char → Bool) : Prop :=
  ∀ c d : Char, 0x80 ≤ c.toNat → 0x80 ≤ d.toNat → p c = p d

theorem Uniform.of_high {p : Char → Bool} {v : Bool} (h : ∀ c : Char, 0x80 ≤ c.toNat → p c = v) :
    Uniform p :=
  fun c d hc hd => (h c hc).trans (h d hd).symm

/-! ### Bytes of characters -/

theorem bytesOf_cons (c : Char) (cs : List Char) :
    bytesOf (c :: cs) = bytesOf [c] ++ bytesOf cs := by
  simp [bytesOf]

theorem bytesOf_append (as bs : List Char) : bytesOf (as ++ bs) = bytesOf as ++ bytesOf bs := by
  simp [bytesOf]

@[simp]
theorem length_bytesOf (cs : List Char) : (bytesOf cs).length = byteLength cs := by
  induction cs with
  | nil => rfl
  | cons c cs ih =>
    rw [bytesOf_cons, List.length_append, ih, Text.byteLength_cons]
    simp [bytesOf]

/-- A character of ASCII is its only byte. -/
theorem bytesOf_ascii {c : Char} (h : c.toNat < 0x80) (cs : List Char) :
    bytesOf (c :: cs) = c :: bytesOf cs := by
  have hbytes : String.utf8EncodeChar c = [c.val.toUInt8] :=
    String.utf8EncodeChar_eq_singleton (Text.utf8Size_of_toNat_lt h)
  have hbyte : Char.ofUInt8 c.val.toUInt8 = c := by
    apply Char.ext
    apply UInt32.toNat_inj.1
    change c.val.toUInt8.toUInt32.toNat = c.val.toNat
    rw [UInt8.toNat_toUInt32, UInt32.toNat_toUInt8]
    exact Nat.mod_eq_of_lt (Nat.lt_trans h (by decide))
  rw [bytesOf, List.flatMap_cons, hbytes, List.map_singleton, hbyte]
  rfl

/-- The bytes of a character above ASCII lie above ASCII. -/
theorem le_of_mem_bytesOf {c b : Char} (h : 0x80 ≤ c.toNat) (hb : b ∈ bytesOf [c]) :
    0x80 ≤ b.toNat := by
  have hc : ¬c.val.toNat ≤ 127 := Nat.not_le.2 h
  have hofNat : ∀ n : Nat, 0x80 ≤ n → n < 0x100 → 0x80 ≤ (Char.ofUInt8 (UInt8.ofNat n)).toNat := by
    intro n hn hlt
    have htoNat : (Char.ofUInt8 (UInt8.ofNat n)).toNat = (UInt8.ofNat n).toNat := rfl
    rwa [htoNat, UInt8.toNat_ofNat', Nat.mod_eq_of_lt hlt]
  obtain ⟨u, hu, rfl⟩ : ∃ u ∈ String.utf8EncodeChar c, Char.ofUInt8 u = b := by
    simpa [bytesOf] using hb
  simp only [String.utf8EncodeChar, hc, if_false] at hu
  -- The encoding has two, three or four bytes, each with its highest bit set.
  split at hu
  · simp only [List.mem_cons, List.not_mem_nil, or_false] at hu
    rcases hu with rfl | rfl <;> exact hofNat _ (by omega) (by omega)
  split at hu
  · simp only [List.mem_cons, List.not_mem_nil, or_false] at hu
    rcases hu with rfl | rfl | rfl <;> exact hofNat _ (by omega) (by omega)
  · simp only [List.mem_cons, List.not_mem_nil, or_false] at hu
    rcases hu with rfl | rfl | rfl | rfl <;> exact hofNat _ (by omega) (by omega)

/-- Bytes that satisfy a test and characters that satisfy it take up the same room. -/
theorem length_takeWhile_bytesOf {p : Char → Bool} (hp : Uniform p) (cs : List Char) :
    ((bytesOf cs).takeWhile p).length = byteLength (cs.takeWhile p) := by
  induction cs with
  | nil => rfl
  | cons c cs ih =>
    rcases Nat.lt_or_ge c.toNat 0x80 with hc | hc
    · rw [bytesOf_ascii hc]
      cases h : p c with
      | false => simp [h]
      | true => simp [h, ih, Text.utf8Size_of_toNat_lt hc, Nat.add_comm]
    · -- All bytes of a longer character lie beyond ASCII, where the test does not tell them apart.
      have hbytes : ∀ b ∈ bytesOf [c], p b = p c := fun b hb =>
        hp b c (le_of_mem_bytesOf hc hb) hc
      rw [bytesOf_cons]
      cases h : p c with
      | true =>
        rw [List.takeWhile_append_of_pos fun b hb => by rw [hbytes b hb, h]]
        simp [h, ih]
      | false =>
        have hpos : 0 < (bytesOf [c]).length := by simpa using c.utf8Size_pos
        obtain ⟨b, bs, hb⟩ := List.exists_cons_of_length_pos hpos
        have hfirst : p b = false := by rw [hbytes b (by simp [hb]), h]
        simp [hb, hfirst, h]

/-- The place of a byte of ASCII is that of the first such character. -/
theorem findIdx?_bytesOf {d : Char} (hd : d.toNat < 0x80) (cs : List Char) :
    (bytesOf cs).findIdx? (· == d) =
      (cs.dropWhile (· != d)).head?.map fun _ => byteLength (cs.takeWhile (· != d)) := by
  induction cs with
  | nil => rfl
  | cons c cs ih =>
    rcases Nat.lt_or_ge c.toNat 0x80 with hc | hc
    · rw [bytesOf_ascii hc, List.findIdx?_cons, ih]
      by_cases h : c = d
      · simp [h]
      · simp [h, Text.utf8Size_of_toNat_lt hc, Function.comp_def, Nat.add_comm]
    · -- The bytes of a longer character are beyond ASCII, so none of them is `d`.
      have hne : ∀ b ∈ bytesOf [c], (b == d) = false := by
        intro b hb
        have hle := le_of_mem_bytesOf hc hb
        exact beq_false_of_ne fun h => by subst h; omega
      have hcd : c ≠ d := fun h => by subst h; omega
      rw [bytesOf_cons, List.findIdx?_append, List.findIdx?_eq_none_iff.2 hne, ih]
      simp [hcd, Function.comp_def, Nat.add_comm]

/-! ### Bytes at a cursor -/

section

variable {source rest : List Char} {here : Cursor} {c d : Char} {start : Nat}

/-- The place after a character of ASCII. -/
theorem offset_advance_ascii (here : Cursor) (hc : c.toNat < 0x80) :
    (here.advance c).offset = here.offset + 1 := by
  rw [Cursor.offset_advance, Text.utf8Size_of_toNat_lt hc]

/-- The rest after the next character. -/
theorem passed_advance_append (h : here.passed ++ c :: rest = source) :
    (here.advance c).passed ++ rest = source := by
  simpa using h

/-- The bytes from a cursor on are those of the rest of the text. -/
theorem drop_bytesOf (h : here.passed ++ rest = source) :
    (bytesOf source).drop here.offset = bytesOf rest := by
  rw [← h, bytesOf_append]
  exact List.drop_left' (by rw [length_bytesOf, here.offset_eq_byteLength])

theorem byteAt?_add (h : here.passed ++ rest = source) (n : Nat) :
    byteAt? source (here.offset + n) = (bytesOf rest)[n]? := by
  rw [byteAt?, ← List.getElem?_drop, drop_bytesOf h]

/-- There is no byte after the end of the text. -/
theorem byteAt?_end (h : here.passed ++ [] = source) (n : Nat) :
    byteAt? source (here.offset + n) = none := by
  rw [byteAt?_add h]
  rfl

theorem byteAt?_nil (h : here.passed ++ [] = source) : byteAt? source here.offset = none :=
  byteAt?_end h 0

/-- At a character of ASCII stands that character. -/
theorem byteAt?_ascii (h : here.passed ++ c :: rest = source) (hc : c.toNat < 0x80) :
    byteAt? source here.offset = some c := by
  have hbyte := byteAt?_add h 0
  rwa [bytesOf_ascii hc] at hbyte

/-- At each place inside a character above ASCII stands a byte above ASCII. -/
theorem exists_byteAt? (h : here.passed ++ c :: rest = source) (hc : 0x80 ≤ c.toNat) {n : Nat}
    (hn : n < c.utf8Size) :
    ∃ b, byteAt? source (here.offset + n) = some b ∧ 0x80 ≤ b.toNat := by
  have hlen : n < (bytesOf [c]).length := by simpa using hn
  refine ⟨(bytesOf [c])[n], ?_, le_of_mem_bytesOf hc (List.getElem_mem hlen)⟩
  rw [byteAt?_add h, bytesOf_cons, List.getElem?_append_left hlen, List.getElem?_eq_getElem hlen]

/-- A byte of a character: in ASCII the character itself. -/
def Shows (b c : Char) : Prop :=
  b = c ∨ (0x80 ≤ b.toNat ∧ 0x80 ≤ c.toNat)

/-- A byte and its character pass the same tests. -/
theorem Shows.apply_eq {b : Char} (h : Shows b c) {p : Char → Bool} (hp : Uniform p) :
    p b = p c := by
  rcases h with rfl | ⟨hb, hc⟩
  · rfl
  · exact hp b c hb hc

/-- A byte is a character of ASCII exactly if its character is. -/
theorem Shows.beq_eq {b : Char} (h : Shows b c) (hd : d.toNat < 0x80) : (b == d) = (c == d) :=
  h.apply_eq (p := (· == d)) (.of_high (v := false) fun _ hc => beq_false_of_ne (ne_of_high hc hd))

theorem Shows.eq_iff {b : Char} (h : Shows b c) (hd : d.toNat < 0x80) : b = d ↔ c = d := by
  rw [← beq_iff_eq, h.beq_eq hd, beq_iff_eq]

/-- The first byte of a character. -/
theorem exists_shows (h : here.passed ++ c :: rest = source) :
    ∃ b, byteAt? source here.offset = some b ∧ Shows b c := by
  rcases Nat.lt_or_ge c.toNat 0x80 with hc | hc
  · exact ⟨c, byteAt?_ascii h hc, .inl rfl⟩
  · obtain ⟨b, hb, hle⟩ := exists_byteAt? h hc c.utf8Size_pos
    exact ⟨b, hb, .inr ⟨hle, hc⟩⟩

/-- The last byte of a character. -/
theorem exists_shows_last (h : here.passed ++ c :: rest = source) :
    ∃ b, byteAt? source ((here.advance c).offset - 1) = some b ∧ Shows b c := by
  have hpos := c.utf8Size_pos
  have hplace : (here.advance c).offset - 1 = here.offset + (c.utf8Size - 1) := by
    rw [Cursor.offset_advance]
    omega
  rw [hplace]
  rcases Nat.lt_or_ge c.toNat 0x80 with hc | hc
  · rw [Text.utf8Size_of_toNat_lt hc]
    exact ⟨c, byteAt?_ascii h hc, .inl rfl⟩
  · obtain ⟨b, hb, hle⟩ := exists_byteAt? h hc (n := c.utf8Size - 1) (by omega)
    exact ⟨b, hb, .inr ⟨hle, hc⟩⟩

/-- The byte at a cursor passes a test that is passed in ASCII only if the next character does. -/
theorem any_byteAt? (h : here.passed ++ rest = source) {p : Char → Bool}
    (hp : ∀ c : Char, 0x80 ≤ c.toNat → p c = false) :
    (byteAt? source here.offset).any p = rest.head?.any p := by
  cases rest with
  | nil =>
    rw [byteAt?_nil h]
    rfl
  | cons c rest =>
    obtain ⟨b, hb, hshows⟩ := exists_shows h
    simp [hb, hshows.apply_eq (.of_high hp)]

/-- A character of ASCII stands at a cursor exactly if it is the next one. -/
theorem byteAt?_beq (h : here.passed ++ rest = source) (hd : d.toNat < 0x80) :
    (byteAt? source here.offset == some d) = (rest.head? == some d) := by
  have hp : ∀ c : Char, 0x80 ≤ c.toNat → (c == d) = false := fun c hc =>
    beq_false_of_ne fun h => by subst h; omega
  have hany := any_byteAt? h hp
  cases hbyte : byteAt? source here.offset <;> cases hhead : rest.head? <;>
    simp_all

/-- What passes over each byte above ASCII gets from inside a character to its end. -/
theorem after_inside {α : Type} {f : Nat → α} (h : here.passed ++ c :: rest = source)
    (hc : 0x80 ≤ c.toNat)
    (hf : ∀ place b, byteAt? source place = some b → 0x80 ≤ b.toNat → f place = f (place + 1))
    {n : Nat} (hn : n ≤ c.utf8Size) : f (here.offset + n) = f (here.advance c).offset := by
  -- The induction is on the number of bytes that are left of the character.
  induction hleft : c.utf8Size - n generalizing n with
  | zero =>
    obtain rfl : n = c.utf8Size := by omega
    rfl
  | succ left ih =>
    obtain ⟨b, hb, hle⟩ := exists_byteAt? h hc (show n < c.utf8Size by omega)
    rw [hf _ b hb hle, Nat.add_assoc]
    exact ih (by omega) (by omega)

/-- Two bytes for a backslash and the character after it end inside that character or at its end. -/
theorem after_escaped {α : Type} {f : Nat → α} (h : here.passed ++ c :: rest = source)
    (hf : ∀ place b, byteAt? source place = some b → 0x80 ≤ b.toNat → f place = f (place + 1)) :
    f (here.offset + 1) = f (here.advance c).offset := by
  rcases Nat.lt_or_ge c.toNat 0x80 with hc | hc
  · rw [offset_advance_ascii here hc]
  · exact after_inside h hc hf c.utf8Size_pos

/-- Bytes that satisfy a test are skipped with the characters that do. -/
theorem skipWhile_eq (h : here.passed ++ rest = source) {p : Char → Bool} (hp : Uniform p) :
    skipWhile source p here.offset = (here.after (rest.takeWhile p)).offset := by
  rw [skipWhile, drop_bytesOf h, length_takeWhile_bytesOf hp, Cursor.offset_after]

/-- Of two cursors in a text the one with less after it is behind the other. -/
theorem offset_le_offset {there : Cursor} {after : List Char} (h : here.passed ++ rest = source)
    (hthere : there.passed ++ after = source) (hle : after.length ≤ rest.length) :
    here.offset ≤ there.offset := by
  have hlen : here.passed.length ≤ there.passed.length := by
    have hsame := congrArg List.length (h.trans hthere.symm)
    simp only [List.length_append] at hsame
    omega
  obtain ⟨more, hmore⟩ := List.prefix_of_prefix_length_le ⟨rest, h⟩ ⟨after, hthere⟩ hlen
  rw [here.offset_eq_byteLength, there.offset_eq_byteLength, ← hmore, Text.byteLength_append]
  exact Nat.le_add_right ..

/-! ### Parts of the text -/

theorem isBoundary_iff {place : Nat} :
    isBoundary source place = true ↔ IsBoundary source place := by
  constructor
  · intro h
    refine ⟨_, _, (Text.takeBytes_append_dropBytes place source).symm, ?_⟩
    exact (beq_iff_eq.1 h).symm
  · intro h
    exact beq_iff_eq.2 h.byteLength_takeBytes

/-- A cursor stands at a boundary. -/
theorem isBoundary_offset (h : here.passed ++ rest = source) : IsBoundary source here.offset :=
  ⟨here.passed, rest, h.symm, here.offset_eq_byteLength⟩

/-- The part between two boundaries may be taken. -/
theorem slice_eq {stop : Nat} (hstart : IsBoundary source start) (hstop : IsBoundary source stop)
    (hle : start ≤ stop) : slice source start stop = pure (Text.slice start stop source) := by
  rw [slice, if_pos]
  simp [isBoundary_iff, hstart, hstop, hle]

/-- The text from a boundary to a cursor. -/
theorem slice_since (h : here.passed ++ rest = source) (hstart : IsBoundary source start)
    (hle : start ≤ here.offset) : slice source start here.offset = pure (here.since start) := by
  have hstop := isBoundary_offset h
  obtain ⟨before, after, hsource, rfl, hlen⟩ := hstart.exists_slice hstop hle
  have hpassed : here.passed = before ++ Text.slice (byteLength before) here.offset source := by
    refine (Text.append_inj_of_byteLength (h.trans hsource) ?_).1
    rw [hlen, here.offset_eq_byteLength]
  rw [slice_eq hstart hstop hle, Cursor.since_eq hpassed]

/-- The text from a cursor on. -/
theorem textFrom_eq (h : here.passed ++ rest = source) :
    textFrom source here.offset = pure rest := by
  rw [textFrom, slice_eq (isBoundary_offset h) (.last source) (isBoundary_offset h).le]
  have hslice : Text.HasAt source here.offset rest :=
    ⟨here.passed, [], by simp [h], here.offset_eq_byteLength⟩
  have hlen : byteLength source = here.offset + byteLength rest := by
    rw [← h, Text.byteLength_append, here.offset_eq_byteLength]
  rw [hlen, hslice.slice]

end

end Mockup.Jsx.Source
