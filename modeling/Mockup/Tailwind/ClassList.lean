import Mockup.Text.Blank

/-!
# Class lists

The value of a class attribute is a list of tokens in which no token occurs twice. The edits add
tokens at the end, remove tokens, and put tokens in the place of one. Each edit returns the new
list; `changed` compares it with the old one.
-/

namespace Mockup.Tailwind

/-- The tokens of a class attribute, in order. -/
structure ClassList where
  /-- The tokens. -/
  tokens : List String
  /-- No token occurs twice. -/
  nodup : tokens.Nodup

namespace ClassList

/-- The list without tokens. -/
def empty : ClassList := ⟨[], .nil⟩

instance : Inhabited ClassList := ⟨empty⟩

/-- Whether a token is in the list. -/
def contains (l : ClassList) (token : String) : Bool :=
  l.tokens.contains token

/-- Whether there are no tokens. -/
def isEmpty (l : ClassList) : Bool :=
  l.tokens.isEmpty

/-- Adds a token at the end, unless it is in the list. -/
def push (l : ClassList) (token : String) : ClassList :=
  if h : token ∈ l.tokens then l
  else ⟨l.tokens ++ [token], by
    rw [List.nodup_append]
    refine ⟨l.nodup, by simp, ?_⟩
    rintro a ha b hb rfl
    simp only [List.mem_singleton] at hb
    exact h (hb ▸ ha)⟩

/-- Adds tokens at the end in turn. -/
def pushAll (l : ClassList) (tokens : List String) : ClassList :=
  tokens.foldl push l

/-- The list of the first occurrences of some tokens. -/
def ofTokens (tokens : List String) : ClassList :=
  empty.pushAll tokens

/-- The list that a text writes. -/
def parse (value : String) : ClassList :=
  ofTokens (Text.words value)

/-- The list as a text, with one space between neighbours. -/
def text (l : ClassList) : String :=
  " ".intercalate l.tokens

/-- Adds the tokens of a text that are not in the list yet. -/
def add (l : ClassList) (classes : String) : ClassList :=
  l.pushAll (Text.words classes)

/-- Removes the tokens of a text. -/
def remove (l : ClassList) (classes : String) : ClassList :=
  ⟨l.tokens.filter fun t => !(Text.words classes).contains t, l.nodup.filter _⟩

/-- Puts the tokens of `new` in the place of the token `old`. Of tokens that then occur twice the
first one stays. -/
def replace (l : ClassList) (old new : String) : ClassList :=
  let old := Text.trim old
  if old.isEmpty || !l.contains old then l
  else ofTokens (l.tokens.flatMap fun t => if t = old then Text.words new else [t])

/-- Whether an edit changed the list. -/
def changed (old new : ClassList) : Bool :=
  old.tokens != new.tokens

/-- Class lists with the same tokens are equal. -/
@[ext]
theorem ext {l m : ClassList} (h : l.tokens = m.tokens) : l = m := by
  cases l
  cases m
  simp_all

/-- A list with a token added holds what it held and that token. -/
@[simp]
theorem mem_push {l : ClassList} {token t : String} :
    t ∈ (l.push token).tokens ↔ t ∈ l.tokens ∨ t = token := by
  unfold push
  split
  · next h =>
    constructor
    · exact .inl
    · rintro (h' | rfl)
      · exact h'
      · exact h
  · simp

/-- After adding tokens the list holds the old and the new ones. -/
@[simp]
theorem mem_pushAll {l : ClassList} {tokens : List String} {t : String} :
    t ∈ (l.pushAll tokens).tokens ↔ t ∈ l.tokens ∨ t ∈ tokens := by
  induction tokens generalizing l with
  | nil => simp [pushAll]
  | cons s ss ih =>
    have : l.pushAll (s :: ss) = (l.push s).pushAll ss := rfl
    rw [this, ih, mem_push, List.mem_cons, or_assoc]

/-- Adding a token keeps the old tokens in front. -/
theorem isPrefix_push (l : ClassList) (token : String) : l.tokens <+: (l.push token).tokens := by
  unfold push
  split
  · exact List.prefix_rfl
  · exact List.prefix_append ..

/-- Adding tokens keeps the old tokens in front. -/
theorem isPrefix_pushAll (l : ClassList) (tokens : List String) :
    l.tokens <+: (l.pushAll tokens).tokens := by
  induction tokens generalizing l with
  | nil => exact List.prefix_rfl
  | cons s ss ih => exact (isPrefix_push l s).trans (ih (l.push s))

end ClassList

/-- Several class texts as one, without repeated tokens. -/
def mergeClasses (parts : List String) : String :=
  (parts.foldl ClassList.add ClassList.empty).text

end Mockup.Tailwind
