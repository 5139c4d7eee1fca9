import Mockup.Jsx.OfPlan
import Mockup.Palette.Builtin
import Mockup.Proofs.Jsx.Written
import Mockup.Proofs.Plan.Texts

/-!
# Texts of a component file

A view is written as its tags and its escaped texts, in order, with blanks and line breaks between
them. In the view of a plan the texts are those of the plan.

* `v.tokens` — the tags and the texts of a view, in the order in which they are met.
* `Spells cs tokens` — the text `cs` is made up of `tokens`, in order, and of blanks between them.

## Main results

* `View.spells_chars`: a written view is made up of its tags and its texts.
* `texts_viewOf`: the view of a plan shows the texts of the plan.
* `texts_ofTree`: the texts of a tree stand in its plan and in what is written for it.
-/

namespace Mockup.Jsx

/-! ### Tags and texts -/

/-- A tag or a text of a view. -/
inductive View.Token where
  /-- The opening tag of an element. -/
  | opening (tag : String) (attributes : List View.Attribute)
  /-- The only tag of an element without a closing tag. -/
  | single (tag : String) (attributes : List View.Attribute)
  /-- The closing tag of an element. -/
  | closing (tag : String)
  /-- A text. -/
  | text (s : String)
  deriving DecidableEq, Repr

namespace View

/-- A tag as it is written, or an escaped text. -/
def Token.chars : Token → List Char
  | .opening tag attributes => openTag tag attributes
  | .single tag attributes => '<' :: (View.opening tag attributes ++ " />".toList)
  | .closing tag => closeTag tag
  | .text s => escaped s.toList

/-- The text that a token is, if it is no tag. -/
def Token.text? : Token → Option String
  | .text s => some s
  | .opening .. | .single .. | .closing .. => none

mutual

/-- The tags and the texts of a view, in order. -/
def tokens : View → List Token
  | .text s => [.text s]
  | .element tag attributes children =>
    if closesItself tag children then [.single tag attributes]
    else .opening tag attributes :: (tokensOfAll children ++ [.closing tag])

/-- The tags and the texts of several views. -/
def tokensOfAll : List View → List Token
  | [] => []
  | v :: vs => tokens v ++ tokensOfAll vs

end

/-- The texts of a view, in order. -/
def texts (v : View) : List String :=
  v.tokens.filterMap Token.text?

/-- The texts of several views. -/
def textsOfAll (vs : List View) : List String :=
  (tokensOfAll vs).filterMap Token.text?

theorem texts_text (s : String) : (View.text s).texts = [s] := rfl

theorem textsOfAll_cons (v : View) (vs : List View) :
    textsOfAll (v :: vs) = v.texts ++ textsOfAll vs := by
  rw [textsOfAll, tokensOfAll, List.filterMap_append, texts, textsOfAll]

/-- The texts of an element are those inside it, however it is closed. -/
theorem texts_element (tag : String) (attributes : List Attribute) (children : List View) :
    (View.element tag attributes children).texts = textsOfAll children := by
  rw [texts, tokens]
  split
  · next h =>
    rw [closesItself, Bool.and_eq_true, List.isEmpty_iff] at h
    rw [h.2]
    rfl
  · rw [List.filterMap_cons_none rfl, List.filterMap_append, textsOfAll]
    exact List.append_nil _

end View

/-! ### Written views -/

/-- A text is made up of tokens, in order, and of blanks and line breaks between them. -/
inductive Spells : List Char → List View.Token → Prop
  | nil : Spells [] []
  | blank {c : Char} {cs : List Char} {ts : List View.Token} (hc : c = ' ' ∨ c = '\n')
    (rest : Spells cs ts) : Spells (c :: cs) ts
  | token (t : View.Token) {cs : List Char} {ts : List View.Token} (rest : Spells cs ts) :
    Spells (t.chars ++ cs) (t :: ts)

section Spells

variable {cs ds : List Char} {ts us : List View.Token}

theorem Spells.append (hcs : Spells cs ts) (hds : Spells ds us) : Spells (cs ++ ds) (ts ++ us) := by
  induction hcs with
  | nil => exact hds
  | blank hc _ ih => exact .blank hc ih
  | token t _ ih =>
    rw [List.append_assoc]
    exact .token t ih

theorem spells_token (t : View.Token) : Spells t.chars [t] := by
  have h := Spells.token t .nil
  rwa [List.append_nil] at h

theorem spells_newline : Spells ['\n'] [] :=
  .blank (.inr rfl) .nil

theorem spells_indentation (depth : Nat) : Spells (View.indentation depth) [] := by
  unfold View.indentation
  induction 2 * depth with
  | zero => exact .nil
  | succ n ih => exact .blank (.inl rfl) ih

/-- A line with a body on it is made up of what the body is made up of. -/
theorem Spells.line (depth : Nat) (h : Spells cs ts) :
    Spells (View.indentation depth ++ cs ++ ['\n']) ts := by
  have hline := ((spells_indentation depth).append h).append spells_newline
  rwa [List.nil_append, List.append_nil] at hline

/-- A body between the tags of an element. -/
theorem Spells.tags (tag : String) (attributes : List View.Attribute) (h : Spells cs ts) :
    Spells (View.openTag tag attributes ++ cs ++ View.closeTag tag)
      (.opening tag attributes :: (ts ++ [.closing tag])) :=
  ((spells_token (.opening tag attributes)).append h).append (spells_token (.closing tag))

end Spells

namespace View

/-- An element is made up of its tags and of what is inside it. -/
theorem spells_element (tag : String) (attributes : List Attribute) {children : List View}
    (ih : ∀ depth, Spells (charsOfAll depth children) (tokensOfAll children)) (depth : Nat) :
    Spells (chars depth (.element tag attributes children))
      (tokens (.element tag attributes children)) := by
  -- The cases are those of `View.chars`.
  unfold chars
  split
  · contradiction
  · next heq =>
    cases heq
    rw [tokens, closesItself, List.isEmpty_nil, Bool.and_true]
    refine Spells.line depth ?_
    split
    · exact spells_token (.single tag attributes)
    · have htags := Spells.nil.tags tag attributes
      rwa [List.append_nil] at htags
  · next s heq =>
    cases heq
    rw [tokens, closesItself, List.isEmpty_cons, Bool.and_false]
    have hline := ((spells_token (.text s)).tags tag attributes).line depth
    simpa [Token.chars, tokensOfAll, tokens] using hline
  · next hne _ heq =>
    cases heq
    rw [tokens, closesItself, List.isEmpty_eq_false_iff.2 hne, Bool.and_false]
    have hinside := (spells_newline.append (ih (depth + 1))).append (spells_indentation depth)
    have hline := (hinside.tags tag attributes).line depth
    simpa using hline

/-- Written views are made up of their tags and their texts. -/
theorem spells_charsOfAll (vs : List View) (depth : Nat) :
    Spells (charsOfAll depth vs) (tokensOfAll vs) := by
  induction vs using forest_induction generalizing depth with
  | nil => exact .nil
  | text s vs ih =>
    rw [charsOfAll, tokensOfAll, chars]
    exact ((spells_token (.text s)).line depth).append (ih depth)
  | element tag attributes children vs ihc ih =>
    rw [charsOfAll, tokensOfAll]
    exact (spells_element tag attributes ihc depth).append (ih depth)

/-- A written view is made up of its tags and its texts. -/
theorem spells_chars (v : View) (depth : Nat) : Spells (v.chars depth) v.tokens := by
  have h := spells_charsOfAll [v] depth
  rwa [charsOfAll, charsOfAll, tokensOfAll, tokensOfAll, List.append_nil, List.append_nil] at h

end View

/-! ### Views of plans -/

mutual

/-- The view of a plan shows the texts of the plan if the palette has all its keys. -/
theorem texts_viewOf (palette : Palette) : ∀ n : BuildNode,
    (∀ key ∈ n.keys, palette.contains key = true) → (viewOf palette n).texts = n.texts
  | ⟨key, props, tailwind, children⟩, h => by
    rw [BuildNode.keys, BuildNode.walk, List.map_cons, List.forall_mem_cons] at h
    -- The palette has the key, so the view is no placeholder.
    obtain ⟨entry, hentry⟩ := Option.isSome_iff_exists.1 h.1
    rw [viewOf, hentry, View.texts_element, textsOfAll_viewsOfChildren palette children h.2,
      BuildNode.texts]

theorem textsOfAll_viewsOfChildren (palette : Palette) :
    ∀ children : Option (List (Content BuildNode)),
      (∀ key ∈ (BuildNode.walkChildren children).map (·.key), palette.contains key = true) →
        View.textsOfAll (viewsOfChildren palette children) = BuildNode.textsOfChildren children
  | none, _ => rfl
  | some cs, h => textsOfAll_viewsOf palette cs h

theorem textsOfAll_viewsOf (palette : Palette) : ∀ cs : List (Content BuildNode),
    (∀ key ∈ (BuildNode.walkAll cs).map (·.key), palette.contains key = true) →
      View.textsOfAll (viewsOf palette cs) = BuildNode.textsOfAll cs
  | [], _ => rfl
  | .text s :: cs, h => by
    rw [viewsOf, View.textsOfAll_cons, View.texts_text, textsOfAll_viewsOf palette cs h,
      BuildNode.textsOfAll]
    rfl
  | .node n :: cs, h => by
    rw [BuildNode.walkAll, List.map_append, List.forall_mem_append] at h
    rw [viewsOf, View.textsOfAll_cons, texts_viewOf palette n h.1,
      textsOfAll_viewsOf palette cs h.2, BuildNode.textsOfAll]

end

/-- The plan of a tree holds the texts of the tree. So does the view of the plan, if the palette has
the keys of the plan, and it is written as its tags and its escaped texts, in order. -/
theorem texts_ofTree (palette : Palette) (t : Ui.Tree) (name : String) :
    (BuildPlan.ofTree palette t name).plan.root.texts = t.visibleTexts ∧
      ((∀ key ∈ (BuildPlan.ofTree palette t name).plan.root.keys, palette.contains key = true) →
        (viewOf palette (BuildPlan.ofTree palette t name).plan.root).texts = t.visibleTexts ∧
          ∀ depth, Spells
            ((viewOf palette (BuildPlan.ofTree palette t name).plan.root).chars depth)
            (viewOf palette (BuildPlan.ofTree palette t name).plan.root).tokens) := by
  have htexts : (BuildPlan.ofTree palette t name).plan.root.texts = t.visibleTexts := by
    rw [BuildPlan.ofTree, BuildPlan.texts_bind, BuildPlan.texts_sketch]
  refine ⟨htexts, fun hkeys => ⟨?_, View.spells_chars _⟩⟩
  rw [← htexts]
  exact texts_viewOf palette _ hkeys

/-- A tree with a text that is written with references, a form and a list. -/
def crowdedTree : Ui.Tree :=
  { children := [
      .text .h1 "a < b" {},
      .frame {} {} [
        .icon "star" {},
        .form "f" [
          { name := "n", component := .select, options := some ["x", "\x7b"] },
          { name := "e", label := some "Mail", component := .input },
          { name := "s", label := some "Send", component := .button }] none {}],
      .list [.text "one", .node (.button "a < b" {})] {},
      .image none (some "alt") {}] }

/-- The texts of the crowded tree are written in order, also the one that stands in it twice. -/
theorem texts_ofTree_crowded :
    (∀ key ∈ (BuildPlan.ofTree .builtin crowdedTree "A").plan.root.keys,
      Palette.builtin.contains key = true) ∧
      (viewOf .builtin (BuildPlan.ofTree .builtin crowdedTree "A").plan.root).texts =
        ["a < b", "star", "x", "\x7b", "Send", "one", "a < b"] ∧
      ∀ depth, Spells
        ((viewOf .builtin (BuildPlan.ofTree .builtin crowdedTree "A").plan.root).chars depth)
        (viewOf .builtin (BuildPlan.ofTree .builtin crowdedTree "A").plan.root).tokens := by
  have hkeys : ∀ key ∈ (BuildPlan.ofTree .builtin crowdedTree "A").plan.root.keys,
      Palette.builtin.contains key = true := by decide +kernel
  obtain ⟨htexts, hspells⟩ := (texts_ofTree .builtin crowdedTree "A").2 hkeys
  exact ⟨hkeys, htexts, hspells⟩

end Mockup.Jsx
