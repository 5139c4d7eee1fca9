import Mockup.Palette.Basic
import Mockup.Proofs.Patch.Interchange
import Mockup.Proofs.Plan.Interchange
import Mockup.Proofs.Ui.Interchange

/-!
# What is written is read back

The values that are exchanged — trees, plans, patch requests and the entries of palettes — are
written as JSON values and decoded from them. Decoding what was written gives the value back, with
every optional part present or absent as it was. A written value has the fields of all its objects
in key order.

## Main results

* `Palette.Entry.decode_encode`: an entry of a palette.
* `decode_written`: all four kinds of values.
-/

namespace Mockup

open Json Json.Members

theorem Palette.Entry.decode_encode {e : Palette.Entry} (h : ∀ d ∈ e.defaultProps, d.InOrder) :
    decode e.encode.sorted = .ok e := by
  obtain ⟨fields, hfields⟩ : ∃ fields, e.encode = .object fields := ⟨_, rfl⟩
  have key {whole : Json} : (.required "key" asString : Members whole _).Reads
      (inOrder fields) e.key :=
    reads_string (by simp [← hfields, encode])
  have library {whole : Json} : (.defaulted "lib" .html (asVariant .direct Library.names) :
      Members whole _).Reads (inOrder fields) e.library :=
    reads_defaulted (by simp [← hfields, encode]) (asVariant_sorted e.library.variantOf_name)
  have tag {whole : Json} : (.required "tag" asString : Members whole _).Reads
      (inOrder fields) e.tag :=
    reads_string (by simp [← hfields, encode])
  have importLine {whole : Json} : (.nullable "import" asString : Members whole _).Reads
      (inOrder fields) e.importLine :=
    reads_nullableString (by simp [← hfields, encode])
  have tailwind {whole : Json} : (.nullable "tailwind" asString : Members whole _).Reads
      (inOrder fields) e.tailwind :=
    reads_nullableString (by simp [← hfields, encode])
  have defaultProps {whole : Json} : (.nullable "defaultProps" (asDict Except.ok) :
      Members whole _).Reads (inOrder fields) e.defaultProps :=
    reads_nullable (ofDict id) (by simp [← hfields, encode])
      (fun d hd => asDict_sorted (h d hd)) rfl
  have matchHints {whole : Json} : (.nullable "matchHints" asStrings : Members whole _).Reads
      (inOrder fields) e.matchHints :=
    reads_nullable strings (by simp [← hfields, encode]) (fun ss _ => asStrings_sorted ss) rfl
  rw [hfields, sorted_object, decode]
  exact asStruct_object (((((((key.map _).seq library).seq tag).seq importLine).seq
    tailwind).seq defaultProps).seq matchHints)

/-- A tree, a plan, a patch request and an entry of a palette are decoded from their written values.
The numbers of a tree are finite, and the values of props are values as they are read, with the
fields of objects in key order. -/
theorem decode_written :
    (∀ t : Ui.Tree, t.Exact → Ui.Tree.decode t.encode.sorted = .ok t) ∧
      (∀ p : BuildPlan, p.root.InOrder → BuildPlan.decode p.encode.sorted = .ok p) ∧
      (∀ r : Patch.Request, Patch.Request.decode r.encode.sorted = .ok r) ∧
      ∀ e : Palette.Entry, (∀ d ∈ e.defaultProps, d.InOrder) →
        Palette.Entry.decode e.encode.sorted = .ok e :=
  ⟨fun _ => Ui.Tree.decode_encode, fun _ => BuildPlan.decode_encode, Patch.Request.decode_encode,
    fun _ => Palette.Entry.decode_encode⟩

/-- A tree with every kind of item, with a choice without options and with numbers. -/
def mixedTree : Ui.Tree :=
  { layout := { display := .grid, gap := some 12.5, columns := some 3 }
    style := { radius := some (-0.0), border := some (.color "#fff") }
    children := [
      .list [.text "one", .node (.icon "star" { border := some (.enabled false) })] {},
      .form "f" [{ name := "a", component := .select, options := some [] }]
        (some { onSubmit := some (.openApi "/s" "op") }) {},
      .frame {} {} [.image none (some "") {}]] }

/-- Props with an object among them. -/
def nestedProps : Dict Json :=
  ⟨[("p", .object [("x", .null), ("y", .array [.int 1])])], by decide⟩

/-- A plan with empty props, with empty children and with a prop that is an object. -/
def nestedPlan : BuildPlan :=
  { name := ""
    root := {
      key := "a"
      props := some .empty
      children := some [.text "b", .node {
        key := "c"
        props := some nestedProps
        children := some [] }] } }

/-- An entry with default props and without hints. -/
def nestedEntry : Palette.Entry :=
  { key := "c", library := .mui, tag := "C", defaultProps := some nestedProps,
    matchHints := some [] }

/-- A mixed tree, a plan and an entry with nested props are decoded from their written values. -/
theorem decode_written_nested :
    (mixedTree.Exact ∧ Ui.Tree.decode mixedTree.encode.sorted = .ok mixedTree) ∧
      (nestedPlan.root.InOrder ∧ BuildPlan.decode nestedPlan.encode.sorted = .ok nestedPlan) ∧
      (∀ d ∈ nestedEntry.defaultProps, d.InOrder) ∧
        Palette.Entry.decode nestedEntry.encode.sorted = .ok nestedEntry := by
  have htree : mixedTree.Exact := by
    refine ⟨by decide, by decide, ?_⟩
    decide
  have hprops : nestedProps.InOrder := by
    intro e he
    obtain rfl := List.mem_singleton.1 he
    rfl
  -- Only the node below the root has props.
  have hplan : nestedPlan.root.InOrder := by
    intro n hn
    rcases List.mem_cons.1 hn with rfl | hn
    · rintro props ⟨⟩ e ⟨⟩
    · obtain rfl := List.mem_singleton.1 hn
      rintro props ⟨⟩
      exact hprops
  have hentry : ∀ d ∈ nestedEntry.defaultProps, d.InOrder := by
    rintro d ⟨⟩
    exact hprops
  exact ⟨⟨htree, decode_written.1 mixedTree htree⟩,
    ⟨hplan, decode_written.2.1 nestedPlan hplan⟩, hentry, decode_written.2.2.2 nestedEntry hentry⟩

end Mockup
