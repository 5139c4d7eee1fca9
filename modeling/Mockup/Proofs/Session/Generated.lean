import Mockup.Proofs.Jsx.DocumentOrder
import Mockup.Proofs.Jsx.PlanAttributes
import Mockup.Proofs.Markup.Pruned
import Mockup.Proofs.Session.Fallback

/-!
# Components of mockups

Whatever a mockup holds, the component that is made of it can be read, and what stands in it is
known from the palette: its tags are those of built-in components, its attributes have few names and
are texts, and an address in it is one that the mockup holds and that was allowed.

## Main results

* `scan_generate`: the elements of the component of a mockup.
-/

namespace Mockup.Session

open Jsx (scan)

variable {config : Config} {r : GenerateRequest} {g : Generated}

/-- A mockup from which a session makes something writes an admissible document, and the session
goes on from what is left of it. -/
theorem exists_document_of_generate {s : Session} (h : s.generate r = .ok g) :
    ∃ d, Xml.Document.read r.markup = .ok d ∧ Markup.Admissible s.config.limits d ∧
      s.readMarkup r.markup = .ok (Markup.pruned d) := by
  obtain ⟨root, hread⟩ := exists_readMarkup_of_generate h
  obtain ⟨-, -, d, hd, hroot⟩ := Markup.read_eq_ok_iff_ofDocument.1 (mapError_eq_ok_iff.1 hread)
  obtain ⟨hadmissible, rfl⟩ := Markup.ofDocument_eq_ok_iff.1 hroot
  exact ⟨d, hd, hadmissible, hread⟩

/-- The component of a mockup can be read. Its elements are the wrapper and, in it, elements with
the tag of a built-in component whose attributes are texts with few names; the text of `src` is an
address that stands in the mockup as it is and is allowed there. -/
theorem scan_generate (h : Session.generate { config, palette := .builtin } r = .ok g) :
    ∃ d es wrapper rest, Xml.Document.read r.markup = .ok d ∧ scan g.code.toList = .ok es ∧
      Jsx.Element.entriesOfAll none 0 es = wrapper :: rest ∧ wrapper.parent = none ∧
      wrapper.element.tag = (Jsx.Wrapper.ofPlan .builtin g.plan).tag ∧
      ∀ x ∈ rest, x.parent ≠ none ∧ x.element.Drawn .builtin (Markup.KeptAddress d) := by
  obtain ⟨d, hd, hadmissible, hread⟩ := exists_document_of_generate h
  rw [generate_of_readMarkup hread] at h
  cases h
  -- The addresses of the document go on to the tree, the plan, and the elements of the file.
  have htree := Ui.drawn_ofMarkup {} hadmissible.keptAddress
  obtain ⟨el, hscan, htag, hall⟩ := Jsx.drawn_ofPlan Palette.importLine_builtin
    Palette.isTagName_builtin (Palette.drawnProp_builtin (Markup.KeptAddress d))
    (BuildPlan.mem_walk_ofTree Palette.contains_fallbackKey_builtin htree
      (Jsx.componentName (requestedName r.name))) config.outputDirectory
  refine ⟨d, [el], _, _, hd, hscan, Jsx.Element.entriesOfAll_cons none 0 el [], rfl, htag, ?_⟩
  rw [Jsx.Element.entriesOfAll_nil, List.append_nil]
  intro x hx
  obtain ⟨q, hparent, -⟩ := Jsx.Element.le_parent_of_mem hx
  refine ⟨by simp [hparent], hall _ ?_⟩
  rw [← Jsx.Element.map_element_entriesOfAll (some 0) 1]
  exact List.mem_map_of_mem hx

/-- A request for a mockup with an image and with a text that would end an attribute. -/
def pictureRequest : GenerateRequest :=
  { markup := "<svg><text>\">\x7b</text><image href=\"a.png?b='c'\"/></svg>", name := "1 \x7b" }

/-- The component of a mockup with an image and a hostile text can be read. -/
theorem scan_generate_picture : ∃ g,
    Session.generate { config := {}, palette := .builtin } pictureRequest = .ok g ∧
      ∃ d es wrapper rest, Xml.Document.read pictureRequest.markup = .ok d ∧
        scan g.code.toList = .ok es ∧
        Jsx.Element.entriesOfAll none 0 es = wrapper :: rest ∧ wrapper.parent = none ∧
        wrapper.element.tag = (Jsx.Wrapper.ofPlan .builtin g.plan).tag ∧
        ∀ x ∈ rest, x.parent ≠ none ∧ x.element.Drawn .builtin (Markup.KeptAddress d) := by
  have hread : (Session.readMarkup { config := {}, palette := .builtin }
    pictureRequest.markup).isOk = true := by decide +kernel
  cases h : Session.readMarkup { config := {}, palette := .builtin } pictureRequest.markup with
  | error f =>
    rw [h] at hread
    cases hread
  | ok root =>
    have hg := generate_of_readMarkup h
    exact ⟨_, hg, scan_generate hg⟩

end Mockup.Session
