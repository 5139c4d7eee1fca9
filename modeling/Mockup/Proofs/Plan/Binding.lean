import Mathlib.Data.List.Forall2
import Mathlib.Data.List.Induction
import Mathlib.Data.List.Nodup
import Mathlib.Data.List.TakeWhile
import Mockup.Jsx.OfPlan
import Mockup.Proofs.Distinct
import Mockup.Proofs.Session.Fallback

/-!
# Plans bound to a palette

Binding a plan to a palette passes over its nodes three times: to replace keys, to report the
replaced ones, and to gather imports. The component file passes over them again. All of these meet
the same nodes in the same order.

* `n.Rekeyed R m` — two trees of components differ in their keys only, and these are related by `R`.
* `planned.Bound palette directory p name before` — what binding makes of the plan `p`.

## Main results

* `firstSeen_eq_eraseDups`: gathering texts one by one lists each once, by first occurrence.
* `walk_mapKeys`: replacing keys keeps the order of the nodes.
* `bound_bind`: what binding makes of a plan, and what the component file makes of the result.
* `bound_of_hasFallback`: the same for the plan of a tree and for every proposal.
-/

namespace Mockup

/-! ### Texts without repetitions -/

/-- Gathering texts one by one, each if it is not there already, drops the repetitions. -/
theorem firstSeen_eq_eraseDups (ss : List String) : firstSeen ss = ss.eraseDups := by
  induction ss using List.reverseRecOn with
  | nil => rfl
  | append_singleton ss s ih =>
    rw [eraseDups_concat, ← ih, firstSeen, List.foldl_append]
    change (if (firstSeen ss).contains s then firstSeen ss else firstSeen ss ++ [s]) = _
    congr 1
    rw [ih, List.contains_iff_mem, List.mem_eraseDups]

/-! ### Replaced keys -/

namespace BuildNode

mutual

/-- Two trees of components that differ in their keys only, and these are related by `R`. -/
inductive Rekeyed (R : String → String → Prop) : BuildNode → BuildNode → Prop
  | mk {key key' : String} {props : Option (Dict Json)} {tailwind : Option String}
    {children children' : Option (List (Content BuildNode))} (hkey : R key key')
    (hchildren : RekeyedChildren R children children') :
    Rekeyed R ⟨key, props, tailwind, children⟩ ⟨key', props, tailwind, children'⟩

/-- The same for the children that a node may have. -/
inductive RekeyedChildren (R : String → String → Prop) :
    Option (List (Content BuildNode)) → Option (List (Content BuildNode)) → Prop
  | none : RekeyedChildren R none none
  | some {cs cs' : List (Content BuildNode)} (h : RekeyedAll R cs cs') :
    RekeyedChildren R (some cs) (some cs')

/-- The same for lists of children. -/
inductive RekeyedAll (R : String → String → Prop) :
    List (Content BuildNode) → List (Content BuildNode) → Prop
  | nil : RekeyedAll R [] []
  | text (s : String) {cs cs' : List (Content BuildNode)} (h : RekeyedAll R cs cs') :
    RekeyedAll R (.text s :: cs) (.text s :: cs')
  | node {n n' : BuildNode} {cs cs' : List (Content BuildNode)} (hnode : Rekeyed R n n')
    (h : RekeyedAll R cs cs') : RekeyedAll R (.node n :: cs) (.node n' :: cs')

end

section MapKeys

variable {R : String → String → Prop} {f : String → String}

mutual

/-- Replacing keys changes nothing but keys. -/
theorem rekeyed_mapKeys (h : ∀ key, R key (f key)) : ∀ n : BuildNode, n.Rekeyed R (n.mapKeys f)
  | ⟨key, props, tailwind, children⟩ => by
    rw [mapKeys]
    exact .mk (h key) (rekeyedChildren_mapKeys h children)

theorem rekeyedChildren_mapKeys (h : ∀ key, R key (f key)) : ∀ children,
    RekeyedChildren R children (mapKeysOfChildren f children)
  | none => .none
  | some cs => .some (rekeyedAll_mapKeys h cs)

theorem rekeyedAll_mapKeys (h : ∀ key, R key (f key)) : ∀ cs,
    RekeyedAll R cs (mapKeysOfAll f cs)
  | [] => .nil
  | .text s :: cs => .text s (rekeyedAll_mapKeys h cs)
  | .node n :: cs => .node (rekeyed_mapKeys h n) (rekeyedAll_mapKeys h cs)

end

mutual

/-- Replacing keys keeps the order of the nodes. -/
theorem walk_mapKeys (f : String → String) : ∀ n : BuildNode,
    (n.mapKeys f).walk = n.walk.map (mapKeys f)
  | ⟨key, props, tailwind, children⟩ => by
    rw [walk, List.map_cons, mapKeys, walk, walkChildren_mapKeys f children]

theorem walkChildren_mapKeys (f : String → String) : ∀ children,
    walkChildren (mapKeysOfChildren f children) = (walkChildren children).map (mapKeys f)
  | none => rfl
  | some cs => walkAll_mapKeys f cs

theorem walkAll_mapKeys (f : String → String) : ∀ cs,
    walkAll (mapKeysOfAll f cs) = (walkAll cs).map (mapKeys f)
  | [] => rfl
  | .text s :: cs => walkAll_mapKeys f cs
  | .node n :: cs => by
    rw [mapKeysOfAll, walkAll, walkAll, List.map_append, walk_mapKeys f n, walkAll_mapKeys f cs]

end

theorem key_mapKeys (f : String → String) (n : BuildNode) : (n.mapKeys f).key = f n.key := by
  obtain ⟨key, props, tailwind, children⟩ := n
  rfl

theorem props_mapKeys (f : String → String) (n : BuildNode) : (n.mapKeys f).props = n.props := by
  obtain ⟨key, props, tailwind, children⟩ := n
  rfl

end MapKeys

end BuildNode

/-! ### Imports -/

/-- The import line of the component with a key. -/
def Palette.importOf? (palette : Palette) (key : String) : Option String :=
  (palette.lookup? key).bind (·.importLine)

/-- The imports of a plan are those of its nodes, each once, by first occurrence. -/
theorem BuildPlan.neededImports_eq (palette : Palette) (p : BuildPlan) :
    p.neededImports palette =
      (p.root.walk.filterMap fun n => palette.importOf? n.key).eraseDups := by
  have hkeys : p.neededImports palette = firstSeen (p.componentKeys.filterMap palette.importOf?) :=
    rfl
  rw [hkeys, firstSeen_eq_eraseDups, componentKeys, firstSeen_eq_eraseDups,
    eraseDups_filterMap_eraseDups, BuildNode.keys, List.filterMap_map]
  rfl

namespace Jsx

/-- An import line as it stands in a file: up to the semicolons at its end, and with one. -/
def WrittenImport (line written : String) : Prop :=
  ∃ stem count, line.toList = stem ++ List.replicate count ';' ∧ stem.getLast? ≠ some ';' ∧
    written = String.ofList stem ++ ";\n"

theorem writtenImport_importLine (line : String) : WrittenImport line (importLine line) := by
  let back := line.toList.reverse
  refine ⟨Text.dropTrailing (· == ';') line.toList, (back.takeWhile (· == ';')).length, ?_, ?_, rfl⟩
  · have hsemicolons : back.takeWhile (· == ';') =
        List.replicate (back.takeWhile (· == ';')).length ';' :=
      List.eq_replicate_of_mem fun c hc => by simpa using List.mem_takeWhile_imp hc
    rw [Text.dropTrailing, ← List.reverse_replicate, ← List.reverse_append, ← hsemicolons,
      List.takeWhile_append_dropWhile, List.reverse_reverse]
  · intro hlast
    rw [Text.dropTrailing, List.getLast?_reverse] at hlast
    have hhead := List.head?_dropWhile_not (· == ';') line.toList.reverse
    rw [hlast] at hhead
    simp at hhead

/-- What stands between the imports of a plan and the type of its props. -/
def importGap (palette : Palette) (p : BuildPlan) : String :=
  if p.root.walk.any fun n => isControlKey palette n.key then
    "import type \x7b FormEvent \x7d from \"react\";\n\n"
  else if p.imports.isEmpty then "" else "\n"

/-- The file of a plan with the imports that it needs opens with them. -/
theorem exists_code_ofPlan {palette : Palette} {p : BuildPlan}
    (h : p.imports = p.neededImports palette) (directory : String) :
    ∃ lines rest, List.Forall₂ WrittenImport p.imports lines ∧
      (ComponentFile.ofPlan palette directory p).code =
        String.join lines ++ importGap palette p ++ propsType (componentName p.name) ++ rest := by
  have hblock : importBlock (Component.ofPlan palette p).imports (Wrapper.ofPlan palette p) =
      String.join (p.imports.map importLine) ++ importGap palette p := by
    -- The imports of the plan are the ones that the component file gathers itself.
    change importBlock (p.neededImports palette) (Wrapper.ofPlan palette p) = _
    rw [← h, importGap, Wrapper.ofPlan, BuildNode.keys, List.any_map]
    change importBlock p.imports
      (if p.root.walk.any (fun n => isControlKey palette n.key) then _ else _) = _
    split
    · rfl
    · unfold importBlock
      cases p.imports with
      | nil => rfl
      | cons line lines => rfl
  refine ⟨p.imports.map importLine, functionHead (componentName p.name) (.ofPlan palette p) ++
    ("  return (\n    " ++ (Wrapper.ofPlan palette p).openTag ++ "\n" ++
      String.ofList ((Component.ofPlan palette p).body.chars bodyDepth) ++ "    " ++
      (Wrapper.ofPlan palette p).closeTag ++ "\n  );\n\x7d\n"), ?_, ?_⟩
  · rw [List.forall₂_map_right_iff, List.forall₂_same]
    exact fun line _ => writtenImport_importLine line
  · rw [code_ofPlan, Component.source, wrapper_ofPlan, hblock, name_ofPlan]
    simp only [String.append_assoc]

/-! ### Remarks of the component file -/

theorem unknownKey_not_mem_propWarnings {entry : Palette.Entry} {n : BuildNode} {key : String} :
    .unknownKey key ∉ propWarnings entry n := by
  intro h
  rw [propWarnings, List.mem_append] at h
  rcases h with h | h
  · split at h
    · simp at h
    · cases h
  · obtain ⟨p, -, hp⟩ := List.mem_map.1 h
    cases hp

section Known

variable {palette : Palette} {key : String}

mutual

/-- A tree of components with known keys is shown without placeholders. -/
theorem unknownKey_not_mem_warningsOf : ∀ n : BuildNode,
    (∀ m ∈ n.walk, palette.contains m.key = true) → .unknownKey key ∉ warningsOf palette n
  | ⟨k, props, tailwind, children⟩, hknown => by
    rw [BuildNode.walk, List.forall_mem_cons] at hknown
    obtain ⟨entry, hentry⟩ := Option.isSome_iff_exists.1 hknown.1
    rw [warningsOf]
    simp only [show palette.lookup? k = some entry from hentry, List.mem_append, not_or]
    exact ⟨unknownKey_not_mem_propWarnings, unknownKey_not_mem_ofChildren children hknown.2⟩

theorem unknownKey_not_mem_ofChildren : ∀ children,
    (∀ m ∈ BuildNode.walkChildren children, palette.contains m.key = true) →
      .unknownKey key ∉ warningsOfChildren palette children
  | none, _ => List.not_mem_nil
  | some cs, hknown => unknownKey_not_mem_ofAll cs hknown

theorem unknownKey_not_mem_ofAll : ∀ cs,
    (∀ m ∈ BuildNode.walkAll cs, palette.contains m.key = true) →
      .unknownKey key ∉ warningsOfAll palette cs
  | [], _ => List.not_mem_nil
  | .text s :: cs, hknown => unknownKey_not_mem_ofAll cs hknown
  | .node n :: cs, hknown => by
    rw [BuildNode.walkAll, List.forall_mem_append] at hknown
    rw [warningsOfAll, List.mem_append, not_or]
    exact ⟨unknownKey_not_mem_warningsOf n hknown.1, unknownKey_not_mem_ofAll cs hknown.2⟩

end

end Known

end Jsx

/-! ### Bound plans -/

/-- What binding a plan `p` to a palette under a name makes of it, after some other remarks. -/
structure Planned.Bound (palette : Palette) (directory : String) (p : BuildPlan) (name : String)
    (before : List Warning) (planned : Planned) : Prop where
  /-- The plan has the name that was asked for. -/
  name_eq : planned.plan.name = name
  /-- The palette has the key of every node. -/
  known : ∀ n ∈ planned.plan.root.walk, palette.contains n.key = true
  /-- The nodes are those of `p`, but for the keys that the palette does not have: these have become
  the fallback. -/
  rekeyed : p.root.Rekeyed
    (fun key key' => key' = if palette.contains key then key else fallbackKey) planned.plan.root
  /-- Each node that got another key is reported under its old one, in order. -/
  warnings : planned.warnings = before ++
    ((p.root.walk.zip planned.plan.root.walk).filter fun x => x.1.key ≠ x.2.key).map fun x =>
      .unknownKey x.1.key
  /-- The imports are those of the nodes, by first occurrence. -/
  imports : planned.plan.imports =
    (planned.plan.root.walk.filterMap fun n => palette.importOf? n.key).eraseDups
  /-- No import is there twice. -/
  nodup : planned.plan.imports.Nodup
  /-- The component file of the plan has no placeholders. -/
  resolved : ∀ key,
    .unknownKey key ∉ (Jsx.ComponentFile.ofPlan palette directory planned.plan).warnings
  /-- It opens with the imports of the plan, each with one semicolon. -/
  code : ∃ lines rest, List.Forall₂ Jsx.WrittenImport planned.plan.imports lines ∧
    (Jsx.ComponentFile.ofPlan palette directory planned.plan).code =
      String.join lines ++ Jsx.importGap palette planned.plan ++
        Jsx.propsType (Jsx.componentName name) ++ rest

section Bound

variable {palette : Palette}

theorem Palette.resolve_eq (hfallback : palette.contains fallbackKey = true) (key : String) :
    palette.resolve key = if palette.contains key then key else fallbackKey := by
  simp [Palette.resolve, hfallback]

/-- In a palette with the fallback a key is replaced exactly if the palette does not have it. -/
theorem Palette.ne_resolve_iff (hfallback : palette.contains fallbackKey = true) {key : String} :
    key ≠ palette.resolve key ↔ ¬palette.contains key = true := by
  rw [Palette.resolve_eq hfallback]
  split
  · next h => simp [h]
  · next h => exact ⟨fun _ => h, fun _ heq => h (heq ▸ hfallback)⟩

/-- The nodes with unknown keys are those that get another key. -/
theorem unknown_eq_replaced (hfallback : palette.contains fallbackKey = true) (root : BuildNode) :
    (root.keys.filter fun key => !palette.contains key).map Warning.unknownKey =
      ((root.walk.zip (root.mapKeys palette.resolve).walk).filter fun x => x.1.key ≠ x.2.key).map
        fun x => .unknownKey x.1.key := by
  rw [BuildNode.walk_mapKeys, ← List.map_prod_left_eq_zip, BuildNode.keys, List.filter_map,
    List.filter_map, List.map_map, List.map_map]
  congr 1
  refine List.filter_congr fun n _ => ?_
  simp only [Function.comp, BuildNode.key_mapKeys, Palette.ne_resolve_iff hfallback]
  simp

/-- The imports that a plan needs depend on its nodes only. -/
theorem BuildPlan.neededImports_congr {p q : BuildPlan} (h : p.root = q.root) :
    p.neededImports palette = q.neededImports palette := by
  rw [neededImports, neededImports, componentKeys, componentKeys, h]

/-- What binding makes of a plan, and what the component file makes of the bound plan. -/
theorem BuildPlan.bound_bind (hfallback : palette.contains fallbackKey = true)
    (directory : String) (p : BuildPlan) :
    (p.bind palette).Bound palette directory p p.name [] := by
  have hknown : ∀ n ∈ (p.bind palette).plan.root.walk, palette.contains n.key = true := by
    change ∀ n ∈ (p.root.mapKeys palette.resolve).walk, _
    rw [BuildNode.walk_mapKeys]
    intro n hn
    obtain ⟨m, -, rfl⟩ := List.mem_map.1 hn
    rw [BuildNode.key_mapKeys]
    exact Palette.contains_resolve hfallback m.key
  have himports : (p.bind palette).plan.imports = (p.bind palette).plan.neededImports palette :=
    neededImports_congr rfl
  refine ⟨rfl, hknown, ?_, unknown_eq_replaced hfallback p.root, ?_, ?_, fun key hkey => ?_,
    Jsx.exists_code_ofPlan himports directory⟩
  · exact BuildNode.rekeyed_mapKeys (f := palette.resolve) (Palette.resolve_eq hfallback) p.root
  · rw [himports, neededImports_eq]
  · rw [himports, neededImports_eq]
    exact nodup_eraseDups _
  · -- Names of components bring warnings of their own, and unknown keys are gone.
    rcases List.mem_append.1 hkey with hkey | hkey
    · unfold Jsx.nameWarnings at hkey
      split at hkey
      · cases hkey
      · cases List.mem_singleton.1 hkey
    · exact Jsx.unknownKey_not_mem_warningsOf _ hknown hkey

/-- The plan of a tree, a proposal that can be used and the plan in place of one that cannot be used
are all bound to the palette. -/
theorem BuildPlan.bound_of_hasFallback (hfallback : palette.contains fallbackKey = true)
    (directory name : String) (t : Ui.Tree) :
    (ofTree palette t name).Bound palette directory (sketch palette t name) name [] ∧
      ∀ (timeout : Nat) (proposal : Proposal BuildPlan),
        (∀ p, proposal.Agrees timeout validate p →
          (proposed palette timeout proposal t name).Bound palette directory p name []) ∧
        ∀ e, proposal.Fails timeout validate e →
          (proposed palette timeout proposal t name).Bound palette directory (sketch palette t name)
            name [.noProposal "buildPlan" e.message] := by
  have htree := bound_bind hfallback directory (sketch palette t name)
  refine ⟨htree, fun timeout proposal => ⟨fun p hagrees => ?_, fun e hfails => ?_⟩⟩
  · have hplan := bound_bind hfallback directory { p with name }
    rw [proposed, hagrees.agreed_eq]
    exact ⟨hplan.name_eq, hplan.known, hplan.rekeyed, hplan.warnings, hplan.imports, hplan.nodup,
      hplan.resolved, hplan.code⟩
  · rw [proposed_of_fails hfails]
    exact ⟨htree.name_eq, htree.known, htree.rekeyed, congrArg (_ :: ·) htree.warnings,
      htree.imports, htree.nodup, htree.resolved, htree.code⟩

end Bound

/-- A palette whose fallback is imported. -/
def importingPalette : Palette :=
  ⟨[{ key := "layout.stack", tag := "Stack", importLine := some "import Stack from \"ui\";;" },
    { key := "layout.card", tag := "div" }], by decide⟩

/-- A card with something that this palette does not have. -/
def carouselPlan : BuildPlan :=
  { name := "Whatever"
    imports := ["import junk"]
    root := { key := "layout.card", children := some [.text "x", .node { key := "ui.carousel" }] } }

/-- The unknown component becomes the fallback, and the import of the fallback comes with it. -/
theorem BuildPlan.bound_of_hasFallback_carousel :
    importingPalette.contains fallbackKey = true ∧
      let planned :=
        proposed importingPalette 100 ⟨.ok carouselPlan, 7⟩ { children := [] } "Gallery"
      planned.Bound importingPalette "out" carouselPlan "Gallery" [] ∧
        planned.plan.root.keys = ["layout.card", "layout.stack"] ∧
        planned.plan.imports = ["import Stack from \"ui\";;"] ∧
        planned.warnings = [.unknownKey "ui.carousel"] := by
  have hfallback : importingPalette.contains fallbackKey = true := rfl
  exact ⟨hfallback, ((bound_of_hasFallback hfallback "out" "Gallery" { children := [] }).2 100
    ⟨.ok carouselPlan, 7⟩).1 carouselPlan ⟨by decide, rfl, rfl⟩, rfl, rfl, rfl⟩

end Mockup
