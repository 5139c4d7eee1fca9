import Mockup.Problem
import Mockup.Text.Blank

/-!
# Palettes

A palette is the list of components that a plan may use, each under a key of its own.
`Palette.ofEntries` builds one from entries whose keys and tags are not blank and whose keys
differ; `overlay` lays further entries over a palette.
-/

namespace Mockup

/-- The library that a component comes from. -/
inductive Palette.Library where
  | html
  | shadcn
  | mui
  deriving DecidableEq, Repr, Inhabited

/-- A component that a plan may use. -/
structure Palette.Entry where
  /-- The key under which plans refer to it. -/
  key : String
  /-- The library that it comes from. -/
  library : Library := .html
  /-- The tag that it is written with. -/
  tag : String
  /-- The import line that it needs. -/
  importLine : Option String := none
  /-- The classes that it always has. -/
  tailwind : Option String := none
  /-- The props that it has unless a plan gives others. -/
  defaultProps : Option (Dict Json) := none
  /-- Words that hint at it. -/
  matchHints : Option (List String) := none

/-- Components under keys that differ. -/
structure Palette where
  /-- The components, in the order of the catalog. -/
  entries : List Palette.Entry
  /-- No two of them have the same key. -/
  nodup : (entries.map (·.key)).Nodup

namespace Palette

/-- The problems of the entries from a position on. `seen` holds the keys before them. -/
def entryProblems (index : Nat) (seen : List String) : List Entry → List Problem
  | [] => []
  | e :: es =>
    let place : Place := [⟨"entries", some index⟩]
    if Text.isAllBlank e.key then
      ⟨place, .emptyKey⟩ :: entryProblems (index + 1) seen es
    else if Text.isAllBlank e.tag then
      ⟨place, .emptyTag e.key⟩ :: entryProblems (index + 1) seen es
    else if seen.contains e.key then
      ⟨place, .duplicateKey e.key⟩ :: entryProblems (index + 1) seen es
    else entryProblems (index + 1) (e.key :: seen) es

/-- Entries without problems have keys that differ from each other and from those seen before. -/
theorem nodup_of_entryProblems {index : Nat} {seen : List String} {es : List Entry}
    (h : entryProblems index seen es = []) :
    (es.map (·.key)).Nodup ∧ ∀ k ∈ es.map (·.key), k ∉ seen := by
  induction es generalizing index seen with
  | nil => simp
  | cons e es ih =>
    unfold entryProblems at h
    split at h
    · simp at h
    · split at h
      · simp at h
      · split at h
        · simp at h
        · next hseen =>
          obtain ⟨hnodup, hnew⟩ := ih h
          have hnot : e.key ∉ es.map (·.key) := fun hmem =>
            hnew _ hmem (List.mem_cons_self ..)
          refine ⟨List.nodup_cons.2 ⟨hnot, hnodup⟩, fun k hk => ?_⟩
          rcases List.mem_cons.1 hk with rfl | hk
          · simpa using hseen
          · exact fun hmem => hnew k hk (List.mem_cons_of_mem _ hmem)

/-- The palette of some entries, or all their problems. -/
def ofEntries (entries : List Entry) : Except (List Problem) Palette :=
  if h : entryProblems 0 [] entries = [] then .ok ⟨entries, (nodup_of_entryProblems h).1⟩
  else .error (entryProblems 0 [] entries)

/-- The component with a key. -/
def lookup? (p : Palette) (key : String) : Option Entry :=
  p.entries.find? fun e => e.key == key

/-- Whether there is a component with a key. -/
def contains (p : Palette) (key : String) : Bool :=
  (p.lookup? key).isSome

/-- The keys in the order of the catalog. -/
def keys (p : Palette) : List String :=
  p.entries.map (·.key)

/-- Puts an entry in the place of the one with its key, or at the end. -/
def overlayEntry (e : Entry) : List Entry → List Entry
  | [] => [e]
  | d :: ds => if d.key = e.key then e :: ds else d :: overlayEntry e ds

/-- The palette with a catalog laid over it. Later entries of the catalog count before earlier
ones. -/
def overlay (p : Palette) (catalog : List Entry) : Except (List Problem) Palette :=
  ofEntries (catalog.foldl (fun es e => overlayEntry e es) p.entries)

/-- The imports that a list of keys needs, each once, in the order of the keys. -/
def importsOf (p : Palette) (keys : List String) : List String :=
  (keys.filterMap fun k => (p.lookup? k).bind (·.importLine)).foldl
    (fun lines line => if lines.contains line then lines else lines ++ [line]) []

/-! ### Interchange -/

/-- The names of the libraries. -/
def Library.names : List (String × Library) :=
  [("html", .html), ("shadcn", .shadcn), ("mui", .mui)]

/-- The name of a library. -/
def Library.name : Library → String
  | .html => "html"
  | .shadcn => "shadcn"
  | .mui => "mui"

/-- Reading the name of a library gives back the library. -/
theorem Library.variantOf_name (l : Library) : Json.variantOf names l.name = .ok l := by
  cases l <;> rfl

/-- An entry as an object. -/
def Entry.encode (e : Entry) : Json :=
  .object ([("key", .string e.key), ("lib", .string e.library.name), ("tag", .string e.tag)] ++
    Json.optional "import" .string e.importLine ++
    Json.optional "tailwind" .string e.tailwind ++
    Json.optional "defaultProps" (Json.ofDict id) e.defaultProps ++
    Json.optional "matchHints" Json.strings e.matchHints)

/-- An entry from an object or a sequence. -/
def Entry.decode (j : Json) : Decoded Entry :=
  Json.asStruct .direct "PaletteEntry" j <|
    Entry.mk <$> .required "key" Json.asString <*>
      .defaulted "lib" .html (Json.asVariant .direct Library.names) <*>
      .required "tag" Json.asString <*> .nullable "import" Json.asString <*>
      .nullable "tailwind" Json.asString <*>
      .nullable "defaultProps" (Json.asDict Except.ok) <*> .nullable "matchHints" Json.asStrings

end Palette

end Mockup
