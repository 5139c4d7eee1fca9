import Mockup.Palette.Basic

/-!
# The built-in palette

The components that every session knows: containers, texts, form controls, lists, images and icons,
all of them plain elements of a page.
-/

namespace Mockup.Palette

/-- A plain element with its classes, its `type` if it has one, and its hints. -/
def builtinEntry (key tag classes : String) (type : Option String) (hints : List String) : Entry :=
  { key
    tag
    tailwind := if classes.isEmpty then none else some classes
    defaultProps := type.map fun t => Dict.empty.insert "type" (.string t)
    matchHints := some hints }

/-- The components of the built-in palette. -/
def builtinEntries : List Entry :=
  [builtinEntry "layout.card" "div" "rounded-2xl shadow-md p-6 bg-white" none
      ["card", "container", "box", "panel"],
    builtinEntry "layout.stack" "div" "flex flex-col gap-4" none
      ["stack", "column", "vertical", "list"],
    builtinEntry "layout.row" "div" "flex flex-row gap-4" none
      ["row", "horizontal", "inline"],
    builtinEntry "layout.grid" "div" "grid gap-4" none
      ["grid", "table", "matrix"],
    builtinEntry "typography.h1" "h1" "text-2xl font-semibold" none
      ["title", "heading", "header", "main"],
    builtinEntry "typography.h2" "h2" "text-xl font-semibold" none
      ["subtitle", "section", "secondary"],
    builtinEntry "typography.h3" "h3" "text-lg font-medium" none
      ["subheading", "small-title"],
    builtinEntry "typography.p" "p" "text-sm text-gray-600" none
      ["text", "description", "content", "body"],
    builtinEntry "typography.span" "span" "text-sm" none
      ["inline", "label", "small-text"],
    builtinEntry "form.input" "input" "border rounded-md px-3 py-2 w-full" none
      ["input", "field", "text-input", "search"],
    builtinEntry "form.textarea" "textarea" "border rounded-md px-3 py-2 w-full" none
      ["textarea", "multiline", "description", "comment"],
    builtinEntry "form.select" "select" "border rounded-md px-3 py-2 w-full" none
      ["select", "dropdown", "choice", "option"],
    builtinEntry "form.option" "option" "" none
      ["option", "choice"],
    builtinEntry "form.checkbox" "input" "h-4 w-4 rounded border" (some "checkbox")
      ["checkbox", "toggle", "switch"],
    builtinEntry "form.button" "button" "bg-black text-white rounded-md px-4 py-2" (some "submit")
      ["button", "submit", "action", "click", "primary"],
    builtinEntry "form.button.secondary" "button"
      "bg-gray-200 text-gray-800 rounded-md px-4 py-2" (some "button")
      ["secondary", "cancel", "back", "outline"],
    builtinEntry "list.ul" "ul" "divide-y" none
      ["list", "items", "menu", "navigation"],
    builtinEntry "list.li" "li" "px-4 py-2" none
      ["item", "entry", "row"],
    builtinEntry "media.img" "img" "rounded-md" none
      ["image", "photo", "picture", "avatar"],
    builtinEntry "icon.button" "button" "p-2 rounded-md hover:bg-gray-100" (some "button")
      ["icon", "symbol", "emoji", "glyph"]]

/-- The built-in palette. -/
def builtin : Palette :=
  ⟨builtinEntries, by decide +kernel⟩

/-- The built-in palette with a catalog laid over it. -/
def ofCatalog (catalog : List Entry) : Except (List Problem) Palette :=
  builtin.overlay catalog

end Mockup.Palette
