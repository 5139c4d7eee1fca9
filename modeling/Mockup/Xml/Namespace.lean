import Mockup.Xml.Lexeme

/-!
# Namespaces

An element may declare prefixes that stand for namespaces. A scope lists the prefixes that are in
force, the innermost first. Declarations are checked as they are read, and the prefixes of an
element's attributes when its tag ends.
-/

namespace Mockup.Xml

/-- The address under which the names of XML itself are published. -/
def standardAddress : String := "http:" ++ "//www.w3.org/"

/-- The namespace that the prefix `xml` stands for. -/
def xmlNamespace : String := standardAddress ++ "XML/1998/namespace"

/-- The namespace of declarations, which may not be declared. -/
def declarationNamespace : String := standardAddress ++ "2000/xmlns/"

/-- Prefixes in force with their namespaces, the innermost first. -/
abbrev Scope := List (String × String)

/-- The namespace of a prefix. -/
def Scope.namespace? (scope : Scope) (qualifier : String) : Option String :=
  (scope.find? fun d => d.1 == qualifier).map (·.2)

/-- An attribute as it was read. -/
structure RawAttribute where
  /-- Its name. -/
  name : QualifiedName
  /-- Its normalized value. -/
  value : String
  /-- The length of the text from its name on. -/
  unread : Nat
  deriving Repr

/-- The declarations and the other attributes of a tag, in order. -/
structure TagAttributes where
  /-- The prefixes that the tag declares. -/
  declared : Scope
  /-- The attributes that declare nothing. -/
  attributes : List RawAttribute
  deriving Repr

/-- Takes in an attribute. A declaration of a prefix is checked and noted; a declaration of the
namespace of names without a prefix is only checked, because only local names are kept. -/
def TagAttributes.add (t : TagAttributes) (a : RawAttribute) : Reading TagAttributes :=
  let fail (cause : Cause) : Reading TagAttributes := .error ⟨cause, a.unread⟩
  let prefixName := a.name.name
  if a.name.qualifier = "xmlns" then
    if a.value = declarationNamespace then fail .reservedNamespace
    else if prefixName = "xml" then
      if a.value = xmlNamespace then .ok t else fail .xmlPrefixElsewhere
    else if a.value = xmlNamespace then fail .xmlNamespaceElsewhere
    else if t.declared.any fun d => d.1 == prefixName then fail (.duplicateNamespace prefixName)
    else .ok { t with declared := t.declared ++ [(prefixName, a.value)] }
  else if prefixName = "xmlns" then
    if a.value = xmlNamespace then fail .xmlNamespaceElsewhere
    else if a.value = declarationNamespace then fail .reservedNamespace
    else .ok t
  else .ok { t with attributes := t.attributes ++ [a] }

/-- The namespace of an attribute. One without a prefix has none. -/
def attributeNamespace (scope : Scope) (a : RawAttribute) : Reading (Option String) :=
  if a.name.qualifier.isEmpty then .ok none
  else if a.name.qualifier = "xml" then .ok (some xmlNamespace)
  else match scope.namespace? a.name.qualifier with
    | some uri => .ok (some uri)
    | none => .error ⟨.unknownNamespace a.name.qualifier, a.unread⟩

/-- Checks the attributes of a tag in order: each prefix is in force, and no two attributes have the
same namespace and local name. -/
def checkAttributes (scope : Scope) :
    List (Option String × String) → List RawAttribute → Reading Unit
  | _, [] => .ok ()
  | seen, a :: rest => do
    let uri ← attributeNamespace scope a
    if seen.contains (uri, a.name.name) then
      .error ⟨.duplicateAttribute a.name.name, a.unread⟩
    checkAttributes scope ((uri, a.name.name) :: seen) rest

/-- Checks the prefix of an element, whose name begins where `unread` characters are left. -/
def checkElementName (scope : Scope) (name : QualifiedName) (unread : Nat) : Reading Unit :=
  if name.qualifier.isEmpty || (scope.namespace? name.qualifier).isSome then .ok ()
  else .error ⟨.unknownNamespace name.qualifier, unread⟩

end Mockup.Xml
