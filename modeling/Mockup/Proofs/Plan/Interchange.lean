import Mockup.Plan.Basic
import Mockup.Proofs.Json.Fields

/-!
# Plans are read back from their objects

A plan that is written as an object is read back as the same plan. Its props may be any values; the
fields of the objects among them stand in key order, as they do in every value that is decoded.

* `n.InOrder` — the props of a node and of those below it are in key order.

## Main results

* `BuildNode.decode_encode`: a node.
* `BuildPlan.decode_encode`: a plan.
-/

namespace Mockup

open Json Json.Members

namespace BuildNode

/-- The props of a node and of those below it are in key order. -/
def InOrder (n : BuildNode) : Prop :=
  ∀ m ∈ n.walk, ∀ props ∈ m.props, props.InOrder

/-- A child as a string or an object. -/
def encodeChild : Content BuildNode → Json
  | .text s => .string s
  | .node n => n.encode

theorem encodeAll_eq_map (cs : List (Content BuildNode)) : encodeAll cs = cs.map encodeChild := by
  induction cs with
  | nil => rfl
  | cons c cs ih =>
    cases c with
    | text s => rw [encodeAll, ih, List.map_cons, encodeChild]
    | node n => rw [encodeAll, ih, List.map_cons, encodeChild]

theorem encodeChildren_eq_optional (children : Option (List (Content BuildNode))) :
    encodeChildren children =
      Json.optional "children" (fun cs => .array (cs.map encodeChild)) children := by
  cases children with
  | none => rfl
  | some cs => rw [encodeChildren, encodeAll_eq_map, Json.optional]

mutual

theorem decode_encode : ∀ n : BuildNode, n.InOrder → decode n.encode.sorted = .ok n
  | ⟨key, props, tailwind, children⟩, h => by
    obtain ⟨hhere, hbelow⟩ := List.forall_mem_cons.1 h
    obtain ⟨fields, hfields⟩ :
        ∃ fields, (BuildNode.mk key props tailwind children).encode = .object fields := ⟨_, rfl⟩
    have hkey {whole : Json} : (.required "componentKey" asString : Members whole _).Reads
        (inOrder fields) key :=
      reads_string (by simp [← hfields, encode, encodeChildren_eq_optional])
    have hprops {whole : Json} : (.nullable "props" (asDict Except.ok) : Members whole _).Reads
        (inOrder fields) props :=
      reads_nullable (ofDict id) (by simp [← hfields, encode, encodeChildren_eq_optional])
        (fun d hd => asDict_sorted (hhere d hd)) rfl
    have htailwind {whole : Json} : (.nullable "tailwind" asString : Members whole _).Reads
        (inOrder fields) tailwind :=
      reads_nullableString (by simp [← hfields, encode, encodeChildren_eq_optional])
    have hchildren {whole : Json} : (.field "children" (some none) fun k _ =>
        orNull k (k.asList fun c _ => decodeChild c) : Members whole _).Reads
        (inOrder fields) children :=
      reads_optional (fun cs => .array (cs.map encodeChild))
        (by simp [← hfields, encode, encodeChildren_eq_optional])
        (fun cs hcs _ => asList_sorted (decodeChild_ofChildren children hbelow cs hcs))
        fun _ => rfl
    rw [hfields, sorted_object, decode]
    exact asStruct_object ((((hkey.map _).seq hprops).seq htailwind).seq hchildren)

theorem decodeChild_ofChildren : ∀ children : Option (List (Content BuildNode)),
    (∀ m ∈ walkChildren children, ∀ props ∈ m.props, props.InOrder) →
      ∀ cs ∈ children, ∀ c ∈ cs, decodeChild (encodeChild c).sorted = .ok c
  | none, _, cs, hcs => by cases hcs
  | some ds, h, cs, hcs => by
    cases hcs
    exact decodeChild_encodeChild ds h

/-- A child is read back: a string is no node, and an object is no text. -/
theorem decodeChild_encodeChild : ∀ cs : List (Content BuildNode),
    (∀ m ∈ walkAll cs, ∀ props ∈ m.props, props.InOrder) →
      ∀ c ∈ cs, decodeChild (encodeChild c).sorted = .ok c
  | [], _, c, hc => by cases hc
  | .text s :: cs, h, c, hc => by
    rcases List.mem_cons.1 hc with heq | hc
    · rw [heq]
      rfl
    · exact decodeChild_encodeChild cs h c hc
  | .node n :: cs, h, c, hc => by
    rw [walkAll, List.forall_mem_append] at h
    rcases List.mem_cons.1 hc with heq | hc
    · have hnode := decode_encode n h.1
      obtain ⟨fields, hfields⟩ : ∃ fields, n.encode = .object fields := by
        cases n
        exact ⟨_, rfl⟩
      rw [hfields, sorted_object] at hnode
      rw [heq, encodeChild, hfields, sorted_object, decodeChild, hnode]
      rfl
    · exact decodeChild_encodeChild cs h.2 c hc

end

end BuildNode

theorem BuildPlan.decode_encode {p : BuildPlan} (h : p.root.InOrder) :
    decode p.encode.sorted = .ok p := by
  obtain ⟨fields, hfields⟩ : ∃ fields, p.encode = .object fields := ⟨_, rfl⟩
  have name {whole : Json} : (.required "name" asString : Members whole _).Reads
      (inOrder fields) p.name :=
    reads_string (by simp [← hfields, encode])
  have imports {whole : Json} : (.defaulted "imports" [] asStrings : Members whole _).Reads
      (inOrder fields) p.imports :=
    reads_defaulted (j := strings p.imports) (by simp [← hfields, encode])
      (asStrings_sorted p.imports)
  have root {whole : Json} : (.required "root" BuildNode.decode : Members whole _).Reads
      (inOrder fields) p.root :=
    reads_required (j := p.root.encode) (by simp [← hfields, encode])
      (BuildNode.decode_encode p.root h)
  rw [hfields, sorted_object, decode]
  exact asStruct_object (((name.map _).seq imports).seq root)

end Mockup
