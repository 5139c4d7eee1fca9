import Mockup.Proofs.Json.Fields
import Mockup.Ui.Interchange

/-!
# Trees are read back from their objects

A user-interface tree that is written as an object is read back as the same tree, whatever its
optional parts are. The numbers in it have to be finite, as others have no written form.

* `t.Exact` — every number in the tree is written as it is.

## Main results

* `Layout.decodeIn_encode`, `Style.decodeIn_encode`, `Field.decodeIn_encode`: the parts of nodes.
* `Node.decode_encode`: a node, wherever it stands.
* `Tree.decode_encode`: a tree.
-/

namespace Mockup.Ui

open Json Json.Members

/-! ### Numbers that are written as they are -/

/-- The numbers of a layout are finite, and the number of columns has 32 bits. -/
structure Layout.Exact (l : Layout) : Prop where
  gap : ∀ x ∈ l.gap, x.isFinite = true
  padding : ∀ x ∈ l.padding, x.isFinite = true
  columns : ∀ n ∈ l.columns, n < UInt32.size

/-- The radius of a style is finite. -/
def Style.Exact (s : Style) : Prop :=
  ∀ x ∈ s.radius, x.isFinite = true

/-- The arrangement of a node that has one. -/
def Node.layout? : Node → Option Layout
  | .frame layout _ _ => some layout
  | _ => none

/-- The numbers of a node itself are written as they are. -/
structure Node.Exact (n : Node) : Prop where
  layout : ∀ l ∈ n.layout?, l.Exact
  style : n.style.Exact

instance (l : Layout) : Decidable l.Exact :=
  decidable_of_iff ((∀ x ∈ l.gap, x.isFinite = true) ∧ (∀ x ∈ l.padding, x.isFinite = true) ∧
      ∀ n ∈ l.columns, n < UInt32.size)
    ⟨fun ⟨gap, padding, columns⟩ => ⟨gap, padding, columns⟩, fun h => ⟨h.gap, h.padding, h.columns⟩⟩

instance (s : Style) : Decidable s.Exact :=
  inferInstanceAs (Decidable (∀ x ∈ s.radius, x.isFinite = true))

instance (n : Node) : Decidable n.Exact :=
  decidable_of_iff ((∀ l ∈ n.layout?, l.Exact) ∧ n.style.Exact)
    ⟨fun ⟨layout, style⟩ => ⟨layout, style⟩, fun h => ⟨h.layout, h.style⟩⟩

/-- The numbers in a tree are written as they are. -/
structure Tree.Exact (t : Tree) : Prop where
  layout : t.layout.Exact
  style : t.style.Exact
  nodes : ∀ n ∈ t.walk, n.Exact

/-! ### Layout and style -/

theorem Layout.decodeIn_encode (setting : Setting) {l : Layout} (h : l.Exact) :
    decodeIn setting l.encode.sorted = .ok l := by
  obtain ⟨fields, hfields⟩ : ∃ fields, l.encode = .object fields := ⟨_, rfl⟩
  have display {whole : Json} : (.defaulted "display" .flex (asVariant setting Display.names) :
      Members whole _).Reads (inOrder fields) l.display :=
    reads_defaulted (by simp [← hfields, encode]) (asVariant_sorted l.display.variantOf_name)
  have direction {whole : Json} : (.nullable "direction" (asVariant setting Direction.names) :
      Members whole _).Reads (inOrder fields) l.direction :=
    reads_nullableVariant (by simp [← hfields, encode]) Direction.variantOf_name
  have gap {whole : Json} : (.nullable "gap" asFloat : Members whole _).Reads
      (inOrder fields) l.gap :=
    reads_nullableFloat (by simp [← hfields, encode]) h.gap
  have padding {whole : Json} : (.nullable "padding" asFloat : Members whole _).Reads
      (inOrder fields) l.padding :=
    reads_nullableFloat (by simp [← hfields, encode]) h.padding
  have columns {whole : Json} : (.nullable "columns" asNat32 : Members whole _).Reads
      (inOrder fields) l.columns :=
    reads_nullable nat (by simp [← hfields, encode])
      (fun n hn => asNat32_sorted (h.columns n hn)) rfl
  have align {whole : Json} : (.nullable "align" (asVariant setting Alignment.names) :
      Members whole _).Reads (inOrder fields) l.align :=
    reads_nullableVariant (by simp [← hfields, encode]) Alignment.variantOf_name
  have justify {whole : Json} : (.nullable "justify" (asVariant setting Alignment.names) :
      Members whole _).Reads (inOrder fields) l.justify :=
    reads_nullableVariant (by simp [← hfields, encode]) Alignment.variantOf_name
  rw [hfields, sorted_object, decodeIn]
  exact asStruct_object (((((((display.map _).seq direction).seq gap).seq padding).seq
    columns).seq align).seq justify)

theorem Border.decode_sorted (b : Border) : decode b.encode.sorted = .ok b := by
  cases b <;> rfl

theorem Style.decodeIn_encode (setting : Setting) {s : Style} (h : s.Exact) :
    decodeIn setting s.encode.sorted = .ok s := by
  obtain ⟨fields, hfields⟩ : ∃ fields, s.encode = .object fields := ⟨_, rfl⟩
  have background {whole : Json} : (.nullable "bg" asString : Members whole _).Reads
      (inOrder fields) s.background :=
    reads_nullableString (by simp [← hfields, encode])
  have color {whole : Json} : (.nullable "color" asString : Members whole _).Reads
      (inOrder fields) s.color :=
    reads_nullableString (by simp [← hfields, encode])
  have radius {whole : Json} : (.nullable "radius" asFloat : Members whole _).Reads
      (inOrder fields) s.radius :=
    reads_nullableFloat (by simp [← hfields, encode]) h
  have shadow {whole : Json} : (.nullable "shadow" (asVariant setting Shadow.names) :
      Members whole _).Reads (inOrder fields) s.shadow :=
    reads_nullableVariant (by simp [← hfields, encode]) Shadow.variantOf_name
  have border {whole : Json} : (.nullable "border" Border.decode : Members whole _).Reads
      (inOrder fields) s.border :=
    reads_nullable Border.encode (by simp [← hfields, encode]) (fun b _ => b.decode_sorted) rfl
  rw [hfields, sorted_object, decodeIn]
  exact asStruct_object (((((background.map _).seq color).seq radius).seq shadow).seq border)

/-! ### Fields and actions -/

theorem Field.decodeIn_encode (setting : Setting) (f : Field) :
    decodeIn setting f.encode.sorted = .ok f := by
  obtain ⟨fields, hfields⟩ : ∃ fields, f.encode = .object fields := ⟨_, rfl⟩
  have name {whole : Json} : (.required "name" asString : Members whole _).Reads
      (inOrder fields) f.name :=
    reads_string (by simp [← hfields, encode])
  have label {whole : Json} : (.nullable "label" asString : Members whole _).Reads
      (inOrder fields) f.label :=
    reads_nullableString (by simp [← hfields, encode])
  have component {whole : Json} : (.required "component" (asVariant setting FieldComponent.names) :
      Members whole _).Reads (inOrder fields) f.component :=
    reads_required (by simp [← hfields, encode]) (asVariant_sorted f.component.variantOf_name)
  have required {whole : Json} : (.nullable "required" asBool : Members whole _).Reads
      (inOrder fields) f.required :=
    reads_nullable bool (by simp [← hfields, encode]) (fun _ _ => rfl) rfl
  have options {whole : Json} : (.nullable "options" asStrings : Members whole _).Reads
      (inOrder fields) f.options :=
    reads_nullable strings (by simp [← hfields, encode]) (fun ss _ => asStrings_sorted ss) rfl
  have placeholder {whole : Json} : (.nullable "placeholder" asString : Members whole _).Reads
      (inOrder fields) f.placeholder :=
    reads_nullableString (by simp [← hfields, encode])
  rw [hfields, sorted_object, decodeIn]
  exact asStruct_object ((((((name.map _).seq label).seq component).seq required).seq
    options).seq placeholder)

theorem SubmitAction.decode_encode (setting : Setting) (a : SubmitAction) :
    decode setting a.encode.sorted = .ok a := by
  obtain ⟨fields, hfields⟩ : ∃ fields, a.encode = .object fields := by cases a <;> exact ⟨_, rfl⟩
  -- The tag names the kind of the action, and all other fields are texts.
  have tag (s : String) (h : a.encode.get? "type" = some (.string s)) :
      (object fields).get? "type" = some (.string s) := hfields ▸ h
  have text {whole : Json} (key s : String) (h : a.encode.get? key = some (.string s)) :
      (.required key asString : Members whole String).Reads (inOrder fields) s :=
    reads_string (hfields ▸ h)
  rw [hfields, sorted_object, decode]
  cases a with
  | httpPost url => exact asTagged_inOrder (tag "http.post" rfl) rfl ((text "url" url rfl).map _)
  | openApi specUrl operationId =>
    exact asTagged_inOrder (tag "openapi.op" rfl) rfl
      (((text "specUrl" specUrl rfl).map _).seq (text "operationId" operationId rfl))
  | supabaseInsert table =>
    exact asTagged_inOrder (tag "supabase.insert" rfl) rfl ((text "table" table rfl).map _)
  | graphql endpoint document =>
    exact asTagged_inOrder (tag "graphql.mutation" rfl) rfl
      (((text "endpoint" endpoint rfl).map _).seq (text "document" document rfl))

theorem FormActions.decode_encode (setting : Setting) (a : FormActions) :
    decode setting a.encode.sorted = .ok a := by
  obtain ⟨fields, hfields⟩ : ∃ fields, a.encode = .object fields := ⟨_, rfl⟩
  have onSubmit {whole : Json} : (.nullable "onSubmit" (SubmitAction.decode setting) :
      Members whole _).Reads (inOrder fields) a.onSubmit :=
    reads_nullable SubmitAction.encode (by simp [← hfields, encode])
      (fun b _ => b.decode_encode setting) rfl
  rw [hfields, sorted_object, decode]
  exact asStruct_object (onSubmit.map _)

/-! ### Nodes -/

namespace Node

/-- An item of a list as a string or an object. -/
def encodeItem : Content Node → Json
  | .text s => .string s
  | .node n => n.encode

theorem encodeAll_eq_map (ns : List Node) : encodeAll ns = ns.map encode := by
  induction ns with
  | nil => rfl
  | cons n ns ih => rw [encodeAll, ih, List.map_cons]

theorem encodeItems_eq_map (cs : List (Content Node)) : encodeItems cs = cs.map encodeItem := by
  induction cs with
  | nil => rfl
  | cons c cs ih =>
    cases c with
    | text s => rw [encodeItems, ih, List.map_cons, encodeItem]
    | node n => rw [encodeItems, ih, List.map_cons, encodeItem]

theorem mem_walk_self (n : Node) : n ∈ n.walk := by
  cases n <;> exact List.mem_cons_self

/-- Every node is written as an object with its tag and its look. -/
theorem exists_fields {n : Node} (h : n.style.Exact) :
    ∃ fields, n.encode = .object fields ∧
      (object fields).get? "type" = some (.string n.kind) ∧
      ∀ {whole : Json}, (.defaulted "style" {} (Style.decodeIn .inside) : Members whole _).Reads
        (inOrder fields) n.style := by
  obtain ⟨fields, hfields⟩ : ∃ fields, n.encode = .object fields := by cases n <;> exact ⟨_, rfl⟩
  refine ⟨fields, hfields, ?_, ?_⟩
  · rw [← hfields]
    cases n <;> simp [encode, kind]
  · intro whole
    refine reads_defaulted (j := n.style.encode) (hfields ▸ ?_) (Style.decodeIn_encode .inside h)
    cases n <;> simp [encode, style]

mutual

/-- A node is read back, whether the values around it were set aside or not. -/
theorem decode_encode (setting : Setting) : ∀ n : Node, (∀ m ∈ n.walk, m.Exact) →
    decode setting n.encode.sorted = .ok n
  -- The tag and the style are read alike for all kinds; each has fields of its own beside them.
  | .text role content style, h => by
    obtain ⟨fields, hfields, htag, hstyle⟩ := exists_fields (h _ (mem_walk_self _)).style
    have hrole {whole : Json} : (.defaulted "role" .paragraph (asVariant .inside TextRole.names) :
        Members whole _).Reads (inOrder fields) role :=
      reads_defaulted (by simp [← hfields, encode]) (asVariant_sorted role.variantOf_name)
    have hcontent {whole : Json} : (.required "content" asString : Members whole _).Reads
        (inOrder fields) content :=
      reads_string (by simp [← hfields, encode])
    rw [hfields, sorted_object, decode]
    exact asTagged_inOrder htag rfl (((hrole.map _).seq hcontent).seq hstyle)
  | .image src alt style, h => by
    obtain ⟨fields, hfields, htag, hstyle⟩ := exists_fields (h _ (mem_walk_self _)).style
    have hsrc {whole : Json} : (.nullable "src" asString : Members whole _).Reads
        (inOrder fields) src :=
      reads_nullableString (by simp [← hfields, encode])
    have halt {whole : Json} : (.nullable "alt" asString : Members whole _).Reads
        (inOrder fields) alt :=
      reads_nullableString (by simp [← hfields, encode])
    rw [hfields, sorted_object, decode]
    exact asTagged_inOrder htag rfl (((hsrc.map _).seq halt).seq hstyle)
  | .icon name style, h => by
    obtain ⟨fields, hfields, htag, hstyle⟩ := exists_fields (h _ (mem_walk_self _)).style
    have hname {whole : Json} : (.required "name" asString : Members whole _).Reads
        (inOrder fields) name :=
      reads_string (by simp [← hfields, encode])
    rw [hfields, sorted_object, decode]
    exact asTagged_inOrder htag rfl ((hname.map _).seq hstyle)
  | .frame layout style children, h => by
    obtain ⟨hhere, hbelow⟩ := List.forall_mem_cons.1 h
    obtain ⟨fields, hfields, htag, hstyle⟩ := exists_fields hhere.style
    have hlayout {whole : Json} : (.defaulted "layout" {} (Layout.decodeIn .inside) :
        Members whole _).Reads (inOrder fields) layout :=
      reads_defaulted (j := layout.encode) (by simp [← hfields, encode])
        (Layout.decodeIn_encode .inside (hhere.layout layout rfl))
    have hchildren {whole : Json} : (.field "children" (some []) fun j _ =>
        j.asList fun k _ => decode .inside k : Members whole _).Reads (inOrder fields) children :=
      reads_field (j := .array (children.map encode))
        (by simp [← hfields, encode, encodeAll_eq_map])
        fun _ => asList_sorted (decode_encodeAll .inside children hbelow)
    rw [hfields, sorted_object, decode]
    exact asTagged_inOrder htag rfl (((hlayout.map _).seq hstyle).seq hchildren)
  | .form name formFields actions style, h => by
    obtain ⟨fields, hfields, htag, hstyle⟩ := exists_fields (h _ (mem_walk_self _)).style
    have hname {whole : Json} : (.required "name" asString : Members whole _).Reads
        (inOrder fields) name :=
      reads_string (by simp [← hfields, encode])
    have hformFields {whole : Json} : (.required "fields" fun j =>
        j.asList fun k _ => Field.decodeIn .inside k : Members whole _).Reads
        (inOrder fields) formFields :=
      reads_required (j := .array (formFields.map Field.encode)) (by simp [← hfields, encode])
        (asList_sorted fun f _ => f.decodeIn_encode .inside)
    have hactions {whole : Json} : (.nullable "actions" (FormActions.decode .inside) :
        Members whole _).Reads (inOrder fields) actions :=
      reads_nullable FormActions.encode (by simp [← hfields, encode])
        (fun a _ => a.decode_encode .inside) rfl
    rw [hfields, sorted_object, decode]
    exact asTagged_inOrder htag rfl ((((hname.map _).seq hformFields).seq hactions).seq hstyle)
  | .list items style, h => by
    obtain ⟨hhere, hbelow⟩ := List.forall_mem_cons.1 h
    obtain ⟨fields, hfields, htag, hstyle⟩ := exists_fields hhere.style
    have hitems {whole : Json} : (.field "items" none fun j _ =>
        j.asList fun k _ => decodeItem k : Members whole _).Reads (inOrder fields) items :=
      reads_field (j := .array (items.map encodeItem))
        (by simp [← hfields, encode, encodeItems_eq_map])
        fun _ => asList_sorted (decodeItem_encodeItem items hbelow)
    rw [hfields, sorted_object, decode]
    exact asTagged_inOrder htag rfl ((hitems.map _).seq hstyle)
  | .button label style, h => by
    obtain ⟨fields, hfields, htag, hstyle⟩ := exists_fields (h _ (mem_walk_self _)).style
    have hlabel {whole : Json} : (.required "label" asString : Members whole _).Reads
        (inOrder fields) label :=
      reads_string (by simp [← hfields, encode])
    rw [hfields, sorted_object, decode]
    exact asTagged_inOrder htag rfl ((hlabel.map _).seq hstyle)

theorem decode_encodeAll (setting : Setting) : ∀ ns : List Node, (∀ m ∈ walkAll ns, m.Exact) →
    ∀ n ∈ ns, decode setting n.encode.sorted = .ok n
  | [], _, n, hn => by cases hn
  | m :: ms, h, n, hn => by
    rw [walkAll, List.forall_mem_append] at h
    rcases List.mem_cons.1 hn with heq | hn
    · rw [heq]
      exact decode_encode setting m h.1
    · exact decode_encodeAll setting ms h.2 n hn

/-- An item is read back: a string is no node, and an object is no text. -/
theorem decodeItem_encodeItem : ∀ cs : List (Content Node), (∀ m ∈ walkItems cs, m.Exact) →
    ∀ c ∈ cs, decodeItem (encodeItem c).sorted = .ok c
  | [], _, c, hc => by cases hc
  | .text s :: cs, h, c, hc => by
    rcases List.mem_cons.1 hc with heq | hc
    · rw [heq]
      rfl
    · exact decodeItem_encodeItem cs h c hc
  | .node n :: cs, h, c, hc => by
    rw [walkItems, List.forall_mem_append] at h
    rcases List.mem_cons.1 hc with heq | hc
    · have hnode := decode_encode .inside n h.1
      obtain ⟨fields, hfields, -⟩ := exists_fields (h.1 _ (mem_walk_self n)).style
      rw [hfields, sorted_object] at hnode
      rw [heq, encodeItem, hfields, sorted_object, decodeItem, hnode]
      rfl
    · exact decodeItem_encodeItem cs h.2 c hc

end

end Node

/-! ### Trees -/

theorem Tree.decode_encode {t : Tree} (h : t.Exact) : decode t.encode.sorted = .ok t := by
  obtain ⟨fields, hfields⟩ : ∃ fields, t.encode = .object fields := ⟨_, rfl⟩
  have kind {whole : Json} : (.defaulted "type" () (asVariant .direct Tree.kinds) :
      Members whole _).Reads (inOrder fields) () :=
    reads_defaulted (j := .string "Frame") (by simp [← hfields, encode]) rfl
  have layout {whole : Json} : (.defaulted "layout" {} Layout.decode : Members whole _).Reads
      (inOrder fields) t.layout :=
    reads_defaulted (j := t.layout.encode) (by simp [← hfields, encode])
      (Layout.decodeIn_encode .direct h.layout)
  have style {whole : Json} : (.defaulted "style" {} Style.decode : Members whole _).Reads
      (inOrder fields) t.style :=
    reads_defaulted (j := t.style.encode) (by simp [← hfields, encode])
      (Style.decodeIn_encode .direct h.style)
  have children {whole : Json} : (.required "children" fun j =>
      j.asList fun k _ => Node.decode .direct k : Members whole _).Reads
      (inOrder fields) t.children :=
    reads_required (j := .array (t.children.map Node.encode))
      (by simp [← hfields, encode, Node.encodeAll_eq_map])
      (asList_sorted (Node.decode_encodeAll .direct t.children h.nodes))
  rw [hfields, sorted_object, decode]
  exact asStruct_object ((((kind.map _).seq layout).seq style).seq children)

end Mockup.Ui
