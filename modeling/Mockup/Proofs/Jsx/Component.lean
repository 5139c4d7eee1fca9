import Mockup.Jsx.Component
import Mockup.Proofs.Jsx.Written

/-!
# Reading component files

A component file without imports of its own is a script in which one element is found: the wrapper,
which holds what is shown. The text around the wrapper depends on the name and the wrapper only, and
a script passes over it.

## Main results

* `Component.toList_source`: the file is the wrapper with the text before and after it.
* `reads_before`: the text before the wrapper opens two brackets and no element.
* `scan_source`: the file is read as a wrapper that shows the view.
-/

namespace Mockup.Jsx

/-! ### The parts of the text -/

/-- The text before what the function returns. -/
def Component.beforeReturn (name : String) (w : Wrapper) : String :=
  importBlock [] w ++ propsType name ++ functionHead name w ++ "  return "

/-- The text before the wrapper. -/
def Component.before (name : String) (w : Wrapper) : List Char :=
  (Component.beforeReturn name w).toList ++ '(' :: "\n    ".toList

/-- The text after the wrapper. -/
def Component.afterwards : List Char := "\n  );\n\x7d\n".toList

/-- The tag of a wrapper. -/
def Wrapper.tag : Wrapper → String
  | .plain => "div"
  | .form _ => "form"

/-- The attributes of a wrapper. -/
def Wrapper.attributes : Wrapper → List View.Attribute
  | .plain => [⟨"className", .code "className"⟩]
  | .form _ => [⟨"className", .code "className"⟩, ⟨"onSubmit", .code "handleSubmit"⟩]

/-- The inside of a wrapper. -/
def Wrapper.body (v : View) : List Char :=
  ['\n'] ++ v.chars bodyDepth ++ View.indentation 2

/-- A file without imports of its own is the wrapper with the text before and after it. -/
theorem Component.toList_source {c : Component} (h : c.imports = []) :
    c.source.toList = Component.before c.name c.wrapper ++
      (View.openTag c.wrapper.tag c.wrapper.attributes ++ Wrapper.body c.body ++
        View.closeTag c.wrapper.tag) ++ Component.afterwards := by
  have hopen : c.wrapper.openTag.toList = View.openTag c.wrapper.tag c.wrapper.attributes := by
    cases c.wrapper <;> simp only [Wrapper.openTag, Wrapper.tag, Wrapper.attributes] <;> rfl
  have hclose : c.wrapper.closeTag.toList = View.closeTag c.wrapper.tag := by
    cases c.wrapper <;> simp only [Wrapper.closeTag, Wrapper.tag] <;> rfl
  have hreturn : "  return (\n    ".toList = "  return ".toList ++ '(' :: "\n    ".toList := rfl
  have hindentation : "    ".toList = View.indentation 2 := rfl
  have hnewline : "\n".toList = ['\n'] := rfl
  have hend : "\n  );\n\x7d\n".toList = Component.afterwards := rfl
  simp only [Component.source, h, Component.before, Component.beforeReturn, Wrapper.body,
    String.toList_append, String.toList_ofList, hopen, hclose, hreturn, hindentation, hnewline,
    hend, List.append_assoc, List.cons_append, List.nil_append]

/-! ### The text before the wrapper -/

section Before

variable {name : String}

theorem passes_word {word due : List Char} (h : ∀ c ∈ word, isWordChar c = true) :
    Passes due word due :=
  Balanced.quiet (fun c hc => isQuiet_of_isWordChar (h c hc)) due

theorem passes_importBlock (w : Wrapper) : Passes [] (importBlock [] w).toList [] := by
  cases w with
  | plain => exact .nil
  | form action =>
    have hbefore : Passes [] "import type \x7b FormEvent \x7d from ".toList [] :=
      passes_of_dueAfter rfl
    have hafter : Passes [] ";\n\n".toList [] := passes_of_dueAfter rfl
    have htext : (importBlock [] (.form action)).toList =
        "import type \x7b FormEvent \x7d from ".toList ++
          (Json.quoted "react".toList ++ ";\n\n".toList) := by
      simp only [importBlock, List.map_nil]
      rfl
    rw [htext]
    exact hbefore.append ((Balanced.quoted "react".toList []).append hafter)

theorem passes_propsType (hname : ∀ c ∈ name.toList, isWordChar c = true) :
    Passes [] (propsType name).toList [] := by
  have hsplit : "  onSubmit?: (data: Record<string, FormDataEntryValue>) => void;\n".toList =
      "  onSubmit?: (data:".toList ++ ((' ' :: ("Record".toList ++ ['<'])) ++
        "string, FormDataEntryValue>) => void;\n".toList) := rfl
  have hexport : Passes [] "export type ".toList [] := passes_of_dueAfter rfl
  have hopen : Passes [] "Props = \x7b\n".toList ['\x7d'] := passes_of_dueAfter rfl
  have hfunction : Passes ['\x7d'] "  onSubmit?: (data:".toList [')', '\x7d'] :=
    passes_of_dueAfter rfl
  have hrecord : Passes [')', '\x7d'] (' ' :: ("Record".toList ++ ['<'])) [')', '\x7d'] :=
    passes_typeArguments (by decide) (List.all_eq_true.1 rfl) (by decide)
  have hresult : Passes [')', '\x7d'] "string, FormDataEntryValue>) => void;\n".toList ['\x7d'] :=
    passes_of_dueAfter rfl
  have hclasses : Passes ['\x7d'] "  className?: string;\n".toList ['\x7d'] :=
    passes_of_dueAfter rfl
  have hclose : Passes ['\x7d'] "\x7d;\n\n".toList [] := passes_of_dueAfter rfl
  unfold propsType
  simp only [String.toList_append, hsplit]
  exact (((hexport.append (passes_word hname)).append hopen).append
    (hfunction.append (hrecord.append hresult))).append hclasses |>.append hclose

theorem balanced_quote (s : String) : Balanced (Json.quote s).toList := by
  rw [Json.quote, String.toList_ofList]
  exact .quoted s.toList

theorem balanced_braced {s : String} (h : Balanced s.toList) : Balanced (braced s).toList := by
  have hopen : "\x7b".toList = ['\x7b'] := rfl
  have hclose : "\x7d".toList = ['\x7d'] := rfl
  rw [braced, String.toList_append, String.toList_append, hopen, hclose, List.append_assoc]
  exact .brackets rfl h

/-- An action is sent to a balanced address with a balanced text, whatever texts it holds. -/
theorem balanced_destination (action : Ui.SubmitAction) :
    Balanced (destination action).1.toList ∧ Balanced (destination action).2.toList := by
  have data : Balanced ", data ".toList := .of_all rfl
  -- The fixed texts have no brackets, and what is quoted between them is balanced as a whole.
  cases action with
  | httpPost url =>
    have text : Balanced "data".toList := .of_all rfl
    exact ⟨balanced_quote url, text⟩
  | openApi specUrl operationId =>
    have spec : Balanced " specUrl: ".toList := .of_all rfl
    have operation : Balanced ", operationId: ".toList := .of_all rfl
    refine ⟨balanced_quote _, balanced_braced ?_⟩
    simp only [String.toList_append]
    exact (((spec.append (balanced_quote _)).append operation).append (balanced_quote _)).append
      data
  | supabaseInsert table =>
    have hole : Balanced " table: ".toList := .of_all rfl
    refine ⟨balanced_quote _, balanced_braced ?_⟩
    simp only [String.toList_append]
    exact (hole.append (balanced_quote _)).append data
  | graphql endpoint document =>
    have address : Balanced " endpoint: ".toList := .of_all rfl
    have query : Balanced ", query: ".toList := .of_all rfl
    have arguments : Balanced ", variables: data ".toList := .of_all rfl
    refine ⟨balanced_quote _, balanced_braced ?_⟩
    simp only [String.toList_append]
    exact (((address.append (balanced_quote _)).append query).append (balanced_quote _)).append
      arguments

/-- The statement that sends the data is balanced. -/
theorem balanced_sendStatement (action : Ui.SubmitAction) :
    Balanced (sendStatement action).toList := by
  have hmethod : " method: \"POST\", headers: ".toList =
      " method: ".toList ++ (Json.quoted "POST".toList ++ ", headers: ".toList) := rfl
  have htype : " \"Content-Type\": \"application/json\" ".toList =
      " ".toList ++ (Json.quoted "Content-Type".toList ++ (": ".toList ++
        (Json.quoted "application/json".toList ++ " ".toList))) := rfl
  have hbody : ", body: JSON.stringify(".toList = ", body: JSON.stringify".toList ++ ['('] := rfl
  have hclose : ") ".toList = [')'] ++ " ".toList := rfl
  have hfetch : "await fetch(".toList = "await fetch".toList ++ ['('] := rfl
  have hend : ");".toList = [')'] ++ ";".toList := rfl
  have quiet {cs : List Char} (h : cs.all isQuiet = true) : Balanced cs := .of_all h
  obtain ⟨haddress, hsent⟩ := balanced_destination action
  have headers : Balanced (braced " \"Content-Type\": \"application/json\" ").toList := by
    refine balanced_braced ?_
    rw [htype]
    exact (quiet rfl).append ((Balanced.quoted _).append ((quiet rfl).append
      ((Balanced.quoted _).append (quiet rfl))))
  have hrequest : Balanced (braced (" method: \"POST\", headers: " ++
      braced " \"Content-Type\": \"application/json\" " ++ ", body: JSON.stringify(" ++
      (destination action).2 ++ ") ")).toList := by
    refine balanced_braced ?_
    have hargument := Balanced.brackets (o := '(') rfl hsent
    have hmethod' : Balanced " method: \"POST\", headers: ".toList := by
      rw [hmethod]
      exact (quiet rfl).append ((Balanced.quoted _).append (quiet rfl))
    have hsend : Balanced ", body: JSON.stringify".toList := quiet rfl
    have hblank : Balanced " ".toList := quiet rfl
    have hwhole := ((hmethod'.append headers).append hsend).append (hargument.append hblank)
    simpa [String.toList_append, hbody, hclose] using hwhole
  -- Address and request stand between the brackets of the call.
  have harguments : Balanced (((destination action).1.toList ++ ", ".toList) ++ _) :=
    (haddress.append (quiet rfl)).append hrequest
  have hwhole := (quiet (rfl : "await fetch".toList.all isQuiet = true)).append
    ((Balanced.brackets (o := '(') rfl harguments).append
      (quiet (rfl : ";".toList.all isQuiet = true)))
  unfold sendStatement
  simp only [String.toList_append, hfetch, hend]
  simpa [String.toList_append] using hwhole

/-- The function that is called when a form is sent is passed over. -/
theorem passes_submitFunction (action : Option Ui.SubmitAction) :
    Passes ['\x7d'] (submitFunction action).toList ['\x7d'] := by
  have quiet {cs due : List Char} (h : cs.all isQuiet = true) : Passes due cs due :=
    Balanced.of_all h due
  have hsplit : "function handleSubmit(event: FormEvent<HTMLFormElement>) \x7b\n".toList =
      "function handleSubmit(event:".toList ++ ((' ' :: ("FormEvent".toList ++ ['<'])) ++
        "HTMLFormElement>) \x7b\n".toList) := rfl
  have hfunction : Passes ['\x7d'] "function handleSubmit(event:".toList [')', '\x7d'] :=
    passes_of_dueAfter rfl
  have hevent : Passes [')', '\x7d'] (' ' :: ("FormEvent".toList ++ ['<'])) [')', '\x7d'] :=
    passes_typeArguments (by decide) (List.all_eq_true.1 rfl) (by decide)
  have hopen : Passes [')', '\x7d'] "HTMLFormElement>) \x7b\n".toList ['\x7d', '\x7d'] :=
    passes_of_dueAfter rfl
  have hprevent : Passes ['\x7d', '\x7d'] "    event.preventDefault();\n".toList
      ['\x7d', '\x7d'] :=
    passes_of_dueAfter rfl
  have hdata : Passes ['\x7d', '\x7d']
      "    const data = Object.fromEntries(new FormData(event.currentTarget));\n".toList
      ['\x7d', '\x7d'] :=
    passes_of_dueAfter rfl
  have hcall : Passes ['\x7d', '\x7d'] "    onSubmit?.(data);\n".toList ['\x7d', '\x7d'] :=
    passes_of_dueAfter rfl
  have hclose : Passes ['\x7d', '\x7d'] "  \x7d\n\n".toList ['\x7d'] := passes_of_dueAfter rfl
  have hasync : Passes ['\x7d'] (if action.isSome then "async " else "").toList ['\x7d'] := by
    split <;> exact quiet rfl
  have hsend : Passes ['\x7d', '\x7d']
      ((action.map fun a => "    " ++ sendStatement a ++ "\n").getD "").toList
      ['\x7d', '\x7d'] := by
    cases action with
    | none => exact .nil
    | some a =>
      have hindented : Balanced "    ".toList := .of_all rfl
      have hnewline : Balanced "\n".toList := .of_all rfl
      simp only [Option.map_some, Option.getD_some, String.toList_append]
      exact ((hindented.append (balanced_sendStatement a)).append hnewline) _
  -- The lines follow one another, and each leaves due what the next one begins with.
  unfold submitFunction
  simp only [String.toList_append, hsplit]
  exact ((((((((quiet (rfl : "  ".toList.all isQuiet = true)).append hasync).append
    (hfunction.append (hevent.append hopen))).append hprevent).append hdata).append hsend).append
    hcall).append hclose)

theorem passes_functionHead (hname : ∀ c ∈ name.toList, isWordChar c = true) (w : Wrapper) :
    Passes [] (functionHead name w).toList ['\x7d'] := by
  have hexport : Passes [] "export default function ".toList [] := passes_of_dueAfter rfl
  have hprops : Passes [')'] "Props) \x7b\n".toList ['\x7d'] := passes_of_dueAfter rfl
  cases w with
  | plain =>
    have harguments : Passes [] "(\x7b className \x7d: ".toList [')'] := passes_of_dueAfter rfl
    unfold functionHead
    simp only [String.toList_append]
    exact (((hexport.append (passes_word hname)).append harguments).append
      (passes_word hname)).append hprops
  | form action =>
    have harguments : Passes [] "(\x7b onSubmit, className \x7d: ".toList [')'] :=
      passes_of_dueAfter rfl
    unfold functionHead
    simp only [String.toList_append]
    exact ((((hexport.append (passes_word hname)).append harguments).append
      (passes_word hname)).append hprops).append (passes_submitFunction action)

/-- The text before the wrapper opens the braces of the function. -/
theorem passes_beforeReturn (hname : ∀ c ∈ name.toList, isWordChar c = true) (w : Wrapper) :
    Passes [] (Component.beforeReturn name w).toList ['\x7d'] := by
  have hreturn : Passes ['\x7d'] "  return ".toList ['\x7d'] := passes_of_dueAfter rfl
  unfold Component.beforeReturn
  simp only [String.toList_append]
  exact (((passes_importBlock w).append (passes_propsType hname)).append
    (passes_functionHead hname w)).append hreturn

end Before

/-! ### The file -/

/-- After the text before the wrapper an element may open. -/
theorem reads_before {name : String} (hname : ∀ c ∈ name.toList, isWordChar c = true)
    (w : Wrapper) : Situation.Reads ⟨.script {} .between, []⟩ .start (Component.before name w)
      ⟨.script ⟨[')', '\x7d'], .punctuation, []⟩ .between, []⟩ := by
  obtain ⟨s, hs, hcalm⟩ := passes_beforeReturn hname w [] [] _ .start (calm_between {} [])
  refine hs.append (.cons (hcalm.read_opening rfl) (.repeated fun c hc there => ?_))
  rcases (by simpa using hc : c = '\n' ∨ c = ' ') with rfl | rfl <;> rfl

/-- After the text behind the wrapper the script ends well. -/
theorem finish_of_reads_afterwards {found : List Element} {s : Situation} {here : Cursor}
    (h : s.Calm [')', '\x7d'] found []) :
    ∃ t, s.Reads here Component.afterwards t ∧
      Scan.finish ⟨here.after Component.afterwards, t⟩ = .ok found := by
  have hpasses : Passes [')', '\x7d'] Component.afterwards [] := passes_of_dueAfter rfl
  obtain ⟨t, ht, previous, part, rfl, hpart⟩ := hpasses found [] s here h
  refine ⟨_, ht, Scan.finish_eq_ok_iff.2 ⟨_, part, rfl, ?_, rfl, rfl⟩⟩
  rcases hpart with rfl | ⟨start, rfl⟩ <;> rfl

/-- The attributes of a wrapper are code that is balanced. -/
theorem Wrapper.readable_of_mem (w : Wrapper) : ∀ a ∈ w.attributes, a.Readable := by
  have classes : View.Attribute.Readable ⟨"className", .code "className"⟩ := by
    refine ⟨by decide, List.all_eq_true.1 rfl, fun s hs => ?_⟩
    cases hs
    exact .of_all rfl
  have submit : View.Attribute.Readable ⟨"onSubmit", .code "handleSubmit"⟩ := by
    refine ⟨by decide, List.all_eq_true.1 rfl, fun s hs => ?_⟩
    cases hs
    exact .of_all rfl
  -- Both values are single words, so the braces around them are the only ones.
  cases w with
  | plain => exact fun a ha => (List.mem_singleton.1 ha) ▸ classes
  | form action =>
    intro a ha
    rcases List.mem_cons.1 ha with rfl | ha
    · exact classes
    · exact (List.mem_singleton.1 ha) ▸ submit

/-- The inside of a wrapper is a content that shows the view. -/
theorem readsAsContent_body {v : View} (h : v.Readable) : ReadsAsContent (Wrapper.body v) [v] := by
  have hviews : View.ReadableAll [v] := ⟨h, trivial⟩
  have hinside := (readsAsContent_newline.append
    (readsAsContent_charsOfAll hviews bodyDepth)).append (readsAsContent_indentation 2)
  simpa [Wrapper.body, View.charsOfAll] using hinside

/-- Where the wrapper of a file opens. -/
def Component.wrapperStart (c : Component) : Cursor :=
  Cursor.start.after (Component.before c.name c.wrapper)

/-- The text of the wrapper of a file. -/
def Component.wrapperText (c : Component) : List Char :=
  View.openTag c.wrapper.tag c.wrapper.attributes ++ Wrapper.body c.body ++
    View.closeTag c.wrapper.tag

/-- The script in which the wrapper of a file opens. -/
def Component.script : Script := ⟨[')', '\x7d'], .punctuation, []⟩

/-- A file without imports of its own is read as one element, the wrapper, which shows the view. -/
theorem exists_wrapper {c : Component} (himports : c.imports = [])
    (hname : ∀ d ∈ c.name.toList, isWordChar d = true) (hbody : c.body.Readable) :
    ∃ el, scan c.source.toList = .ok [el] ∧
      ElementRead ⟨.script Component.script .between, []⟩ [.script Component.script] c.wrapperStart
        c.wrapperText (.element c.wrapper.tag c.wrapper.attributes [c.body]) el := by
  have htag : isTagName c.wrapper.tag.toList = true := by
    cases c.wrapper <;> simp only [Wrapper.tag] <;> rfl
  -- The wrapper opens in the script, where an angle bracket may open an element.
  have hangle : Situation.read ⟨.script Component.script .between, []⟩ c.wrapperStart '<' =
      .ok ⟨.script Component.script (.angle c.wrapperStart.offset), []⟩ := rfl
  have hopen : ∀ (there : Cursor) (d : Char), opensElement d = true →
      Situation.read ⟨.script Component.script (.angle c.wrapperStart.offset), []⟩ there d =
        OpenTag.read { start := c.wrapperStart.offset } [.script Component.script] there d
          .name := by
    intro there d hd
    simp [Situation.read, Script.read, hd]
  obtain ⟨el, hread⟩ := reads_tags hangle hopen htag c.wrapper.readable_of_mem
    (readsAsContent_body hbody) (by simp [View.closesItself])
  have hwhole := (reads_before hname c.wrapper).append (hread.reads _ rfl)
  obtain ⟨t, ht, hfinish⟩ := finish_of_reads_afterwards (calm_between
    (Script.afterValue Component.script [el]) [])
  refine ⟨el, ?_, hread⟩
  rw [Component.toList_source himports]
  refine scan_eq_of_reads (hwhole.append ht) ?_
  rw [Cursor.after_append]
  exact hfinish

/-- A file without imports of its own is read as one element, the wrapper, which shows the view. The
text before the element and the text after it depend on the name and the wrapper only. -/
theorem scan_source {c : Component} (himports : c.imports = [])
    (hname : ∀ d ∈ c.name.toList, isWordChar d = true) (hbody : c.body.Readable) :
    ∃ (el : Element) (text : List Char), scan c.source.toList = .ok [el] ∧
      Shows [.element c.wrapper.tag c.wrapper.attributes [c.body]] [el] ∧
      c.source.toList = Component.before c.name c.wrapper ++ text ++ Component.afterwards ∧
      el.start = Text.byteLength (Component.before c.name c.wrapper) ∧
      el.stop = el.start + Text.byteLength text := by
  obtain ⟨el, hscan, hread⟩ := exists_wrapper himports hname hbody
  have hplace : c.wrapperStart.offset =
      0 + Text.byteLength (Component.before c.name c.wrapper) := Cursor.offset_after _ _
  refine ⟨el, c.wrapperText, hscan, hread.shown, Component.toList_source himports, ?_, ?_⟩
  · rw [hread.start_eq, hplace, Nat.zero_add]
  · rw [hread.stop_eq, hread.start_eq, Cursor.offset_after]

/-- The elements inside the wrapper of a file are found in contents. -/
theorem findsInContent_of_wrapper {c : Component} (himports : c.imports = [])
    (hname : ∀ d ∈ c.name.toList, isWordChar d = true) {el : Element} {v : View}
    (hread : ElementRead ⟨.script Component.script .between, []⟩ [.script Component.script]
      c.wrapperStart c.wrapperText v el) {f : Element} (hf : f ∈ Element.walkAll el.children) :
    Situation.FindsInContent ⟨.script {} .between, []⟩ .start c.source.toList f := by
  rw [Component.toList_source himports]
  exact ((hread.finds f hf).append_left (reads_before hname c.wrapper)).append_right _

end Mockup.Jsx
