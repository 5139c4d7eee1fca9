import Mockup.Proofs.Jsx.Name
import Mockup.Proofs.Session.Fallback

/-!
# Names of what a session makes

A session makes a name out of the text that is asked for, and the component file makes a name out of
that of the plan. The second time nothing changes, so the plan, the function in the file and the
file have one name, and there is at most one remark on a changed name.

* `g.Bears palette requested` — what is made bears one name, for which `requested` was asked.

## Main results

* `componentName_eq_and_bears`: the names of components, and the name of what a session makes.
-/

namespace Mockup

/-- Whether a remark is on a changed name. -/
def Warning.isRenamed : Warning → Bool
  | .renamed .. => true
  | _ => false

theorem Warning.IsOnPlan.isRenamed {w : Warning} (h : w.IsOnPlan) : w.isRenamed = false := by
  cases h <;> rfl

theorem filter_isRenamed_of_isOnPlan {ws : List Warning} (h : ∀ w ∈ ws, w.IsOnPlan) :
    ws.filter Warning.isRenamed = [] :=
  List.filter_eq_nil_iff.2 fun w hw => by simp [(h w hw).isRenamed]

namespace Jsx

theorem filter_isRenamed_nameWarnings (requested used : String) :
    (nameWarnings requested used).filter Warning.isRenamed = nameWarnings requested used := by
  unfold nameWarnings
  split <;> rfl

/-- The function of a component file is exported under the name of the component. -/
theorem exists_functionHead_eq (name : String) (wrapper : Wrapper) :
    ∃ rest, functionHead name wrapper = "export default function " ++ (name ++ ("(" ++ rest)) := by
  cases wrapper with
  | plain =>
    have hopen : "(\x7b className \x7d: " = "(" ++ "\x7b className \x7d: " := rfl
    unfold functionHead
    dsimp only
    rw [hopen]
    repeat rw [String.append_assoc]
    exact ⟨_, rfl⟩
  | form action =>
    have hopen : "(\x7b onSubmit, className \x7d: " =
        "(" ++ "\x7b onSubmit, className \x7d: " := rfl
    unfold functionHead
    dsimp only
    rw [hopen]
    repeat rw [String.append_assoc]
    exact ⟨_, rfl⟩

section Plan

variable {p : BuildPlan} (h : Text.isPascalCase p.name = true) (palette : Palette)
  (directory : String)

include h

/-- After the imports and the type of its props the component of a plan is exported under the name
of the plan. -/
theorem exists_code_eq_of_isPascalCase :
    ∃ rest, (ComponentFile.ofPlan palette directory p).code =
      importBlock (p.neededImports palette) (.ofPlan palette p) ++ propsType p.name ++
        "export default function " ++ p.name ++ "(" ++ rest := by
  obtain ⟨rest, hhead⟩ := exists_functionHead_eq p.name (.ofPlan palette p)
  refine ⟨rest ++ ("  return (\n    " ++ (Wrapper.ofPlan palette p).openTag ++ "\n" ++
    String.ofList ((Component.ofPlan palette p).body.chars bodyDepth) ++ "    " ++
    (Wrapper.ofPlan palette p).closeTag ++ "\n  );\n\x7d\n"), ?_⟩
  rw [code_ofPlan, Component.source, name_ofPlan, wrapper_ofPlan, componentName_eq_self_iff.2 h,
    hhead]
  simp only [String.append_assoc]
  rfl

/-- The file of a plan is named after the plan, in whatever folder it is. -/
theorem exists_path_eq_of_isPascalCase :
    ∃ folder, (folder = "" ∨ ∃ d, folder = d ++ "/") ∧
      (ComponentFile.ofPlan palette directory p).path = folder ++ (p.name ++ ".tsx") := by
  rw [path_ofPlan, componentName_eq_self_iff.2 h, filePath]
  split
  · exact ⟨"", .inl rfl, String.empty_append.symm⟩
  · exact ⟨_, .inr ⟨_, rfl⟩, String.append_assoc ..⟩

/-- The name of a plan is not remarked on, nor is another one changed. -/
theorem filter_isRenamed_of_isPascalCase :
    (ComponentFile.ofPlan palette directory p).warnings.filter Warning.isRenamed = [] := by
  have hname : nameWarnings p.name (componentName p.name) = [] :=
    if_pos (componentName_eq_self_iff.2 h)
  rw [warnings_ofPlan, hname, List.nil_append,
    filter_isRenamed_of_isOnPlan (isOnPlan_warningsOf palette p.root)]

end Plan

end Jsx

/-- What is made bears one name, for which a text was asked. -/
structure Generated.Bears (g : Generated) (palette : Palette) (requested : String) : Prop where
  /-- The name is made of the text, or of the default name if the text is blank. -/
  name_eq : g.plan.name = Jsx.componentName (Session.requestedName requested)
  /-- It is the name of a component, with no separator of paths in it. -/
  isPascalCase : Text.isPascalCase g.plan.name = true
  slash : '/' ∉ g.plan.name.toList
  backslash : '\\' ∉ g.plan.name.toList
  /-- One remark says that the name was changed, if the text is neither blank nor such a name. -/
  renamed : g.warnings.filter Warning.isRenamed =
    if Text.isAllBlank requested || Text.isPascalCase requested then []
    else [.renamed requested g.plan.name]
  /-- After the imports and the type of its props the component is exported under the name. -/
  exported : ∃ rest, g.code =
    Jsx.importBlock (g.plan.neededImports palette) (Jsx.Wrapper.ofPlan palette g.plan) ++
      Jsx.propsType g.plan.name ++ "export default function " ++ g.plan.name ++ "(" ++ rest
  /-- The file has the name, in whatever folder it is. -/
  path : ∃ folder, (folder = "" ∨ ∃ d, folder = d ++ "/") ∧
    g.path = folder ++ (g.plan.name ++ ".tsx")

namespace Session

variable {s : Session} {r : GenerateRequest} {g : Generated}

/-- The remarks on the name that a request asks for. -/
theorem nameWarningsOf_eq (r : GenerateRequest) :
    nameWarningsOf r = if Text.isAllBlank r.name || Text.isPascalCase r.name then []
      else [.renamed r.name (Jsx.componentName (requestedName r.name))] := by
  rw [nameWarningsOf, Jsx.nameWarnings, requestedName]
  by_cases hblank : Text.isAllBlank r.name = true
  · -- The default name is asked for instead, and it is a name.
    rw [if_pos hblank, if_pos (Jsx.componentName_eq_self_iff.2 rfl), hblank]
    rfl
  · rw [if_neg hblank, Bool.eq_false_iff.2 hblank, Bool.false_or]
    simp only [Jsx.componentName_eq_self_iff]

/-- The component file of a plan with a name bears that name. -/
theorem bears_finish {features : List Markup.Feature} {tree : Ui.Tree} {plan : BuildPlan}
    {before : List Warning} {requested : String}
    (hname : plan.name = Jsx.componentName (requestedName requested))
    (hbefore : before.filter Warning.isRenamed =
      if Text.isAllBlank requested || Text.isPascalCase requested then []
      else [.renamed requested plan.name]) :
    (s.finish features tree plan before).Bears s.palette requested := by
  have h : Text.isPascalCase plan.name = true := hname ▸ Jsx.isPascalCase_componentName _
  have hchars := Text.isAlphanum_of_isPascalCase h
  exact
    { name_eq := hname
      isPascalCase := h
      slash hmem := absurd (hchars _ hmem) (by decide)
      backslash hmem := absurd (hchars _ hmem) (by decide)
      renamed := by
        rw [finish, List.filter_append, hbefore, Jsx.filter_isRenamed_of_isPascalCase h _
          s.config.outputDirectory, List.append_nil]
      exported := Jsx.exists_code_eq_of_isPascalCase h _ s.config.outputDirectory
      path := Jsx.exists_path_eq_of_isPascalCase h _ _ }

/-- What a session makes bears the name that is made of the one that is asked for. -/
theorem bears_generate (h : s.generate r = .ok g) : g.Bears s.palette r.name := by
  obtain ⟨root, hread⟩ := exists_readMarkup_of_generate h
  rw [generate_of_readMarkup hread] at h
  cases h
  have hname : (s.planOf r (Ui.Tree.ofMarkup {} root)).plan.name =
      Jsx.componentName (requestedName r.name) := by
    rw [planOf, BuildPlan.ofTree, BuildPlan.bind, BuildPlan.sketch]
  refine bears_finish hname ?_
  rw [List.filter_append, planOf, filter_isRenamed_of_isOnPlan BuildPlan.isOnPlan_ofTree,
    List.append_nil, ← planOf, hname, ← nameWarningsOf_eq]
  exact Jsx.filter_isRenamed_nameWarnings ..

/-- Whatever text is asked for, a name of a component is made of it, and of that name the same name;
no other texts than such names stay as they are. So what a session makes bears one name. -/
theorem componentName_eq_and_bears :
    (∀ requested, Text.isPascalCase (Jsx.componentName requested) = true ∧
      Jsx.componentName (Jsx.componentName requested) = Jsx.componentName requested ∧
      (Jsx.componentName requested = requested ↔ Text.isPascalCase requested = true)) ∧
    ∀ (s : Session) (r : GenerateRequest) (g : Generated), s.generate r = .ok g →
      g.Bears s.palette r.name :=
  ⟨fun requested => ⟨Jsx.isPascalCase_componentName requested,
    Jsx.componentName_eq_self_iff.2 (Jsx.isPascalCase_componentName requested),
    Jsx.componentName_eq_self_iff⟩, fun _ _ _ h => bears_generate h⟩

/-- A request for a component whose name begins with a digit and holds a path. -/
def climbingRequest : GenerateRequest :=
  { markup := "<svg><text>Hi</text></svg>", name := "2nd card/../x" }

theorem componentName_eq_and_bears_climbing : ∃ g,
    ({} : Session).generate climbingRequest = .ok g ∧ g.plan.name = "Component2ndCardX" ∧
      g.Bears .builtin "2nd card/../x" := by
  have hread : (({} : Session).readMarkup climbingRequest.markup).isOk = true := by decide +kernel
  cases h : ({} : Session).readMarkup climbingRequest.markup with
  | error f =>
    rw [h] at hread
    cases hread
  | ok root =>
    have hg := generate_of_readMarkup h
    have hbears := componentName_eq_and_bears.2 {} climbingRequest _ hg
    exact ⟨_, hg, hbears.name_eq.trans (by decide +kernel), hbears⟩

end Session

end Mockup
