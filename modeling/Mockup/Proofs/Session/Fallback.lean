import Mockup.Proofs.Except
import Mockup.Session

/-!
# Sessions without usable proposals

A proposal cannot be used if the oracle refuses it, if it comes too late, or if it has problems.
Where neither the tree nor the plan of an oracle can be used, a session makes the component that it
makes without the oracle: nothing of the two proposals is left but a remark on each.

## Main results

* `Proposal.Fails`: the reasons for which a proposal cannot be used.
* `BuildPlan.proposed_of_fails`: without a usable proposal the plan is the one that follows from the
  tree.
* `Session.generateWith_of_fails`: what a session makes where one proposal or both cannot be used.
-/

namespace Mockup

/-! ### Proposals -/

namespace Proposal

variable {α : Type}

/-- The reasons for which a proposal cannot be used. -/
inductive Fails (timeout : Nat) (validate : α → Except (List Problem) Unit) (p : Proposal α) :
    NoProposal → Prop
  /-- The oracle has no proposal, or says that what it has is invalid. -/
  | refused {e : NoProposal} (hdelay : p.delay ≤ timeout) (hanswer : p.answer = .error e) :
    Fails timeout validate p e
  /-- The proposal comes too late, whatever it is. -/
  | late (hdelay : timeout < p.delay) : Fails timeout validate p (.late timeout)
  /-- The proposal has problems. -/
  | invalid {a : α} {problems : List Problem} (hdelay : p.delay ≤ timeout)
    (hanswer : p.answer = .ok a) (hproblems : validate a = .error problems) :
    Fails timeout validate p (.invalid (Problem.summary problems))

/-- A proposal that comes in time, is one, and has no problems. -/
structure Agrees (timeout : Nat) (validate : α → Except (List Problem) Unit) (p : Proposal α)
    (a : α) : Prop where
  delay : p.delay ≤ timeout
  answer : p.answer = .ok a
  valid : validate a = .ok ()

variable {timeout : Nat} {validate : α → Except (List Problem) Unit} {p : Proposal α}

theorem Fails.agreed_eq {e : NoProposal} (h : p.Fails timeout validate e) :
    p.agreed timeout validate = .error e := by
  cases h with
  | refused hdelay hanswer =>
    rw [agreed, consult, if_neg (Nat.not_lt.2 hdelay), hanswer]
    rfl
  | late hdelay =>
    rw [agreed, consult, if_pos hdelay]
    rfl
  | invalid hdelay hanswer hproblems =>
    rw [agreed, consult, if_neg (Nat.not_lt.2 hdelay), hanswer, ok_bind, hproblems]
    rfl

theorem Agrees.agreed_eq {a : α} (h : p.Agrees timeout validate a) :
    p.agreed timeout validate = .ok a := by
  rw [agreed, consult, if_neg (Nat.not_lt.2 h.delay), h.answer, ok_bind, h.valid]
  rfl

/-- A proposal agrees with a value, or there is a reason for which it cannot be used. -/
theorem exists_agrees_or_fails (timeout : Nat) (validate : α → Except (List Problem) Unit)
    (p : Proposal α) :
    (∃ a, p.Agrees timeout validate a) ∨ ∃ e, p.Fails timeout validate e := by
  by_cases hdelay : timeout < p.delay
  · exact .inr ⟨_, .late hdelay⟩
  have hdelay := Nat.le_of_not_lt hdelay
  cases hanswer : p.answer with
  | error e => exact .inr ⟨e, .refused hdelay hanswer⟩
  | ok a =>
    cases hvalid : validate a with
    | error problems => exact .inr ⟨_, .invalid hdelay hanswer hvalid⟩
    | ok _ => exact .inl ⟨a, hdelay, hanswer, hvalid⟩

end Proposal

/-- Without a usable proposal the plan is the one that follows from the tree, with a remark in
front. -/
theorem BuildPlan.proposed_of_fails {timeout : Nat} {p : Proposal BuildPlan} {e : NoProposal}
    (h : p.Fails timeout BuildPlan.validate e) (palette : Palette) (t : Ui.Tree) (name : String) :
    BuildPlan.proposed palette timeout p t name =
      { plan := (BuildPlan.ofTree palette t name).plan
        warnings := .noProposal "buildPlan" e.message ::
          (BuildPlan.ofTree palette t name).warnings } := by
  rw [BuildPlan.proposed, h.agreed_eq]

/-! ### Kinds of remarks -/

/-- A remark that is not on a proposal. -/
def Warning.IsOrdinary (w : Warning) : Prop :=
  ∀ stage reason, w ≠ .noProposal stage reason

/-- A remark on a key or on a prop of a plan. -/
inductive Warning.IsOnPlan : Warning → Prop
  | unknownKey (key : String) : IsOnPlan (.unknownKey key)
  | droppedProp (key prop : String) : IsOnPlan (.droppedProp key prop)

theorem Warning.IsOnPlan.isOrdinary {w : Warning} (h : w.IsOnPlan) : w.IsOrdinary := by
  cases h <;> exact fun _ _ => nofun

theorem ordinary_nameWarnings {requested used : String} :
    ∀ w ∈ Jsx.nameWarnings requested used, w.IsOrdinary := by
  unfold Jsx.nameWarnings
  split
  · simp
  · intro w hw
    obtain rfl := List.mem_singleton.1 hw
    rintro _ _ ⟨⟩

theorem BuildPlan.isOnPlan_ofTree {palette : Palette} {t : Ui.Tree} {name : String} :
    ∀ w ∈ (BuildPlan.ofTree palette t name).warnings, w.IsOnPlan := by
  intro w hw
  rw [BuildPlan.ofTree, BuildPlan.bind] at hw
  obtain ⟨key, -, rfl⟩ := List.mem_map.1 hw
  exact .unknownKey key

theorem BuildPlan.ordinary_ofTree {palette : Palette} {t : Ui.Tree} {name : String} :
    ∀ w ∈ (BuildPlan.ofTree palette t name).warnings, w.IsOrdinary :=
  fun w hw => (isOnPlan_ofTree w hw).isOrdinary

namespace Jsx

theorem isOnPlan_propWarnings {entry : Palette.Entry} {n : BuildNode} :
    ∀ w ∈ propWarnings entry n, w.IsOnPlan := by
  intro w hw
  rw [propWarnings, List.mem_append] at hw
  rcases hw with hw | hw
  · split at hw
    · obtain rfl := List.mem_singleton.1 hw
      exact .droppedProp ..
    · cases hw
  · obtain ⟨p, -, rfl⟩ := List.mem_map.1 hw
    exact .droppedProp ..

mutual

theorem isOnPlan_warningsOf (palette : Palette) :
    ∀ n : BuildNode, ∀ w ∈ warningsOf palette n, w.IsOnPlan
  | ⟨key, props, tailwind, children⟩, w, hw => by
    rw [warningsOf] at hw
    split at hw
    · obtain rfl := List.mem_singleton.1 hw
      exact .unknownKey key
    · rcases List.mem_append.1 hw with hw | hw
      · exact isOnPlan_propWarnings w hw
      · exact isOnPlan_warningsOfChildren palette children w hw

theorem isOnPlan_warningsOfChildren (palette : Palette) :
    ∀ children, ∀ w ∈ warningsOfChildren palette children, w.IsOnPlan
  | none, w, hw => by cases hw
  | some cs, w, hw => isOnPlan_warningsOfAll palette cs w hw

theorem isOnPlan_warningsOfAll (palette : Palette) :
    ∀ cs, ∀ w ∈ warningsOfAll palette cs, w.IsOnPlan
  | [], w, hw => by cases hw
  | .text s :: cs, w, hw => isOnPlan_warningsOfAll palette cs w hw
  | .node n :: cs, w, hw => by
    rcases List.mem_append.1 hw with hw | hw
    · exact isOnPlan_warningsOf palette n w hw
    · exact isOnPlan_warningsOfAll palette cs w hw

end

end Jsx

/-! ### Sessions -/

/-- What is made without usable proposals, beside what is made without an oracle: the same, with a
remark on the tree and then one on the plan between the other remarks, none of which is on a
proposal. -/
structure FallsBack (g g' : Generated) (treeReason planReason : NoProposal) : Prop where
  features : g'.features = g.features
  tree : g'.tree = g.tree
  plan : g'.plan = g.plan
  code : g'.code = g.code
  path : g'.path = g.path
  warnings : ∃ front back, g.warnings = front ++ back ∧
    g'.warnings = front ++ [.noProposal "uiTree" treeReason.message,
      .noProposal "buildPlan" planReason.message] ++ back
  ordinary : ∀ w ∈ g.warnings, w.IsOrdinary

namespace Session

variable {s : Session} {oracle : Oracle} {r : GenerateRequest} {root : Markup.Element}

/-- The plan of a tree under the name that a request asks for. -/
def planOf (s : Session) (r : GenerateRequest) (tree : Ui.Tree) : Planned :=
  BuildPlan.ofTree s.palette tree (Jsx.componentName (requestedName r.name))

/-- The remarks on the name that a request asks for. -/
def nameWarningsOf (r : GenerateRequest) : List Warning :=
  Jsx.nameWarnings (requestedName r.name) (Jsx.componentName (requestedName r.name))

theorem generate_of_readMarkup (h : s.readMarkup r.markup = .ok root) :
    s.generate r = .ok (s.finish root.features (Ui.Tree.ofMarkup {} root)
      (s.planOf r (Ui.Tree.ofMarkup {} root)).plan
      (nameWarningsOf r ++ (s.planOf r (Ui.Tree.ofMarkup {} root)).warnings)) := by
  rw [generate, h]
  rfl

theorem ordinary_finish {features : List Markup.Feature} {tree : Ui.Tree} {plan : BuildPlan}
    {before : List Warning} (h : ∀ w ∈ before, w.IsOrdinary) :
    ∀ w ∈ (s.finish features tree plan before).warnings, w.IsOrdinary := by
  intro w hw
  rcases List.mem_append.1 hw with hw | hw
  · exact h w hw
  · rcases List.mem_append.1 hw with hw | hw
    · exact ordinary_nameWarnings w hw
    · exact (Jsx.isOnPlan_warningsOf s.palette _ w hw).isOrdinary

/-- Two remarks more between the others change nothing else in what is made. -/
theorem fallsBack_finish {features : List Markup.Feature} {tree : Ui.Tree} {plan : BuildPlan}
    {front back : List Warning} {treeReason planReason : NoProposal}
    (h : ∀ w ∈ front ++ back, w.IsOrdinary) :
    FallsBack (s.finish features tree plan (front ++ back))
      (s.finish features tree plan (front ++ [.noProposal "uiTree" treeReason.message] ++
        .noProposal "buildPlan" planReason.message :: back)) treeReason planReason where
  features := rfl
  tree := rfl
  plan := rfl
  code := rfl
  path := rfl
  warnings := by
    refine ⟨front, _, List.append_assoc .., ?_⟩
    simp only [finish, List.append_assoc, List.cons_append, List.nil_append]
  ordinary := ordinary_finish h

/-- A session makes something exactly if it can read the mockup. -/
theorem exists_readMarkup_of_generate {g : Generated} (h : s.generate r = .ok g) :
    ∃ root, s.readMarkup r.markup = .ok root := by
  cases hread : s.readMarkup r.markup with
  | error f =>
    rw [generate, hread] at h
    cases h
  | ok root => exact ⟨root, rfl⟩

theorem generateWith_of_generate_error {f : Failure} (h : s.generate r = .error f) :
    s.generateWith oracle r = .error f := by
  cases hread : s.readMarkup r.markup with
  | error f' =>
    rw [generate, hread] at h
    cases h
    rw [generateWith, hread]
    rfl
  | ok root =>
    rw [generate_of_readMarkup hread] at h
    cases h

section Fallback

variable {planReason : NoProposal}

/-- Without a usable tree and plan both follow from the mockup. -/
theorem generateWith_of_fails_tree {treeReason : NoProposal}
    (hread : s.readMarkup r.markup = .ok root)
    (htree : (oracle.tree r.markup root.features).Fails s.config.oracleTimeout Ui.Tree.validate
      treeReason)
    (hplan : (oracle.plan (Ui.Tree.ofMarkup {} root) s.palette.keys).Fails s.config.oracleTimeout
      BuildPlan.validate planReason) :
    s.generateWith oracle r = .ok (s.finish root.features (Ui.Tree.ofMarkup {} root)
      (s.planOf r (Ui.Tree.ofMarkup {} root)).plan
      (nameWarningsOf r ++ [.noProposal "uiTree" treeReason.message] ++
        .noProposal "buildPlan" planReason.message ::
          (s.planOf r (Ui.Tree.ofMarkup {} root)).warnings)) := by
  rw [generateWith, hread]
  change Except.ok _ = _
  simp only [htree.agreed_eq, BuildPlan.proposed_of_fails hplan]
  rfl

/-- Without a usable plan the plan follows from the tree that is proposed. -/
theorem generateWith_of_agrees_tree {tree : Ui.Tree} (hread : s.readMarkup r.markup = .ok root)
    (htree : (oracle.tree r.markup root.features).Agrees s.config.oracleTimeout Ui.Tree.validate
      tree)
    (hplan : (oracle.plan tree s.palette.keys).Fails s.config.oracleTimeout BuildPlan.validate
      planReason) :
    s.generateWith oracle r = .ok (s.finish root.features tree (s.planOf r tree).plan
      (nameWarningsOf r ++ [] ++ .noProposal "buildPlan" planReason.message ::
        (s.planOf r tree).warnings)) := by
  rw [generateWith, hread]
  change Except.ok _ = _
  simp only [htree.agreed_eq, BuildPlan.proposed_of_fails hplan]
  rfl

end Fallback

/-- With an oracle whose proposals cannot be used, a session fails where it fails without one, and
makes the same where it makes something, with a remark on each proposal. Where only the plan cannot
be used, the plan is the one that follows from the tree of the oracle. -/
theorem generateWith_of_fails (s : Session) (oracle : Oracle) (r : GenerateRequest) :
    (∀ f, s.generate r = .error f → s.generateWith oracle r = .error f) ∧
    (∀ g treeReason planReason, s.generate r = .ok g →
      (oracle.tree r.markup g.features).Fails s.config.oracleTimeout Ui.Tree.validate treeReason →
      (oracle.plan g.tree s.palette.keys).Fails s.config.oracleTimeout BuildPlan.validate
        planReason →
      ∃ g', s.generateWith oracle r = .ok g' ∧ FallsBack g g' treeReason planReason) ∧
    (∀ g tree planReason, s.generate r = .ok g →
      (oracle.tree r.markup g.features).Agrees s.config.oracleTimeout Ui.Tree.validate tree →
      (oracle.plan tree s.palette.keys).Fails s.config.oracleTimeout BuildPlan.validate
        planReason →
      ∃ g', s.generateWith oracle r = .ok g' ∧ g'.features = g.features ∧ g'.tree = tree ∧
        g'.plan = (BuildPlan.ofTree s.palette tree
          (Jsx.componentName (requestedName r.name))).plan) := by
  refine ⟨fun f h => generateWith_of_generate_error h, ?_, ?_⟩
  -- Both proposals fail: the tree follows from the mockup, and the plan from that tree.
  · intro g treeReason planReason hg htree hplan
    obtain ⟨root, hread⟩ := exists_readMarkup_of_generate hg
    rw [generate_of_readMarkup hread] at hg
    cases hg
    refine ⟨_, generateWith_of_fails_tree hread htree hplan, fallsBack_finish ?_⟩
    intro w hw
    rcases List.mem_append.1 hw with hw | hw
    · exact ordinary_nameWarnings w hw
    · exact BuildPlan.ordinary_ofTree w hw
  -- The tree is accepted: the plan follows from it, whatever the mockup would have given.
  · intro g tree planReason hg htree hplan
    obtain ⟨root, hread⟩ := exists_readMarkup_of_generate hg
    rw [generate_of_readMarkup hread] at hg
    cases hg
    exact ⟨_, generateWith_of_agrees_tree hread htree hplan, rfl, rfl, rfl⟩

/-- A request for a card with one text. -/
def cardRequest : GenerateRequest := { markup := "<svg><text>Hi</text></svg>", name := "card" }

/-- A tree with one text. -/
def greeting : Ui.Tree := { children := [.text .paragraph "Hello" {}] }

/-- A plan whose only component has no key. -/
def keylessPlan : BuildPlan := { name := "Card", root := { key := "" } }

/-- A tree that comes after `delay` milliseconds, and a plan without a key. -/
def carelessOracle (delay : Nat) : Oracle where
  tree := fun _ _ => ⟨.ok greeting, delay⟩
  plan := fun _ _ => ⟨.ok keylessPlan, 0⟩

/-- A card is made whether the tree of an oracle comes too late or in time; a blank mockup fails. -/
theorem generateWith_of_fails_careless :
    (∃ f, ({} : Session).generate { markup := " " } = .error f ∧
      ({} : Session).generateWith (carelessOracle 0) { markup := " " } = .error f) ∧
    ∃ g reason, ({} : Session).generate cardRequest = .ok g ∧
      Proposal.Fails 8000 Ui.Tree.validate ((carelessOracle 9000).tree "" g.features)
        (.late 8000) ∧
      Proposal.Fails 8000 BuildPlan.validate ((carelessOracle 9000).plan g.tree []) reason ∧
      (∃ g', ({} : Session).generateWith (carelessOracle 9000) cardRequest = .ok g' ∧
        FallsBack g g' (.late 8000) reason) ∧
      Proposal.Agrees 8000 Ui.Tree.validate ((carelessOracle 0).tree "" g.features) greeting ∧
      ∃ g', ({} : Session).generateWith (carelessOracle 0) cardRequest = .ok g' ∧
        g'.features = g.features ∧ g'.tree = greeting ∧
        g'.plan = (BuildPlan.ofTree .builtin greeting (Jsx.componentName "card")).plan := by
  have hread : (({} : Session).readMarkup cardRequest.markup).isOk = true := by decide +kernel
  have hblank : ({} : Session).generate { markup := " " } = .error (.markup .empty) := rfl
  have hplan : BuildPlan.validate keylessPlan = .error keylessPlan.problems := rfl
  have htree : Ui.Tree.validate greeting = .ok () := rfl
  cases h : ({} : Session).readMarkup cardRequest.markup with
  | error f =>
    rw [h] at hread
    cases hread
  | ok root =>
    have hg := generate_of_readMarkup h
    have hlate : Proposal.Fails 8000 Ui.Tree.validate
        ((carelessOracle 9000).tree "" root.features) (.late 8000) :=
      .late (show 8000 < 9000 by decide)
    have hinvalid (delay : Nat) (t : Ui.Tree) : Proposal.Fails 8000 BuildPlan.validate
        ((carelessOracle delay).plan t []) _ := .invalid (Nat.zero_le _) rfl hplan
    have hagrees : Proposal.Agrees 8000 Ui.Tree.validate
        ((carelessOracle 0).tree "" root.features) greeting := ⟨Nat.zero_le _, rfl, htree⟩
    -- Three inputs: a blank mockup, a tree that comes too late and one that comes in time.
    obtain ⟨hfailed, -, -⟩ := generateWith_of_fails {} (carelessOracle 0) { markup := " " }
    obtain ⟨-, hfallback, -⟩ := generateWith_of_fails {} (carelessOracle 9000) cardRequest
    obtain ⟨-, -, hproposed⟩ := generateWith_of_fails {} (carelessOracle 0) cardRequest
    exact ⟨⟨_, hblank, hfailed _ hblank⟩, _, _, hg, hlate, hinvalid 9000 (Ui.Tree.ofMarkup {} root),
      hfallback _ _ _ hg hlate (hinvalid 9000 (Ui.Tree.ofMarkup {} root)), hagrees,
      hproposed _ _ _ hg hagrees (hinvalid 0 greeting)⟩

end Session

end Mockup
