import Mockup.Proofs.Ui.Flaws

/-!
# What the check of a tree reports

A tree passes its check exactly if it is valid. Otherwise the check reports every violation, part by
part: a part comes before those below it, and those below an earlier part come before those below a
later one. No two violations have the same message, and the place of each leads to the part that it
is about.

Below the greatest depth nothing is reported but that a node is too deep. So the induction is on the
number of levels that are left, not on the tree.

* `p.Precedes q` — a problem is at an earlier part than another, or elsewhere in the same part.
* `p.Reports place depth problems` — the problems are those of a part and of the parts below it.
* `t.Reports problems` — the problems are the violations of a tree, in order.

## Main results

* `Part.reports_of_held`: what a part reports, from what the parts below it report.
* `Part.reports`: what every part reports.
* `Tree.validate_reports`: when a tree passes its check, and what is reported otherwise.
-/

namespace Mockup

/-- A problem is at an earlier part than another, or elsewhere in the same part. Parts are in the
lexicographic order of the positions along their paths, so a part comes before those below it. -/
def Problem.Precedes (p q : Problem) : Prop :=
  p.place.indices < q.place.indices ∨ p.place.indices = q.place.indices ∧ p.place ≠ q.place

theorem Problem.Precedes.place_ne {p q : Problem} (h : p.Precedes q) : p.place ≠ q.place := by
  rcases h with hlt | ⟨-, hne⟩
  · intro heq
    rw [heq] at hlt
    exact List.lt_irrefl _ hlt
  · exact hne

namespace Ui

variable {place : Place} {q : Problem}

/-! ### Parts -/

/-- The problems are those of a part and of all below it that are not inside a node that is too
deep. They are in order and at different places. -/
structure Part.Reports (p : Part) (place : Place) (depth : Nat) (problems : List Problem) :
    Prop where
  /-- They are the flaws of the parts that paths lead to. -/
  mem_iff : ∀ q, q ∈ problems ↔ ∃ path part, p.follow? path = some part ∧
    depth + path.length ≤ maxDepth + 1 ∧ q.IsAt (place ++ path) (part.Flaw (depth + path.length))
  /-- Each comes before the later ones. -/
  pairwise : problems.Pairwise Problem.Precedes

namespace Part

/-- The problems of a part itself are at the positions of the part. -/
theorem indices_of_mem_ownProblems {p : Part} {depth : Nat} (h : q ∈ p.ownProblems place depth) :
    q.place.indices = place.indices := by
  obtain ⟨hflaw⟩ := mem_ownProblems_iff.1 h
  rw [Place.indices_append, hflaw.isPlainFlaw.indices, List.append_nil]

theorem pairwise_ownProblems (place : Place) (depth : Nat) (p : Part) :
    (p.ownProblems place depth).Pairwise Problem.Precedes := by
  refine (List.pairwise_map.1 (p.nodup_map_place_ownProblems place depth)).imp_of_mem ?_
  intro a b ha hb hne
  refine .inr ⟨?_, hne⟩
  rw [indices_of_mem_ownProblems ha, indices_of_mem_ownProblems hb]

/-- The problems of an entry of a list of parts are below the place of the entry. -/
theorem Reports.exists_indices {p : Part} {name : String} {i depth : Nat} {problems : List Problem}
    (h : p.Reports (place.item name i) depth problems) (hq : q ∈ problems) :
    ∃ more, q.place.indices = place.indices ++ i :: more := by
  obtain ⟨path, part, -, -, ⟨hflaw⟩⟩ := (h.mem_iff q).1 hq
  refine ⟨path.indices, ?_⟩
  rw [Place.indices_append, Place.indices_append, Place.indices_item, hflaw.isPlainFlaw.indices]
  simp

/-- No part is above the root. -/
theorem ne_root_of_mem_held {p part : Part} (h : some part ∈ p.held) (t : Tree) :
    part ≠ .root t := by
  rintro rfl
  -- A root holds nodes, a node holds nodes or fields, and a field holds nothing.
  cases p with
  | root t =>
    obtain ⟨n, -, hn⟩ := List.mem_map.1 h
    cases hn
  | field before f => cases h
  | node n =>
    cases n with
    | frame layout style children =>
      obtain ⟨n, -, hn⟩ := List.mem_map.1 h
      cases hn
    | form name fields actions style =>
      obtain ⟨i, hi, hf⟩ := List.mem_mapIdx.1 h
      cases hf
    | list items style =>
      obtain ⟨item, -, hitem⟩ := List.mem_map.1 h
      obtain ⟨n, -, hn⟩ := Option.map_eq_some_iff.1 hitem
      cases hn
    | text role content style | image source description style | icon name style
    | button label style => cases h

theorem problems_eq_ownProblems {p : Part} {depth : Nat} (hdepth : maxDepth < depth)
    (hroot : ∀ t, p ≠ .root t) : p.problems place depth = p.ownProblems place depth := by
  cases p with
  | root t => exact absurd rfl (hroot t)
  | node n => rw [problems, ownProblems, Node.problems.eq_def, if_pos hdepth, if_pos hdepth]
  | field before f => rfl

/-- A part at the greatest depth reports its own problems only. -/
theorem reports_of_deepest {p : Part} (hroot : ∀ t, p ≠ .root t) :
    p.Reports place (maxDepth + 1) (p.problems place (maxDepth + 1)) := by
  rw [problems_eq_ownProblems (Nat.lt_succ_self _) hroot]
  refine ⟨fun q => ?_, p.pairwise_ownProblems place _⟩
  rw [mem_ownProblems_iff]
  constructor
  · intro h
    refine ⟨[], p, rfl, Nat.le_refl _, ?_⟩
    rwa [List.append_nil]
  · rintro ⟨path, part, hfollow, hlength, h⟩
    obtain rfl : path = [] := List.length_eq_zero_iff.1 (by omega)
    obtain rfl : p = part := Option.some.inj hfollow
    rwa [List.append_nil] at h

theorem mem_problemsAt_iff {name : String} {depth : Nat} {x : Option Part × Nat} :
    q ∈ problemsAt place name depth x ↔
      ∃ part, x.1 = some part ∧ q ∈ part.problems (place.item name x.2) depth := by
  obtain ⟨_ | part, i⟩ := x <;> simp [problemsAt]

section Held

variable {p : Part} {depth : Nat}
  (hheld : ∀ (i : Nat) (part : Part), p.held[i]? = some (some part) →
    part.Reports (place.item p.listName i) (depth + 1)
      (part.problems (place.item p.listName i) (depth + 1)))

include hheld

/-- The problems of an entry are below the place of the entry. -/
theorem exists_indices_of_mem_problemsAt {x : Option Part × Nat} (hx : x ∈ p.held.zipIdx)
    (hq : q ∈ problemsAt place p.listName (depth + 1) x) :
    ∃ more, q.place.indices = place.indices ++ x.2 :: more := by
  obtain ⟨part, hpart, hq⟩ := mem_problemsAt_iff.1 hq
  have hget := List.mem_zipIdx_iff_getElem?.1 hx
  rw [hpart] at hget
  exact (hheld x.2 part hget).exists_indices hq

theorem pairwise_heldProblems :
    (p.held.zipIdx.flatMap (problemsAt place p.listName (depth + 1))).Pairwise
      Problem.Precedes := by
  -- Problems of one entry are in order, and those of a later entry are at a greater position.
  have hpositions : p.held.zipIdx.Pairwise fun x y => x.2 < y.2 := by
    rw [← List.pairwise_map (f := Prod.snd), List.zipIdx_map_snd]
    exact List.pairwise_lt_range' 1
  refine List.pairwise_flatMap.2
    ⟨fun x hx => ?_, hpositions.imp_of_mem fun hx hy hlt a ha b hb => ?_⟩
  · obtain ⟨_ | part, i⟩ := x
    · exact List.Pairwise.nil
    · exact (hheld i part (List.mem_zipIdx_iff_getElem?.1 hx)).pairwise
  · obtain ⟨more, hmore⟩ := exists_indices_of_mem_problemsAt hheld hx ha
    obtain ⟨more', hmore'⟩ := exists_indices_of_mem_problemsAt hheld hy hb
    refine .inl ?_
    rw [hmore, hmore']
    exact List.append_left_lt (List.cons_lt_cons_iff.2 (.inl hlt))

/-- The problems of the parts below a part are the flaws that paths of at least one step lead to. -/
theorem mem_heldProblems_iff :
    q ∈ p.held.zipIdx.flatMap (problemsAt place p.listName (depth + 1)) ↔
      ∃ s path part, p.follow? (s :: path) = some part ∧
        depth + (s :: path).length ≤ maxDepth + 1 ∧
        q.IsAt (place ++ s :: path) (part.Flaw (depth + (s :: path).length)) := by
  have hlength (s : Step) (path : Place) :
      depth + (s :: path).length = depth + 1 + path.length := by
    rw [List.length_cons, Nat.add_assoc, Nat.add_comm 1]
  have hplace (i : Nat) (path : Place) :
      place ++ ⟨p.listName, some i⟩ :: path = place.item p.listName i ++ path := by
    rw [Place.item, List.append_assoc, List.singleton_append]
  rw [List.mem_flatMap]
  -- The first step leads to the entry, and the rest of the path starts there.
  constructor
  · rintro ⟨x, hx, hq⟩
    obtain ⟨next, hnext, hq⟩ := mem_problemsAt_iff.1 hq
    have hget : p.held[x.2]? = some (some next) := hnext ▸ List.mem_zipIdx_iff_getElem?.1 hx
    obtain ⟨path, part, hfollow, hle, hq⟩ := ((hheld x.2 next hget).mem_iff q).1 hq
    refine ⟨⟨p.listName, some x.2⟩, path, part,
      follow?_cons_eq_some_iff.2 ⟨x.2, next, rfl, hget, hfollow⟩, ?_, ?_⟩
    · rwa [hlength]
    · rwa [hlength, hplace]
  · rintro ⟨s, path, part, hfollow, hle, hq⟩
    obtain ⟨i, next, rfl, hget, hpath⟩ := follow?_cons_eq_some_iff.1 hfollow
    rw [hlength] at hle hq
    rw [hplace] at hq
    exact ⟨(some next, i), List.mem_zipIdx_iff_getElem?.2 hget, mem_problemsAt_iff.2
      ⟨next, rfl, ((hheld i next hget).mem_iff q).2 ⟨path, part, hpath, hle, hq⟩⟩⟩

/-- A part that is not too deep reports its own problems, and then what the parts below report. -/
theorem reports_of_held (hdepth : depth ≤ maxDepth) :
    p.Reports place depth (p.problems place depth) := by
  rw [p.problems_eq place hdepth]
  refine ⟨fun q => ?_, List.pairwise_append.2 ⟨p.pairwise_ownProblems place depth,
    pairwise_heldProblems hheld, fun a ha b hb => .inl ?_⟩⟩
  · rw [List.mem_append, mem_ownProblems_iff, mem_heldProblems_iff hheld]
    constructor
    · rintro (h | ⟨s, path, part, h⟩)
      · exact ⟨[], p, rfl, Nat.le_succ_of_le hdepth, by rwa [List.append_nil]⟩
      · exact ⟨s :: path, part, h⟩
    · rintro ⟨path, part, hfollow, hle, h⟩
      -- A path is empty, and leads to the part itself, or begins with one of the parts below.
      cases path with
      | nil =>
        obtain rfl : p = part := Option.some.inj hfollow
        rw [List.append_nil] at h
        exact .inl h
      | cons s path => exact .inr ⟨s, path, part, hfollow, hle, h⟩
  · obtain ⟨x, hx, hb⟩ := List.mem_flatMap.1 hb
    obtain ⟨more, hmore⟩ := exists_indices_of_mem_problemsAt hheld hx hb
    have hlt : place.indices ++ [] < place.indices ++ x.2 :: more :=
      List.append_left_lt (List.nil_lt_cons _ _)
    rw [List.append_nil] at hlt
    rwa [indices_of_mem_ownProblems ha, hmore]

end Held

/-- Every part but the root reports the problems of itself and of all below it. -/
theorem reports (levels : Nat) : ∀ (p : Part) (place : Place) (depth : Nat), (∀ t, p ≠ .root t) →
    depth + levels = maxDepth + 1 → p.Reports place depth (p.problems place depth) := by
  -- No structure of the tree is needed: every step down takes one of the levels that are left.
  induction levels with
  | zero =>
    rintro p place _ hroot rfl
    exact reports_of_deepest hroot
  | succ levels ih =>
    intro p place depth hroot hdepth
    refine reports_of_held (fun i part hpart => ?_) (by omega)
    exact ih part _ (depth + 1) (ne_root_of_mem_held (List.mem_of_getElem? hpart)) (by omega)

end Part

/-! ### Trees -/

/-- The problems of a tree are all its violations, part by part in the order of the tree, and no two
of them have the same message. -/
structure Tree.Reports (t : Tree) (problems : List Problem) : Prop where
  /-- They are the violations. -/
  mem_iff : ∀ q, q ∈ problems ↔ t.Violation q
  /-- Those of a part come before those of the parts below it and of the parts that follow it. -/
  pairwise : problems.Pairwise Problem.Precedes
  /-- No message occurs twice. -/
  nodup : (problems.map Problem.message).Nodup
  /-- The positions that a place starts with lead from the root to the part with the flaw. -/
  leads : ∀ q ∈ problems, ∃ part, (Part.root t).follow? q.place.route = some part ∧
    q.IsAt q.place.route (part.Flaw q.place.route.length)

theorem Tree.reports_problems (t : Tree) : t.Reports t.problems := by
  have hroot : (Part.root t).Reports [] 0 t.problems :=
    Part.reports_of_held (fun i part hpart => Part.reports maxDepth part _ 1
      (Part.ne_root_of_mem_held (List.mem_of_getElem? hpart)) (Nat.add_comm ..)) (Nat.zero_le _)
  have hmem (q : Problem) : q ∈ t.problems ↔ t.Violation q := by
    rw [hroot.mem_iff]
    simp only [Nat.zero_add, List.nil_append, Violation]
  -- Problems with one message would be at one place.
  refine ⟨hmem, hroot.pairwise, List.pairwise_map.2 (hroot.pairwise.imp_of_mem ?_),
    fun q hq => ((hmem q).1 hq).leads⟩
  intro p q hp hq h heq
  apply h.place_ne
  exact ((hmem _).1 hp).isPlain.place_eq_of_message_eq ((hmem _).1 hq).isPlain heq

/-- A tree passes its check exactly if nothing is wrong with it. -/
theorem Tree.validate_eq_ok_iff_not_violation {t : Tree} :
    t.validate = .ok () ↔ ∀ q, ¬ t.Violation q := by
  rw [validate, Problem.check_eq_ok_iff, List.eq_nil_iff_forall_not_mem]
  simp only [t.reports_problems.mem_iff]

/-- A tree passes its check exactly if it holds something, if every layout, style and node in it is
valid, and if it has no more levels than may be. Otherwise the check reports the violations. -/
theorem Tree.validate_reports (t : Tree) :
    (t.validate = .ok () ↔ t.children ≠ [] ∧ t.layout.IsValid ∧ t.style.IsValid ∧
      (∀ n ∈ t.walk, n.IsValid) ∧ Node.heightOfAll t.children ≤ maxDepth) ∧
    ∀ problems, t.validate = .error problems → t.Reports problems := by
  refine ⟨validate_eq_ok_iff, fun problems h => ?_⟩
  rw [validate, Problem.check] at h
  split at h
  · cases h
  · obtain rfl := Except.error.inj h
    exact t.reports_problems

/-- A frame with a distance below zero that holds a button with a blank label, and a form with two
fields of one name. -/
def faultyTree : Tree where
  children := [
    .frame { gap := some (-4.0) } {} [.button " " {}],
    .form "f" [{ name := "email", component := .input }, { name := "email", component := .select }]
      none {}]

theorem Tree.validate_reports_faultyTree : ∃ problems,
    faultyTree.validate = .error problems ∧ faultyTree.Reports problems ∧
      problems.map Problem.message = [
        "children[0].layout.gap: must be a non-negative number",
        "children[0].children[0].label: must not be empty",
        "children[1].fields[1].name: duplicate 'email'",
        "children[1].fields[1].options: Select needs at least one option"] :=
  ⟨_, rfl, (Tree.validate_reports faultyTree).2 _ rfl, rfl⟩

end Ui

end Mockup
