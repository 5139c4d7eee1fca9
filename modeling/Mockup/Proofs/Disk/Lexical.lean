import Mockup.Proofs.Disk.Folder
import Mockup.Proofs.Text.Words

/-!
# Where paths lead by their text

Where there are no links, the text of a path tells where it leads from the directory at which it
starts. A path that is joined to another one leads through the place of the other one, and stays at
or below it if no part leads upward.

* `lexical absolute parts` — the names on the way along some parts.
* `Below root path` — the path leads to the place of `root`, and never above it from there.

## Main results

* `pieces_flatMap`: what finer cuts make of the pieces of a text.
* `exists_partsOf_join`: the parts of a joined path.
* `below_join`: a path without parts that lead upward stays below the one that it is joined to.
* `Folder.eq_normal_of_follow`: in a folder a path leads where its text tells.
-/

namespace Mockup

namespace Text

/-- A text that is cut at more characters is cut into the pieces of its pieces. -/
theorem pieces_flatMap {sep finer : Char → Bool} (h : ∀ c, sep c = true → finer c = true)
    (cs : List Char) : (pieces sep cs).flatMap (pieces finer) = pieces finer cs := by
  induction cs with
  | nil => rfl
  | cons c cs ih =>
    by_cases hsep : sep c = true
    · rw [pieces, if_pos hsep, List.flatMap_cons, ih]
      exact (pieces_append_cons (h c hsep) [] cs).symm
    · -- The first piece goes on with the character, whether it is cut there or not.
      cases hpieces : pieces sep cs with
      | nil => exact absurd hpieces (pieces_ne_nil sep cs)
      | cons p ps =>
        rw [hpieces, List.flatMap_cons] at ih
        rw [pieces, if_neg hsep, hpieces, List.flatMap_cons, pieces, pieces, ← ih]
        split
        · rfl
        · cases hfirst : pieces finer p with
          | nil => exact absurd hfirst (pieces_ne_nil finer p)
          | cons q qs => rfl

/-- A piece without a character at which a text is cut in addition remains a piece. -/
theorem mem_pieces_of_finer {sep finer : Char → Bool} (h : ∀ c, sep c = true → finer c = true)
    {cs p : List Char} (hp : p ∈ pieces sep cs) (hfine : ∀ c ∈ p, finer c = false) :
    p ∈ pieces finer cs := by
  rw [← pieces_flatMap h]
  refine List.mem_flatMap.2 ⟨p, hp, ?_⟩
  rw [pieces_eq_singleton hfine]
  exact List.mem_singleton_self p

/-- The pieces after the separating characters in front are pieces of the whole text. -/
theorem mem_pieces_of_mem_dropWhile {sep : Char → Bool} {cs p : List Char}
    (hp : p ∈ pieces sep (cs.dropWhile sep)) : p ∈ pieces sep cs := by
  induction cs with
  | nil => exact hp
  | cons c cs ih =>
    rw [List.dropWhile_cons] at hp
    split at hp
    · next hsep =>
      rw [pieces, if_pos hsep]
      exact List.mem_cons_of_mem _ (ih hp)
    · exact hp

end Text

namespace Disk

/-! ### Ways -/

/-- The names on the way after one more part of a path. The way from the root of all files ends
there when it goes upward; any other way goes on upward. -/
def lexicalStep (absolute : Bool) (way : List String) (part : String) : List String :=
  if isIdle part then way
  else if part = ".." then
    if way = [] ∨ way.getLast? = some ".." then if absolute then way else way ++ [part]
    else way.dropLast
  else way ++ [part]

/-- The names on the way along the parts of a path. -/
def lexical (absolute : Bool) (parts : List String) : List String :=
  parts.foldl (lexicalStep absolute) []

/-- The names on the way along a path. -/
def normal (path : String) : List String :=
  lexical (isAbsolute path) (partsOf path)

/-- A path starts where another one starts, leads to its place, and stays at or below it from there,
however far one follows the path. -/
structure Below (root path : String) : Prop where
  /-- Both start at the root of all files, or both do not. -/
  absolute : isAbsolute path = isAbsolute root
  /-- The place of the path is at or below that of the other one. -/
  place : ∃ rest, normal path = normal root ++ rest ∧ ".." ∉ rest
  /-- So is every place on the way from the place of the other one. -/
  stays : ∃ front more, partsOf path = front ++ more ∧
    lexical (isAbsolute root) front = normal root ∧ ∀ m, m <+: more →
      ∃ rest, lexical (isAbsolute root) (front ++ m) = normal root ++ rest ∧ ".." ∉ rest

section Ways

variable {absolute : Bool} {parts more : List String}

/-- Parts none of which leads upward add their names to the way. -/
theorem lexical_append (h : ".." ∉ more) : lexical absolute (parts ++ more) =
    lexical absolute parts ++ more.filter fun part => !isIdle part := by
  induction more generalizing parts with
  | nil => rw [List.append_nil, List.filter_nil, List.append_nil]
  | cons part more ih =>
    obtain ⟨hpart, hmore⟩ := List.ne_and_not_mem_of_not_mem_cons h
    have hstep : lexical absolute (parts ++ [part]) =
        lexicalStep absolute (lexical absolute parts) part := by
      rw [lexical, List.foldl_append]
      rfl
    rw [List.append_cons, ih hmore, hstep, lexicalStep, List.filter_cons]
    -- An idle part adds nothing, and any other one its name.
    cases isIdle part with
    | true => rfl
    | false =>
      rw [if_neg Bool.false_ne_true, if_neg hpart.symm, List.append_assoc]
      rfl

end Ways

/-! ### Joined paths -/

section Join

variable {root path : String}

theorem partsOf_append_slash (as bs : List Char) : partsOf (String.ofList (as ++ '/' :: bs)) =
    partsOf (String.ofList as) ++ partsOf (String.ofList bs) := by
  simp only [partsOf, String.toList_ofList]
  rw [Text.pieces_append_cons rfl, List.map_append]

/-- A path with a text in front starts where the text starts. -/
theorem isAbsolute_append {as : List Char} (h : as ≠ []) (bs : List Char) :
    isAbsolute (String.ofList (as ++ bs)) = isAbsolute (String.ofList as) := by
  rw [isAbsolute, isAbsolute, String.toList_ofList, String.toList_ofList]
  cases as with
  | nil => exact absurd rfl h
  | cons a as => rfl

/-- The text of a joined path: the path alone, or with a slash between it and the other one. -/
theorem join_cases (h : isAbsolute path = false) (root : String) :
    (root = "" ∧ join root path = path) ∨
    (∃ as, root = String.ofList (as ++ ['/']) ∧
      join root path = String.ofList (as ++ '/' :: path.toList)) ∨
    (root ≠ "" ∧ join root path = String.ofList (root.toList ++ '/' :: path.toList)) := by
  rw [join, h, Bool.or_false]
  split
  · next hempty => exact .inl ⟨String.isEmpty_iff.1 hempty, rfl⟩
  · next hne =>
    split
    · next hlast =>
      obtain ⟨as, has⟩ := List.getLast?_eq_some_iff.1 (beq_iff_eq.1 hlast)
      refine .inr (.inl ⟨as, ?_, ?_⟩)
      · rw [← has, String.ofList_toList]
      · rw [← String.ofList_toList (s := root ++ path), String.toList_append, has,
          List.append_assoc, List.singleton_append]
    · refine .inr (.inr ⟨fun heq => hne (String.isEmpty_iff.2 heq), ?_⟩)
      rw [← String.ofList_toList (s := root ++ "/" ++ path), String.toList_append,
        String.toList_append, List.append_assoc]
      rfl

theorem isAbsolute_join (h : isAbsolute path = false) (root : String) :
    isAbsolute (join root path) = isAbsolute root := by
  rcases join_cases h root with ⟨rfl, hjoin⟩ | ⟨as, rfl, hjoin⟩ | ⟨hne, hjoin⟩
  · rw [hjoin, h]
    rfl
  · rw [hjoin, List.append_cons]
    exact isAbsolute_append (by simp) _
  · rw [hjoin, isAbsolute_append (by simpa using hne), String.ofList_toList]

/-- The parts of a joined path are those of the path after others, which lead to the place of the
path that it is joined to. -/
theorem exists_partsOf_join (h : isAbsolute path = false) (root : String) :
    ∃ front, partsOf (join root path) = front ++ partsOf path ∧
      lexical (isAbsolute root) front = normal root := by
  rcases join_cases h root with ⟨rfl, hjoin⟩ | ⟨as, rfl, hjoin⟩ | ⟨-, hjoin⟩
  · exact ⟨[], by rw [hjoin, List.nil_append], rfl⟩
  · -- The part after the last slash of the other path is empty and leads nowhere.
    refine ⟨partsOf (String.ofList as), ?_, ?_⟩
    · rw [hjoin, partsOf_append_slash, String.ofList_toList]
    · rw [normal, partsOf_append_slash, lexical_append (by decide)]
      exact (List.append_nil _).symm
  · refine ⟨partsOf root, ?_, rfl⟩
    rw [hjoin, partsOf_append_slash, String.ofList_toList, String.ofList_toList]

/-- A path without parts that lead upward stays at or below the one that it is joined to. -/
theorem below_join (h : isAbsolute path = false) (hup : ".." ∉ partsOf path) (root : String) :
    Below root (join root path) := by
  obtain ⟨front, hparts, hfront⟩ := exists_partsOf_join h root
  have hstays (m : List String) (hm : m <+: partsOf path) :
      ∃ rest, lexical (isAbsolute root) (front ++ m) = normal root ++ rest ∧ ".." ∉ rest := by
    have hup' : ".." ∉ m := fun hmem => hup (hm.subset hmem)
    refine ⟨m.filter fun part => !isIdle part, ?_, fun hmem => hup' ((List.mem_filter.1 hmem).1)⟩
    rw [lexical_append hup', hfront]
  refine ⟨isAbsolute_join h root, ?_, front, partsOf path, hparts, hfront, hstays⟩
  rw [normal, isAbsolute_join h, hparts]
  exact hstays _ (List.prefix_refl _)

end Join

/-! ### Folders in memory -/

namespace Folder

variable {d : Folder} {path : String}

/-- From a place to which no part leads upward, a part leads where its text tells, if anywhere. -/
theorem eq_lexicalStep_of_enter {s t : Spot} {part : String} (hup : ".." ∉ s)
    (h : d.enter s part = .ok t) : t = lexicalStep false s part ∧ ".." ∉ t := by
  have hlast : s.getLast? ≠ some ".." := fun heq => hup (List.mem_of_getLast? heq)
  unfold enter at h
  unfold lexicalStep
  -- A part is idle, leads upward or names something; in each case the text decides alike, as no
  -- part of the place so far leads upward.
  split at h
  · cases h
  · split at h
    · next hidle =>
      cases h
      exact ⟨(if_pos hidle).symm, hup⟩
    · next hidle =>
      rw [if_neg hidle]
      split at h
      · next hpart =>
        split at h
        · cases h
        · next hne =>
          cases h
          have hsome : ¬ (s = [] ∨ s.getLast? = some "..") :=
            not_or.2 ⟨fun heq => hne (List.isEmpty_iff.2 heq), hlast⟩
          rw [if_pos (beq_iff_eq.1 hpart), if_neg hsome]
          exact ⟨rfl, fun hmem => hup (List.dropLast_subset s hmem)⟩
      · next hpart =>
        cases h
        have hne : part ≠ ".." := fun heq => hpart (beq_iff_eq.2 heq)
        rw [if_neg hne]
        refine ⟨rfl, fun hmem => ?_⟩
        rcases List.mem_append.1 hmem with hmem | hmem
        · exact hup hmem
        · exact hne (List.mem_singleton.1 hmem).symm

theorem eq_foldl_of_foldlM_enter {parts : List String} {s t : Spot} (hup : ".." ∉ s)
    (h : parts.foldlM d.enter s = .ok t) : t = parts.foldl (lexicalStep false) s := by
  induction parts generalizing s with
  | nil =>
    cases h
    rfl
  | cons part parts ih =>
    rw [List.foldlM_cons] at h
    obtain ⟨s', hs', h⟩ := bind_eq_ok_iff.1 h
    obtain ⟨rfl, hup'⟩ := eq_lexicalStep_of_enter hup hs'
    exact ih hup' h

/-- A path leads to no other place of a folder than its text tells. -/
theorem eq_normal_of_follow {s : Spot} (h : d.follow path = .ok s) : s = normal path := by
  unfold follow at h
  split at h
  · cases h
  · next hstart =>
    have habsolute : isAbsolute path = false := by
      simp only [Bool.or_eq_true, not_or, Bool.not_eq_true] at hstart
      exact hstart.1
    rw [normal, habsolute]
    exact eq_foldl_of_foldlM_enter List.not_mem_nil h

/-- The file that a path leads to is at the place that the text of the path tells. -/
theorem eq_path_of_target? {key : String} (h : d.target? path = some key) :
    key = Spot.path (normal path) := by
  obtain ⟨s, hs, rfl⟩ := Option.map_eq_some_iff.1 h
  cases hfollow : d.follow path with
  | error e =>
    rw [hfollow] at hs
    cases hs
  | ok t =>
    rw [hfollow] at hs
    cases hs
    rw [eq_normal_of_follow hfollow]

end Folder

end Disk

end Mockup
