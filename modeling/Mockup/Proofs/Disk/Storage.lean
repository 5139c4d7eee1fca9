import Mockup.Disk.Folder

/-!
# Programs on any storage

What a program asks for and what it leaves, whatever holds the files. A storage answers the requests
of a program; only writing and making directories may change it.

* `Storage σ` — how files are kept in states of a type.
* `Program.runOn`, `Program.accesses` — what comes of a program, and all that it asks for.
* `Program.Ensures P Q` — with whatever answers, the program asks for nothing but what satisfies
  `P`, and its result satisfies `Q`.

## Main results

* `Program.runOn_bind`, `Program.accesses_bind`: programs in sequence.
* `Program.Ensures.mem_accesses`: what a program ensures holds of what it asks of every storage.
* `Program.runOn_of_isLook`: a program that only looks changes nothing.
* `Program.runOn_storage`: a folder in memory is such a storage.
-/

namespace Mockup.Disk

/-- How files are kept: the answers to requests, and what becomes of the files. -/
structure Storage (σ : Type) where
  /-- The text of a file. -/
  read : σ → String → Except Fault String
  /-- Whether a path leads to a file. -/
  isFile : σ → String → Bool
  /-- Gives a file a text. -/
  write : σ → String → String → Except Fault Unit × σ
  /-- Makes a directory and those around it. -/
  makeFolder : σ → String → Except Fault Unit × σ

/-- A request for a file. One that may change something comes with its answer. -/
inductive Access where
  /-- The text of a file was asked for. -/
  | read (path : String)
  /-- It was asked whether a path leads to a file. -/
  | isFile (path : String)
  /-- A file was to be given a text. -/
  | write (path text : String) (answer : Except Fault Unit)
  /-- A directory was to be made. -/
  | makeFolder (path : String) (answer : Except Fault Unit)

namespace Access

/-- The path that is named. -/
def path : Access → String
  | .read path | .isFile path | .write path .. | .makeFolder path _ => path

/-- Nothing is to be changed. -/
def IsLook : Access → Prop
  | .read _ | .isFile _ => True
  | .write .. | .makeFolder .. => False

/-- What was to be changed is changed. -/
def IsGranted : Access → Prop
  | .read _ | .isFile _ => True
  | .write _ _ answer | .makeFolder _ answer => answer = .ok ()

instance (a : Access) : Decidable a.IsGranted :=
  match a with
  | .read _ | .isFile _ => .isTrue trivial
  | .write _ _ (.ok ()) | .makeFolder _ (.ok ()) => .isTrue rfl
  | .write _ _ (.error _) | .makeFolder _ (.error _) => .isFalse nofun

end Access

namespace Program

variable {σ α β : Type}

/-- What comes of a program on a storage. -/
def runOn (k : Storage σ) (s : σ) : Program α → α × σ
  | .done a => (a, s)
  | .read path next => (next (k.read s path)).runOn k s
  | .write path text next =>
    let (r, after) := k.write s path text
    (next r).runOn k after
  | .makeFolder path next =>
    let (r, after) := k.makeFolder s path
    (next r).runOn k after
  | .isFile path next => (next (k.isFile s path)).runOn k s

/-- What a program on a storage asks for, in order. -/
def accesses (k : Storage σ) (s : σ) : Program α → List Access
  | .done _ => []
  | .read path next => .read path :: (next (k.read s path)).accesses k s
  | .write path text next =>
    let (r, after) := k.write s path text
    .write path text r :: (next r).accesses k after
  | .makeFolder path next =>
    let (r, after) := k.makeFolder s path
    .makeFolder path r :: (next r).accesses k after
  | .isFile path next => .isFile path :: (next (k.isFile s path)).accesses k s

/-- With whatever answers, all that a program asks for satisfies `P`, and its result satisfies `Q`.
-/
def Ensures (P : Access → Prop) (Q : α → Prop) : Program α → Prop
  | .done a => Q a
  | .read path next => P (.read path) ∧ ∀ r, (next r).Ensures P Q
  | .write path text next => ∀ r, P (.write path text r) ∧ (next r).Ensures P Q
  | .makeFolder path next => ∀ r, P (.makeFolder path r) ∧ (next r).Ensures P Q
  | .isFile path next => P (.isFile path) ∧ ∀ r, (next r).Ensures P Q

/-- Programs in sequence can be grouped in any way. -/
theorem bind_assoc {γ : Type} (p : Program α) (f : α → Program β) (g : β → Program γ) :
    p >>= f >>= g = p >>= fun a => f a >>= g := by
  induction p with
  | done a => rfl
  | read path next ih => exact congrArg (Program.read path) (funext ih)
  | write path text next ih => exact congrArg (Program.write path text) (funext ih)
  | makeFolder path next ih => exact congrArg (Program.makeFolder path) (funext ih)
  | isFile path next ih => exact congrArg (Program.isFile path) (funext ih)

section Sequence

variable (k : Storage σ) (s : σ) (p : Program α) (f : α → Program β)

/-- What follows a program runs on what it leaves. -/
theorem runOn_bind : (p >>= f).runOn k s = (f (p.runOn k s).1).runOn k (p.runOn k s).2 := by
  induction p generalizing s with
  | done a => rfl
  | read path next ih => exact ih _ s
  | write path text next ih => exact ih _ _
  | makeFolder path next ih => exact ih _ _
  | isFile path next ih => exact ih _ s

/-- Programs in sequence ask for what the first one asks for and then for what the other one does.
-/
theorem accesses_bind : (p >>= f).accesses k s =
    p.accesses k s ++ (f (p.runOn k s).1).accesses k (p.runOn k s).2 := by
  induction p generalizing s with
  | done a => rfl
  | read path next ih => exact congrArg (Access.read path :: ·) (ih _ s)
  | write path text next ih => exact congrArg (Access.write path text _ :: ·) (ih _ _)
  | makeFolder path next ih => exact congrArg (Access.makeFolder path _ :: ·) (ih _ _)
  | isFile path next ih => exact congrArg (Access.isFile path :: ·) (ih _ s)

end Sequence

section Ensures

variable {P : Access → Prop} {Q : α → Prop} {R : β → Prop} {p : Program α}

/-- Programs in sequence ensure what each one does, where the second one may count on the result of
the first. -/
theorem Ensures.bind (h : p.Ensures P Q) {f : α → Program β}
    (hf : ∀ a, Q a → (f a).Ensures P R) : (p >>= f).Ensures P R := by
  induction p with
  | done a => exact hf a h
  | read path next ih => exact ⟨h.1, fun r => ih r (h.2 r)⟩
  | write path text next ih => exact fun r => ⟨(h r).1, ih r (h r).2⟩
  | makeFolder path next ih => exact fun r => ⟨(h r).1, ih r (h r).2⟩
  | isFile path next ih => exact ⟨h.1, fun r => ih r (h.2 r)⟩

/-- All that a program asks for on a storage is what it ensures. -/
theorem Ensures.mem_accesses (h : p.Ensures P Q) (k : Storage σ) (s : σ) :
    ∀ a ∈ p.accesses k s, P a := by
  induction p generalizing s with
  | done a => exact fun _ ha => absurd ha List.not_mem_nil
  | read path next ih => exact List.forall_mem_cons.2 ⟨h.1, ih _ (h.2 _) s⟩
  | write path text next ih => exact List.forall_mem_cons.2 ⟨(h _).1, ih _ (h _).2 _⟩
  | makeFolder path next ih => exact List.forall_mem_cons.2 ⟨(h _).1, ih _ (h _).2 _⟩
  | isFile path next ih => exact List.forall_mem_cons.2 ⟨h.1, ih _ (h.2 _) s⟩

end Ensures

/-- A program that asks for nothing that changes the storage leaves it as it is. -/
theorem runOn_of_isLook {p : Program α} {k : Storage σ} {s : σ}
    (h : ∀ a ∈ p.accesses k s, a.IsLook) : (p.runOn k s).2 = s := by
  induction p with
  | done a => rfl
  | read path next ih => exact ih _ (List.forall_mem_cons.1 h).2
  | write path text next ih => exact absurd (List.forall_mem_cons.1 h).1 id
  | makeFolder path next ih => exact absurd (List.forall_mem_cons.1 h).1 id
  | isFile path next ih => exact ih _ (List.forall_mem_cons.1 h).2

end Program

/-! ### Folders in memory -/

/-- A folder in memory keeps files. -/
def Folder.storage : Storage Folder where
  read := Folder.read
  isFile d path := (d.read path).toBool
  write d path text := Program.changed d (d.write path text)
  makeFolder d path := Program.changed d (d.makeFolder path)

/-- A program runs on a folder as on any storage. -/
theorem Program.runOn_storage {α : Type} (p : Program α) (d : Folder) :
    p.runOn Folder.storage d = p.runIn d := by
  induction p generalizing d with
  | done a => rfl
  | read path next ih => exact ih _ d
  | write path text next ih => exact ih _ _
  | makeFolder path next ih => exact ih _ _
  | isFile path next ih => exact ih _ d

end Mockup.Disk
