import AddonBuild.Path.Clean
import AddonBuild.Vendor.Package

/-!
# The packages a project needs

The dependencies of a project are followed from package to package. A package is looked up from
the directory of the one that needs it, upwards until it is found; if it offers modules it is
recorded, and its own dependencies are next. Packages are recorded in the order of a depth-first
walk, and one name may stand for one directory only.

The walk ends because every name it looks for is listed in a file of the disk, and a name leads to
more work only when it is recorded for the first time.
-/

namespace AddonBuild

namespace Vendor

/-! ### Names on a disk -/

/-- The dependencies that a file lists, or none if it is no JSON text. -/
def namesInFile (content : ByteArray) : List String :=
  match String.fromUTF8? content with
  | some text =>
    match Json.parse text.toUTF8.data.toList with
    | .ok description => Document.dependencyNames description
    | .error _ => []
  | none => []

/-- The dependencies that an entry lists. -/
def namesInEntry : Entry → List String
  | .file content => namesInFile content
  | .directory => []

/-- Every dependency that any file of a disk lists. -/
def namesOn (d : Disk) : List String :=
  d.entries.flatMap fun entry => namesInEntry entry.2

theorem mem_namesOn_of_read {d : Disk} {file : Path} {description : Json} {name : String}
    (h : Document.read d file = .ok description)
    (hn : name ∈ Document.dependencyNames description) : name ∈ namesOn d := by
  obtain ⟨text, ht, hp⟩ := Document.of_read_eq_ok h
  obtain ⟨content, hc, hu⟩ := Disk.of_readText_eq_ok ht
  obtain ⟨l, hl⟩ := Disk.mem_entries_of_read hc
  refine List.mem_flatMap.mpr ⟨_, hl, ?_⟩
  simpa only [namesInEntry, namesInFile, hu, hp] using hn

/-! ### Looking up -/

/-- A dependency to look for, and the directory from which it is looked up. -/
structure Request where
  name : String
  start : Path
deriving DecidableEq, Repr

/-- Where a directory keeps the description of an installed package. -/
def installed (package : String) (directory : Path) : Path :=
  ((directory.child "node_modules").child package).child "package.json"

/-- The description of a package in the nearest directory that has it installed. -/
def find? (d : Disk) (package : String) (start : Path) : Option Path :=
  (start.ancestors.map (installed package)).find? d.isFile

/-- Ask for the dependencies of a description, other than the excluded ones. -/
def requests (exclude : List String) (description : Json) (start : Path) : List Request :=
  ((Document.dependencyNames description).filter (· ∉ exclude)).map (Request.mk · start)

/-! ### The walk -/

/-- What a request comes to. -/
inductive Step where
  | settled
  | recorded (package : Package) (more : List Request)

/-- Follow one request, given the packages recorded so far. -/
def follow (d : Disk) (exclude : List String) (known : List Package) (r : Request) :
    Except Fault Step := do
  let some file := find? d r.name r.start | throw (.dependencyNotFound r.name r.start)
  let directory := file.directory
  match known.find? (·.name = r.name) with
  | some p =>
    if p.directory.same directory then return .settled
    else throw (.dependencyConflict r.name p.directory directory)
  | none =>
    let description ← Document.read d file
    match ← Package.exports? r.name description with
    | some exports =>
      let p := ⟨r.name, directory, Package.treeGlobs exports, exports⟩
      return .recorded p (requests exclude description directory)
    | none => return .settled

theorem mem_namesOn_of_requests {d : Disk} {exclude : List String} {file start : Path}
    {description : Json} (h : Document.read d file = .ok description) :
    ∀ r ∈ requests exclude description start, r.name ∈ namesOn d := by
  intro r hr
  obtain ⟨name, hn, rfl⟩ := List.mem_map.mp hr
  exact mem_namesOn_of_read h (List.mem_filter.mp hn).1

/-- A request that records a package leads on to names that the disk lists. -/
theorem of_follow_eq_recorded {d : Disk} {exclude : List String} {known : List Package}
    {r : Request} {p : Package} {more : List Request}
    (h : follow d exclude known r = .ok (.recorded p more)) :
    p.name = r.name ∧ (∀ q ∈ known, q.name ≠ r.name) ∧ ∀ q ∈ more, q.name ∈ namesOn d := by
  unfold follow at h
  split at h
  next file hf =>
    simp only at h
    split at h
    · split at h <;> simp [pure, Except.pure, throw, throwThe, MonadExceptOf.throw] at h
    · next hk =>
      cases hd : Document.read d file with
      | error e => simp [hd, bind, Except.bind] at h
      | ok description =>
        cases hx : Package.exports? r.name description with
        | error e => simp [hd, hx, bind, Except.bind] at h
        | ok found =>
          cases found with
          | none => simp [hd, hx, bind, Except.bind, pure, Except.pure] at h
          | some exports =>
            simp only [hd, hx, bind, Except.bind, pure, Except.pure, Except.ok.injEq,
              Step.recorded.injEq] at h
            obtain ⟨rfl, rfl⟩ := h
            refine ⟨rfl, ?_, mem_namesOn_of_requests hd⟩
            simpa using hk
  next => simp [throw, throwThe, MonadExceptOf.throw] at h

/-- The names on a disk for which no package is recorded yet. -/
def unrecorded (d : Disk) (known : List Package) : List String :=
  (namesOn d).filter fun name => known.all (·.name ≠ name)

theorem length_unrecorded_lt {d : Disk} {known : List Package} {p : Package}
    (hp : p.name ∈ namesOn d) (hn : ∀ q ∈ known, q.name ≠ p.name) :
    (unrecorded d (known ++ [p])).length < (unrecorded d known).length := by
  have hsplit : unrecorded d (known ++ [p]) = (unrecorded d known).filter (p.name ≠ ·) := by
    simp [unrecorded, List.filter_filter, List.all_append, Bool.and_comm]
  rw [hsplit, List.length_filter_lt_length_iff_exists]
  refine ⟨p.name, List.mem_filter.mpr ⟨hp, ?_⟩, by simp⟩
  simpa using hn

/-- Follow requests, and all that they lead to, before the ones behind them. -/
def walk (d : Disk) (exclude : List String) (known : List Package) (pending : List Request)
    (hp : ∀ r ∈ pending, r.name ∈ namesOn d) : Except Fault (List Package) :=
  match pending with
  | [] => .ok known
  | r :: rest =>
    have hrest : ∀ q ∈ rest, q.name ∈ namesOn d := fun q hq => hp q (List.mem_cons_of_mem _ hq)
    match h : follow d exclude known r with
    | .error fault => .error fault
    | .ok .settled => walk d exclude known rest hrest
    | .ok (.recorded p more) =>
      have hfollow := of_follow_eq_recorded h
      have : (unrecorded d (known ++ [p])).length < (unrecorded d known).length :=
        length_unrecorded_lt (hfollow.1 ▸ hp r List.mem_cons_self) (hfollow.1 ▸ hfollow.2.1)
      walk d exclude (known ++ [p]) (more ++ rest) fun q hq =>
        (List.mem_append.mp hq).elim (hfollow.2.2 q) (hrest q)
termination_by ((unrecorded d known).length, pending.length)

end Vendor

/-- The packages that a project needs from others, in the order in which they were found. -/
structure Vendor where
  packages : List Package
deriving Repr

namespace Vendor

/-- Packages that are never vendored. -/
def defaultExclude : List String := ["patch-package"]

/-- The packages that the project described by a file needs, other than the excluded ones. -/
def load (d : Disk) (file : Path) (exclude : List String) : Except Fault Vendor :=
  let file := (⟨"/"⟩ : Path).absolutize file
  match h : Document.read d file with
  | .error fault => .error fault
  | .ok description =>
    let exclude := defaultExclude ++ exclude
    (walk d exclude [] (requests exclude description file.directory)
      (mem_namesOn_of_requests h)).map Vendor.mk

end Vendor

end AddonBuild
