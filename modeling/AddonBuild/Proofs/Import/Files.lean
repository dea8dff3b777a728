import AddonBuild.Proofs.Import.Denotation
import AddonBuild.Proofs.Disk.Locating

/-!
# Resolving to files

A place is resolved by the files there are: the one at the place itself, then declarations, then a
source or a compiled file. Directories are present, too, and where one has a name that is asked for
it is taken for a file. Resolving on a disk goes by the files alone as long as that does not happen.
-/

namespace AddonBuild

/-! ### Files and directories -/

namespace Disk

variable (d : Disk) (p : Path)

/-- What a path names is a file or a directory, or nothing is there. -/
lemma file_or_directory_or_nothing :
    (d.exists p = true ∧ d.isFile p = true ∧ d.isDirectory p = false) ∨
    (d.exists p = true ∧ d.isFile p = false ∧ d.isDirectory p = true) ∨
    (d.exists p = false ∧ d.isFile p = false ∧ d.isDirectory p = false) := by
  rw [Disk.exists, isFile, isDirectory]
  rcases d.entry p with e | content | -
  · exact .inr (.inr ⟨rfl, rfl, rfl⟩)
  · exact .inl ⟨rfl, rfl, rfl⟩
  · exact .inr (.inl ⟨rfl, rfl, rfl⟩)

lemma exists_iff_file_or_directory :
    d.exists p = true ↔ d.isFile p = true ∨ d.isDirectory p = true := by
  rcases d.file_or_directory_or_nothing p with h | h | h <;> simp [h]

variable {d p}

lemma exists_of_isFile (h : d.isFile p = true) : d.exists p = true :=
  (d.exists_iff_file_or_directory p).mpr (.inl h)

lemma exists_of_isDirectory (h : d.isDirectory p = true) : d.exists p = true :=
  (d.exists_iff_file_or_directory p).mpr (.inr h)

end Disk

namespace Import

/-! ### The outcome for a place -/

section Outcome

variable {present : Path → Bool} {place : Path}

lemma outcome?_of_place (h : present place = true) :
    outcome? present place = some (.toward place) :=
  if_pos h

lemma outcome?_of_declaration (hplace : present place = false)
    (h : present (place.withSuffix declarationSuffix) = true) :
    outcome? present place = some .kept := by
  rw [outcome?, if_neg (by simp [hplace]), if_pos h]

lemma outcome?_of_compiled (hplace : present place = false)
    (hdeclaration : present (place.withSuffix declarationSuffix) = false)
    (h : present (place.withSuffix sourceSuffix) = true ∨
      present (place.withSuffix compiledSuffix) = true) :
    outcome? present place = some (.toward (place.withSuffix compiledSuffix)) := by
  rw [outcome?, if_neg (by simp [hplace]), if_neg (by simp [hdeclaration]),
    if_pos (by simpa using h)]

lemma outcome?_of_nothing (hplace : present place = false)
    (hdeclaration : present (place.withSuffix declarationSuffix) = false)
    (h : ¬ (present (place.withSuffix sourceSuffix) = true ∨
      present (place.withSuffix compiledSuffix) = true)) :
    outcome? present place = none := by
  rw [outcome?, if_neg (by simp [hplace]), if_neg (by simp [hdeclaration]),
    if_neg (by simpa using h)]

end Outcome

/-! ### Directories in the way -/

/-- No directory is taken for a file: neither the place nor its declarations are a directory where
no file is found before, and the source and the compiled file are not unless one of the two is a
file. -/
structure FilesOnly (d : Disk) (base : Path) : Prop where
  place : d.isDirectory base = false
  declaration : d.isFile base = false → d.isDirectory (base.withSuffix declarationSuffix) = false
  compiled : d.isFile base = false → d.isFile (base.withSuffix declarationSuffix) = false →
    d.isDirectory (base.withSuffix sourceSuffix) = true ∨
      d.isDirectory (base.withSuffix compiledSuffix) = true →
    d.isFile (base.withSuffix sourceSuffix) = true ∨
      d.isFile (base.withSuffix compiledSuffix) = true

section Disk

variable {d : Disk} {base : Path}

/-- Without a directory in the way a place comes out as it does by the files alone. -/
lemma FilesOnly.outcome?_eq (h : FilesOnly d base) :
    outcome? d.exists base = outcome? d.isFile base := by
  rcases d.file_or_directory_or_nothing base with hplace | hplace | hplace
  · rw [outcome?_of_place hplace.1, outcome?_of_place hplace.2.1]
  · rw [h.place] at hplace
    cases hplace.2.2
  · have hno := h.declaration hplace.2.1
    rcases d.file_or_directory_or_nothing (base.withSuffix declarationSuffix) with
      hdeclaration | hdeclaration | hdeclaration
    · rw [outcome?_of_declaration hplace.1 hdeclaration.1,
        outcome?_of_declaration hplace.2.1 hdeclaration.2.1]
    · rw [hno] at hdeclaration
      cases hdeclaration.2.2
    · have hcompiled := h.compiled hplace.2.1 hdeclaration.2.1
      by_cases hfile : d.isFile (base.withSuffix sourceSuffix) = true ∨
          d.isFile (base.withSuffix compiledSuffix) = true
      · have hpresent := hfile.imp Disk.exists_of_isFile Disk.exists_of_isFile
        rw [outcome?_of_compiled hplace.1 hdeclaration.1 hpresent,
          outcome?_of_compiled hplace.2.1 hdeclaration.2.1 hfile]
      · have habsent : ¬ (d.exists (base.withSuffix sourceSuffix) = true ∨
            d.exists (base.withSuffix compiledSuffix) = true) := by
          simp only [d.exists_iff_file_or_directory]
          rintro ((hts | hts) | hjs | hjs)
          · exact hfile (.inl hts)
          · exact hfile (hcompiled (.inl hts))
          · exact hfile (.inr hjs)
          · exact hfile (hcompiled (.inr hjs))
        rw [outcome?_of_nothing hplace.1 hdeclaration.1 habsent,
          outcome?_of_nothing hplace.2.1 hdeclaration.2.1 hfile]

/-- A directory in the way changes how a place comes out. -/
lemma filesOnly_of_outcome?_eq (h : outcome? d.exists base = outcome? d.isFile base) :
    FilesOnly d base := by
  rcases d.file_or_directory_or_nothing base with ⟨-, hfile, hno⟩ | ⟨hplace, hfile, -⟩ |
    ⟨hplace, hfile, hno⟩
  · exact ⟨hno, by simp [hfile], by simp [hfile]⟩
  · -- the directory is led to, which no file has asked for
    rw [outcome?_of_place hplace] at h
    rcases outcome?_eq_some h.symm with ⟨-, htrue⟩ | ⟨hkept, -⟩ | ⟨htoward, -⟩
    · rw [hfile] at htrue
      cases htrue
    · cases hkept
    · exact absurd (Outcome.toward.inj htoward).symm (withSuffix_ne base (by decide))
  rcases d.file_or_directory_or_nothing (base.withSuffix declarationSuffix) with
    ⟨-, hdfile, hdno⟩ | ⟨hdeclaration, hdfile, -⟩ | ⟨hdeclaration, hdfile, hdno⟩
  · exact ⟨hno, fun _ => hdno, by simp [hdfile]⟩
  · rw [outcome?_of_declaration hplace hdeclaration] at h
    rcases outcome?_eq_some h.symm with ⟨htoward, -⟩ | ⟨-, -, htrue⟩ | ⟨htoward, -⟩
    · cases htoward
    · rw [hdfile] at htrue
      cases htrue
    · cases htoward
  · refine ⟨hno, fun _ => hdno, fun _ _ hdirectory => ?_⟩
    have hpresent := hdirectory.imp Disk.exists_of_isDirectory Disk.exists_of_isDirectory
    rw [outcome?_of_compiled hplace hdeclaration hpresent] at h
    rcases outcome?_eq_some h.symm with ⟨-, htrue⟩ | ⟨hkept, -⟩ | ⟨-, -, -, hfiles⟩
    · rw [hfile] at htrue
      cases htrue
    · cases hkept
    · exact hfiles

lemma filesOnly_iff : FilesOnly d base ↔ outcome? d.exists base = outcome? d.isFile base :=
  ⟨FilesOnly.outcome?_eq, filesOnly_of_outcome?_eq⟩

end Disk

/-! ### Specifiers by the files there are -/

/-- What a place resolves to by the files of a disk: a way to the file there, the specifier itself
for the sake of declarations, a way to the compiled file, or nothing. -/
structure ResolvesByFiles (d : Disk) (specifier : String) (anchor base : Path)
    (result : Option String) : Prop where
  place : d.isFile base = true →
    result = some (anchor.directory.moduleSpecifier base) ∧
      anchor.directory.absolutize ⟨anchor.directory.moduleSpecifier base⟩ = base
  declaration : d.isFile base = false → d.isFile (base.withSuffix ".d.ts") = true →
    result = some specifier
  compiled : d.isFile base = false → d.isFile (base.withSuffix ".d.ts") = false →
    d.isFile (base.withSuffix ".ts") = true ∨ d.isFile (base.withSuffix ".js") = true →
    result = some (anchor.directory.moduleSpecifier (base.withSuffix ".js")) ∧
      anchor.directory.absolutize
        ⟨anchor.directory.moduleSpecifier (base.withSuffix ".js")⟩ = base.withSuffix ".js"
  nothing : d.isFile base = false → d.isFile (base.withSuffix ".d.ts") = false →
    d.isFile (base.withSuffix ".ts") = false → d.isFile (base.withSuffix ".js") = false →
    result = none

lemma resolvesByFiles_isFile (d : Disk) (specifier : String) {anchor base : Path}
    (hanchor : anchor.isAbsolute = true) (hbase : base.isAbsolute = true)
    (hclean : base.clean = base) :
    ResolvesByFiles d specifier anchor base (resolve? d.isFile specifier anchor base) := by
  have hstart := (Path.directory_of_isAbsolute hanchor).1
  have hjs := Path.isAbsolute_withSuffix hbase ".js"
  have hcompiled := Path.clean_withSuffix_js hbase
  rw [hclean] at hcompiled
  rw [resolve?_eq]
  constructor
  case place =>
    intro hfile
    rw [outcome?_of_place hfile]
    exact ⟨rfl, (Path.absolutize_moduleSpecifier hstart hbase).trans hclean⟩
  case declaration =>
    intro hfile hdeclaration
    rw [outcome?_of_declaration hfile hdeclaration]
    rfl
  case compiled =>
    intro hfile hdeclaration h
    rw [outcome?_of_compiled hfile hdeclaration h]
    exact ⟨rfl, (Path.absolutize_moduleSpecifier hstart hjs).trans hcompiled⟩
  case nothing =>
    intro hfile hdeclaration hsource hjs
    have hnone : ¬ (d.isFile (base.withSuffix sourceSuffix) = true ∨
        d.isFile (base.withSuffix compiledSuffix) = true) := by
      simp [sourceSuffix, compiledSuffix, hsource, hjs]
    rw [outcome?_of_nothing hfile hdeclaration hnone]
    rfl

/-- On a disk a place resolves by the files there are, in their order, unless a directory is taken
for a file; and only such a directory makes a difference to the files alone. -/
theorem resolve?_exists {d : Disk} {anchor base : Path} (hanchor : anchor.isAbsolute = true)
    (hbase : base.isAbsolute = true) (hclean : base.clean = base) :
    (FilesOnly d base → ∀ specifier,
      ResolvesByFiles d specifier anchor base (resolve? d.exists specifier anchor base)) ∧
    (FilesOnly d base ↔ outcome? d.exists base = outcome? d.isFile base) := by
  refine ⟨fun h specifier => ?_, filesOnly_iff⟩
  rw [resolve?_eq, h.outcome?_eq, ← resolve?_eq]
  exact resolvesByFiles_isFile d specifier hanchor hbase hclean

/-- A directory that is called like a compiled file, beside its source. -/
def compiledDisk : Disk where
  entries := [(["a.js"], .directory), (["a.ts"], .file "".toUTF8)]
  sorted := by decide
  rooted := by decide

/-- A directory does no harm where its name is that of a compiled file whose source is there. -/
theorem resolve?_exists_compiled :
    resolve? compiledDisk.exists "./a" ⟨"/b.ts"⟩ ⟨"/a"⟩ = some "./a.js" ∧
    Path.absolutize ⟨"/"⟩ ⟨"./a.js"⟩ = ⟨"/a.js"⟩ := by
  have hfiles : FilesOnly compiledDisk ⟨"/a"⟩ :=
    ⟨by rfl, fun _ => by rfl, fun _ _ _ => .inl (by rfl)⟩
  have hanchor : Path.isAbsolute ⟨"/b.ts"⟩ = true := by
    rfl
  have hbase : Path.isAbsolute ⟨"/a"⟩ = true := by
    rfl
  obtain ⟨hresolves, -⟩ := resolve?_exists (d := compiledDisk) hanchor hbase (by rfl)
  exact (hresolves hfiles "./a").compiled (by rfl) (by rfl) (.inl (by rfl))

end Import

end AddonBuild
