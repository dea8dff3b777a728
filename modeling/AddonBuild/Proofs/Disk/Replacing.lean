import AddonBuild.Disk.Replace
import AddonBuild.Proofs.Disk.Receiving
import AddonBuild.Proofs.Disk.Removing

/-!
# Replacing a file

Replacing a file by way of a temporary file comes to the same as writing it, as long as nothing else
has the name of the temporary file. So a file is either kept or replaced as a whole, and no other
file is touched.
-/

namespace AddonBuild

open AddonBuild.Path

namespace Disk

variable {d d' : Disk} {p : Path} {content : ByteArray} {stamp : Stamp}

/-- A path leads away from what is not on its trail. -/
lemma location_ne_of_not_mem {l : Location} (hne : l ≠ []) (h : l ∉ p.trail) : p.location ≠ l := by
  rintro rfl
  exact h (Location.mem_trail_of_prefix hne (List.prefix_refl _))

/-! ### Two outcomes but for one place -/

/-- Two outcomes are the same but at one place, where nothing is left by the first of them. -/
structure AgreeBut {α : Type} (l : Location) (outcome plain : Except DiskError α × Disk) :
    Prop where
  result : outcome.1 = plain.1
  disk : ∀ k, outcome.2.get? k = plain.2.get? k ∨ k = l ∧ outcome.2.get? k = none

namespace AgreeBut

variable {α : Type} {l : Location}

lemma refl (l : Location) (outcome : Except DiskError α × Disk) : AgreeBut l outcome outcome :=
  ⟨rfl, fun _ => .inl rfl⟩

lemma eq {outcome plain : Except DiskError α × Disk} (h : AgreeBut l outcome plain)
    (hnone : plain.2.get? l = none) : outcome = plain := by
  refine Prod.ext h.result (eq_of_get? fun k => ?_)
  rcases h.disk k with heq | ⟨rfl, hk⟩
  · exact heq
  · rw [hk, hnone]

lemma asWritten {outcome plain : Except DiskError Unit × Disk} (h : AgreeBut l outcome plain) :
    AgreeBut l (Disk.asWritten outcome) (Disk.asWritten plain) :=
  ⟨congrArg (Except.map fun _ => true) h.result, h.disk⟩

/-- A file that is removed makes no difference elsewhere. -/
lemma remove (result : Except DiskError α) (hfile : d.get? l = some (.file content)) :
    AgreeBut l (result, d.remove l) (result, d) := by
  refine ⟨rfl, fun k => ?_⟩
  dsimp only
  rw [get?_remove_file hfile]
  split_ifs with hk
  · exact .inr ⟨hk, rfl⟩
  · exact .inl rfl

end AgreeBut

lemma Grows.of_but {d₁ : Disk} {l : Location} (h : d.Grows d₁)
    (hbut : ∀ k, d'.get? k = d₁.get? k ∨ k = l ∧ d'.get? k = none)
    (hgone : d'.get? l = none → d.get? l = none) : d.Grows d' where
  directory {k} hk := by
    rcases hbut k with heq | ⟨rfl, hnone⟩
    · rw [heq, h.directory hk]
    · rw [hgone hnone] at hk
      cases hk
  file {k content} hk := by
    rcases hbut k with heq | ⟨rfl, hnone⟩
    · rw [heq]
      exact h.file hk
    · rw [hgone hnone] at hk
      cases hk

/-- A path that leads past a place leads on where that place is free. -/
lemma entry_of_but {l : Location} (hbut : ∀ k, d'.get? k = d.get? k ∨ k = l ∧ d'.get? k = none)
    (hoff : l ∉ p.trail) (h : d.entry p = .ok (.file content)) :
    d'.entry p = .ok (.file content) := by
  obtain ⟨hfits, hname, hpassage, hfile⟩ := entry_eq_file_iff.mp h
  refine entry_eq_file_iff.mpr ⟨hfits, hname, fun k hk => ?_, ?_⟩
  · rcases hbut k with heq | ⟨rfl, -⟩
    · rw [heq, hpassage k hk]
    · exact absurd (passage_subset_trail _ hk) hoff
  · rcases hbut p.location with heq | ⟨hplace, -⟩
    · rw [heq, hfile]
    · have hne : l ≠ [] := d.ne_nil_of_get?_ne (by simp [← hplace, hfile])
      exact absurd hplace (location_ne_of_not_mem hne hoff)

/-! ### Moving the temporary file -/

lemma on_move (source target : Location) (e : Entry) (d : Disk) :
    (move source target e).on d =
      if h : (d.remove source).Admits target e then (.ok (), (d.remove source).put target e h)
      else (.error .notFound, d) := by
  rw [move, WorkM.on_bind, WorkM.on_get]
  dsimp only
  split_ifs <;> rfl

lemma on_moveOnto_of_ok {temporary : Path}
    (h : (renameFile temporary p).on d = (.ok (), d')) :
    (moveOnto temporary p).on d = (.ok (), d') := by
  rw [moveOnto, WorkM.on_bind, WorkM.on_attempt, h]
  rfl

section

variable {temporary : Path} (hl : d.locate temporary = .ok temporary.location)
  (hfile : d.get? temporary.location = some (.file content))
include hl hfile

lemma on_renameFile :
    (renameFile temporary p).on d =
      if endsInName p then
        if endsInSlash p then (.error .notDirectory, d)
        else
          match d.locate p with
          | .error e => (.error e, d)
          | .ok l =>
            if d.get? l = some .directory then (.error .isDirectory, d)
            else (move temporary.location l (.file content)).on d
      else
        match d.locate p with
        | .error e => (.error e, d)
        | .ok _ => (.error .busy, d) := by
  rw [renameFile, WorkM.on_bind, WorkM.on_consult, hl]
  dsimp only
  rw [WorkM.on_bind, WorkM.on_get]
  dsimp only
  rw [hfile]
  dsimp only
  split_ifs with hname hslash
  · rfl
  · rw [WorkM.on_bind, WorkM.on_consult]
    cases d.locate p with
    | error e => rfl
    | ok l =>
      dsimp only
      rw [WorkM.on_bind, WorkM.on_get]
      dsimp only
      split_ifs <;> rfl
  · rw [WorkM.on_bind, WorkM.on_consult]
    cases d.locate p <;> rfl

/-- A refusal leaves the temporary file, which then goes. -/
lemma on_moveOnto_of_error {e : DiskError} (h : (renameFile temporary p).on d = (.error e, d)) :
    (moveOnto temporary p).on d = (.error e, d.remove temporary.location) := by
  have hdrop : (removeFile temporary).on d = (.ok (), d.remove temporary.location) :=
    on_removeFile_eq_ok.mpr ⟨⟨content, entry_eq_ok.mpr ⟨_, hl, hfile⟩⟩, rfl⟩
  rw [moveOnto, WorkM.on_bind, WorkM.on_attempt, h]
  dsimp only
  rw [WorkM.on_bind, WorkM.on_attempt, hdrop]
  rfl

/-- Moving a temporary file onto a file is writing that file where there is no temporary file. -/
lemma on_moveOnto (hoff : temporary.location ∉ p.trail) :
    (moveOnto temporary p).on d = (putInPlace p content).on (d.remove temporary.location) := by
  have hne : temporary.location ≠ [] := d.ne_nil_of_get?_ne (by simp [hfile])
  have hget (k : Location) (hk : k ≠ temporary.location) :
      d.get? k = (d.remove temporary.location).get? k := by
    rw [get?_remove_file hfile, if_neg hk]
  have hlocate : d.locate p = (d.remove temporary.location).locate p :=
    locate_congr fun k hk => hget k fun heq => hoff (heq ▸ hk)
  have hrename := on_renameFile (p := p) hl hfile
  -- both go the same ways, on a disk with the temporary file and on one without it
  rw [putInPlace]
  split_ifs at hrename ⊢ with hname hslash
  · exact on_moveOnto_of_error hl hfile hrename
  · rw [hlocate] at hrename
    rw [putFile, WorkM.on_bind, WorkM.on_consult]
    cases hp : (d.remove temporary.location).locate p with
    | error e =>
      rw [hp] at hrename
      exact on_moveOnto_of_error hl hfile hrename
    | ok l =>
      obtain rfl := (of_locate_eq_ok hp).2.1
      rw [hp] at hrename
      dsimp only at hrename ⊢
      rw [hget _ (location_ne_of_not_mem hne hoff), on_move] at hrename
      rw [WorkM.on_bind, WorkM.on_get]
      dsimp only
      split_ifs at hrename ⊢ with hdirectory hadmits
      · exact on_moveOnto_of_error hl hfile hrename
      · rw [on_moveOnto_of_ok hrename]
        exact ((on_putAt _ _ _).trans (dif_pos hadmits)).symm
      · rw [on_moveOnto_of_error hl hfile hrename]
        exact ((on_putAt _ _ _).trans (dif_neg hadmits)).symm
  · rw [hlocate] at hrename
    rw [WorkM.on_bind, WorkM.on_consult]
    cases hp : (d.remove temporary.location).locate p with
    | error e =>
      rw [hp] at hrename
      exact on_moveOnto_of_error hl hfile hrename
    | ok l =>
      rw [hp] at hrename
      exact on_moveOnto_of_error hl hfile hrename

end

lemma admits_iff {l : Location} {e : Entry} :
    d.Admits l e ↔ l ≠ [] ∧ d.get? l.dropLast = some .directory ∧
      (d.get? l = some .directory → e = .directory) := by
  rw [Admits]
  refine and_congr_right fun hl => ?_
  rw [isDirectoryIn_iff, get?_eq_some_iff hl]

/-- A file that is out of the way has no say in how another one is put. -/
lemma agreeBut_putInPlace {l : Location} {old : ByteArray} (content : ByteArray)
    (hfile : d.get? l = some (.file old)) (hoff : l ∉ p.trail) :
    AgreeBut l ((putInPlace p content).on (d.remove l)) ((putInPlace p content).on d) := by
  have hne : l ≠ [] := d.ne_nil_of_get?_ne (by simp [hfile])
  have hget (k : Location) (hk : k ≠ l) : (d.remove l).get? k = d.get? k := by
    rw [get?_remove_file hfile, if_neg hk]
  have hlocate : (d.remove l).locate p = d.locate p :=
    locate_congr fun k hk => hget k fun heq => hoff (heq ▸ hk)
  rw [putInPlace]
  split_ifs with hname hslash
  · exact .remove _ hfile
  · rw [putFile, WorkM.on_bind, WorkM.on_bind, WorkM.on_consult, WorkM.on_consult, hlocate]
    cases hp : d.locate p with
    | error e => exact .remove _ hfile
    | ok k =>
      obtain rfl := (of_locate_eq_ok hp).2.1
      have hplace := hget _ (location_ne_of_not_mem hne hoff)
      dsimp only
      rw [WorkM.on_bind, WorkM.on_bind, WorkM.on_get, WorkM.on_get]
      dsimp only
      rw [hplace]
      split_ifs with hdirectory
      · exact .remove _ hfile
      · have hadmits : (d.remove l).Admits p.location (.file content) ↔
            d.Admits p.location (.file content) := by
          rw [admits_iff, admits_iff, hplace]
          refine and_congr_right fun _ => ?_
          rw [hget]
          intro heq
          exact hoff (Location.mem_trail_of_prefix hne (heq ▸ List.dropLast_prefix _))
        rw [on_putAt, on_putAt]
        by_cases h : d.Admits p.location (.file content)
        · rw [dif_pos h, dif_pos (hadmits.mpr h)]
          refine ⟨rfl, fun k => ?_⟩
          rw [get?_put, get?_put, get?_remove_file hfile]
          split_ifs with hk hkl
          · exact .inl rfl
          · exact .inr ⟨hkl, rfl⟩
          · exact .inl rfl
        · rw [dif_neg h, dif_neg (mt hadmits.mp h)]
          exact .remove _ hfile
  · rw [WorkM.on_bind, WorkM.on_bind, WorkM.on_consult, WorkM.on_consult, hlocate]
    cases d.locate p <;> exact .remove _ hfile

/-! ### Replacing -/

/-- A file can be put where there is none yet, as often as it takes. -/
lemma exists_putFile (content : ByteArray) (hname : p.EndsInName) (hl : d.locate p = .ok p.location)
    (hfree : d.get? p.location ≠ some .directory) :
    ∃ d', (putFile p content).on d = (.ok (), d') ∧ d'.locate p = .ok p.location ∧
      ∀ k, d'.get? k = if k = p.location then some (.file content) else d.get? k := by
  obtain ⟨init, last, hsegments, hblank, -⟩ := id hname
  have hadmits : d.Admits p.location (.file content) :=
    admits_of_endsInName hname (passage_of_locate hl hsegments hblank) hfree
  have hput : (putFile p content).on d = (.ok (), d.put p.location (.file content) hadmits) :=
    on_putFile_eq_ok.mpr ⟨_, hl, hadmits, rfl⟩
  exact ⟨_, hput, (wrote_of_putFile (.refl d _) hput).grows.locate_eq_ok hl, get?_put hadmits⟩

/-- Moving a temporary file onto a file is putting that file, and a file that had the name of the
temporary file before is gone. -/
lemma moveOnto_agreeBut {temporary : Path} (hl : d'.locate temporary = .ok temporary.location)
    (hget : ∀ k, d'.get? k = if k = temporary.location then some (.file content) else d.get? k)
    (hfree : d.get? temporary.location ≠ some .directory) (hoff : temporary.location ∉ p.trail) :
    AgreeBut temporary.location ((moveOnto temporary p).on d') ((putInPlace p content).on d) := by
  have hfile : d'.get? temporary.location = some (.file content) := by
    rw [hget, if_pos rfl]
  have hback (k : Location) : (d'.remove temporary.location).get? k =
      if k = temporary.location then none else d.get? k := by
    rw [get?_remove_file hfile, hget]
    split_ifs <;> rfl
  rw [on_moveOnto hl hfile hoff]
  -- without the temporary file the disk lacks at most the file that had its name before
  cases hold : d.get? temporary.location with
  | none =>
    have heq : d'.remove temporary.location = d := eq_of_get? fun k => by
      rw [hback]
      split_ifs with hk
      · rw [hk, hold]
      · rfl
    rw [heq]
    exact .refl _ _
  | some e =>
    cases e with
    | directory => exact absurd hold hfree
    | file old =>
      have heq : d'.remove temporary.location = d.remove temporary.location :=
        eq_of_get? fun k => by rw [hback, get?_remove_file hold]
      rw [heq]
      exact agreeBut_putInPlace content hold hoff

/-- Replacing a file is writing it, and a file that has the name of the temporary file goes. -/
lemma replace_agreeBut (content : ByteArray)
    (hfree : d.get? (waiting stamp p).location ≠ some .directory)
    (hoff : (waiting stamp p).location ∉ p.passage) :
    AgreeBut (waiting stamp p).location ((replace stamp p content).on d)
      ((write stamp p content).on d) := by
  have hfurnishes := furnishes_homeOf p d
  rw [replace, write, WorkM.on_bind, WorkM.on_bind]
  generalize (makeDirectories (homeOf p)).on d = made at hfurnishes
  obtain ⟨result, d₁⟩ := made
  cases result with
  | error e => exact .refl _ _
  | ok =>
    dsimp only at hfurnishes ⊢
    have hfree₁ : d₁.get? (waiting stamp p).location ≠ some .directory := by
      rcases hfurnishes (waiting stamp p).location with heq | ⟨hmem, -⟩
      · rwa [heq]
      · exact absurd hmem hoff
    rw [WorkM.on_bind, on_land]
    cases hl : d₁.locate (waiting stamp p) with
    | error e =>
      rw [putFile, WorkM.on_bind, WorkM.on_consult, hl]
      exact .refl _ _
    | ok l =>
      rw [(of_locate_eq_ok hl).2.1] at hl
      have hname := endsInName_waiting stamp p
      obtain ⟨d₂, hfirst, hl₂, hget₂⟩ := exists_putFile .empty hname hl hfree₁
      obtain ⟨d₃, hsecond, hl₃, hget₃⟩ :=
        exists_putFile content hname hl₂ (by simp [hget₂])
      rw [hfirst]
      dsimp only
      rw [WorkM.on_bind, hsecond]
      refine moveOnto_agreeBut hl₃ (fun k => ?_) hfree₁ (location_waiting_not_mem hoff)
      rw [hget₃, hget₂]
      split_ifs <;> rfl

/-- Writing a file leaves alone what has the name of the temporary file. -/
lemma get?_waiting_of_write (content : ByteArray) (d : Disk)
    (hoff : (waiting stamp p).location ∉ p.passage) :
    ((write stamp p content).on d).2.get? (waiting stamp p).location =
      d.get? (waiting stamp p).location := by
  generalize hwrite : (write stamp p content).on d = outcome
  obtain ⟨result, d'⟩ := outcome
  cases result with
  | ok =>
    have hne : p.location ≠ (waiting stamp p).location :=
      location_ne_of_not_mem (by simp [location_waiting]) (location_waiting_not_mem hoff)
    exact ((wrote_of_write hwrite).1.elsewhere _ hne.symm).resolve_right fun h => hoff h.1
  | error e => exact (furnishes_of_write_error hwrite _).resolve_right fun h => hoff h.1

/-- Replacing a file is writing it, if nothing has the name of the temporary file. -/
lemma on_replace (hunused : d.get? (waiting stamp p).location = none)
    (hoff : (waiting stamp p).location ∉ p.passage) :
    (replace stamp p content).on d = (write stamp p content).on d :=
  (replace_agreeBut content (by simp [hunused]) hoff).eq
    (by rw [get?_waiting_of_write content d hoff, hunused])

/-- A temporary file takes the place of no directory. -/
lemma free_of_replace (h : (replace stamp p content).on d = (.ok (), d')) :
    d.get? (waiting stamp p).location ≠ some .directory := by
  intro hdirectory
  obtain ⟨_, d₁, hmake, h⟩ := WorkM.on_bind_eq_ok.mp h
  obtain ⟨_, d₂, hput, -⟩ := WorkM.on_bind_eq_ok.mp h
  have hfurnishes := furnishes_homeOf p d
  rw [hmake] at hfurnishes
  exact (wrote_of_putFile (.refl d₁ _) hput).free (hfurnishes.grows.directory hdirectory)

/-- A temporary file cannot be made where a directory has to be. -/
lemma exists_of_replace (hmem : (waiting stamp p).location ∈ p.passage) :
    ∃ e, ((replace stamp p content).on d).1 = .error e ∧
      d.Furnishes ((replace stamp p content).on d).2 p.passage := by
  have hfurnishes := furnishes_homeOf p d
  rw [replace, WorkM.on_bind]
  generalize (makeDirectories (homeOf p)).on d = made at hfurnishes
  obtain ⟨result, d₁⟩ := made
  cases result with
  | error e => exact ⟨e, rfl, hfurnishes⟩
  | ok =>
    dsimp only at hfurnishes ⊢
    rw [WorkM.on_bind]
    generalize hput : (putFile (waiting stamp p) .empty).on d₁ = put
    obtain ⟨result, d₂⟩ := put
    cases result with
    | error e =>
      obtain rfl := on_putFile_eq_error hput
      exact ⟨e, rfl, hfurnishes⟩
    | ok =>
      have hwrote := wrote_of_putFile (.refl d₁ _) hput
      rw [← passage_waiting stamp p] at hmem
      have hdirectory := (entry_eq_file_iff.mp hwrote.entry).2.2.1 _ hmem
      rw [hwrote.get?] at hdirectory
      cases hdirectory

/-- A replacement writes the file or leaves no more than directories behind. -/
lemma wrote_or_of_replace (content : ByteArray)
    (hunused : d.get? (waiting stamp p).location = none) :
    (((replace stamp p content).on d).1 = .ok () ∧
        d.Wrote ((replace stamp p content).on d).2 p content ∧
        (waiting stamp p).location ∉ p.passage) ∨
      ∃ e, ((replace stamp p content).on d).1 = .error e ∧
        d.Furnishes ((replace stamp p content).on d).2 p.passage := by
  by_cases hoff : (waiting stamp p).location ∈ p.passage
  · exact .inr (exists_of_replace hoff)
  rw [on_replace hunused hoff]
  generalize hwrite : (write stamp p content).on d = outcome
  obtain ⟨result, d'⟩ := outcome
  cases result with
  | ok => exact .inl ⟨rfl, (wrote_of_write hwrite).1, hoff⟩
  | error e => exact .inr ⟨e, rfl, furnishes_of_write_error hwrite⟩

/-! ### Replacing what has changed -/

/-- BLAKE3 tells the content that a path has from another. -/
def HashTells (d : Disk) (p : Path) (content : ByteArray) : Prop :=
  ∀ old, d.entry p = .ok (.file old) →
    Blake3.hash old.data.toList = Blake3.hash content.data.toList → old = content

lemma seems_iff (hhash : d.HashTells p content) {found : Entry} (hentry : d.entry p = .ok found) :
    found.seems content = true ↔ found = .file content := by
  cases found with
  | directory => simp [Entry.seems]
  | file old =>
    rw [Entry.seems, Bool.and_eq_true, beq_iff_eq, beq_iff_eq, Entry.file.injEq]
    constructor
    · rintro ⟨-, hsame⟩
      exact hhash old hentry hsame
    · rintro rfl
      exact ⟨rfl, rfl⟩

lemma on_replaceIfChanged (stamp : Stamp) (p : Path) (content : ByteArray) (d : Disk) :
    (replaceIfChanged stamp p content).on d =
      (unlessThere (d.entry p) (·.seems content) (replace stamp p content)).on d := by
  rw [replaceIfChanged, WorkM.on_bind, WorkM.on_get]

lemma callsFor_seems_iff (hhash : d.HashTells p content) :
    CallsFor (d.entry p) (·.seems content) ↔ CallsFor (d.entry p) (· = .file content) := by
  refine or_congr_right (exists_congr fun found => and_congr_right fun hentry => ?_)
  rw [← Bool.not_eq_true, seems_iff hhash hentry]
  simp

/-- What has changed is replaced as it is written, and a file that has the name of the temporary
file goes. -/
lemma replaceIfChanged_agreeBut (hhash : d.HashTells p content)
    (hfree : d.get? (waiting stamp p).location ≠ some .directory)
    (hoff : (waiting stamp p).location ∉ p.passage) :
    AgreeBut (waiting stamp p).location ((replaceIfChanged stamp p content).on d)
      ((writeIfChanged stamp p content).on d) := by
  rw [on_replaceIfChanged, on_writeIfChanged]
  rcases right_or_callsFor_or_error (d.entry p) (·.seems content) with
    ⟨e, h, he⟩ | h | ⟨e, h, he⟩
  · have hsame := (seems_iff hhash h).mp he
    rw [on_unlessThere_of_right h he, on_unlessThere_of_right h (by simp [hsame])]
    exact .refl _ _
  · rw [on_unlessThere_of_callsFor h, on_unlessThere_of_callsFor ((callsFor_seems_iff hhash).mp h)]
    exact (replace_agreeBut content hfree hoff).asWritten
  · rw [on_unlessThere_of_error h he, on_unlessThere_of_error h he]
    exact .refl _ _

lemma get?_waiting_of_writeIfChanged (content : ByteArray) (d : Disk)
    (hoff : (waiting stamp p).location ∉ p.passage) :
    ((writeIfChanged stamp p content).on d).2.get? (waiting stamp p).location =
      d.get? (waiting stamp p).location := by
  rw [on_writeIfChanged]
  rcases right_or_callsFor_or_error (d.entry p) (· = .file content) with
    ⟨e, h, he⟩ | h | ⟨e, h, he⟩
  · rw [on_unlessThere_of_right h he]
  · rw [on_unlessThere_of_callsFor h]
    exact get?_waiting_of_write content d hoff
  · rw [on_unlessThere_of_error h he]

/-- What has changed is replaced as it is written, if nothing has the name of the temporary file. -/
lemma replaceIfChanged_eq_writeIfChanged (hhash : d.HashTells p content)
    (hunused : d.get? (waiting stamp p).location = none)
    (hoff : (waiting stamp p).location ∉ p.passage) :
    (replaceIfChanged stamp p content).on d = (writeIfChanged stamp p content).on d :=
  (replaceIfChanged_agreeBut hhash (by simp [hunused]) hoff).eq
    (by rw [get?_waiting_of_writeIfChanged content d hoff, hunused])

/-- A file that is there with its content is kept. -/
lemma on_replaceIfChanged_of_entry (h : d.entry p = .ok (.file content)) :
    (replaceIfChanged stamp p content).on d = (.ok false, d) := by
  rw [on_replaceIfChanged]
  exact on_unlessThere_of_right h (by simp [Entry.seems])

/-- What a file leaves behind that is there with its content, be it replaced now or before. Only
what is replaced now needs room for a temporary file, which is not there any more. -/
lemma wrote_of_replaceIfChanged {fresh : Bool} (hhash : d.HashTells p content)
    (hoff : (waiting stamp p).location ∉ p.passage)
    (h : (replaceIfChanged stamp p content).on d = (.ok fresh, d')) :
    ∃ d₁, d.Wrote d₁ p content ∧
      (∀ k, d'.get? k = d₁.get? k ∨ k = (waiting stamp p).location ∧ d'.get? k = none) ∧
      (d' = d ∨
        (waiting stamp p).Fits ∧ d.get? (waiting stamp p).location ≠ some .directory) := by
  rw [on_replaceIfChanged] at h
  rcases on_unlessThere_eq_ok.mp h with ⟨⟨e, hentry, he⟩, -, rfl⟩ | ⟨-, -, hreplace⟩
  · rw [(seems_iff hhash hentry).mp he] at hentry
    exact ⟨_, wrote_self hentry, fun _ => .inl rfl, .inl rfl⟩
  · have hfree := free_of_replace hreplace
    have hagree := replace_agreeBut content hfree hoff
    rw [hreplace] at hagree
    generalize hwrite : (write stamp p content).on d = outcome at hagree
    obtain ⟨result, d₁⟩ := outcome
    obtain rfl : .ok () = result := hagree.result
    obtain ⟨hwrote, hfits⟩ := wrote_of_write hwrite
    exact ⟨d₁, hwrote, hagree.disk, .inr ⟨hfits, hfree⟩⟩

/-- Nothing stands in the way of a write: the path is that of a file, neither it nor the name under
which the content waits is too long, and there is a file at no place that has to be a directory, nor
a directory at that of the file. -/
structure Writable (d : Disk) (stamp : Stamp) (p : Path) : Prop where
  absolute : p.isAbsolute = true
  named : p.EndsInName
  fits : p.Fits
  room : (waiting stamp p).Fits
  apart : p.location ∉ p.passage
  off : (waiting stamp p).location ∉ p.passage
  clear : ∀ k ∈ p.passage, ∀ found, d.get? k ≠ some (.file found)
  free : d.get? p.location ≠ some .directory

/-- A file was replaced or kept as a whole, or a refusal left all files as they were. -/
structure Replaced (stamp : Stamp) (p : Path) (content : ByteArray) (d : Disk)
    (outcome : Except DiskError Bool × Disk) : Prop where
  kept_iff : outcome.1 = .ok false ↔ d.entry p = .ok (.file content)
  kept : outcome.1 = .ok false → outcome.2 = d
  written : outcome.1 = .ok true → outcome.2.entry p = .ok (.file content)
  ancestors : outcome.1 = .ok true → ∀ k ∈ p.passage, outcome.2.get? k = some .directory
  files : ∀ k found, (outcome.1 = .ok true → k ≠ p.location) →
    (outcome.2.get? k = some (.file found) ↔ d.get? k = some (.file found))
  directories : ∀ k, d.get? k = some .directory → outcome.2.get? k = some .directory
  made : ∀ k, outcome.2.get? k = some .directory → d.get? k = some .directory ∨ k ∈ p.passage
  temporary : ∀ found, outcome.2.get? (waiting stamp p).location ≠ some (.file found)
  refused : d.get? p.location = some .directory ∨
    (∃ k ∈ p.passage, ∃ found, d.get? k = some (.file found)) → ∃ e, outcome.1 = .error e

lemma Furnishes.get?_eq_file_iff {places : List Location} (h : d.Furnishes d' places)
    {k : Location} {found : ByteArray} :
    d'.get? k = some (.file found) ↔ d.get? k = some (.file found) := by
  refine ⟨h.file, fun hk => ?_⟩
  rcases h k with heq | ⟨-, hnone, -⟩
  · rw [heq, hk]
  · rw [hnone] at hk
    cases hk

/-- Directories alone are no harm if the write is refused. -/
lemma Furnishes.replaced (h : d.Furnishes d' p.passage)
    (hunused : d.get? (waiting stamp p).location = none)
    (hentry : d.entry p ≠ .ok (.file content)) (e : DiskError) :
    Replaced stamp p content d (.error e, d') where
  kept_iff := iff_of_false (by simp) hentry
  kept hfalse := by cases hfalse
  written htrue := by cases htrue
  ancestors htrue := by cases htrue
  files _ _ _ := h.get?_eq_file_iff
  directories _ := h.grows.directory
  made k hk := by
    rcases h k with heq | ⟨hplace, -⟩
    · exact .inl (heq ▸ hk)
    · exact .inr hplace
  temporary found hfound := by
    rw [h.file hfound] at hunused
    cases hunused
  refused _ := ⟨e, rfl⟩

lemma Wrote.get?_eq_file_iff (h : d.Wrote d' p content) {k : Location} (hk : k ≠ p.location)
    {found : ByteArray} : d'.get? k = some (.file found) ↔ d.get? k = some (.file found) := by
  rcases h.elsewhere k hk with heq | ⟨-, hnone, hdirectory⟩
  · rw [heq]
  · rw [hnone, hdirectory]
    simp

/-- No file can be written in place of a directory or below a file. -/
lemma Wrote.not_blocked (h : d.Wrote d' p content) :
    ¬ (d.get? p.location = some .directory ∨
      ∃ k ∈ p.passage, ∃ found, d.get? k = some (.file found)) := by
  rintro (hdirectory | ⟨k, hk, found, hfound⟩)
  · exact h.free hdirectory
  · obtain ⟨content', hcontent'⟩ := h.grows.file hfound
    rw [(entry_eq_file_iff.mp h.entry).2.2.1 k hk] at hcontent'
    cases hcontent'

lemma Wrote.replaced (h : d.Wrote d' p content)
    (hunused : d.get? (waiting stamp p).location = none)
    (hentry : d.entry p ≠ .ok (.file content)) (hoff : (waiting stamp p).location ∉ p.passage) :
    Replaced stamp p content d (.ok true, d') where
  kept_iff := iff_of_false (by simp) hentry
  kept hfalse := by cases hfalse
  written _ := h.entry
  ancestors _ := (entry_eq_file_iff.mp h.entry).2.2.1
  files k found hk := h.get?_eq_file_iff (hk rfl)
  directories _ := h.grows.directory
  made k hk := by
    by_cases heq : k = p.location
    · rw [heq, h.get?] at hk
      cases hk
    · rcases h.elsewhere k heq with hsame | ⟨hplace, -⟩
      · exact .inl (hsame ▸ hk)
      · exact .inr hplace
  temporary found hfound := by
    have hne : p.location ≠ (waiting stamp p).location :=
      location_ne_of_not_mem (by simp [location_waiting]) (location_waiting_not_mem hoff)
    rw [(h.get?_eq_file_iff hne.symm).mp hfound] at hunused
    cases hunused
  refused hblocked := absurd hblocked h.not_blocked

lemma replaced_self (hunused : d.get? (waiting stamp p).location = none)
    (hentry : d.entry p = .ok (.file content)) : Replaced stamp p content d (.ok false, d) where
  kept_iff := iff_of_true rfl hentry
  kept _ := rfl
  written htrue := by cases htrue
  ancestors htrue := by cases htrue
  files _ _ _ := Iff.rfl
  directories _ := id
  made _ := .inl
  temporary found hfound := by
    rw [hfound] at hunused
    cases hunused
  refused hblocked := absurd hblocked (wrote_self hentry).not_blocked

/-- A file with the content is kept; else it is replaced, or nothing but directories is left by the
refusal. That is what a session with the stamp does to its disk. It is not refused where nothing
stands in the way. -/
theorem replaced_replaceIfChanged (stamp : Stamp) (p : Path) (content : ByteArray) (d : Disk)
    (hhash : d.HashTells p content) (hunused : d.get? (waiting stamp p).location = none) :
    Replaced stamp p content d ((replaceIfChanged stamp p content).on d) ∧
      ((waiting stamp p).location ∉ p.passage → ∀ s : Session, s.disk = d → s.stamp = stamp →
        (((Session.writeIfChanged p content).on s).1,
          ((Session.writeIfChanged p content).on s).2.disk) =
            (replaceIfChanged stamp p content).on d) ∧
      (d.Writable stamp p → ∃ fresh, ((replaceIfChanged stamp p content).on d).1 = .ok fresh) := by
  have hagree := replaceIfChanged_eq_writeIfChanged hhash hunused
  refine ⟨?_, fun hoff s hd hstamp => ?_, fun h => ?_⟩
  · rw [on_replaceIfChanged]
    rcases right_or_callsFor_or_error (d.entry p) (·.seems content) with
      ⟨e, h, he⟩ | h | ⟨e, h, he⟩
    · rw [on_unlessThere_of_right h he]
      exact replaced_self hunused (h.trans (congrArg _ ((seems_iff hhash h).mp he)))
    · have hentry : d.entry p ≠ .ok (.file content) := fun hsame =>
        not_callsFor_of_right hsame (by simp) ((callsFor_seems_iff hhash).mp h)
      rw [on_unlessThere_of_callsFor h]
      rcases wrote_or_of_replace content hunused with
        ⟨hok, hwrote, hoff⟩ | ⟨e, herror, hfurnishes⟩
      · rw [asWritten, hok]
        exact hwrote.replaced hunused hentry hoff
      · rw [asWritten, herror]
        exact hfurnishes.replaced hunused hentry e
    · rw [on_unlessThere_of_error h he]
      exact (Furnishes.refl d _).replaced hunused (by simp [h]) e
  · rw [Session.disk_of_writeIfChanged, hagree hoff, hd, hstamp]
  · rw [hagree h.off]
    obtain ⟨fresh, d', hwrite⟩ :
        ∃ fresh d', (writeIfChanged stamp p content).on d = (.ok fresh, d') :=
      exists_writeIfChanged h.absolute h.named h.fits h.room h.apart h.clear h.free
    exact ⟨fresh, by rw [hwrite]⟩

/-- A file that differs from the new content in its only byte. -/
def noteDisk : Disk where
  entries := [(["a"], .directory), (["a", "note"], .file "1".toUTF8)]
  sorted := by decide
  rooted := by decide

/-- The file is replaced, and another is put in a directory that was not there. -/
theorem replaced_replaceIfChanged_noteDisk :
    ((replaceIfChanged ⟨7, 0⟩ ⟨"a/note"⟩ "2".toUTF8).on noteDisk).1 = .ok true ∧
      Replaced ⟨7, 0⟩ ⟨"a/note"⟩ "2".toUTF8 noteDisk
        ((replaceIfChanged ⟨7, 0⟩ ⟨"a/note"⟩ "2".toUTF8).on noteDisk) ∧
      ((replaceIfChanged ⟨7, 1⟩ ⟨"/a/b/note"⟩ "2".toUTF8).on noteDisk).1 = .ok true ∧
      Replaced ⟨7, 1⟩ ⟨"/a/b/note"⟩ "2".toUTF8 noteDisk
        ((replaceIfChanged ⟨7, 1⟩ ⟨"/a/b/note"⟩ "2".toUTF8).on noteDisk) ∧
      ((replaceIfChanged ⟨7, 1⟩ ⟨"/a/b/note"⟩ "2".toUTF8).on noteDisk).2.get? ["a", "b"] =
        some .directory := by
  have hdifferent : Blake3.hash "1".toUTF8.data.toList ≠ Blake3.hash "2".toUTF8.data.toList := by
    decide +kernel
  have hhash : noteDisk.HashTells ⟨"a/note"⟩ "2".toUTF8 := by
    intro old hentry hsame
    have hold : noteDisk.entry ⟨"a/note"⟩ = .ok (.file "1".toUTF8) := by decide +kernel
    rw [hold] at hentry
    rw [← Entry.file.inj (Except.ok.inj hentry)] at hsame
    exact absurd hsame hdifferent
  have hmissing : noteDisk.entry ⟨"/a/b/note"⟩ = .error .notFound := by decide +kernel
  obtain ⟨hreplaced, hagree, -⟩ := replaced_replaceIfChanged ⟨7, 0⟩ ⟨"a/note"⟩ "2".toUTF8 noteDisk
    hhash (by decide +kernel)
  obtain ⟨hmade, hagree', -⟩ := replaced_replaceIfChanged ⟨7, 1⟩ ⟨"/a/b/note"⟩ "2".toUTF8 noteDisk
    (fun old hentry => by rw [hmissing] at hentry; cases hentry) (by decide +kernel)
  have hwritten : ((replaceIfChanged ⟨7, 1⟩ ⟨"/a/b/note"⟩ "2".toUTF8).on noteDisk).1 =
      .ok true := by
    rw [← hagree' (by decide +kernel) ⟨noteDisk, ⟨7, 1⟩⟩ rfl rfl]
    decide +kernel
  refine ⟨?_, hreplaced, hwritten, hmade, hmade.ancestors hwritten ["a", "b"] (by decide +kernel)⟩
  rw [← hagree (by decide +kernel) ⟨noteDisk, ⟨7, 0⟩⟩ rfl rfl]
  decide +kernel

end Disk

end AddonBuild
