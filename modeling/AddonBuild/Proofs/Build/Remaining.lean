import AddonBuild.Proofs.Build.Outputs
import AddonBuild.Proofs.Build.Pruning

/-!
# What a build leaves

The files that remain in the build tree are those that the build answers for, under their cleaned
paths. A path of theirs that goes through other directories of the tree finds its file as long as
these directories are there, and they are as long as a file of the build lies below them.
-/

namespace AddonBuild

open AddonBuild.Path

namespace Build

/-- Each directory of a tree that a path goes through has a kept file below it. -/
def Carried (root : Path) (keep : List Path) (q : Path) : Prop :=
  ∀ k ∈ q.passage, root.location.Above k → ∃ o ∈ keep, k <+: o.location

/-- What remains in a tree, of all that was there before, when it has been pruned down to files that
are to be kept. -/
structure Pruned (root : Path) (keep : List Path) (removed : Nat) (before after : Disk) : Prop where
  /-- The files below the root are the kept ones, compared by their cleaned paths. -/
  files : ∀ p : Path, p.isAbsolute = true → p.clean = p → root.location.Above p.location →
    (after.isFile p = true ↔ p ∈ keep.map Path.clean)
  /-- Every kept file is there. -/
  kept : ∀ q ∈ keep, after.isFile q.clean = true
  /-- A kept file is found by the path that was given for it if its directories were spared. -/
  named : ∀ q ∈ keep, (after.isFile q = true ↔ Carried root keep q)
  /-- The files that were removed are counted: those that were listed and are not kept. -/
  removed : ∃ files, before.listFiles root = .ok files ∧
    removed = (files.filter fun r => (root.join r).clean ∉ keep.map Path.clean).length
  /-- No directory below the root is empty: a kept file lies below each. -/
  directories : ∀ p : Path, p.isAbsolute = true → p.clean = p → root.location.Above p.location →
    after.isDirectory p = true → ∃ q ∈ keep, p.location.Above q.location
  /-- The kept files have not been touched. -/
  untouched : ∀ q ∈ keep, after.get? q.location = before.get? q.location

variable {d d' : Disk} {root : Path} {keep : List Path} {n : Nat}

lemma length_stale (files : List Path) (root : Path) (keep : List Path) :
    (stale files root keep).length =
      (files.filter fun r => (root.join r).clean ∉ keep.map Path.clean).length := by
  rw [stale, List.filter_map, List.length_map]
  refine congrArg List.length (List.filter_congr fun r _ => ?_)
  rw [Function.comp_apply, Bool.eq_iff_iff, Bool.not_eq_true', ← Bool.not_eq_true,
    isIn_clean_iff, decide_eq_true_iff]

/-- A path that goes up before it goes down goes through directories above its own file alone. -/
lemma carried_of_straight {q : Path} (h : q.Straight) (hq : q ∈ keep) : Carried root keep q :=
  fun _ hk _ => ⟨q, hq, h.prefix_location (passage_subset_trail q hk)⟩

section Prune

variable (hroot : root.isAbsolute = true) (hclean : root.clean = root)
  (hkeep : ∀ q ∈ keep, q.isAbsolute = true ∧ d.isFile q = true) (hd : d.Proper)
  (h : (prune root keep).on d = (.ok n, d'))
include hroot hkeep hd h

open Classical in
lemma get?_of_prune (k : Location) :
    d'.get? k =
      if d.isDirectory root = true ∧ root.location.Above k ∧ ∀ q ∈ keep, ¬ k <+: q.location then
        none
      else d.get? k := by
  refine get?_prune hroot (fun q hq => (hkeep q hq).1) hd h (fun q hq => ?_) k
  obtain ⟨content, hentry⟩ := Disk.isFile_iff.mp (hkeep q hq).2
  exact ⟨content, (Disk.entry_eq_file_iff.mp hentry).2.2.2⟩

lemma get?_location_of_prune {q : Path} (hq : q ∈ keep) :
    d'.get? q.location = d.get? q.location := by
  rw [get?_of_prune hroot hkeep hd h, if_neg]
  exact fun hgone => hgone.2.2 q hq (List.prefix_refl _)

include hclean in
/-- Whatever is reached below the root is reached through the root, so that it was not spared
because there was nothing to prune. -/
lemma exists_kept_of_reached {q : Path} {first : List Component} (hq : q.isAbsolute = true)
    (hfits : q.Fits) (hfirst : first <+: q.way)
    (habove : root.location.Above (Location.along [] first))
    (hentry : d'.get? (Location.along [] first) ≠ none) :
    ∃ o ∈ keep, Location.along [] first <+: o.location := by
  rw [get?_of_prune hroot hkeep hd h] at hentry
  by_contra hnone
  push Not at hnone
  split_ifs at hentry with hgone
  · exact hentry rfl
  · obtain ⟨e, he⟩ := Option.ne_none_iff_exists'.mp hentry
    exact hgone ⟨Disk.isDirectory_of_lead hq hfits hroot hclean hfirst habove.1
      (Disk.get?_above he habove.1 (Ne.symm habove.2)), habove, hnone⟩

/-- A path is walked as before if the directories that it goes through have been spared. -/
lemma entry_of_carried {q : Path} (hq : q ∈ keep) (hcarried : Carried root keep q) :
    d'.entry q = d.entry q := by
  obtain ⟨content, hentry⟩ := Disk.isFile_iff.mp (hkeep q hq).2
  obtain ⟨hfits, hname, hpassage, hfile⟩ := Disk.entry_eq_file_iff.mp hentry
  refine (Disk.entry_eq_file_iff.mpr ⟨hfits, hname, fun k hk => ?_, ?_⟩).trans hentry.symm
  · rw [get?_of_prune hroot hkeep hd h, if_neg, hpassage k hk]
    rintro ⟨-, habove, hnone⟩
    obtain ⟨o, ho, hlead⟩ := hcarried k hk habove
    exact hnone o ho hlead
  · rw [get?_location_of_prune hroot hkeep hd h hq, hfile]

/-- A kept file stands at its location. -/
lemma fits_and_get?_of_kept {q : Path} (hq : q ∈ keep) :
    q.Fits ∧ ∃ content, d'.get? q.location = some (.file content) := by
  obtain ⟨content, hentry⟩ := Disk.isFile_iff.mp (hkeep q hq).2
  obtain ⟨hfits, -, -, hfile⟩ := Disk.entry_eq_file_iff.mp hentry
  exact ⟨hfits, content, by rw [get?_location_of_prune hroot hkeep hd h hq, hfile]⟩

lemma isFile_clean_of_kept {q : Path} (hq : q ∈ keep) : d'.isFile q.clean = true := by
  have habsolute := (hkeep q hq).1
  obtain ⟨hfits, hfile⟩ := fits_and_get?_of_kept hroot hkeep hd h hq
  refine (Disk.isFile_iff_of_clean (clean_isAbsolute habsolute) (clean_clean habsolute)).mpr
    ⟨hfits.clean habsolute, ?_⟩
  rwa [location_clean]

include hclean in
/-- A file below the root is one that was kept, since no file lies below another. -/
lemma mem_clean_of_isFile {p : Path} (hp : p.isAbsolute = true) (hpclean : p.clean = p)
    (habove : root.location.Above p.location) (hfile : d'.isFile p = true) :
    p ∈ keep.map Path.clean := by
  obtain ⟨hfits, content, hfile⟩ := (Disk.isFile_iff_of_clean hp hpclean).mp hfile
  obtain ⟨o, ho, hlead⟩ := exists_kept_of_reached hroot hclean hkeep hd h hp hfits
    (List.prefix_refl _) habove (by rw [← location, hfile]; simp)
  obtain ⟨-, content', hfile'⟩ := fits_and_get?_of_kept hroot hkeep hd h ho
  refine List.mem_map.mpr ⟨o, ho, ?_⟩
  rw [← hpclean]
  refine (clean_eq_clean_iff (hkeep o ho).1 hp).mpr ?_
  by_contra hne
  rw [Disk.get?_below_file hfile hlead hne] at hfile'
  cases hfile'

include hclean in
lemma carried_of_isFile {q : Path} (hq : q ∈ keep) (hfile : d'.isFile q = true) :
    Carried root keep q := by
  intro k hk habove
  obtain ⟨content, hentry⟩ := Disk.isFile_iff.mp hfile
  obtain ⟨hfits, -, hpassage, -⟩ := Disk.entry_eq_file_iff.mp hentry
  have hdirectory := hpassage k hk
  obtain ⟨first, hfirst, rfl⟩ := Location.exists_of_mem_trail hk
  exact exists_kept_of_reached hroot hclean hkeep hd h (hkeep q hq).1 hfits
    (hfirst.trans (List.dropLast_prefix _)) habove (by rw [hdirectory]; simp)

include hclean in
lemma exists_kept_of_isDirectory {p : Path} (hp : p.isAbsolute = true)
    (habove : root.location.Above p.location) (hdirectory : d'.isDirectory p = true) :
    ∃ q ∈ keep, p.location.Above q.location := by
  obtain ⟨hlocate, hget⟩ := Disk.isDirectory_iff.mp hdirectory
  obtain ⟨o, ho, hlead⟩ := exists_kept_of_reached hroot hclean hkeep hd h hp
    (Disk.of_locate_eq_ok hlocate).1 (List.prefix_refl _) habove
    (by rw [← location, hget]; simp)
  refine ⟨o, ho, hlead, fun heq => ?_⟩
  obtain ⟨-, content, hfile⟩ := fits_and_get?_of_kept hroot hkeep hd h ho
  rw [heq, hget] at hfile
  cases hfile

include hclean in
/-- What is pruned is left with what is kept. -/
lemma pruned_of_prune : Pruned root keep n d d' where
  kept _ hq := isFile_clean_of_kept hroot hkeep hd h hq
  untouched _ hq := get?_location_of_prune hroot hkeep hd h hq
  removed := by
    obtain ⟨files, hfiles, hn, -⟩ := on_prune_eq_ok.mp h
    exact ⟨files, hfiles, hn.trans (length_stale files root keep)⟩
  files p hp hpclean habove := by
    refine ⟨mem_clean_of_isFile hroot hclean hkeep hd h hp hpclean habove, fun hmem => ?_⟩
    obtain ⟨q, hq, rfl⟩ := List.mem_map.mp hmem
    exact isFile_clean_of_kept hroot hkeep hd h hq
  named q hq := by
    refine ⟨carried_of_isFile hroot hclean hkeep hd h hq, fun hcarried => ?_⟩
    rw [Disk.isFile, entry_of_carried hroot hkeep hd h hq hcarried, ← Disk.isFile]
    exact (hkeep q hq).2
  directories _ hp _ habove hdirectory :=
    exists_kept_of_isDirectory hroot hclean hkeep hd h hp habove hdirectory

end Prune

end Build

end AddonBuild
