import AddonBuild.Proofs.Build.Pruning

/-!
# What pruning spares

Of the files under a root, pruning spares those whose cleaned path is that of a path to keep, and of
the directories those that such a file lies below. The root and all that lies elsewhere is as it
was, and there is nothing left to prune. This holds of every root, be it absolute or relative, and
however it is written.
-/

namespace AddonBuild

open AddonBuild.Path WorkM

namespace Build

/-- What pruning has spared of a tree that was there. -/
structure Spares (root : Path) (keep : List Path) (removed : Nat) (before after : Disk) : Prop where
  /-- The files below the root are those that are kept, with the content that they had. -/
  files : ∀ rel content, after.get? (root.location ++ rel) = some (.file content) ↔
    before.get? (root.location ++ rel) = some (.file content) ∧ IsKept root keep rel
  /-- The files that have gone are counted. -/
  removed : ∃ gone : List Location, gone.Nodup ∧ gone.length = removed ∧
    ∀ k, k ∈ gone ↔ (∃ content, before.get? k = some (.file content)) ∧ after.get? k = none
  /-- No directory below the root is empty: a file lies below each. -/
  directories : ∀ k, root.location.Above k → after.get? k = some .directory →
    ∃ m content, k.Above m ∧ after.get? m = some (.file content)
  /-- The root is still a directory. -/
  stays : after.get? root.location = some .directory
  /-- What does not lie below the root is as it was. -/
  elsewhere : ∀ k, ¬ root.location.Above k → after.get? k = before.get? k

variable {d d' : Disk} {root : Path} {keep : List Path} {n : Nat}

section Prune

variable (hd : d.Proper) (hroot : d.isDirectory root = true)
  (h : (prune root keep).on d = (.ok n, d'))
include hd hroot h

/-- What is there after pruning was there before. -/
lemma get?_eq_of_prune {k : Location} (hk : d'.get? k ≠ none) : d'.get? k = d.get? k := by
  have hget := get?_prune_of_isDirectory hd hroot h k
  split_ifs at hget with hbare
  · exact absurd hget hk
  · exact hget

/-- Just those files are left below the root that are kept. -/
lemma get?_file_of_prune {rel : Location} {content : ByteArray} :
    d'.get? (root.location ++ rel) = some (.file content) ↔
      d.get? (root.location ++ rel) = some (.file content) ∧ IsKept root keep rel := by
  rw [get?_prune_of_isDirectory hd hroot h]
  constructor
  · intro hfile
    split_ifs at hfile with hbare
    refine ⟨hfile, ?_⟩
    by_contra hnot
    refine hbare (bare_of_stale ?_ hfile hnot)
    rintro rfl
    rw [List.append_nil, (Disk.isDirectory_iff.mp hroot).2] at hfile
    cases hfile
  · rintro ⟨hfile, hkept⟩
    rw [if_neg, hfile]
    exact fun hbare => hbare.2 rel content (List.prefix_refl _) hfile hkept

/-- What is not below the root stays, and so does the root. -/
lemma get?_elsewhere_of_prune {k : Location} (hk : ¬ root.location.Above k) :
    d'.get? k = d.get? k := by
  rw [get?_prune_of_isDirectory hd hroot h, if_neg]
  exact fun hbare => hk hbare.1

/-- A file lies below each directory that is left below the root. -/
lemma exists_file_of_prune {k : Location} (hk : root.location.Above k)
    (hdirectory : d'.get? k = some .directory) :
    ∃ m content, k.Above m ∧ d'.get? m = some (.file content) := by
  have hbare : ¬ Bare d root keep k := by
    intro hbare
    rw [get?_prune_of_isDirectory hd hroot h, if_pos hbare] at hdirectory
    cases hdirectory
  have hspared : ∃ rel content, k <+: root.location ++ rel ∧
      d.get? (root.location ++ rel) = some (.file content) ∧ IsKept root keep rel := by
    by_contra hnone
    push Not at hnone
    exact hbare ⟨hk, fun rel content => hnone rel content⟩
  obtain ⟨rel, content, hlead, hfile⟩ := hspared
  have hfile := (get?_file_of_prune hd hroot h).mpr hfile
  refine ⟨_, content, ⟨hlead, ?_⟩, hfile⟩
  intro heq
  rw [heq, hdirectory] at hfile
  cases hfile

/-- The stale files have gone, and no others. -/
lemma mem_stale_iff_of_prune {files : List Path} (hfiles : d.listFiles root = .ok files)
    {k : Location} :
    k ∈ (stale files root keep).map Path.location ↔
      (∃ content, d.get? k = some (.file content)) ∧ d'.get? k = none := by
  rw [mem_map_location_stale hd hroot hfiles]
  constructor
  · rintro ⟨rel, hne, rfl, ⟨content, hfile⟩, hnot⟩
    refine ⟨⟨content, hfile⟩, ?_⟩
    rw [get?_prune_of_isDirectory hd hroot h, if_pos (bare_of_stale hne hfile hnot)]
  · rintro ⟨⟨content, hfile⟩, hgone⟩
    have habove : root.location.Above k := by
      by_contra hk
      rw [get?_elsewhere_of_prune hd hroot h hk, hfile] at hgone
      cases hgone
    obtain ⟨⟨rel, rfl⟩, hne⟩ := habove
    refine ⟨rel, by simpa using hne, rfl, ⟨content, hfile⟩, fun hkept => ?_⟩
    rw [(get?_file_of_prune hd hroot h).mpr ⟨hfile, hkept⟩] at hgone
    cases hgone

lemma spares_of_prune : Spares root keep n d d' where
  files rel content := get?_file_of_prune hd hroot h
  removed := by
    obtain ⟨files, hfiles, hn, -⟩ := on_prune_eq_ok.mp h
    refine ⟨(stale files root keep).map Path.location, ?_, ?_, fun k =>
      mem_stale_iff_of_prune hd hroot h hfiles⟩
    · rw [map_location_stale hd hroot hfiles]
      exact ((Disk.nodup_filesBelow d _).filter _).map fun a b => List.append_cancel_left
    · rw [List.length_map, hn]
  directories k := exists_file_of_prune hd hroot h
  stays := by
    rw [get?_elsewhere_of_prune hd hroot h (fun habove => habove.2 rfl),
      (Disk.isDirectory_iff.mp hroot).2]
  elsewhere k := get?_elsewhere_of_prune hd hroot h

lemma proper_of_prune : d'.Proper := by
  intro a ha
  obtain ⟨hne, hget⟩ := Disk.mem_entries_iff.mp ha
  refine hd a (Disk.mem_entries_iff.mpr ⟨hne, ?_⟩)
  rw [← get?_eq_of_prune hd hroot h (by simp [hget]), hget]

/-- The paths of the directories that are left can be followed as before. -/
lemma walkable_of_prune : d'.Walkable root := by
  obtain ⟨files, hfiles, -⟩ := on_prune_eq_ok.mp h
  intro rel hne hget
  refine ((Disk.listFiles_eq_ok hd hroot).mp hfiles).1 rel hne ?_
  rw [← get?_eq_of_prune hd hroot h (by simp [hget]), hget]

/-- No directory that is left is deserted. -/
lemma not_deserted_of_prune {k : Location} (hget : d'.get? k ≠ none) :
    ¬ d'.Deserted root.location k := by
  intro hdeserted
  obtain ⟨e, he⟩ := Option.ne_none_iff_exists'.mp hget
  cases e with
  | file content => exact hdeserted.2 k content (List.prefix_refl k) he
  | directory =>
    obtain ⟨m, content, hm, hfile⟩ := exists_file_of_prune hd hroot h hdeserted.1 he
    exact hdeserted.2 m content hm.1 hfile

/-- A tree that has been pruned has nothing left to prune. -/
lemma on_prune_again : (prune root keep).on d' = (.ok 0, d') := by
  by_cases hroot' : d'.isDirectory root = true
  · have hd' := proper_of_prune hd hroot h
    have hwalk := walkable_of_prune hd hroot h
    have hfiles := (Disk.listFiles_eq_ok hd' hroot').mpr ⟨hwalk, rfl⟩
    have hstale : stale ((d'.filesBelow root.location).map Location.path) root keep = [] := by
      rw [← List.map_eq_nil_iff (f := Path.location), List.eq_nil_iff_forall_not_mem]
      intro k hk
      obtain ⟨rel, -, rfl, ⟨content, hfile⟩, hnot⟩ :=
        (mem_map_location_stale hd' hroot' hfiles).mp hk
      exact hnot ((get?_file_of_prune hd hroot h).mp hfile).2
    have hpath : ∀ k ∈ root.trail, ¬ d'.Deserted root.location k := fun k hk =>
      not_deserted_of_prune hd hroot h
        (by simp [(Disk.isDirectory_iff_trail.mp hroot').2.2 k hk])
    obtain ⟨m, d₂, hsweep⟩ := Disk.exists_on_sweep hd' (Disk.enumerates_names d') hroot' hwalk hpath
    rw [← Disk.on_removeEmptyDirectories hroot'] at hsweep
    obtain rfl : d₂ = d' := by
      refine Disk.eq_of_get? fun k => ?_
      rw [Disk.get?_removeEmptyDirectories hd' hroot' hsweep]
      split_ifs with hdeserted
      · by_contra hget
        exact not_deserted_of_prune hd hroot h (Ne.symm hget) hdeserted
      · rfl
    refine on_prune_eq_ok.mpr ⟨_, hfiles, ?_, d₂, m, ?_, hsweep⟩
    · rw [hstale]
      rfl
    · rw [hstale]
      rfl
  · exact on_prune_of_not_isDirectory hroot'

end Prune

/-- Pruning leaves of a tree the files to keep and the directories that they lie in, and nothing to
prune. Without a directory at the root there is nothing to do. -/
theorem spares_prune (hd : d.Proper) (root : Path) (keep : List Path) :
    (d.isDirectory root = false → (prune root keep).on d = (.ok 0, d)) ∧
    ∀ n d', (prune root keep).on d = (.ok n, d') →
      (d.isDirectory root = true → Spares root keep n d d') ∧
      (prune root keep).on d' = (.ok 0, d') := by
  refine ⟨fun hroot => on_prune_of_not_isDirectory (by simp [hroot]), fun n d' h => ?_⟩
  by_cases hroot : d.isDirectory root = true
  · exact ⟨fun _ => spares_of_prune hd hroot h, on_prune_again hd hroot h⟩
  · have hnone : (prune root keep).on d = (.ok 0, d) := on_prune_of_not_isDirectory hroot
    obtain rfl := (Prod.mk.inj (hnone.symm.trans h)).2
    exact ⟨fun hdirectory => absurd hdirectory hroot, hnone⟩

/-! ### Nested directories -/

/-- A file to keep, one to remove two directories down, and empty directories, one in another. -/
def nestedDisk : Disk where
  entries := [
    (["b"], .directory),
    (["b", "e"], .directory),
    (["b", "e", "f"], .directory),
    (["b", "k.js"], .file "1;".toUTF8),
    (["b", "old"], .directory),
    (["b", "old", "gone.js"], .file "2;".toUTF8),
    (["k.js"], .file "3;".toUTF8)]
  sorted := by decide
  rooted := by decide

/-- The same with the file to keep and what is elsewhere alone. -/
def sparedDisk : Disk where
  entries := [
    (["b"], .directory),
    (["b", "k.js"], .file "1;".toUTF8),
    (["k.js"], .file "3;".toUTF8)]
  sorted := by decide
  rooted := by decide

/-- A relative root and another spelling of the file to keep. -/
theorem spares_prune_nestedDisk :
    (prune ⟨"b/../b"⟩ [⟨"./b/e/../k.js"⟩]).on nestedDisk = (.ok 1, sparedDisk) ∧
      Spares ⟨"b/../b"⟩ [⟨"./b/e/../k.js"⟩] 1 nestedDisk sparedDisk ∧
      (prune ⟨"b/../b"⟩ [⟨"./b/e/../k.js"⟩]).on sparedDisk = (.ok 0, sparedDisk) := by
  have hprune : (prune ⟨"b/../b"⟩ [⟨"./b/e/../k.js"⟩]).on nestedDisk = (.ok 1, sparedDisk) := by
    have hresult : ((prune ⟨"b/../b"⟩ [⟨"./b/e/../k.js"⟩]).on nestedDisk).1.toOption = some 1 ∧
        ((prune ⟨"b/../b"⟩ [⟨"./b/e/../k.js"⟩]).on nestedDisk).2.entries =
          sparedDisk.entries := by
      decide +kernel
    generalize (prune ⟨"b/../b"⟩ [⟨"./b/e/../k.js"⟩]).on nestedDisk = outcome at hresult
    obtain ⟨_ | n, d'⟩ := outcome
    · cases hresult.1
    · obtain rfl := Option.some.inj hresult.1
      exact Prod.ext rfl (Disk.eq_of_entries hresult.2)
  obtain ⟨-, hspares⟩ := spares_prune (d := nestedDisk) (by decide) ⟨"b/../b"⟩ [⟨"./b/e/../k.js"⟩]
  obtain ⟨hspared, hagain⟩ := hspares 1 sparedDisk hprune
  exact ⟨hprune, hspared (by decide +kernel), hagain⟩

end Build

end AddonBuild
