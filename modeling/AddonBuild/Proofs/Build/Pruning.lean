import AddonBuild.Build.Cleanup
import AddonBuild.Proofs.Disk.Reaching
import AddonBuild.Proofs.Disk.Removing

/-!
# What pruning leaves

Pruning takes from a tree all that no kept file is or lies below. It tells files by their cleaned
paths, so that two absolute paths to one place are one file to it.
-/

namespace AddonBuild

open AddonBuild.Path WorkM

namespace Build

variable {d d' : Disk} {root : Path} {keep files : List Path} {n : Nat}

/-- The files among those of a tree that are not kept. -/
def stale (files : List Path) (root : Path) (keep : List Path) : List Path :=
  (files.map fun r => (root.join r).clean).filter fun p => !p.isIn (keep.map Path.clean)

/-- What is pruned is listed first; then the stale files go, and then the empty directories. -/
lemma on_prune_eq_ok :
    (prune root keep).on d = (.ok n, d') ↔
      ∃ files, d.listFiles root = .ok files ∧ n = (stale files root keep).length ∧ ∃ d₁ m,
        ((stale files root keep).forM fun p =>
          (Disk.removeFile p).mapError .disk : DiskM Fault _).on d = (.ok (), d₁) ∧
        (Disk.removeEmptyDirectories root).on d₁ = (.ok m, d') := by
  rw [prune, on_consult_bind_eq_ok]
  simp only [mapError_eq_ok]
  refine exists_congr fun files => and_congr_right fun _ => ?_
  rw [on_bind_eq_ok]
  constructor
  · rintro ⟨⟨⟩, d₁, hremove, hrest⟩
    obtain ⟨m, d₂, hsweep, hend⟩ := on_bind_eq_ok.mp hrest
    rw [on_mapError] at hsweep
    obtain ⟨hm, rfl⟩ := Prod.mk.inj hsweep
    obtain ⟨hn, rfl⟩ := Prod.mk.inj hend
    exact ⟨(Except.ok.inj hn).symm, d₁, m, hremove, Prod.ext (mapError_eq_ok.mp hm) rfl⟩
  · rintro ⟨rfl, d₁, m, hremove, hsweep⟩
    refine ⟨(), d₁, hremove, on_bind_eq_ok.mpr ⟨m, d', ?_, rfl⟩⟩
    rw [on_mapError, hsweep]
    rfl

/-! ### Stale files -/

/-- Whether a file of a tree is kept: its cleaned path is that of a path to keep. -/
def IsKept (root : Path) (keep : List Path) (rel : Location) : Prop :=
  (root.join rel.path).clean ∈ keep.map Path.clean

instance (root : Path) (keep : List Path) (rel : Location) : Decidable (IsKept root keep rel) :=
  inferInstanceAs (Decidable (_ ∈ _))

lemma isIn_clean_iff {p : Path} :
    p.clean.isIn (keep.map Path.clean) = true ↔ p.clean ∈ keep.map Path.clean := by
  rw [isIn, List.any_map, List.any_eq_true, List.mem_map]
  exact exists_congr fun q => and_congr_right fun _ => same_clean_iff_eq.trans eq_comm

lemma location_clean_join {rel : Location} (h : ∀ name ∈ rel, (Component.name name).IsStep) :
    (root.join rel.path).clean.location = root.location ++ rel :=
  (location_clean _).trans (root.location_join_path h)

/-- The names of a file below a directory are proper. -/
lemma isStep_of_mem_filesBelow (hd : d.Proper) {l rel : Location} (h : rel ∈ d.filesBelow l) :
    ∀ name ∈ rel, (Component.name name).IsStep := by
  obtain ⟨hne, content, hget⟩ := Disk.mem_filesBelow.mp h
  exact Disk.isStep_of_get? (l := l) hd hne (by simp [hget])

/-- The stale files lie where the files of the tree that are not kept do. -/
lemma map_location_stale (hd : d.Proper) (hroot : d.isDirectory root = true)
    (hfiles : d.listFiles root = .ok files) :
    (stale files root keep).map Path.location =
      ((d.filesBelow root.location).filter fun rel => ¬ IsKept root keep rel).map
        (root.location ++ ·) := by
  have hlisted := ((Disk.listFiles_eq_ok hd hroot).mp hfiles).2
  have hkept (rel : Location) :
      (!(root.join rel.path).clean.isIn (keep.map Path.clean)) =
        decide (¬ IsKept root keep rel) := by
    rw [Bool.eq_iff_iff, Bool.not_eq_true', ← Bool.not_eq_true, isIn_clean_iff,
      decide_eq_true_iff, IsKept]
  rw [stale, hlisted, List.map_map, List.filter_map, List.map_map]
  simp only [Function.comp_def, hkept]
  refine List.map_congr_left fun rel hrel => ?_
  exact location_clean_join (isStep_of_mem_filesBelow hd (List.mem_of_mem_filter hrel))

lemma mem_map_location_stale (hd : d.Proper) (hroot : d.isDirectory root = true)
    (hfiles : d.listFiles root = .ok files) {k : Location} :
    k ∈ (stale files root keep).map Path.location ↔ ∃ rel ≠ [], root.location ++ rel = k ∧
      (∃ content, d.get? k = some (.file content)) ∧ ¬ IsKept root keep rel := by
  rw [map_location_stale hd hroot hfiles, List.mem_map]
  constructor
  · rintro ⟨rel, hrel, rfl⟩
    obtain ⟨hbelow, hnot⟩ := List.mem_filter.mp hrel
    obtain ⟨hne, hfile⟩ := Disk.mem_filesBelow.mp hbelow
    exact ⟨rel, hne, rfl, hfile, of_decide_eq_true hnot⟩
  · rintro ⟨rel, hne, rfl, hfile, hnot⟩
    exact ⟨rel, List.mem_filter.mpr
      ⟨Disk.mem_filesBelow.mpr ⟨hne, hfile⟩, decide_eq_true hnot⟩, rfl⟩

/-! ### What is left of a tree -/

/-- A place of a tree at and below which there is no file to keep. -/
def Bare (d : Disk) (root : Path) (keep : List Path) (k : Location) : Prop :=
  root.location.Above k ∧ ∀ rel content, k <+: root.location ++ rel →
    d.get? (root.location ++ rel) = some (.file content) → ¬ IsKept root keep rel

/-- Nothing lies below a file, so that there is no file to keep where a stale one is. -/
lemma bare_of_stale {rel : Location} {content : ByteArray} (hne : rel ≠ [])
    (hfile : d.get? (root.location ++ rel) = some (.file content))
    (hnot : ¬ IsKept root keep rel) : Bare d root keep (root.location ++ rel) := by
  refine ⟨Location.above_append hne, fun rel' content' hlead hfile' hkept => ?_⟩
  by_cases heq : root.location ++ rel' = root.location ++ rel
  · exact hnot (List.append_cancel_left heq ▸ hkept)
  · rw [Disk.get?_below_file hfile hlead heq] at hfile'
    cases hfile'

open Classical in
/-- Pruning takes from a tree all that no kept file is or lies below. -/
lemma get?_prune_of_isDirectory (hd : d.Proper) (hroot : d.isDirectory root = true)
    (h : (prune root keep).on d = (.ok n, d')) (k : Location) :
    d'.get? k = if Bare d root keep k then none else d.get? k := by
  obtain ⟨files, hfiles, -, d₁, m, hremove, hsweep⟩ := on_prune_eq_ok.mp h
  have hget (k : Location) := Disk.get?_of_forM_removeFile hremove k
  simp only [mem_map_location_stale hd hroot hfiles] at hget
  have hkept {m : Location} (hm : d.get? m = some .directory) : d₁.get? m = d.get? m := by
    rw [hget, if_neg]
    rintro ⟨-, -, -, ⟨content, hfile⟩, -⟩
    rw [hm] at hfile
    cases hfile
  obtain ⟨hlocate, hroot'⟩ := Disk.isDirectory_iff.mp hroot
  have htrail : ∀ m ∈ root.trail, d.get? m = d₁.get? m := by
    intro m hm
    rcases (Disk.of_locate_eq_ok hlocate).2.2 m hm with rfl | hdirectory
    · exact (hkept hroot').symm
    · exact (hkept hdirectory).symm
  have hroot₁ : d₁.isDirectory root = true :=
    Disk.isDirectory_iff.mpr
      ⟨by rw [← Disk.locate_congr htrail, hlocate], by rw [hkept hroot', hroot']⟩
  -- a directory is deserted once the stale files are gone if it held none that is kept
  have hdeserted : d₁.Deserted root.location k ↔ Bare d root keep k := by
    refine and_congr_right fun habove => ⟨fun h rel content hlead hfile hkept => ?_,
      fun h m content hm hfile => ?_⟩
    · refine h _ content hlead ?_
      rw [hget, if_neg, hfile]
      rintro ⟨rel', -, heq, -, hnot⟩
      exact hnot (List.append_cancel_left heq ▸ hkept)
    · rw [hget] at hfile
      split_ifs at hfile with hstale
      obtain ⟨⟨rel, rfl⟩, hne⟩ := habove.trans_prefix hm
      exact hstale ⟨rel, by simpa using hne, rfl, ⟨content, hfile⟩, h rel content hm hfile⟩
  have hd₁ : d₁.Proper := fun a ha => by
    obtain ⟨hne, hentry⟩ := Disk.mem_entries_iff.mp ha
    rw [hget] at hentry
    split_ifs at hentry
    exact hd a (Disk.mem_entries_iff.mpr ⟨hne, hentry⟩)
  rw [Disk.get?_removeEmptyDirectories hd₁ hroot₁ hsweep, hget]
  simp only [hdeserted]
  split_ifs with hbare hstale
  · rfl
  · obtain ⟨rel, hne, rfl, ⟨content, hfile⟩, hnot⟩ := hstale
    exact absurd (bare_of_stale hne hfile hnot) hbare
  · rfl

/-- A root that is no directory is left alone. -/
lemma on_prune_of_not_isDirectory (h : ¬ d.isDirectory root = true) :
    (prune root keep).on d = (.ok 0, d) := by
  have hnone : d.isDirectory root = false := by simpa using h
  exact on_prune_eq_ok.mpr ⟨[], Disk.listFiles_of_not_isDirectory hnone, rfl, d, 0, rfl,
    Disk.on_removeEmptyDirectories_of_not_isDirectory hnone⟩

open Classical in
/-- With absolute paths, what is kept is what the paths to keep lead to. -/
lemma get?_prune (hroot : root.isAbsolute = true) (hkeep : ∀ q ∈ keep, q.isAbsolute = true)
    (hd : d.Proper) (h : (prune root keep).on d = (.ok n, d'))
    (hfiles : ∀ q ∈ keep, ∃ content, d.get? q.location = some (.file content)) (k : Location) :
    d'.get? k =
      if d.isDirectory root = true ∧ root.location.Above k ∧ ∀ q ∈ keep, ¬ k <+: q.location then
        none
      else d.get? k := by
  by_cases hdirectory : d.isDirectory root = true
  · have hiff {rel : Location} (hstep : ∀ name ∈ rel, (Component.name name).IsStep) :
        IsKept root keep rel ↔ ∃ q ∈ keep, q.location = root.location ++ rel := by
      rw [IsKept, List.mem_map]
      refine exists_congr fun q => and_congr_right fun hq => ?_
      rw [clean_eq_clean_iff (hkeep q hq) (isAbsolute_join hroot _),
        root.location_join_path hstep]
    have hbare : Bare d root keep k ↔ root.location.Above k ∧ ∀ q ∈ keep, ¬ k <+: q.location := by
      refine and_congr_right fun habove => ⟨fun h q hq hlead => ?_,
        fun h rel content hlead hfile hkept => ?_⟩
      · obtain ⟨content, hfile⟩ := hfiles q hq
        obtain ⟨⟨rel, hrel⟩, hne⟩ := habove.trans_prefix hlead
        rw [← hrel] at hlead hfile hne
        have hbelow := Disk.mem_filesBelow.mpr ⟨by simpa using hne, content, hfile⟩
        exact h rel content hlead hfile
          ((hiff (isStep_of_mem_filesBelow hd hbelow)).mpr ⟨q, hq, hrel.symm⟩)
      · obtain ⟨⟨_, rfl⟩, hne⟩ := habove
        have hne' : rel ≠ [] := by
          rintro rfl
          rw [List.append_nil] at hlead
          exact hne (hlead.eq_of_length_le (List.prefix_append _ _).length_le)
        have hbelow := Disk.mem_filesBelow.mpr ⟨hne', content, hfile⟩
        obtain ⟨q, hq, hlocation⟩ := (hiff (isStep_of_mem_filesBelow hd hbelow)).mp hkept
        exact h q hq (hlocation ▸ hlead)
    -- what is kept is a file, so a place is bare just if none of them lies there or below
    rw [get?_prune_of_isDirectory hd hdirectory h]
    simp only [hbare, hdirectory, true_and]
  · rw [on_prune_of_not_isDirectory hdirectory] at h
    rw [if_neg fun hgone => hdirectory hgone.1, (Prod.mk.inj h).2]

end Build

end AddonBuild
