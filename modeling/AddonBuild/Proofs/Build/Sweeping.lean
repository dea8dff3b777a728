import AddonBuild.Proofs.Build.Inputs
import AddonBuild.Proofs.Build.Sparing
import Mathlib.Data.List.Sort

/-!
# Sweeping a tree

Removing the empty directories of a tree, those in a directory before the directory itself, takes
just the directories that no file lies below. It does not matter in which order directories are
visited that do not lie in one another, a second sweep finds nothing to remove, and the files of the
tree are listed as before. All this is so as long as the paths of the directories in the tree can be
followed, and the path to the tree does not lead through a directory that is removed itself.
-/

namespace AddonBuild

open AddonBuild.Path

namespace Disk

variable {d d' d₁ d₂ : Disk} {root : Path} {l k : Location} {n m : Nat} {order : List Location}
  {names : Location → List String} {files : List Path}

/-! ### Counting -/

lemma snd_removeIfEmpty {state : Disk × Nat} (hl : l ≠ []) (hget : state.1.get? l ≠ none) :
    (removeIfEmpty state l).2 =
      state.2 + if ((removeIfEmpty state l).1.get? l).isNone then 1 else 0 := by
  rw [get?_removeIfEmpty hl, removeIfEmpty]
  by_cases hempty : (state.1.below l).isEmpty = true
  · simp [hempty]
  · simp [hempty, hget]

/-- The directories that go are counted. -/
lemma snd_foldl_removeIfEmpty {directories : List Location}
    (hinner : directories.Pairwise fun a b => ¬ a <+: b) (hne : ∀ l ∈ directories, l ≠ [])
    (state : Disk × Nat) (hget : ∀ k ∈ directories, state.1.get? k ≠ none) :
    (directories.foldl removeIfEmpty state).2 = state.2 +
      (directories.filter fun k =>
        ((directories.foldl removeIfEmpty state).1.get? k).isNone).length := by
  induction directories generalizing state with
  | nil => rfl
  | cons l directories ih =>
    obtain ⟨hfirst, hinner⟩ := List.pairwise_cons.mp hinner
    obtain ⟨hl, hne⟩ := List.forall_mem_cons.mp hne
    obtain ⟨hhere, hget⟩ := List.forall_mem_cons.mp hget
    have hlast : l ∉ directories := fun hmem => hfirst l hmem (List.prefix_refl l)
    have hother : ∀ k ∈ directories, (removeIfEmpty state l).1.get? k ≠ none := by
      intro k hk
      rw [get?_removeIfEmpty hl, if_neg]
      · exact hget k hk
      · rintro ⟨rfl, -⟩
        exact hlast hk
    have hstays := (get?_foldl_removeIfEmpty hinner hne (removeIfEmpty state l) l).1 hlast
    rw [List.foldl_cons, ih hinner hne _ hother, snd_removeIfEmpty hl hhere, List.filter_cons,
      hstays]
    split_ifs
    · rw [List.length_cons]
      omega
    · rfl

/-! ### Sweeps -/

/-- What a sweep of the places strictly below a location comes to. -/
structure Swept (d : Disk) (l : Location) (removed : Nat) (d' : Disk) : Prop where
  /-- What no file is at or lies below has gone. -/
  gone : ∀ {k}, d.Deserted l k → d'.get? k = none
  /-- Every file, every other directory, and all that does not lie below is as it was. -/
  spared : ∀ {k}, ¬ d.Deserted l k → d'.get? k = d.get? k
  /-- The directories that have gone are counted. -/
  counted : ∃ gone : List Location, gone.Nodup ∧ gone.length = removed ∧
    ∀ k, k ∈ gone ↔ d.get? k = some .directory ∧ d'.get? k = none

/-- Sweeping is going through the directories in any order in which their contents come first. -/
lemma ContentsFirst.swept (h : d.ContentsFirst l order) :
    d.Swept l (order.foldl removeIfEmpty (d, 0)).2 (order.foldl removeIfEmpty (d, 0)).1 where
  gone := h.emptied.get?_of_deserted
  spared := h.emptied.get?_of_not_deserted
  counted := by
    have hnodup : order.Nodup := by
      refine h.inner.imp ?_
      rintro a _ hinner rfl
      exact hinner (List.prefix_refl a)
    have hcount := snd_foldl_removeIfEmpty h.inner h.ne_nil (d, 0) fun k hk => by
      simp [(h.mem.mp hk).2]
    refine ⟨_, hnodup.filter _, (hcount.trans (Nat.zero_add _)).symm, fun k => ?_⟩
    rw [List.mem_filter, h.mem, Option.isNone_iff_eq_none]
    refine ⟨fun ⟨⟨_, hdirectory⟩, hnone⟩ => ⟨hdirectory, hnone⟩, fun ⟨hdirectory, hnone⟩ => ?_⟩
    have hdeserted : d.Deserted l k := by
      by_contra hnot
      rw [h.emptied.get?_of_not_deserted hnot, hdirectory] at hnone
      cases hnone
    exact ⟨⟨hdeserted.1, hdirectory⟩, hnone⟩

/-- A location is swept in one way only. -/
lemma Swept.unique (h₁ : d.Swept l n d₁) (h₂ : d.Swept l m d₂) : d₁ = d₂ ∧ n = m := by
  obtain rfl : d₁ = d₂ := eq_of_get? fun k => by
    by_cases hk : d.Deserted l k
    · rw [h₁.gone hk, h₂.gone hk]
    · rw [h₁.spared hk, h₂.spared hk]
  obtain ⟨gone₁, hnodup₁, rfl, hgone₁⟩ := h₁.counted
  obtain ⟨gone₂, hnodup₂, rfl, hgone₂⟩ := h₂.counted
  have hperm := (List.perm_ext_iff_of_nodup hnodup₁ hnodup₂).mpr fun k =>
    (hgone₁ k).trans (hgone₂ k).symm
  exact ⟨rfl, hperm.length_eq⟩

lemma Swept.get?_eq_file {content : ByteArray} (h : d.Swept l n d') :
    d'.get? k = some (.file content) ↔ d.get? k = some (.file content) := by
  by_cases hk : d.Deserted l k
  · rw [h.gone hk]
    exact iff_of_false nofun (hk.2 k content (List.prefix_refl k))
  · rw [h.spared hk]

/-- A swept location is swept clean. -/
lemma Swept.again (h : d.Swept l n d') : d'.Swept l 0 d' where
  gone := by
    intro k hk
    refine h.gone ⟨hk.1, fun m content hm hfile => ?_⟩
    exact hk.2 m content hm (h.get?_eq_file.mpr hfile)
  spared _ := rfl
  counted := ⟨[], .nil, rfl, fun k => by
    simp only [List.not_mem_nil, false_iff, not_and]
    intro hdirectory
    simp [hdirectory]⟩

lemma Swept.filesBelow_eq (h : d.Swept l n d') : d'.filesBelow l = d.filesBelow l := by
  refine (pairwise_filesBelow d' l).eq_of_mem_iff (pairwise_filesBelow d l) fun rel => ?_
  simp only [mem_filesBelow, h.get?_eq_file]

/-! ### Sweeping behind a path -/

/-- A path that goes up before it goes down, as a cleaned path does, leads through nothing that is
swept away. -/
lemma not_deserted_of_straight (hroot : root.Straight) (hk : k ∈ root.trail) :
    ¬ d.Deserted root.location k := fun hdeserted =>
  hdeserted.1.2 ((hroot.prefix_location hk).eq_of_length
    (le_antisymm (hroot.prefix_location hk).length_le hdeserted.1.1.length_le))

/-- What a file lies below in a tree that has been swept, a file lay below before. -/
lemma Swept.deserted (h : d.Swept l n d') (hk : d'.Deserted l k) : d.Deserted l k :=
  ⟨hk.1, fun m content hm hfile => hk.2 m content hm (h.get?_eq_file.mpr hfile)⟩

lemma Swept.isDirectory (h : d.Swept root.location n d') (hroot : d.isDirectory root = true)
    (hpath : ∀ k ∈ root.trail, ¬ d.Deserted root.location k) : d'.isDirectory root = true := by
  obtain ⟨hlocate, hget⟩ := isDirectory_iff.mp hroot
  refine isDirectory_iff.mpr ⟨?_, ?_⟩
  · rw [locate_congr fun k hk => h.spared (hpath k hk), hlocate]
  · rw [h.spared fun hdeserted => hdeserted.1.2 rfl, hget]

lemma Swept.get?_ne_none (h : d.Swept l n d') (hk : d'.get? k ≠ none) : d'.get? k = d.get? k :=
  h.spared fun hdeserted => hk (h.gone hdeserted)

lemma Swept.walkable (h : d.Swept root.location n d') (hwalk : d.Walkable root) :
    d'.Walkable root :=
  fun rel hne hget => hwalk rel hne ((h.get?_ne_none (by simp [hget])).symm.trans hget)

lemma Swept.proper (h : d.Swept l n d') (hd : d.Proper) : d'.Proper := by
  refine fun a ha name hname => ?_
  by_cases hnil : a.1 = []
  · rw [hnil] at hname
    cases hname
  · have hget : d'.get? a.1 = some a.2 := (get?_eq_some_iff hnil).mpr ha
    rw [h.get?_ne_none (by simp [hget])] at hget
    exact hd _ ((get?_eq_some_iff hnil).mp hget) name hname

/-- A sweep that gets to its end has swept the tree, in whichever order the names come. -/
lemma swept_of_on_foldlM_sweep (hd : d.Proper) (hnames : d.Enumerates names)
    (h : ((d.stops names root.location).foldlM (sweep root) 0).on d = (.ok n, d')) :
    d.Swept root.location n d' := by
  obtain ⟨order, horder, hfold⟩ := exists_contentsFirst hd hnames h
  have hswept := horder.swept
  rwa [hfold] at hswept

/-- A tree that can be walked through is swept. -/
lemma exists_removeEmptyDirectories (hd : d.Proper) (hroot : d.isDirectory root = true)
    (hwalk : d.Walkable root) (hpath : ∀ k ∈ root.trail, ¬ d.Deserted root.location k) :
    ∃ n d', (removeEmptyDirectories root).on d = (.ok n, d') ∧ d.Swept root.location n d' := by
  obtain ⟨n, d', hsweep⟩ := exists_on_sweep hd (enumerates_names d) hroot hwalk hpath
  exact ⟨n, d', (on_removeEmptyDirectories hroot).trans hsweep,
    swept_of_on_foldlM_sweep hd (enumerates_names d) hsweep⟩

/-- Where files cannot be listed, empty directories cannot be removed either. The error of the
listing names a directory whose path is too long. -/
lemma fails_of_not_listable (hd : d.Proper) (h : ¬ d.Listable root) :
    (∃ (rel : Location) (cause : DiskError), d.get? (root.location ++ rel) = some .directory ∧
        ¬ (root.join rel.path).Fits ∧
        d.listFiles root = .error (.unopened (root.join rel.path) cause)) ∧
      ∃ e, ((removeEmptyDirectories root).on d).1 = .error e := by
  constructor
  · cases hlist : d.listFiles root with
    | ok files => exact absurd ((exists_listFiles_iff hd).mp ⟨files, hlist⟩) h
    | error e =>
      obtain ⟨rel, cause, -, hget, hlong, -, rfl⟩ := of_listFiles_eq_error hd hlist
      exact ⟨rel, cause, hget, hlong, rfl⟩
  · cases hsweep : ((removeEmptyDirectories root).on d).1 with
    | ok n => exact absurd (listable_of_on_removeEmptyDirectories (Prod.ext hsweep rfl)) h
    | error e => exact ⟨e, rfl⟩

/-- The files of a tree are listed once each, in the order of their names, and the sweep of the tree
neither takes one of them nor leaves anything to sweep. Both go through the whole tree or fail: they
fail just if there is a directory in it whose path is too long, or if the path to the tree itself
gets lost on the way. -/
theorem listFiles_removeEmptyDirectories (hd : d.Proper) (root : Path) :
    (d.isDirectory root = false →
      (removeEmptyDirectories root).on d = (.ok 0, d) ∧ d.listFiles root = .ok []) ∧
    ((∃ files, d.listFiles root = .ok files) ↔ d.Listable root) ∧
    (∀ files, d.listFiles root = .ok files →
      (∀ r, r ∈ files ↔ d.Holds root r) ∧ files.Nodup ∧ files.Pairwise Precedes ∧
      (d.isDirectory root = true → ∀ names, d.Enumerates names →
        (Location.sort ((d.stops names root.location).filterMap Stop.file?)).map Location.path =
          files)) ∧
    (¬ d.Listable root →
      (∃ (rel : Location) (cause : DiskError), d.get? (root.location ++ rel) = some .directory ∧
        ¬ (root.join rel.path).Fits ∧
        d.listFiles root = .error (.unopened (root.join rel.path) cause)) ∧
      ∃ e, ((removeEmptyDirectories root).on d).1 = .error e) ∧
    (∀ k, ((removeEmptyDirectories root).on d).2.get? k = d.get? k ∨
      d.Deserted root.location k ∧ ((removeEmptyDirectories root).on d).2.get? k = none) ∧
    (root.Straight → ∀ k ∈ root.trail, ¬ d.Deserted root.location k) ∧
    (d.isDirectory root = true → d.Walkable root →
      (∀ k ∈ root.trail, ¬ d.Deserted root.location k) →
      ∃ n d', (removeEmptyDirectories root).on d = (.ok n, d') ∧ d.Swept root.location n d' ∧
        d'.isDirectory root = true ∧ (removeEmptyDirectories root).on d' = (.ok 0, d') ∧
        d'.listFiles root = d.listFiles root ∧
        (∀ names, d.Enumerates names →
          ((d.stops names root.location).foldlM (sweep root) 0).on d = (.ok n, d')) ∧
        ∀ order, d.ContentsFirst root.location order →
          order.foldl removeIfEmpty (d, 0) = (d', n)) := by
  refine ⟨fun hnone => ⟨on_removeEmptyDirectories_of_not_isDirectory hnone,
    listFiles_of_not_isDirectory hnone⟩, exists_listFiles_iff hd, fun files hfiles => ?_,
    fails_of_not_listable hd, get?_of_on_removeEmptyDirectories hd root,
    fun hstraight k => not_deserted_of_straight hstraight, fun hroot hwalk hpath => ?_⟩
  · have hordered := pairwise_listFiles hd hfiles
    refine ⟨fun r => mem_listFiles_iff hd hfiles, hordered.imp Precedes.ne, hordered,
      fun hroot names hnames => ?_⟩
    rw [sort_files hnames, ((listFiles_eq_ok hd hroot).mp hfiles).2]
  · obtain ⟨n, d', hsweep, hswept⟩ := exists_removeEmptyDirectories hd hroot hwalk hpath
    have hroot' := hswept.isDirectory hroot hpath
    have hwalk' := hswept.walkable hwalk
    refine ⟨n, d', hsweep, hswept, hroot', ?_, ?_, fun names hnames => ?_, fun order horder => ?_⟩
    · -- what is swept again has been swept before, and that in one way only
      obtain ⟨m, d'', hagain, hswept'⟩ := exists_removeEmptyDirectories (hswept.proper hd) hroot'
        hwalk' fun k hk hdeserted => hpath k hk (hswept.deserted hdeserted)
      obtain ⟨rfl, rfl⟩ := hswept'.unique hswept.again
      exact hagain
    · rw [(listFiles_eq_ok (hswept.proper hd) hroot').mpr ⟨hwalk', rfl⟩,
        (listFiles_eq_ok hd hroot).mpr ⟨hwalk, rfl⟩, hswept.filesBelow_eq]
    · obtain ⟨m, d'', hother⟩ := exists_on_sweep hd hnames hroot hwalk hpath
      obtain ⟨rfl, rfl⟩ := (swept_of_on_foldlM_sweep hd hnames hother).unique hswept
      exact hother
    · obtain ⟨hsame, hcount⟩ := horder.swept.unique hswept
      exact Prod.ext hsame hcount

/-- The path leads through a directory that stays. Two that are empty go, one in the other. -/
theorem listFiles_removeEmptyDirectories_nested :
    ∃ d', (removeEmptyDirectories ⟨"b/old/.."⟩).on Build.nestedDisk = (.ok 2, d') ∧
      Build.nestedDisk.Swept ["b"] 2 d' ∧
      (removeEmptyDirectories ⟨"b/old/.."⟩).on d' = (.ok 0, d') ∧
      d'.listFiles ⟨"b/old/.."⟩ = .ok [⟨"k.js"⟩, ⟨"old/gone.js"⟩] := by
  have hlocation : (⟨"b/old/.."⟩ : Path).location = ["b"] := by decide +kernel
  have htrail : (⟨"b/old/.."⟩ : Path).trail = [["b"], ["b", "old"]] := by decide +kernel
  have hfile : Build.nestedDisk.get? ["b", "old", "gone.js"] = some (.file "2;".toUTF8) := by
    decide +kernel
  have hlist : Build.nestedDisk.listFiles ⟨"b/old/.."⟩ = .ok [⟨"k.js"⟩, ⟨"old/gone.js"⟩] := by
    decide +kernel
  have hproper : Build.nestedDisk.Proper := by decide
  have hroot : Build.nestedDisk.isDirectory ⟨"b/old/.."⟩ = true := by decide +kernel
  obtain ⟨-, hlistable, -, -, -, -, hsweep⟩ :=
    listFiles_removeEmptyDirectories hproper ⟨"b/old/.."⟩
  obtain ⟨n, d', hsweep, hswept, -, hagain, hsame, -⟩ :=
    hsweep hroot (hlistable.mp ⟨_, hlist⟩ hroot) fun k hk => by
      rw [htrail] at hk
      refine fun hdeserted => hdeserted.2 ["b", "old", "gone.js"] _ ?_ hfile
      rcases List.mem_cons.mp hk with rfl | hk
      · decide
      · obtain rfl := List.mem_singleton.mp hk
        decide
  obtain rfl : n = 2 := by
    have hcount : ((removeEmptyDirectories ⟨"b/old/.."⟩).on Build.nestedDisk).1.toOption =
        some 2 := by
      decide +kernel
    rw [hsweep] at hcount
    exact Option.some.inj hcount
  exact ⟨d', hsweep, hlocation ▸ hswept, hagain, hsame.trans hlist⟩

/-- A file, and beside it a directory that is empty. -/
def crossedDisk : Disk where
  entries := [
    (["b"], .directory),
    (["b", "e"], .directory),
    (["b", "k.js"], .file "1;".toUTF8)]
  sorted := by decide
  rooted := by decide

/-- The root of the disk, written with many slashes. -/
def slashedRoot (n : Nat) : Path :=
  ⟨String.ofList (List.replicate n '/')⟩

lemma segments_slashedRoot (n : Nat) : (slashedRoot n).segments = List.replicate (n + 1) "" := by
  have hsplit : splitSlashes (List.replicate n '/') = List.replicate (n + 1) [] := by
    induction n with
    | zero => rfl
    | succ n ih => rw [List.replicate_succ, splitSlashes_slash, ih, ← List.replicate_succ]
  rw [segments, slashedRoot, String.toList_ofList, hsplit, List.map_replicate]

lemma utf8ByteSize_slashedRoot (n : Nat) : (slashedRoot n).text.utf8ByteSize = n := by
  induction n with
  | zero => rfl
  | succ n ih =>
    have hcons : (slashedRoot (n + 1)).text = "/" ++ (slashedRoot n).text := by
      apply String.toList_injective
      simp [slashedRoot, List.replicate_succ]
    have hone : "/".utf8ByteSize = 1 := rfl
    rw [hcons, String.utf8ByteSize_append, ih, hone, Nat.add_comm]

lemma fits_slashedRoot (hpos : 0 < n) (hshort : n ≤ maxPathLength) : (slashedRoot n).Fits where
  nul := by
    rw [slashedRoot, String.toList_ofList]
    exact fun h => nomatch List.eq_of_mem_replicate h
  ne h := by
    have hsize := utf8ByteSize_slashedRoot n
    rw [h] at hsize
    exact absurd hsize.symm hpos.ne'
  short := (utf8ByteSize_slashedRoot n).trans_le hshort
  names segment hsegment := by
    rw [segments_slashedRoot] at hsegment
    rw [List.eq_of_mem_replicate hsegment]
    exact Nat.zero_le _

lemma isDirectory_slashedRoot (d : Disk) (hpos : 0 < n) (hshort : n ≤ maxPathLength) :
    d.isDirectory (slashedRoot n) = true := by
  have hdescend (m : Nat) : d.descend [] (List.replicate m "") = .ok [] := by
    induction m with
    | zero => rfl
    | succ m ih => rw [List.replicate_succ, descend_of_isBlank rfl, ih]
  have hlocate : d.locate (slashedRoot n) = .ok [] := by
    rw [locate_eq_descend (fits_slashedRoot hpos hshort), segments_slashedRoot, hdescend]
  have hlocation := (of_locate_eq_ok hlocate).2.1
  refine isDirectory_iff.mpr ⟨hlocation ▸ hlocate, ?_⟩
  rw [← hlocation, get?_nil]

/-- With the empty directory goes the path through it, and the file is no longer listed. Behind a
path that is as long as can be, no directory can be listed. -/
theorem listFiles_removeEmptyDirectories_crossed :
    (crossedDisk.Proper ∧ crossedDisk.isDirectory ⟨"b/e/.."⟩ = true ∧
      crossedDisk.listFiles ⟨"b/e/.."⟩ = .ok [⟨"k.js"⟩] ∧
      ((removeEmptyDirectories ⟨"b/e/.."⟩).on crossedDisk).1 = .ok 1 ∧
      ((removeEmptyDirectories ⟨"b/e/.."⟩).on crossedDisk).2.listFiles ⟨"b/e/.."⟩ = .ok []) ∧
    crossedDisk.isDirectory (slashedRoot 4095) = true ∧
      (∃ e, crossedDisk.listFiles (slashedRoot 4095) = .error e) ∧
      ∃ e, ((removeEmptyDirectories (slashedRoot 4095)).on crossedDisk).1 = .error e := by
  have hproper : crossedDisk.Proper := by decide
  have hroot := isDirectory_slashedRoot crossedDisk (n := 4095) (by decide) (by decide)
  have hnot : ¬ crossedDisk.Listable (slashedRoot 4095) := by
    intro hlistable
    have hlocation : (slashedRoot 4095).location = [] := by
      rw [location, way, segments_slashedRoot, List.filterMap_replicate]
      rfl
    have hget : crossedDisk.get? ((slashedRoot 4095).location ++ ["b"]) = some .directory := by
      rw [hlocation]
      decide
    have hshort := (hlistable hroot ["b"] (by decide) hget).short
    -- a slash stands at the end already, so that joining adds the name alone
    have hjoin : (slashedRoot 4095).join (Location.path ["b"]) =
        ⟨(slashedRoot 4095).text ++ "b"⟩ := by
      rw [join, if_neg (by decide), if_pos]
      · rfl
      · refine Bool.or_eq_true_iff.mpr (.inr (decide_eq_true ?_))
        rw [slashedRoot, String.toList_ofList, List.getLast?_replicate, if_neg (by decide)]
    rw [hjoin, String.utf8ByteSize_append, utf8ByteSize_slashedRoot] at hshort
    exact absurd hshort (by decide)
  obtain ⟨⟨rel, cause, -, -, hlist⟩, hremove⟩ := fails_of_not_listable hproper hnot
  exact ⟨by decide +kernel, hroot, ⟨_, hlist⟩, hremove⟩

end Disk

end AddonBuild
