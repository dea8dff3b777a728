import AddonBuild.Disk.Listing
import AddonBuild.Proofs.Disk.Writing
import AddonBuild.Proofs.Path.Parents
import Mathlib.Data.List.Sort

/-!
# Disks that agree

What a path leads to depends on the locations that it leads through. Disks that agree outside of a
tree therefore find the same under a path that stays outside of it.
-/

namespace AddonBuild

open AddonBuild.Path

/-- A path that stays out of the tree under another, which does not lie in the tree under it
either. -/
structure Path.Outside (p root : Path) : Prop where
  trail : ∀ k ∈ p.trail, ¬ root.location <+: k
  not_above : ¬ p.location <+: root.location

/-- What lies under a path that stays outside of a tree is not in the tree. -/
lemma Path.Outside.below {p root : Path} (h : p.Outside root) {k : Location}
    (hk : p.location <+: k) : ¬ root.location <+: k := by
  intro hroot
  rcases List.prefix_or_prefix_of_prefix hk hroot with hlead | hlead
  · exact h.not_above hlead
  · by_cases hnil : p.location = []
    · exact h.not_above (hnil ▸ List.nil_prefix)
    · exact h.trail _ (Location.mem_trail_of_prefix hnil (List.prefix_refl _)) hlead

namespace Disk

variable {d d' : Disk} {p : Path}

/-- Two disks agree outside of the tree under a path. -/
def AgreesOutside (root : Path) (d d' : Disk) : Prop :=
  ∀ k, ¬ root.location <+: k → d.get? k = d'.get? k

lemma AgreesOutside.symm {root : Path} (h : AgreesOutside root d d') : AgreesOutside root d' d :=
  fun k hk => (h k hk).symm

/-! ### What a path leads to -/

lemma descend_congr {segments : List String} {here : Location}
    (h : ∀ k ∈ Location.trail here (segments.filterMap Component.ofSegment?),
      d.get? k = d'.get? k) : d.descend here segments = d'.descend here segments := by
  induction segments generalizing here with
  | nil => rfl
  | cons segment rest ih =>
    obtain ⟨hblank, hnone⟩ | ⟨hblank, rfl, hsome⟩ | ⟨hblank, hup, hsome⟩ := segment_cases segment
    · rw [List.filterMap_cons_none hnone] at h
      rw [descend_of_isBlank hblank, descend_of_isBlank hblank, ih h]
    · rw [List.filterMap_cons_some hsome] at h
      rw [descend_up, descend_up]
      exact ih h
    · by_cases hlong : maxNameLength < segment.utf8ByteSize
      · rw [descend_of_long hblank hup hlong, descend_of_long hblank hup hlong]
      · rw [List.filterMap_cons_some hsome, Location.trail] at h
        obtain ⟨hnext, hrest⟩ := List.forall_mem_cons.mp h
        rw [descend_name hblank hup (Nat.not_lt.mp hlong),
          descend_name hblank hup (Nat.not_lt.mp hlong), hnext, ih hrest]

lemma locate_congr (h : ∀ k ∈ p.trail, d.get? k = d'.get? k) : d.locate p = d'.locate p := by
  rw [locate, locate, descend_congr h]

lemma entry_congr (h : ∀ k ∈ p.trail, d.get? k = d'.get? k) : d.entry p = d'.entry p := by
  rw [entry, entry, ← locate_congr h]
  cases hl : d.locate p with
  | error e => rfl
  | ok l =>
    have hget : d.get? l = d'.get? l := by
      rw [(of_locate_eq_ok hl).2.1]
      by_cases hnil : p.location = []
      · rw [hnil, get?_nil, get?_nil]
      · exact h _ (Location.mem_trail_of_prefix hnil (List.prefix_refl _))
    simp only [bind, Except.bind, hget]

/-! ### What lies below -/

lemma mem_below {l : Location} {a : Location × Entry} :
    a ∈ d.below l ↔ a.1 ≠ [] ∧ d.get? (l ++ a.1) = some a.2 := by
  obtain ⟨k, e⟩ := a
  simp only [below, List.mem_filterMap, Option.ite_none_right_eq_some, Option.some.injEq,
    Prod.mk.injEq]
  constructor
  · rintro ⟨⟨k', e'⟩, hmem, ⟨hlead, hne⟩, rfl, rfl⟩
    obtain ⟨rest, rfl⟩ := List.isPrefixOf_iff_prefix.mp hlead
    rw [List.drop_left]
    have hrest : rest ≠ [] := by simpa using hne
    exact ⟨hrest, (get?_eq_some_iff (by simp [hrest])).mpr hmem⟩
  · rintro ⟨hne, hget⟩
    refine ⟨(l ++ k, e), (get?_eq_some_iff (by simp [hne])).mp hget, ⟨?_, by simpa using hne⟩,
      List.drop_left, rfl⟩
    exact List.isPrefixOf_iff_prefix.mpr (List.prefix_append l k)

lemma mem_entries_iff {a : Location × Entry} :
    a ∈ d.entries ↔ a.1 ≠ [] ∧ d.get? a.1 = some a.2 := by
  constructor
  · intro h
    have hne := (d.rooted a h).1
    exact ⟨hne, (get?_eq_some_iff hne).mpr h⟩
  · rintro ⟨hne, hget⟩
    exact (get?_eq_some_iff hne).mp hget

/-- What lies below a location is listed in the order of the locations. -/
lemma below_congr {l : Location} (h : ∀ k, l <+: k → d.get? k = d'.get? k) :
    d.below l = d'.below l := by
  have hfilter (d : Disk) : d.below l = (d.entries.filter fun a => l.isPrefixOf a.1).filterMap
      fun a => if l.isPrefixOf a.1 ∧ a.1 ≠ l then some (a.1.drop l.length, a.2) else none := by
    rw [below, List.filterMap_filter]
    refine List.filterMap_congr fun a _ => ?_
    split_ifs <;> simp_all
  have hentries : (d.entries.filter fun a => l.isPrefixOf a.1) =
      d'.entries.filter fun a => l.isPrefixOf a.1 := by
    have : Std.Irrefl fun a b : Location × Entry => a.1 < b.1 := ⟨fun a => List.lt_irrefl a.1⟩
    have : Std.Antisymm fun a b : Location × Entry => a.1 < b.1 :=
      ⟨fun a b hab hba => absurd (List.lt_trans hab hba) (List.lt_irrefl a.1)⟩
    refine (d.sorted.filter _).eq_of_mem_iff (d'.sorted.filter _) fun a => ?_
    rw [List.mem_filter, List.mem_filter, mem_entries_iff, mem_entries_iff]
    refine and_congr_left fun hlead => and_congr_right fun _ => ?_
    rw [h a.1 (List.isPrefixOf_iff_prefix.mp hlead)]
  rw [hfilter, hfilter, hentries]

lemma eq_of_entries (h : d.entries = d'.entries) : d = d' := by
  cases d
  cases d'
  simpa using h

lemma below_nil (d : Disk) : d.below [] = d.entries := by
  have hall : d.below [] = d.entries.filterMap some :=
    List.filterMap_congr fun a ha => if_pos ⟨rfl, (d.rooted a ha).1⟩
  rw [hall, List.filterMap_some]

/-- Disks with the same entry at every location are the same. -/
lemma eq_of_get? (h : ∀ k, d.get? k = d'.get? k) : d = d' := by
  have hbelow := below_congr (l := []) fun k _ => h k
  rw [below_nil, below_nil] at hbelow
  exact eq_of_entries hbelow

/-! ### What is listed -/

/-- The names on a disk are neither empty nor dots, and hold no slash. -/
def Proper (d : Disk) : Prop :=
  ∀ a ∈ d.entries, ∀ name ∈ a.1, (Component.name name).IsStep

instance (d : Disk) : Decidable d.Proper :=
  List.decidableBAll _ d.entries

/-- The path of a directory is not too long if that of a file in it is not. -/
lemma fits_of_child {name : String} (hne : p.text ≠ "") (hslash : '/' ∉ name.toList)
    (h : (p.child name).Fits) : p.Fits := by
  obtain ⟨t, ht, hjoin⟩ := Path.exists_text_join p hne (Path.isAbsolute_of_not_mem hslash)
  have hchild : p.child name = ⟨t ++ "/" ++ name⟩ := hjoin
  obtain ⟨hnul, -, hshort, hnames⟩ := h
  rw [hchild, Path.segments_slash] at hnames
  rw [hchild] at hnul hshort
  simp only [String.toList_append, List.mem_append, not_or, String.utf8ByteSize_append]
    at hnul hshort
  have hfirst : ∀ segment ∈ Path.segments ⟨t⟩, segment.utf8ByteSize ≤ maxNameLength :=
    fun segment hs => hnames segment (List.mem_append_left _ hs)
  obtain ⟨text⟩ := p
  rcases ht with rfl | rfl
  · exact ⟨hnul.1.1, hne, by omega, hfirst⟩
  · have hslashed := Path.segments_slash t ""
    rw [String.append_empty] at hslashed
    refine ⟨?_, hne, ?_, fun segment hs => ?_⟩
    · rw [String.toList_append, List.mem_append, not_or]
      exact hnul.1
    · rw [String.utf8ByteSize_append]
      omega
    · rw [hslashed] at hs
      rcases List.mem_append.mp hs with hs | hs
      · exact hfirst segment hs
      · rw [List.mem_singleton.mp hs]
        exact Nat.zero_le _

/-- The directory of a file that is found is found. -/
lemma locate_of_child {name : String} {l : Location} (hp : p.isAbsolute = true)
    (hslash : '/' ∉ name.toList) (hblank : Path.isBlank name = false)
    (h : d.locate (p.child name) = .ok l) :
    d.locate p = .ok p.location ∧ d.get? p.location = some .directory := by
  obtain ⟨init, hsegments, hinit⟩ := p.exists_segments_child hslash
  have hway : (p.child name).way.dropLast = p.way :=
    (Path.dropLast_way hsegments hblank).trans hinit
  have hpassage := passage_of_locate h hsegments hblank
  have hfits : p.Fits :=
    fits_of_child (Path.text_ne_of_isAbsolute hp) hslash (of_locate_eq_ok h).1
  have htrail : ∀ k ∈ p.trail, d.get? k = some .directory := by
    rwa [Path.passage, hway] at hpassage
  refine ⟨?_, ?_⟩
  · rw [locate_eq_descend hfits, ← List.append_nil p.segments,
      descend_append [] hfits.names htrail]
    rfl
  · rw [Path.location, ← hway]
    exact get?_along_dropLast hpassage

end Disk

/-! ### Listed files as sources -/

lemma Location.segments_path {l : Location} (hne : l ≠ [])
    (h : ∀ name ∈ l, (Path.Component.name name).IsStep) :
    l.path.segments = l ∧ l.path.isAbsolute = false := by
  have hsegments : l.path.segments = l := by
    rw [Location.path, segments, String.toList_intercalate]
    have hsplit : splitSlashes (['/'].intercalate (l.map String.toList)) = l.map String.toList :=
      splitSlashes_intercalate (by simpa using hne)
        (by simpa using fun name hname => (h name hname).1)
    rw [show "/".toList = ['/'] from rfl, hsplit, List.map_map]
    simp
  refine ⟨hsegments, ?_⟩
  rw [← Bool.not_eq_true]
  intro habsolute
  have hfirst := (segments_of_isAbsolute habsolute).1
  rw [hsegments] at hfirst
  exact (h "" (hfirst ▸ List.mem_cons_self)).2.1 rfl

/-- The relative path along proper names takes them one by one. -/
lemma Location.components_path {l : Location} (h : ∀ name ∈ l, (Path.Component.name name).IsStep) :
    l.path.isAbsolute = false ∧ l.path.components = l.map .name := by
  by_cases hne : l = []
  · rw [hne]
    exact ⟨rfl, rfl⟩
  obtain ⟨hsegments, hrelative⟩ := Location.segments_path hne h
  have hhere : l.path.segments.head? ≠ some "." := by
    rw [hsegments]
    exact fun hhead => (h "." (List.mem_of_mem_head? hhead)).2.2.1 rfl
  have hnames : l.filterMap Component.ofSegment? = l.map .name := by
    rw [← List.filterMap_eq_map]
    exact List.filterMap_congr fun name hname => ofSegment?_of_isStep (h name hname)
  refine ⟨hrelative, ?_⟩
  rw [components, split, if_neg (by simp [hrelative]), if_neg hhere, hsegments, hnames]
  rfl

lemma Location.way_path {l : Location} (h : ∀ name ∈ l, (Path.Component.name name).IsStep) :
    l.path.way = l.map .name := by
  obtain ⟨hrelative, hcomponents⟩ := Location.components_path h
  rw [← filter_components hrelative, hcomponents, List.filter_eq_self]
  simp

/-- Behind a path, the relative path along names leads down those names. -/
lemma Path.way_join_path (p : Path) {l : Location}
    (h : ∀ name ∈ l, (Path.Component.name name).IsStep) :
    (p.join l.path).way = p.way ++ l.map .name := by
  rw [way_join p (Location.components_path h).1, Location.way_path h]

lemma Path.location_join_path (p : Path) {l : Location}
    (h : ∀ name ∈ l, (Path.Component.name name).IsStep) :
    (p.join l.path).location = p.location ++ l := by
  rw [location, way_join_path p h, Location.along_append, along_names]
  rfl

end AddonBuild
