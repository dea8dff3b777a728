import AddonBuild.Proofs.Disk.Agreement

/-!
# Reaching a place by its cleaned path

A cleaned path is not longer than any path that leads to its location or through it. So whatever is
reached by some path is reached by its cleaned path as well, as long as it is there.
-/

namespace AddonBuild

open AddonBuild.Path

namespace Path

/-! ### Lengths -/

/-- How many bytes it takes to write names with a slash in front of each. -/
def writtenSize : List String → Nat
  | [] => 0
  | name :: names => name.utf8ByteSize + 1 + writtenSize names

lemma writtenSize_append (first second : List String) :
    writtenSize (first ++ second) = writtenSize first + writtenSize second := by
  induction first with
  | nil => exact (Nat.zero_add _).symm
  | cons name first ih =>
    rw [List.cons_append, writtenSize, ih, writtenSize, Nat.add_assoc (name.utf8ByteSize + 1)]

lemma utf8ByteSize_slashes (names : List String) :
    (String.ofList (slashes names)).utf8ByteSize = writtenSize names := by
  induction names with
  | nil => rfl
  | cons name names ih =>
    have hcons : String.ofList (slashes (name :: names)) =
        "/" ++ name ++ String.ofList (slashes names) := by
      apply String.toList_injective
      simp [slashes]
    have hone : "/".utf8ByteSize = 1 := rfl
    rw [hcons, String.utf8ByteSize_append, String.utf8ByteSize_append, ih, writtenSize, hone]
    omega

/-- The names of a location are written no longer than the steps that lead there. -/
lemma writtenSize_along_le (way : List Component) (here : Location) :
    writtenSize (Location.along here way) ≤
      writtenSize here + writtenSize (way.map Component.text) := by
  induction way generalizing here with
  | nil => exact Nat.le_refl _
  | cons c way ih =>
    have hstep : writtenSize (Location.step here c) ≤
        writtenSize here + (c.text.utf8ByteSize + 1) := by
      cases c with
      | name name => exact (writtenSize_append here [name]).le
      | up =>
        rcases List.eq_nil_or_concat here with rfl | ⟨init, last, rfl⟩
        · exact Nat.zero_le _
        · rw [List.concat_eq_append, Location.step, List.dropLast_concat, writtenSize_append]
          omega
      | root | here => exact Nat.le_add_right _ _
    have hrest := ih (Location.step here c)
    rw [List.map_cons, writtenSize]
    exact hrest.trans (by omega)

lemma writtenSize_filterMap_le (segments : List String) :
    writtenSize ((segments.filterMap Component.ofSegment?).map Component.text) ≤
      writtenSize segments := by
  induction segments with
  | nil => exact Nat.le_refl _
  | cons segment segments ih =>
    rw [writtenSize]
    obtain ⟨-, hnone⟩ | ⟨-, rfl, hsome⟩ | ⟨-, -, hsome⟩ := segment_cases segment
    · rw [List.filterMap_cons_none hnone]
      omega
    all_goals
      rw [List.filterMap_cons_some hsome, List.map_cons, writtenSize, Component.text]
      omega

/-! ### Cleaned paths that fit -/

variable {p q : Path}

/-- A cleaned path is the root or its names with a slash in front of each. -/
lemma toList_of_clean (hp : p.isAbsolute = true) (hclean : p.clean = p)
    (hne : p.location ≠ []) : p.text.toList = slashes p.location := by
  have hstep : ∀ c ∈ p.location.map Component.name, c.IsStep := by
    intro c hc
    obtain ⟨name, hname, rfl⟩ := List.mem_map.mp hc
    exact isStep_of_mem_way (name_mem_of_mem_along hname)
  rw [← toList_ofComponents_root hstep hne, ← clean_eq_ofComponents hp, hclean]

lemma clean_eq_root (hp : p.isAbsolute = true) (hclean : p.clean = p) (hnil : p.location = []) :
    p = ofSplit .root [] := by
  rw [← hclean, clean_eq_ofComponents hp, hnil]
  rfl

lemma segments_of_clean (hp : p.isAbsolute = true) (hclean : p.clean = p)
    (hne : p.location ≠ []) : p.segments = "" :: p.location := by
  refine segments_of_slashes hne (fun name hname => ?_) (toList_of_clean hp hclean hne)
  exact (isStep_of_mem_way (name_mem_of_mem_along hname)).1

/-- A cleaned path to a place that another path leads through is not too long if the other is
not. -/
lemma Fits.of_lead (h : q.Fits) (hq : q.isAbsolute = true) (hp : p.isAbsolute = true)
    (hclean : p.clean = p) {first : List Component} (hfirst : first <+: q.way)
    (hlead : p.location <+: Location.along [] first) : p.Fits := by
  by_cases hne : p.location = []
  · rw [clean_eq_root hp hclean hne]
    exact Disk.fits_root
  have hname {name : String} (hname : name ∈ p.location) : .name name ∈ q.way :=
    hfirst.subset (name_mem_of_mem_along (hlead.subset hname))
  have htext := toList_of_clean hp hclean hne
  refine ⟨fun hnul => ?_, text_ne_of_isAbsolute hp, ?_, fun segment hsegment => ?_⟩
  · rw [htext, slashes, List.mem_flatMap] at hnul
    obtain ⟨name, hmem, hnul⟩ := hnul
    rcases List.mem_cons.mp hnul with hslash | hnul
    · cases hslash
    · exact h.nul (mem_text_of_mem_way (hname hmem) hnul)
  · obtain ⟨-, -, hqtext⟩ := segments_of_isAbsolute hq
    have hsize (t : Path) (names : List String) (ht : t.text.toList = slashes names) :
        t.text.utf8ByteSize = writtenSize names := by
      rw [← utf8ByteSize_slashes, ← ht, String.ofList_toList]
    obtain ⟨rest, hrest⟩ := hlead
    obtain ⟨more, hmore⟩ := hfirst
    have hway : q.segments.tail.filterMap Component.ofSegment? = q.way := by
      have hsplit : q.split = (.root, q.segments.tail) := if_pos hq
      rw [← filterMap_split, hsplit]
    rw [hsize p _ htext]
    -- dropping steps, blanks and climbs only makes a path shorter
    calc writtenSize p.location
        ≤ writtenSize (Location.along [] first) := by
          rw [← hrest, writtenSize_append]
          exact Nat.le_add_right _ _
      _ ≤ writtenSize (first.map Component.text) := by
          simpa [writtenSize] using writtenSize_along_le first []
      _ ≤ writtenSize (q.way.map Component.text) := by
          rw [← hmore, List.map_append, writtenSize_append]
          exact Nat.le_add_right _ _
      _ ≤ writtenSize q.segments.tail := hway ▸ writtenSize_filterMap_le _
      _ ≤ Disk.maxPathLength := hsize q _ hqtext ▸ h.short
  · rw [segments_of_clean hp hclean hne] at hsegment
    rcases List.mem_cons.mp hsegment with rfl | hmem
    · exact Nat.zero_le _
    · exact h.names segment (mem_segments_of_mem_way (hname hmem))

/-- The cleaned form of a path is not too long if the path is not. -/
lemma Fits.clean (h : p.Fits) (hp : p.isAbsolute = true) : p.clean.Fits :=
  h.of_lead hp (clean_isAbsolute hp) (clean_clean hp) (List.prefix_refl _)
    (by rw [location_clean]; exact List.prefix_refl _)

end Path

/-! ### What is reached -/

namespace Disk

variable {d : Disk} {p q root : Path} {e : Entry}

/-- A cleaned path leads to what is at its location. -/
lemma entry_eq_ok_of_clean (hp : p.isAbsolute = true) (hclean : p.clean = p) :
    d.entry p = .ok e ↔ p.Fits ∧ d.get? p.location = some e := by
  rw [entry_eq_ok]
  constructor
  · rintro ⟨l, hl, hget⟩
    obtain ⟨hfits, rfl, -⟩ := of_locate_eq_ok hl
    exact ⟨hfits, hget⟩
  · rintro ⟨hfits, hget⟩
    refine ⟨p.location, ?_, hget⟩
    rcases List.eq_nil_or_concat p.location with hnil | ⟨init, last, hconcat⟩
    · rw [clean_eq_root hp hclean hnil]
      rfl
    · rw [List.concat_eq_append] at hconcat
      have hsegments : p.segments = ("" :: init) ++ [last] := by
        rw [segments_of_clean hp hclean (by simp [hconcat]), hconcat]
        rfl
      have hstep {name : String} (hname : name ∈ p.location) : (Component.name name).IsStep :=
        isStep_of_mem_way (name_mem_of_mem_along hname)
      have hlast := hstep (hconcat ▸ List.mem_append_right _ List.mem_cons_self)
      have hblank : isBlank last = false := by simp [isBlank, hlast.2.1, hlast.2.2.1]
      refine locate_eq_location hfits hsegments hblank fun k hk => ?_
      rw [← dropLast_way hsegments hblank, ← hclean, way_clean hp, hconcat, List.map_append,
        List.map_singleton, List.dropLast_concat] at hk
      have hlead := (prefix_of_mem_trail_names hk).2
      rw [List.nil_append] at hlead
      refine get?_above hget (hlead.trans (hconcat ▸ List.prefix_append _ _)) ?_
      rintro rfl
      have hlength := hlead.length_le
      rw [hconcat, List.length_append, List.length_singleton] at hlength
      omega

lemma isFile_iff_of_clean (hp : p.isAbsolute = true) (hclean : p.clean = p) :
    d.isFile p = true ↔ p.Fits ∧ ∃ content, d.get? p.location = some (.file content) := by
  rw [isFile_iff]
  simp only [entry_eq_ok_of_clean hp hclean]
  tauto

/-- A cleaned path names the directory that another path leads through on its way. -/
lemma isDirectory_of_lead (hq : q.isAbsolute = true) (hfits : q.Fits)
    (hroot : root.isAbsolute = true) (hclean : root.clean = root) {first : List Component}
    (hfirst : first <+: q.way) (hlead : root.location <+: Location.along [] first)
    (hget : d.get? root.location = some .directory) : d.isDirectory root = true := by
  have hentry := (entry_eq_ok_of_clean hroot hclean).mpr
    ⟨hfits.of_lead hq hroot hclean hfirst hlead, hget⟩
  rw [isDirectory, hentry]

end Disk

end AddonBuild
