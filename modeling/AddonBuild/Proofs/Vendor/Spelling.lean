import AddonBuild.Proofs.Disk.Writing
import AddonBuild.Proofs.Path.Climbing
import AddonBuild.Proofs.Path.Straight
import AddonBuild.Proofs.Vendor.Dependencies

/-!
# Directories that are written in several ways

A path may be written with blank segments, and then two paths of one directory differ. What is found
from the one is found from the other, under a path that is written in its way, unless one of the
paths that are tried becomes too long.
-/

namespace AddonBuild

namespace Path

variable {p q : Path}

lemma way_eq_of_same (hp : p.isAbsolute = true) (hq : q.isAbsolute = true)
    (h : p.same q = true) : p.way = q.way := by
  have hcomponents := of_decide_eq_true h
  rw [components_of_isAbsolute hp, components_of_isAbsolute hq] at hcomponents
  exact (List.cons.inj hcomponents).2

lemma same_of_way (hp : p.isAbsolute = true) (hq : q.isAbsolute = true) (h : p.way = q.way) :
    p.same q = true :=
  decide_eq_true (by rw [components_of_isAbsolute hp, components_of_isAbsolute hq, h])

lemma same_symm (h : p.same q = true) : q.same p = true :=
  decide_eq_true (of_decide_eq_true h).symm

lemma same_trans {r : Path} (h : p.same q = true) (h' : q.same r = true) : p.same r = true :=
  decide_eq_true ((of_decide_eq_true h).trans (of_decide_eq_true h'))

lemma way_join_congr (h : p.way = q.way) (r : Path) : (p.join r).way = (q.join r).way := by
  by_cases hr : r.isAbsolute = true
  · rw [join, join, if_pos hr, if_pos hr]
  · have hrelative : r.isAbsolute = false := by simpa using hr
    rw [way_join p hrelative, way_join q hrelative, h]

/-- Of two paths that take the same steps, one fits if the other does, unless it is too long. -/
lemma Fits.of_way (h : p.Fits) (hq : q.isAbsolute = true) (hway : p.way = q.way)
    (hshort : q.text.utf8ByteSize ≤ Disk.maxPathLength) : q.Fits where
  nul hnul := by
    rw [(segments_of_isAbsolute hq).2.2, slashes, List.mem_flatMap] at hnul
    obtain ⟨segment, hmem, hnul⟩ := hnul
    have hnul : '\x00' ∈ segment.toList := (List.mem_cons.mp hnul).resolve_left (by decide)
    obtain ⟨hblank, -⟩ | ⟨-, rfl, -⟩ | ⟨-, -, hsome⟩ := segment_cases segment
    · rcases Bool.or_eq_true_iff.mp hblank with hs | hs <;> rw [of_decide_eq_true hs] at hnul <;>
        exact absurd hnul (by decide)
    · exact absurd hnul (by decide)
    · have hname : .name segment ∈ q.way :=
        List.mem_filterMap.mpr ⟨segment, List.mem_of_mem_tail hmem, hsome⟩
      exact h.nul (mem_text_of_mem_way (hway ▸ hname) hnul)
  ne := text_ne_of_isAbsolute hq
  short := hshort
  names segment hmem := by
    obtain ⟨hblank, -⟩ | ⟨-, rfl, -⟩ | ⟨-, -, hsome⟩ := segment_cases segment
    · rcases Bool.or_eq_true_iff.mp hblank with hs | hs <;> rw [of_decide_eq_true hs] <;> decide
    · decide
    · have hname : .name segment ∈ q.way := List.mem_filterMap.mpr ⟨segment, hmem, hsome⟩
      exact h.names segment (mem_segments_of_mem_way (hway ▸ hname))

end Path

/-! ### Reading -/

namespace Disk

variable {d : Disk} {p q : Path} {content : ByteArray}

/-- A file is found by each path to its place that fits and ends in its name. -/
lemma entry_of_way (h : d.entry p = .ok (.file content)) (hway : p.way = q.way) (hq : q.Fits)
    (hname : q.EndsInName) : d.entry q = .ok (.file content) := by
  obtain ⟨-, -, hpassage, hget⟩ := entry_eq_file_iff.mp h
  rw [Path.passage, hway] at hpassage
  rw [Path.location, hway] at hget
  exact entry_eq_file_iff.mpr ⟨hq, hname, hpassage, hget⟩

lemma isFile_of_way (h : d.isFile p = true) (hq : q.isAbsolute = true) (hname : q.EndsInName)
    (hway : p.way = q.way) (hshort : q.text.utf8ByteSize ≤ maxPathLength) :
    d.isFile q = true := by
  obtain ⟨content, hentry⟩ := isFile_iff.mp h
  have hfits := (entry_eq_file_iff.mp hentry).1.of_way hq hway hshort
  exact isFile_iff.mpr ⟨content, entry_of_way hentry hway hfits hname⟩

/-- What is read by one path is read by the other if there is a file for it. -/
lemma read_of_way {description : Json} (h : Document.read d p = .ok description)
    (hfile : d.isFile q = true) (hway : p.way = q.way) : Document.read d q = .ok description := by
  obtain ⟨text, htext, hparse⟩ := Document.read_eq_ok.mp h
  obtain ⟨content, hentry, htext⟩ := readText_eq_ok.mp htext
  obtain ⟨content', hentry'⟩ := isFile_iff.mp hfile
  have hget := (entry_eq_file_iff.mp hentry).2.2.2
  rw [Path.location, hway, ← Path.location, (entry_eq_file_iff.mp hentry').2.2.2] at hget
  obtain rfl := Entry.file.inj (Option.some.inj hget)
  exact Document.read_eq_ok.mpr ⟨text, readText_eq_ok.mpr ⟨_, hentry', htext⟩, hparse⟩

lemma isFile_of_read {description : Json} (h : Document.read d p = .ok description) :
    d.isFile p = true := by
  obtain ⟨text, htext, -⟩ := Document.read_eq_ok.mp h
  obtain ⟨content, hentry, -⟩ := readText_eq_ok.mp htext
  exact isFile_iff.mpr ⟨content, hentry⟩

end Disk

/-! ### Finding -/

namespace Vendor

variable {d : Disk} {package : String} {start start' file file' above above' : Path}

lemma isAbsolute_installed (habove : above.isAbsolute = true) :
    (installed package above).isAbsolute = true :=
  Path.isAbsolute_join (Path.isAbsolute_join (Path.isAbsolute_join habove _) _) _

lemma endsInName_installed (package : String) (above : Path) :
    (installed package above).EndsInName := by
  obtain ⟨init, hinit, -⟩ := ((above.child "node_modules").child package).exists_segments_child
    (show '/' ∉ "package.json".toList by decide)
  exact ⟨init, _, hinit, rfl, by decide⟩

lemma way_installed_congr (h : above.way = above'.way) :
    (installed package above).way = (installed package above').way :=
  Path.way_join_congr (Path.way_join_congr (Path.way_join_congr h _) _) _

/-- A description lies in the directory of its package. -/
lemma way_of_find? (hstart : start.isAbsolute = true) (h : find? d package start = some file) :
    file.way = file.directory.way ++ [.name "package.json"] := by
  have hfile := isAbsolute_of_find? hstart h
  obtain ⟨above, -, rfl, -⟩ := find?_eq_some h
  rw [(Path.directory_of_isAbsolute hfile).2, installed,
    Path.way_child (by simp [Path.Component.IsStep])]
  simp

/-- Descriptions in one directory take the same steps. -/
lemma way_eq_of_same_directory {package' : String} (hstart : start.isAbsolute = true)
    (hstart' : start'.isAbsolute = true) (hfile : find? d package start = some file)
    (hfile' : find? d package' start' = some file')
    (hsame : file.directory.same file'.directory = true) : file.way = file'.way := by
  have habsolute := isAbsolute_of_find? hstart hfile
  have habsolute' := isAbsolute_of_find? hstart' hfile'
  rw [way_of_find? hstart hfile, way_of_find? hstart' hfile',
    Path.way_eq_of_same (Path.directory_of_isAbsolute habsolute).1
      (Path.directory_of_isAbsolute habsolute').1 hsame]

lemma same_directory_of_way (hfile : file.isAbsolute = true) (hfile' : file'.isAbsolute = true)
    (hway : file.way = file'.way) : file.directory.same file'.directory = true := by
  obtain ⟨hdirectory, hdropped⟩ := Path.directory_of_isAbsolute hfile
  obtain ⟨hdirectory', hdropped'⟩ := Path.directory_of_isAbsolute hfile'
  exact Path.same_of_way hdirectory hdirectory' (by rw [hdropped, hdropped', hway])

/-- From two paths of one directory the same is found, as long as no path that is tried is too
long. -/
lemma find?_same (hstart : start.isAbsolute = true) (hstart' : start'.isAbsolute = true)
    (hsame : start.same start' = true)
    (hshort : ∀ above ∈ start.ancestors,
      (installed package above).text.utf8ByteSize ≤ Disk.maxPathLength)
    (hshort' : ∀ above ∈ start'.ancestors,
      (installed package above).text.utf8ByteSize ≤ Disk.maxPathLength) :
    (find? d package start).map Path.components = (find? d package start').map Path.components := by
  have hchain : start.ancestors.map Path.components = start'.ancestors.map Path.components := by
    rw [Path.map_components_ancestors hstart, Path.map_components_ancestors hstart',
      of_decide_eq_true hsame]
  have habove : ∀ above ∈ start.ancestors, above.isAbsolute = true := fun _ =>
    Path.isAbsolute_of_mem_ancestors hstart
  have habove' : ∀ above ∈ start'.ancestors, above.isAbsolute = true := fun _ =>
    Path.isAbsolute_of_mem_ancestors hstart'
  rw [find?, find?]
  generalize start.ancestors = chain at hchain hshort habove ⊢
  generalize start'.ancestors = chain' at hchain hshort' habove' ⊢
  -- the two chains of directories go upwards side by side
  induction chain generalizing chain' with
  | nil =>
    rw [List.map_nil] at hchain
    rw [List.map_eq_nil_iff.mp hchain.symm]
  | cons above chain ih =>
    obtain ⟨above', chain', rfl, hfirst, hrest⟩ := List.map_eq_cons_iff.mp hchain.symm
    obtain ⟨hshort, hshorts⟩ := List.forall_mem_cons.mp hshort
    obtain ⟨hshort', hshorts'⟩ := List.forall_mem_cons.mp hshort'
    obtain ⟨habove, haboves⟩ := List.forall_mem_cons.mp habove
    obtain ⟨habove', haboves'⟩ := List.forall_mem_cons.mp habove'
    have hway : (installed package above).way = (installed package above').way :=
      way_installed_congr
        (Path.way_eq_of_same habove habove' (decide_eq_true hfirst.symm))
    have hfile : d.isFile (installed package above) = d.isFile (installed package above') :=
      Bool.eq_iff_iff.mpr
        ⟨fun h => Disk.isFile_of_way h (isAbsolute_installed habove')
          (endsInName_installed package above') hway hshort',
        fun h => Disk.isFile_of_way h (isAbsolute_installed habove)
          (endsInName_installed package above) hway.symm hshort⟩
    rw [List.map_cons, List.map_cons, List.find?_cons, List.find?_cons, ← hfile]
    cases d.isFile (installed package above) with
    | true =>
      dsimp only [Option.map_some]
      rw [Path.components_of_isAbsolute (isAbsolute_installed habove),
        Path.components_of_isAbsolute (isAbsolute_installed habove'), hway]
    | false => exact ih hshorts haboves chain' hrest.symm hshorts' haboves'

end Vendor

end AddonBuild
