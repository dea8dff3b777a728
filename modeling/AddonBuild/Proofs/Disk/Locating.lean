import AddonBuild.Document
import AddonBuild.Proofs.Path.Ancestors
import AddonBuild.Proofs.Steps

/-!
# Following a path

Where a path leads depends on the segments that are not blank alone. So a file is found again
under the path of its directory with its name behind that, which is written no longer than the
path under which it was found first.
-/

namespace AddonBuild

namespace Path

/-! ### A file and its directory -/

lemma isAbsolute_of_not_mem {name : String} (h : '/' ∉ name.toList) :
    isAbsolute ⟨name⟩ = false := by
  rw [← Bool.not_eq_true, isAbsolute_iff]
  intro hhead
  exact h (List.mem_of_mem_head? hhead)

/-- Joining puts the segments of a relative path behind segments that take the steps before. -/
lemma exists_segments_join (p : Path) {q : Path} (hq : q.isAbsolute = false) :
    ∃ init, (p.join q).segments = init ++ q.segments ∧
      init.filterMap Component.ofSegment? = p.way := by
  by_cases hp : p.text = ""
  · obtain ⟨text⟩ := p
    obtain rfl : text = "" := hp
    refine ⟨[], ?_, rfl⟩
    rw [join, if_neg (by simp [hq]), if_pos (by simp), String.empty_append]
    rfl
  · obtain ⟨t, ht, hjoin⟩ := exists_text_join p hp hq
    refine ⟨segments ⟨t⟩, by rw [hjoin, segments_slash], ?_⟩
    have hslashed := way_slash t ""
    rw [String.append_empty, way_empty, List.append_nil] at hslashed
    obtain ⟨text⟩ := p
    rcases ht with rfl | rfl
    · rfl
    · exact hslashed.symm

lemma exists_segments_child (p : Path) {name : String} (hslash : '/' ∉ name.toList) :
    ∃ init, (p.child name).segments = init ++ [name] ∧
      init.filterMap Component.ofSegment? = p.way := by
  obtain ⟨init, hinit, hway⟩ := p.exists_segments_join (isAbsolute_of_not_mem hslash)
  exact ⟨init, segments_of_not_mem hslash ▸ hinit, hway⟩

/-- The name of a file behind its directory is written like the file, without the blank segments
that stood between them. -/
lemma toList_directory_child {file : Path} (hfile : file.isAbsolute = true) {name : String}
    {init : List String} (hblank : isBlank name = false) (hslash : '/' ∉ name.toList)
    (h : file.segments.tail = init ++ [name]) :
    ∃ body blanks, init = body ++ blanks ∧ (∀ segment ∈ blanks, isBlank segment = true) ∧
      (file.directory.child name).text.toList = slashes (body ++ [name]) := by
  have htrim : trimBlank (init ++ [name]) = init ++ [name] := trimBlank_of_last hblank
  have hdirectory : file.directory = ofSplit .root (trimBlank init) := by
    have hsplit : file.split = (.root, file.segments.tail) := if_pos hfile
    rw [directory, parent?, hsplit]
    simp only [h, htrim]
    obtain ⟨first, rest, hcons⟩ := List.exists_cons_of_ne_nil (l := init ++ [name]) (by simp)
    rw [hcons]
    simp only [Option.getD_some]
    rw [← hcons, List.dropLast_concat]
  obtain ⟨blanks, hinit, hblanks⟩ := exists_trimBlank init
  refine ⟨trimBlank init, blanks, hinit, hblanks, ?_⟩
  have htext : (ofSplit .root (trimBlank init)).text ≠ "" :=
    text_ne_of_isAbsolute (isAbsolute_ofSplit_root _)
  rw [hdirectory, toList_child htext (isAbsolute_of_not_mem hslash)]
  rcases List.eq_nil_or_concat (trimBlank init) with hnil | ⟨body, last, hlast⟩
  · have hroot : (ofSplit .root []).text.toList = ['/'] := rfl
    rw [hnil, hroot, List.nil_append, slashes_singleton]
    rfl
  · rw [List.concat_eq_append] at hlast
    have hnot := isBlank_of_trimBlank_eq hlast
    have hne : last ≠ "" := by
      rintro rfl
      cases hnot
    have hmem : last ∈ file.segments := by
      apply List.mem_of_mem_tail
      rw [h, hinit, hlast]
      simp
    rw [toList_ofSplit_root (by simp [hlast]), hlast,
      if_neg (getLast?_slashes hne (not_mem_of_mem_segments hmem)), slashes_append _ [name],
      slashes_singleton]

end Path

namespace Disk

open AddonBuild.Path

/-- Blank segments in front of a name lead nowhere else. -/
lemma descend_blanks {d : Disk} {blanks : List String} {name : String}
    (hblanks : ∀ segment ∈ blanks, isBlank segment = true) (init : List String) (here : Location) :
    d.descend here (init ++ (blanks ++ [name])) = d.descend here (init ++ [name]) := by
  induction init generalizing here with
  | nil =>
    induction blanks with
    | nil => rfl
    | cons blank blanks ih =>
      rw [List.nil_append, List.cons_append, descend, if_pos (hblanks blank List.mem_cons_self)]
      exact ih fun segment h => hblanks segment (List.mem_cons_of_mem _ h)
  | cons segment init ih =>
    have hleft : (init ++ (blanks ++ [name])).isEmpty = false := by simp
    have hright : (init ++ [name]).isEmpty = false := by simp
    rw [List.cons_append, List.cons_append, descend, descend]
    simp only [ih, hleft, hright]

lemma locate_eq_ok {d : Disk} {p : Path} {l : Location} :
    d.locate p = .ok l ↔ '\x00' ∉ p.text.toList ∧ p.text ≠ "" ∧
      p.text.utf8ByteSize ≤ maxPathLength ∧ d.descend [] p.segments = .ok l := by
  rw [locate]
  split_ifs with hnul hempty hlong
  · simp [hnul]
  · simp_all
  · simp [Nat.not_le.mpr hlong]
  · simp_all

/-- A file is found again behind its directory. -/
lemma locate_directory_child {d : Disk} {file : Path} {name : String} {init : List String}
    {l : Location} (hfile : file.isAbsolute = true) (hblank : isBlank name = false)
    (hslash : '/' ∉ name.toList) (hsegments : file.segments = init ++ [name])
    (h : d.locate file = .ok l) : d.locate (file.directory.child name) = .ok l := by
  obtain ⟨hnul, hne, hlong, hdescend⟩ := locate_eq_ok.mp h
  obtain ⟨hroot, htail, htext⟩ := segments_of_isAbsolute hfile
  obtain ⟨before, hbefore⟩ : ∃ before, file.segments.tail = before ++ [name] := by
    refine ⟨init.tail, ?_⟩
    cases init with
    | nil =>
      rw [hsegments] at htail
      exact absurd rfl htail
    | cons first init =>
      rw [hsegments]
      rfl
  -- the canonical path leaves out the blank segments in front of the name
  obtain ⟨body, blanks, hinit, hblanks, hchild⟩ :=
    toList_directory_child hfile hblank hslash hbefore
  have hcanonical : (file.directory.child name).segments = "" :: (body ++ [name]) := by
    refine segments_of_slashes (by simp) ?_ hchild
    intro segment hsegment
    apply not_mem_of_mem_segments (p := file)
    apply List.mem_of_mem_tail
    rw [hbefore, hinit]
    simp only [List.mem_append] at hsegment ⊢
    tauto
  have hfull : file.text.toList = slashes body ++ slashes blanks ++ slashes [name] := by
    rw [htext, hbefore, hinit, slashes_append, slashes_append]
  have hshort : (file.directory.child name).text.toList = slashes body ++ slashes [name] := by
    rw [hchild, slashes_append]
  refine locate_eq_ok.mpr ⟨?_, ?_, ?_, ?_⟩
  · intro hmem
    apply hnul
    rw [hshort] at hmem
    rw [hfull]
    rcases List.mem_append.mp hmem with hmem | hmem <;> simp [hmem]
  · exact text_ne_of_isAbsolute (isAbsolute_join (directory_of_isAbsolute hfile).1 _)
  · have hfull' := congrArg String.ofList hfull
    have hshort' := congrArg String.ofList hshort
    rw [String.ofList_toList, String.ofList_append, String.ofList_append] at hfull'
    rw [String.ofList_toList, String.ofList_append] at hshort'
    rw [hfull', String.utf8ByteSize_append, String.utf8ByteSize_append] at hlong
    rw [hshort', String.utf8ByteSize_append]
    omega
  · rw [hroot, hbefore, hinit, List.append_assoc] at hdescend
    rw [hcanonical, ← hdescend, ← List.cons_append, ← List.cons_append]
    exact (descend_blanks hblanks ("" :: body) []).symm

/-! ### Reading -/

lemma entry_eq_ok {d : Disk} {p : Path} {e : Entry} :
    d.entry p = .ok e ↔ ∃ l, d.locate p = .ok l ∧ d.get? l = some e := by
  rw [entry, bind_eq_ok]
  refine exists_congr fun l => and_congr_right fun _ => ?_
  cases d.get? l <;> simp

lemma isFile_iff {d : Disk} {p : Path} :
    d.isFile p = true ↔ ∃ content, d.entry p = .ok (.file content) := by
  rw [isFile]
  cases d.entry p with
  | error e => simp
  | ok e => cases e <;> simp

lemma read_eq_ok {d : Disk} {p : Path} {content : ByteArray} :
    d.read p = .ok content ↔ d.entry p = .ok (.file content) := by
  rw [read, bind_eq_ok]
  constructor
  · rintro ⟨e, he, h⟩
    cases e with
    | file found => rw [he, Except.ok.inj h]
    | directory => cases h
  · intro h
    exact ⟨_, h, rfl⟩

lemma readText_eq_ok {d : Disk} {p : Path} {text : String} :
    d.readText p = .ok text ↔
      ∃ content, d.entry p = .ok (.file content) ∧ String.fromUTF8? content = some text := by
  rw [readText, bind_eq_ok]
  refine exists_congr fun content => and_congr read_eq_ok ?_
  cases String.fromUTF8? content <;> simp

end Disk

/-- A value can be read wherever there is a file with its text. -/
lemma Document.read_eq_ok {d : Disk} {file : Path} {value : Json} :
    Document.read d file = .ok value ↔
      ∃ text, d.readText file = .ok text ∧
        Json.parse text.toUTF8.data.toList = .ok value := by
  constructor
  · exact of_read_eq_ok
  · rintro ⟨text, htext, hparse⟩
    rw [read, readAs, htext]
    exact mapError_eq_ok.mpr hparse

end AddonBuild
