import AddonBuild.Proofs.Path.Ancestors
import AddonBuild.Proofs.Path.Parents

/-!
# File names

The name of a file is the last step of its path. It stays the same behind another directory, and
giving a file another extension gives it another name in the same directory.
-/

namespace AddonBuild

namespace Path

variable {p q : Path} {name extension : String}

lemma lead_cases (p : Path) : p.lead = [] ∨ p.lead = [.root] ∨ p.lead = [.here] := by
  rw [lead, split]
  split_ifs
  · exact .inr (.inl rfl)
  · exact .inr (.inr rfl)
  · exact .inl rfl

/-- The name of a file is the last step of its path. -/
lemma fileName?_eq_some_iff : p.fileName? = some name ↔ p.way.getLast? = some (.name name) := by
  have hcomponents : p.fileName? = some name ↔ p.components.getLast? = some (.name name) := by
    rw [fileName?]
    cases p.components.getLast? with
    | none => simp
    | some c => cases c <;> simp
  rw [hcomponents, components_eq]
  rcases List.eq_nil_or_concat p.way with hway | ⟨init, last, hway⟩
  · rw [hway, List.append_nil]
    rcases p.lead_cases with hlead | hlead | hlead <;> simp [hlead]
  · simp [hway]

lemma fileName?_join (h : q.fileName? = some name) : (p.join q).fileName? = some name := by
  cases hq : q.isAbsolute with
  | true => rwa [join, if_pos hq]
  | false =>
    rw [fileName?_eq_some_iff] at h ⊢
    rw [way_join p hq, List.getLast?_append, h]
    rfl

lemma fileName?_of_way {init : List Component} (h : p.way = init ++ [.name name]) :
    p.fileName? = some name := by
  rw [fileName?_eq_some_iff, h, List.getLast?_append]
  rfl

lemma isStep_of_fileName? (h : p.fileName? = some name) : (Component.name name).IsStep :=
  isStep_of_mem_way (List.mem_of_getLast? (fileName?_eq_some_iff.mp h))

/-- A longer name than that of a file, with a dot in front, is the name of a file. -/
lemma isStep_hidden (p : Path) (tail : String) (hslash : '/' ∉ tail.toList)
    (hlength : 1 < tail.length) :
    (Component.name ("." ++ p.fileName?.getD "file" ++ tail)).IsStep := by
  have hname : '/' ∉ (p.fileName?.getD "file").toList := by
    cases h : p.fileName? with
    | none => decide
    | some name => exact (isStep_of_fileName? h).1
  have hlong : 2 < ("." ++ p.fileName?.getD "file" ++ tail).length := by
    have hdot : ".".length = 1 := rfl
    rw [String.length_append, String.length_append, hdot]
    omega
  refine ⟨?_, ?_, ?_, ?_⟩
  · simp only [String.toList_append, List.mem_append, not_or]
    exact ⟨⟨by decide, hname⟩, hslash⟩
  all_goals
    intro heq
    rw [heq] at hlong
    exact absurd hlong (by decide)

lemma exists_of_hasExtension (h : p.hasExtension extension = true) :
    ∃ name, p.fileName? = some name ∧ (splitName name).2 = some extension := by
  rw [hasExtension, beq_iff_eq, extension?] at h
  exact Option.bind_eq_some_iff.mp h

/-! ### Stems and extensions -/

/-- What follows the last dot is the extension if something comes before that dot. -/
lemma splitName_append {stem : String} (hstem : stem ≠ "") (hdot : '.' ∉ extension.toList) :
    splitName (stem ++ "." ++ extension) = (stem, some extension) := by
  have hreverse : (stem ++ "." ++ extension).toList.reverse =
      extension.toList.reverse ++ '.' :: stem.toList.reverse := by
    simp
  have hafter : (extension.toList.reverse ++ '.' :: stem.toList.reverse).takeWhile (· ≠ '.') =
      extension.toList.reverse := by
    rw [List.takeWhile_append_of_pos]
    · simp
    · intro c hc
      rw [decide_eq_true_iff]
      rintro rfl
      exact hdot (List.mem_reverse.mp hc)
  rw [splitName, hreverse, hafter]
  simp [List.drop_append, hstem]

lemma exists_of_splitName (h : (splitName name).2 = some extension) :
    ∃ stem, stem ≠ "" ∧ '.' ∉ extension.toList ∧ name = stem ++ "." ++ extension := by
  have hsplit := List.takeWhile_append_dropWhile (p := (· ≠ '.')) (l := name.toList.reverse)
  rw [splitName] at h
  split_ifs at h with hbefore
  generalize hafter : name.toList.reverse.takeWhile (· ≠ '.') = after at h hbefore hsplit
  cases hrest : name.toList.reverse.dropWhile (· ≠ '.') with
  | nil =>
    rw [hrest, List.append_nil] at hsplit
    simp [← hsplit] at hbefore
  | cons c before =>
    have hc := List.head?_dropWhile_not (· ≠ '.') name.toList.reverse
    rw [hrest] at hc
    obtain rfl : c = '.' := by simpa using hc
    have hall := List.all_takeWhile (p := (· ≠ '.')) (l := name.toList.reverse)
    rw [hafter, List.all_eq_true] at hall
    have hdot : '.' ∉ after := fun hmem => by simpa using hall _ hmem
    rw [hrest] at hsplit
    rw [← hsplit] at h hbefore
    obtain rfl : String.ofList after.reverse = extension := Option.some.inj h
    refine ⟨String.ofList before.reverse, ?_, by simpa using hdot, ?_⟩
    · simpa [List.drop_append] using hbefore
    · apply String.toList_inj.mp
      simpa using congrArg List.reverse hsplit.symm

/-! ### Other extensions -/

lemma mem_of_mem_splitName {c : Char} (h : c ∈ (splitName name).1.toList) : c ∈ name.toList := by
  rw [splitName] at h
  split_ifs at h
  · exact h
  · rw [String.toList_ofList, List.mem_reverse] at h
    exact List.mem_reverse.mp (List.mem_of_mem_drop h)

/-- A text with slashes between segments starts like its first segment. -/
lemma isAbsolute_intercalate_cons {first : String} (hne : first ≠ "") (hslash : '/' ∉ first.toList)
    (rest : List String) : isAbsolute ⟨"/".intercalate (first :: rest)⟩ = false := by
  obtain ⟨c, s, hs⟩ := List.exists_cons_of_ne_nil (mt String.toList_eq_nil_iff.mp hne)
  have hc : c ≠ '/' := by
    rintro rfl
    exact hslash (hs ▸ List.mem_cons_self)
  rw [← Bool.not_eq_true, isAbsolute_iff, String.toList_intercalate]
  cases rest with
  | nil => simp [List.intercalate, hs, hc]
  | cons next rest => simp [List.intercalate, hs, hc]

/-- The segments of a relative path with a file name do not start with an empty one. -/
lemma head?_segments_ne (hp : p.isAbsolute = false) (h : p.fileName? = some name) :
    p.segments.head? ≠ some "" := by
  intro hhead
  obtain ⟨more, hmore⟩ := List.head?_eq_some_iff.mp hhead
  by_cases hnil : more = []
  · rw [fileName?_eq_some_iff, way, hmore, hnil] at h
    cases h
  · rw [isAbsolute_of_segments hmore hnil] at hp
    cases hp

section

variable (hextension : '/' ∉ extension.toList) (hlength : 1 < extension.length)
  (h : p.fileName? = some name)
include hextension hlength h

lemma isStep_withExtension : (Component.name ((splitName name).1 ++ "." ++ extension)).IsStep := by
  have hlong : 2 < ((splitName name).1 ++ "." ++ extension).length := by
    rw [String.length_append, String.length_append]
    have hdot : ".".length = 1 := rfl
    omega
  refine ⟨?_, ?_, ?_, ?_⟩
  · simp only [String.toList_append, List.mem_append, not_or]
    exact ⟨⟨fun hc => (isStep_of_fileName? h).1 (mem_of_mem_splitName hc), by decide⟩, hextension⟩
  all_goals
    intro heq
    rw [heq] at hlong
    exact absurd hlong (by decide)

/-- Only the last step changes with the extension. -/
lemma way_withExtension : (p.withExtension extension).way =
    p.way.dropLast ++ [.name ((splitName name).1 ++ "." ++ extension)] := by
  have hstep := isStep_withExtension hextension hlength h
  have hslash : ∀ segment ∈ (trimBlank p.split.2).dropLast ++
      [(splitName name).1 ++ "." ++ extension], '/' ∉ segment.toList := by
    intro segment hsegment
    rcases List.mem_append.mp hsegment with hsegment | hsegment
    · exact not_mem_of_mem_split (mem_of_mem_trimBlank (List.dropLast_subset _ hsegment))
    · rw [List.mem_singleton.mp hsegment]
      exact hstep.1
  have hlast := ofSegment?_of_isStep hstep
  rw [Component.text] at hlast
  rw [withExtension, h]
  dsimp only
  rw [way_ofSplit p.split.1 hslash, List.filterMap_append, List.filterMap_cons_some hlast,
    filterMap_dropLast_trimBlank, filterMap_split, List.filterMap_nil]

/-- Only the name changes with the extension. -/
lemma fileName?_withExtension :
    (p.withExtension extension).fileName? = some ((splitName name).1 ++ "." ++ extension) :=
  fileName?_of_way (way_withExtension hextension hlength h)

lemma isAbsolute_withExtension : (p.withExtension extension).isAbsolute = p.isAbsolute := by
  have hstep := isStep_withExtension hextension hlength h
  rw [withExtension, h]
  dsimp only
  cases hp : p.isAbsolute with
  | true =>
    rw [split, if_pos hp]
    exact isAbsolute_ofSplit_root _
  | false =>
    rw [split, if_neg (by simp [hp])]
    split_ifs with hhere
    · exact isAbsolute_ofSplit_here _
    · have hfirst := head?_segments_ne hp h
      rw [ofSplit]
      cases hinit : (trimBlank p.segments).dropLast with
      | nil => exact isAbsolute_intercalate_cons hstep.2.1 hstep.1 []
      | cons first rest =>
        have hhead : p.segments.head? = some first := by
          obtain ⟨more, hmore⟩ := (List.dropLast_prefix _).trans (trimBlank_lead p.segments)
          rw [← hmore, hinit]
          rfl
        refine isAbsolute_intercalate_cons ?_ ?_ _
        · rintro rfl
          exact hfirst hhead
        · exact not_mem_of_mem_segments (List.mem_of_mem_head? hhead)

end

end Path

end AddonBuild
