import AddonBuild.Path.Basic
import Mathlib.Tactic.Lemma
import Mathlib.Tactic.SplitIfs

/-!
# Segments and steps

The components of a path are its lead and the steps that its segments stand for. Joining puts the
steps of two paths one behind the other, whatever slashes and dots they are written with, and the
directory of an absolute path lacks its last step.
-/

namespace AddonBuild

namespace Path

/-! ### Pieces between slashes -/

lemma splitSlashes_ne_nil (s : List Char) : splitSlashes s ≠ [] := by
  cases s with
  | nil => simp [splitSlashes]
  | cons c s =>
    rw [splitSlashes]
    split
    · simp
    · split_ifs <;> simp

lemma splitSlashes_slash (s : List Char) : splitSlashes ('/' :: s) = [] :: splitSlashes s := by
  rw [splitSlashes]
  split
  · next h => exact absurd h (splitSlashes_ne_nil s)
  · next h => rw [h]; rfl

lemma splitSlashes_cons {c : Char} (hc : c ≠ '/') {s piece : List Char} {pieces : List (List Char)}
    (h : splitSlashes s = piece :: pieces) : splitSlashes (c :: s) = (c :: piece) :: pieces := by
  rw [splitSlashes, h]
  exact if_neg hc

lemma splitSlashes_append (s t : List Char) :
    splitSlashes (s ++ '/' :: t) = splitSlashes s ++ splitSlashes t := by
  induction s with
  | nil => exact splitSlashes_slash t
  | cons c s ih =>
    obtain ⟨piece, pieces, hs⟩ := List.exists_cons_of_ne_nil (splitSlashes_ne_nil s)
    rw [hs, List.cons_append] at ih
    by_cases hc : c = '/'
    · rw [hc, List.cons_append, splitSlashes_slash, splitSlashes_slash, ih, hs]
      rfl
    · rw [List.cons_append, splitSlashes_cons hc ih, splitSlashes_cons hc hs]
      rfl

lemma splitSlashes_of_not_mem {s : List Char} (h : '/' ∉ s) : splitSlashes s = [s] := by
  induction s with
  | nil => rfl
  | cons c s ih =>
    obtain ⟨hc, hs⟩ := not_or.mp (mt List.mem_cons.mpr h)
    exact splitSlashes_cons (Ne.symm hc) (ih hs)

lemma not_mem_of_mem_splitSlashes {s piece : List Char} (h : piece ∈ splitSlashes s) :
    '/' ∉ piece := by
  induction s generalizing piece with
  | nil =>
    obtain rfl := List.mem_singleton.mp h
    simp
  | cons c s ih =>
    obtain ⟨first, pieces, hs⟩ := List.exists_cons_of_ne_nil (splitSlashes_ne_nil s)
    rw [hs] at ih
    by_cases hc : c = '/'
    · rw [hc, splitSlashes_slash, hs] at h
      rcases List.mem_cons.mp h with rfl | h
      · simp
      · exact ih h
    · rw [splitSlashes_cons hc hs] at h
      rcases List.mem_cons.mp h with rfl | h
      · rw [List.mem_cons, not_or]
        exact ⟨Ne.symm hc, ih List.mem_cons_self⟩
      · exact ih (List.mem_cons_of_mem _ h)

/-- A text without a slash is one segment. -/
lemma segments_of_not_mem {text : String} (h : '/' ∉ text.toList) : segments ⟨text⟩ = [text] := by
  rw [segments, splitSlashes_of_not_mem h, List.map_singleton, String.ofList_toList]

/-! ### Lead and steps -/

/-- The component that a path starts with, if it is the root or a leading dot. -/
def lead (p : Path) : List Component :=
  p.split.1.components

/-- The steps of a path behind its lead. -/
def way (p : Path) : List Component :=
  p.segments.filterMap Component.ofSegment?

/-- What stands for a step: two dots, or a name that is neither empty nor dots. -/
def Component.IsStep : Component → Prop
  | .root => False
  | .here => False
  | .up => True
  | .name text => '/' ∉ text.toList ∧ text ≠ "" ∧ text ≠ "." ∧ text ≠ ".."

instance : DecidablePred Component.IsStep
  | .root | .here => .isFalse id
  | .up => .isTrue trivial
  | .name text =>
    inferInstanceAs (Decidable ('/' ∉ text.toList ∧ text ≠ "" ∧ text ≠ "." ∧ text ≠ ".."))

lemma ofSegment?_of_isStep {c : Component} (h : c.IsStep) :
    Component.ofSegment? c.text = some c := by
  cases c with
  | root | here => exact h.elim
  | up => rfl
  | name text =>
    obtain ⟨-, hne, hdot, hdots⟩ := h
    simp [Component.ofSegment?, Component.text, isBlank, hne, hdot, hdots]

lemma isStep_of_mem_way {p : Path} {c : Component} (h : c ∈ p.way) : c.IsStep := by
  obtain ⟨segment, hmem, hc⟩ := List.mem_filterMap.mp h
  obtain ⟨piece, hpiece, rfl⟩ := List.mem_map.mp hmem
  unfold Component.ofSegment? at hc
  split_ifs at hc with hblank hup
  · obtain rfl := Option.some.inj hc
    trivial
  · obtain rfl := Option.some.inj hc
    simp only [isBlank, Bool.or_eq_true, decide_eq_true_eq, not_or] at hblank
    refine ⟨?_, hblank.1, hblank.2, hup⟩
    rw [String.toList_ofList]
    exact not_mem_of_mem_splitSlashes hpiece

lemma segments_ne_nil (p : Path) : p.segments ≠ [] :=
  mt List.map_eq_nil_iff.mp (splitSlashes_ne_nil _)

lemma exists_of_isAbsolute {p : Path} (h : p.isAbsolute = true) : ∃ s, p.text.toList = '/' :: s :=
  List.head?_eq_some_iff.mp (beq_iff_eq.mp h)

lemma isAbsolute_iff {p : Path} : p.isAbsolute = true ↔ p.text.toList.head? = some '/' :=
  beq_iff_eq

/-- The segment that a lead is written as stands for no step. -/
lemma filterMap_split (p : Path) : p.split.2.filterMap Component.ofSegment? = p.way := by
  obtain ⟨first, rest, hs⟩ := List.exists_cons_of_ne_nil p.segments_ne_nil
  rw [split, way, hs]
  split_ifs with habs hhere
  · obtain ⟨s, ht⟩ := exists_of_isAbsolute habs
    rw [segments, ht, splitSlashes_slash] at hs
    obtain ⟨rfl, -⟩ := List.cons.inj hs
    rfl
  · obtain rfl : first = "." := Option.some.inj hhere
    rfl
  · rfl

lemma components_eq (p : Path) : p.components = p.lead ++ p.way := by
  rw [components, filterMap_split]
  rfl

lemma lead_of_isAbsolute {p : Path} (h : p.isAbsolute = true) : p.lead = [.root] := by
  rw [lead, split, if_pos h]
  rfl

lemma components_of_isAbsolute {p : Path} (h : p.isAbsolute = true) :
    p.components = .root :: p.way := by
  rw [components_eq, lead_of_isAbsolute h]
  rfl

/-! ### Joining -/

lemma way_empty : way ⟨""⟩ = [] := rfl

lemma segments_slash (s t : String) :
    segments ⟨s ++ "/" ++ t⟩ = segments ⟨s⟩ ++ segments ⟨t⟩ := by
  have htext : (s ++ "/" ++ t).toList = s.toList ++ '/' :: t.toList := by simp
  rw [segments, htext, splitSlashes_append, List.map_append]
  rfl

lemma way_slash (s t : String) : way ⟨s ++ "/" ++ t⟩ = way ⟨s⟩ ++ way ⟨t⟩ := by
  rw [way, segments_slash, List.filterMap_append]
  rfl

/-- A path that ends in a slash takes the steps of what is before the slash. -/
lemma exists_of_getLast?_eq_slash {s : String} (h : s.toList.getLast? = some '/') :
    ∃ t : String, s = t ++ "/" := by
  obtain ⟨t, ht⟩ := List.getLast?_eq_some_iff.mp h
  refine ⟨String.ofList t, ?_⟩
  rw [← String.ofList_toList (s := s), ht, String.ofList_append]

lemma way_join (p : Path) {q : Path} (hq : q.isAbsolute = false) :
    (p.join q).way = p.way ++ q.way := by
  obtain ⟨s⟩ := p
  rw [join, if_neg (by simp [hq])]
  split_ifs with h
  · rcases Bool.or_eq_true _ _ ▸ h with hempty | hslash
    · have hs : s = "" := by simpa using hempty
      rw [hs, String.empty_append, way_empty]
      rfl
    · obtain ⟨t, rfl⟩ := exists_of_getLast?_eq_slash (by simpa using hslash)
      have ht := way_slash t ""
      rw [String.append_empty, way_empty, List.append_nil] at ht
      rw [way_slash, ht]
  · exact way_slash s q.text

lemma isAbsolute_join {p : Path} (hp : p.isAbsolute = true) (q : Path) :
    (p.join q).isAbsolute = true := by
  obtain ⟨s, hs⟩ := exists_of_isAbsolute hp
  rw [join]
  split_ifs with hq
  · exact hq
  · rw [isAbsolute_iff, String.toList_append, hs]
    rfl
  · rw [isAbsolute_iff, String.toList_append, String.toList_append, hs]
    rfl

/-! ### Directories -/

lemma splitSlashes_intercalate {pieces : List (List Char)} (hne : pieces ≠ [])
    (h : ∀ piece ∈ pieces, '/' ∉ piece) : splitSlashes (['/'].intercalate pieces) = pieces := by
  induction pieces with
  | nil => exact absurd rfl hne
  | cons piece pieces ih =>
    have hpiece := splitSlashes_of_not_mem (h piece List.mem_cons_self)
    cases pieces with
    | nil => simpa [List.intercalate] using hpiece
    | cons next pieces =>
      have ih := ih (by simp) fun q hq => h q (List.mem_cons_of_mem _ hq)
      have happ : ['/'].intercalate (piece :: next :: pieces) =
          piece ++ '/' :: ['/'].intercalate (next :: pieces) := by
        simp [List.intercalate]
      rw [happ, splitSlashes_append, hpiece, ih]
      rfl

lemma ofSegment?_of_isBlank {segment : String} (h : isBlank segment = true) :
    Component.ofSegment? segment = none :=
  if_pos h

lemma exists_ofSegment?_eq_some {segment : String} (h : isBlank segment = false) :
    ∃ c, Component.ofSegment? segment = some c := by
  rw [Component.ofSegment?, if_neg (by simp [h])]
  split_ifs <;> exact ⟨_, rfl⟩

lemma exists_trimBlank (body : List String) :
    ∃ blanks, body = trimBlank body ++ blanks ∧ ∀ segment ∈ blanks, isBlank segment = true := by
  refine ⟨(body.reverse.takeWhile isBlank).reverse, ?_, ?_⟩
  · rw [trimBlank, ← List.reverse_append, List.takeWhile_append_dropWhile, List.reverse_reverse]
  · intro segment h
    exact List.all_eq_true.mp List.all_takeWhile segment (List.mem_reverse.mp h)

lemma mem_of_mem_trimBlank {body : List String} {segment : String}
    (h : segment ∈ trimBlank body) : segment ∈ body := by
  obtain ⟨blanks, hbody, -⟩ := exists_trimBlank body
  rw [hbody]
  exact List.mem_append_left _ h

lemma filterMap_trimBlank (body : List String) :
    (trimBlank body).filterMap Component.ofSegment? = body.filterMap Component.ofSegment? := by
  obtain ⟨blanks, hbody, hblanks⟩ := exists_trimBlank body
  have hnone : blanks.filterMap Component.ofSegment? = [] := by
    rw [List.filterMap_eq_nil_iff]
    intro segment h
    exact ofSegment?_of_isBlank (hblanks segment h)
  have h := congrArg (List.filterMap Component.ofSegment?) hbody
  rw [List.filterMap_append, hnone, List.append_nil] at h
  exact h.symm

lemma isBlank_of_trimBlank_eq {body init : List String} {last : String}
    (h : trimBlank body = init ++ [last]) : isBlank last = false := by
  have hhead := List.head?_dropWhile_not isBlank body.reverse
  have hrev : body.reverse.dropWhile isBlank = last :: init.reverse := by
    have := congrArg List.reverse h
    simpa [trimBlank] using this
  rw [hrev] at hhead
  simpa using hhead

/-- Without its last segment that is not blank, a body takes all steps but the last. -/
lemma filterMap_dropLast_trimBlank (body : List String) :
    (trimBlank body).dropLast.filterMap Component.ofSegment? =
      (body.filterMap Component.ofSegment?).dropLast := by
  rw [← filterMap_trimBlank body]
  rcases List.eq_nil_or_concat (trimBlank body) with h | ⟨init, last, h⟩
  · rw [h]
    rfl
  · rw [List.concat_eq_append] at h
    obtain ⟨c, hc⟩ := exists_ofSegment?_eq_some (isBlank_of_trimBlank_eq h)
    rw [h, List.dropLast_concat, List.filterMap_append, List.filterMap_cons_some hc,
      List.filterMap_nil, List.dropLast_concat]

lemma way_intercalate {body : List String} (h : ∀ segment ∈ body, '/' ∉ segment.toList) :
    way ⟨"/".intercalate body⟩ = body.filterMap Component.ofSegment? := by
  cases body with
  | nil => rfl
  | cons first rest =>
    rw [way, segments, String.toList_intercalate]
    have hsplit : splitSlashes (['/'].intercalate ((first :: rest).map String.toList)) =
        (first :: rest).map String.toList :=
      splitSlashes_intercalate (by simp) (by simpa using h)
    rw [show "/".toList = ['/'] from rfl, hsplit, List.map_map]
    simp

/-- The lead that a path is written with takes no step. -/
lemma way_ofSplit (lead : Lead) {body : List String}
    (h : ∀ segment ∈ body, '/' ∉ segment.toList) :
    (ofSplit lead body).way = body.filterMap Component.ofSegment? := by
  have hslash (first : String) (hfirst : way ⟨first⟩ = []) :
      way ⟨first ++ "/" ++ "/".intercalate body⟩ = body.filterMap Component.ofSegment? := by
    rw [way_slash, hfirst, way_intercalate h]
    rfl
  cases lead with
  | root => exact hslash "" rfl
  | none => exact way_intercalate h
  | here =>
    rw [ofSplit]
    split_ifs with hempty
    · rw [List.isEmpty_iff.mp hempty]
      rfl
    · exact hslash "." rfl

lemma isAbsolute_ofSplit_root (body : List String) : (ofSplit .root body).isAbsolute = true := by
  rw [isAbsolute_iff, ofSplit, String.toList_append]
  rfl

lemma not_mem_of_mem_segments {p : Path} {segment : String} (h : segment ∈ p.segments) :
    '/' ∉ segment.toList := by
  obtain ⟨piece, hpiece, rfl⟩ := List.mem_map.mp h
  rw [String.toList_ofList]
  exact not_mem_of_mem_splitSlashes hpiece

lemma not_mem_of_mem_split {p : Path} {segment : String} (h : segment ∈ p.split.2) :
    '/' ∉ segment.toList := by
  refine not_mem_of_mem_segments (p := p) ?_
  rw [split] at h
  split_ifs at h
  · exact List.mem_of_mem_tail h
  · exact List.mem_of_mem_tail h
  · exact h

/-- The parent of a path lacks the last step of the path, whatever stands in for a missing one. -/
lemma way_parent (p : Path) {base : Path} (hbase : base.way = []) :
    (p.parent?.getD base).way = p.way.dropLast := by
  rw [← filterMap_split p, ← filterMap_dropLast_trimBlank, parent?]
  dsimp only
  cases hbody : trimBlank p.split.2 with
  | nil =>
    dsimp only
    split_ifs
    · rfl
    · exact hbase
  | cons first rest =>
    rw [Option.getD_some, way_ofSplit, filterMap_trimBlank]
    intro segment hmem
    have hsplit : segment ∈ p.split.2 := by
      apply mem_of_mem_trimBlank
      rw [hbody]
      exact List.dropLast_subset _ (mem_of_mem_trimBlank hmem)
    exact not_mem_of_mem_split hsplit

/-- The directory of an absolute path lacks the last step of the path. -/
lemma directory_of_isAbsolute {p : Path} (h : p.isAbsolute = true) :
    p.directory.isAbsolute = true ∧ p.directory.way = p.way.dropLast := by
  refine ⟨?_, p.way_parent rfl⟩
  have hsplit : p.split = (.root, p.segments.tail) := if_pos h
  rw [directory, parent?, hsplit]
  dsimp only
  cases trimBlank p.segments.tail with
  | nil => rfl
  | cons first rest => exact isAbsolute_ofSplit_root _

end Path

end AddonBuild
