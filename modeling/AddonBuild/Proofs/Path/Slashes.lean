import AddonBuild.Proofs.Path.Cleaning
import Mathlib.Data.List.Basic
import Mathlib.Data.List.Induction

/-!
# How absolute paths are written

An absolute path is written as its segments with a slash in front of each. The path of a file is
written no shorter than the path of its directory and the name of the file behind that.
-/

namespace AddonBuild

namespace Path

/-- Segments with a slash in front of each. -/
def slashes (segments : List String) : List Char :=
  segments.flatMap fun segment => '/' :: segment.toList

lemma slashes_append (first second : List String) :
    slashes (first ++ second) = slashes first ++ slashes second :=
  List.flatMap_append

lemma slashes_singleton (segment : String) : slashes [segment] = '/' :: segment.toList := by
  simp [slashes]

lemma slashes_eq_nil_or (segments : List String) :
    slashes segments = [] ∨ (slashes segments).head? = some '/' := by
  cases segments with
  | nil => exact .inl rfl
  | cons segment segments => exact .inr rfl

lemma flatMap_splitSlashes (s : List Char) : (splitSlashes s).flatMap ('/' :: ·) = '/' :: s := by
  induction s with
  | nil => rfl
  | cons c s ih =>
    obtain ⟨piece, pieces, hs⟩ := List.exists_cons_of_ne_nil (splitSlashes_ne_nil s)
    by_cases hc : c = '/'
    · rw [hc, splitSlashes_slash, List.flatMap_cons, ih]
      rfl
    · rw [hs, List.flatMap_cons, List.cons_append, List.cons.injEq] at ih
      rw [splitSlashes_cons hc hs, List.flatMap_cons, List.cons_append, List.cons_append, ih.2]

lemma slashes_segments (name : String) : slashes (segments ⟨name⟩) = '/' :: name.toList := by
  rw [slashes, segments, List.flatMap_map, ← flatMap_splitSlashes]
  simp

lemma segments_of_isAbsolute {p : Path} (h : p.isAbsolute = true) :
    p.segments = "" :: p.segments.tail ∧ p.segments.tail ≠ [] ∧
      p.text.toList = slashes p.segments.tail := by
  obtain ⟨s, hs⟩ := exists_of_isAbsolute h
  have hsegments : p.segments = "" :: (splitSlashes s).map String.ofList := by
    rw [segments, hs, splitSlashes_slash]
    rfl
  have hslashes : slashes ((splitSlashes s).map String.ofList) = '/' :: s := by
    rw [slashes, List.flatMap_map, ← flatMap_splitSlashes]
    simp
  rw [hsegments, List.tail_cons, hslashes, hs]
  exact ⟨rfl, by simpa using splitSlashes_ne_nil s, rfl⟩

lemma text_ne_of_isAbsolute {p : Path} (h : p.isAbsolute = true) : p.text ≠ "" := by
  obtain ⟨s, hs⟩ := exists_of_isAbsolute h
  rw [← String.toList_eq_nil_iff.ne, hs]
  simp

/-- Behind the root, segments are written with a slash in front of each. -/
lemma toList_ofSplit_root {body : List String} (h : body ≠ []) :
    (ofSplit .root body).text.toList = slashes body := by
  rw [ofSplit, String.toList_append, String.toList_intercalate]
  induction body with
  | nil => exact absurd rfl h
  | cons first rest ih =>
    cases rest with
    | nil => simp [slashes, List.intercalate]
    | cons second rest =>
      have ih := ih (by simp)
      rw [slashes, List.flatMap_cons, ← slashes, ← ih]
      simp [List.intercalate]

/-- A name is written behind the slash that a path ends in, or behind one more. -/
lemma toList_child {p : Path} {name : String} (hp : p.text ≠ "")
    (hname : isAbsolute ⟨name⟩ = false) :
    (p.child name).text.toList =
      if p.text.toList.getLast? = some '/' then p.text.toList ++ name.toList
      else p.text.toList ++ '/' :: name.toList := by
  rw [child, join, if_neg (by simp [hname])]
  split_ifs with hend hlast hlast
  · exact String.toList_append
  · exact absurd (by simpa [hp] using hend) hlast
  · exact absurd (by simp [hlast]) hend
  · rw [String.toList_append, String.toList_append, List.append_assoc]
    rfl

lemma getLast?_slashes {init : List String} {last : String} (hne : last ≠ "")
    (hslash : '/' ∉ last.toList) : (slashes (init ++ [last])).getLast? ≠ some '/' := by
  have hne : last.toList ≠ [] := mt String.toList_eq_nil_iff.mp hne
  rw [slashes_append, slashes_singleton, ← List.singleton_append, ← List.append_assoc,
    List.getLast?_append_of_ne_nil _ hne]
  intro h
  exact hslash (List.mem_of_getLast? h)

/-- A path from the root down some names is written with a slash in front of each. -/
lemma toList_ofComponents_root {names : List String}
    (h : ∀ c ∈ names.map Component.name, c.IsStep) (hne : names ≠ []) :
    (ofComponents (.root :: names.map .name)).text.toList = slashes names := by
  induction names using List.reverseRecOn with
  | nil => exact absurd rfl hne
  | append_singleton init last ih =>
    rw [List.map_append] at h ⊢
    have hlast : (Component.name last).IsStep :=
      h _ (List.mem_append_right _ List.mem_cons_self)
    have hinit : ∀ c ∈ init.map Component.name, c.IsStep :=
      fun c hc => h c (List.mem_append_left _ hc)
    have hrelative : isAbsolute ⟨last⟩ = false := hlast.isAbsolute_text
    have htext : (ofComponents (.root :: init.map .name)).text ≠ "" :=
      text_ne_of_isAbsolute (isAbsolute_ofComponents_root (init.map .name))
    rw [List.map_singleton, ← List.cons_append, ofComponents_concat,
      toList_child htext hrelative, slashes_append, slashes_singleton]
    rcases List.eq_nil_or_concat init with rfl | ⟨first, second, rfl⟩
    · have hroot : (ofComponents (.root :: List.map .name [])).text.toList = ['/'] := rfl
      rw [hroot]
      rfl
    · rw [List.concat_eq_append] at hinit ih ⊢
      have hsecond : (Component.name second).IsStep := by
        apply hinit
        rw [List.map_append]
        exact List.mem_append_right _ List.mem_cons_self
      rw [ih hinit (by simp), if_neg (getLast?_slashes hsecond.2.1 hsecond.1)]

/-- The names with a slash in front of each are the way of that text. -/
lemma way_slashes {names : List String} (h : ∀ c ∈ names.map Component.name, c.IsStep) :
    way ⟨String.ofList (slashes names)⟩ = names.map .name := by
  by_cases hne : names = []
  · rw [hne]
    rfl
  · rw [← toList_ofComponents_root h hne, String.ofList_toList]
    exact way_ofComponents_root h

end Path

end AddonBuild
