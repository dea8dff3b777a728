import AddonBuild.Proofs.Path.Slashes
import AddonBuild.Proofs.Path.Specifier

/-!
# Relative paths and their directories

A path that is made of steps has their texts with slashes between them, and the parent of a relative
path takes the steps of the path but for the last one.
-/

namespace AddonBuild

namespace Path

/-! ### The texts of steps -/

lemma slashes_ofComponents {l : List Component} (hl : ∀ c ∈ l, c.IsStep) (hne : l ≠ []) :
    '/' :: (ofComponents l).text.toList = slashes (l.map Component.text) := by
  induction l using List.reverseRecOn with
  | nil => exact absurd rfl hne
  | append_singleton init c ih =>
    obtain ⟨hinit, hc⟩ := List.forall_mem_append.mp hl
    have hc := hc c List.mem_cons_self
    have hconcat : ofComponents (init ++ [c]) = (ofComponents init).child c.text := by
      rw [ofComponents, List.foldl_append]
      rfl
    rw [hconcat, List.map_append, slashes_append, List.map_singleton, slashes_singleton]
    rcases List.eq_nil_or_concat init with rfl | ⟨before, last, rfl⟩
    · have hrelative : ¬ isAbsolute ⟨c.text⟩ = true := by simp [hc.isAbsolute_text]
      rw [child, join, if_neg hrelative]
      simp [ofComponents, slashes]
    · rw [List.concat_eq_append] at hinit ih ⊢
      have hlast := hinit last (List.mem_append_right _ List.mem_cons_self)
      have htext := ih hinit (by simp)
      rw [List.map_append, List.map_singleton] at htext ⊢
      have hend : (slashes (before.map Component.text ++ [last.text])).getLast? ≠ some '/' :=
        getLast?_slashes hlast.text_ne.1 hlast.not_mem_text
      rw [← htext] at hend ⊢
      have hne : (ofComponents (before ++ [last])).text ≠ "" := by
        intro hempty
        rw [hempty] at hend
        exact hend rfl
      rw [toList_child hne hc.isAbsolute_text, if_neg, List.cons_append]
      rwa [List.getLast?_cons_of_ne_nil (mt String.toList_eq_nil_iff.mp hne)] at hend

/-! ### Parents -/

lemma filter_components {p : Path} (h : p.isAbsolute = false) :
    p.components.filter (· ≠ .here) = p.way := by
  have hlead : p.lead.filter (· ≠ .here) = [] := by
    rw [lead, split, if_neg (by simp [h])]
    split_ifs <;> rfl
  rw [components_eq, List.filter_append, hlead, List.nil_append, List.filter_eq_self]
  intro c hc
  have hstep := isStep_of_mem_way hc
  cases c <;> first | exact hstep.elim | rfl

lemma cons_intercalate {body : List String} (hne : body ≠ []) :
    '/' :: ("/".intercalate body).toList = slashes body := by
  rw [← toList_ofSplit_root hne, ofSplit, String.toList_append]
  rfl

/-- The first of the segments of a relative path make a relative path. -/
lemma isAbsolute_intercalate {p : Path} (h : p.isAbsolute = false) {body : List String}
    (hbody : body <+: p.segments) : isAbsolute ⟨"/".intercalate body⟩ = false := by
  by_cases hne : body = []
  · rw [hne]
    rfl
  obtain ⟨rest, hrest⟩ := hbody
  have htext : '/' :: p.text.toList =
      '/' :: (("/".intercalate body).toList ++ slashes rest) := by
    rw [← List.cons_append, cons_intercalate hne, ← slashes_append, hrest]
    exact (slashes_segments p.text).symm
  rw [← Bool.not_eq_true, isAbsolute_iff] at h ⊢
  intro hhead
  obtain ⟨s, hs⟩ := List.head?_eq_some_iff.mp hhead
  rw [hs] at htext
  rw [(List.cons.inj htext).2] at h
  exact h rfl

lemma isAbsolute_ofSplit_here (body : List String) : (ofSplit .here body).isAbsolute = false := by
  rw [ofSplit]
  split_ifs
  · rfl
  · rw [← Bool.not_eq_true, isAbsolute_iff]
    simp

lemma trimBlank_lead (body : List String) : trimBlank body <+: body := by
  obtain ⟨blanks, hbody, -⟩ := exists_trimBlank body
  exact ⟨blanks, hbody.symm⟩

/-- The steps to the directory of a relative path. -/
lemma filter_components_parent {p : Path} (h : p.isAbsolute = false) :
    (p.parent?.getD ⟨""⟩).components.filter (· ≠ .here) = p.way.dropLast := by
  rw [filter_components, p.way_parent way_empty]
  rw [parent?, split, if_neg (by simp [h])]
  split_ifs with hhere
  · dsimp only
    cases trimBlank p.segments.tail with
    | nil => rfl
    | cons segment more => exact isAbsolute_ofSplit_here _
  · dsimp only
    have hlead := trimBlank_lead p.segments
    cases hbody : trimBlank p.segments with
    | nil => rfl
    | cons segment more =>
      rw [hbody] at hlead
      exact isAbsolute_intercalate h
        ((trimBlank_lead _).trans ((List.dropLast_prefix _).trans hlead))

/-- An empty first segment is what a path that starts with a slash has. -/
lemma isAbsolute_of_segments {p : Path} {more : List String} (h : p.segments = "" :: more)
    (hmore : more ≠ []) : p.isAbsolute = true := by
  obtain ⟨segment, rest, rfl⟩ := List.exists_cons_of_ne_nil hmore
  have htext := slashes_segments p.text
  rw [mk_text, h] at htext
  rw [isAbsolute_iff, ← (List.cons.inj htext).2]
  rfl

end Path

end AddonBuild
