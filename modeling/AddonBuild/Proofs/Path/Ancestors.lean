import AddonBuild.Proofs.Path.Slashes

/-!
# The parents of a path

The parents of a path take the first of its steps. An absolute path is its segments behind the root,
and each of its parents is a part of them that ends in a segment which is not blank.
-/

namespace AddonBuild

namespace Path

lemma segments_of_slashes {p : Path} {segments : List String} (hne : segments ≠ [])
    (hslash : ∀ segment ∈ segments, '/' ∉ segment.toList)
    (h : p.text.toList = slashes segments) : p.segments = "" :: segments := by
  have htext : p.text.toList = '/' :: ['/'].intercalate (segments.map String.toList) := by
    rw [h, ← toList_ofSplit_root hne, ofSplit, String.toList_append, String.toList_intercalate]
    rfl
  have hsplit : splitSlashes (['/'].intercalate (segments.map String.toList)) =
      segments.map String.toList :=
    splitSlashes_intercalate (by simpa using hne) (by simpa using hslash)
  rw [Path.segments, htext, splitSlashes_slash, hsplit, List.map_cons, List.map_map]
  simp

lemma segments_ofSplit_root {body : List String} (hne : body ≠ [])
    (hslash : ∀ segment ∈ body, '/' ∉ segment.toList) :
    (ofSplit .root body).segments = "" :: body :=
  segments_of_slashes hne hslash (toList_ofSplit_root hne)

lemma ofSplit_tail {p : Path} (h : p.isAbsolute = true) : ofSplit .root p.segments.tail = p := by
  obtain ⟨-, hne, htext⟩ := segments_of_isAbsolute h
  exact congrArg Path.mk (String.toList_injective ((toList_ofSplit_root hne).trans htext.symm))

lemma trimBlank_of_last {init : List String} {last : String} (h : isBlank last = false) :
    trimBlank (init ++ [last]) = init ++ [last] := by
  simp [trimBlank, h]

lemma trimBlank_trimBlank (body : List String) : trimBlank (trimBlank body) = trimBlank body := by
  rcases List.eq_nil_or_concat (trimBlank body) with h | ⟨init, last, h⟩
  · rw [h]
    rfl
  · rw [List.concat_eq_append] at h
    rw [h, trimBlank_of_last (isBlank_of_trimBlank_eq h)]

lemma parentsOf_root_nil {rest : List String} (h : trimBlank rest = []) :
    parentsOf .root rest = [] := by
  unfold parentsOf
  split
  · rfl
  · next hcons =>
    rw [h] at hcons
    cases hcons

/-- The nearest parent, and the ones above it. -/
lemma parentsOf_root_concat {rest init : List String} {last : String}
    (h : trimBlank rest = init ++ [last]) :
    parentsOf .root rest =
      ofSplit .root (trimBlank init) :: parentsOf .root (trimBlank init) := by
  conv_lhs => unfold parentsOf
  split
  · next hnil =>
    rw [h] at hnil
    simp at hnil
  · next first others hcons =>
    have heq : init ++ [last] = first :: others := h.symm.trans hcons
    simp only [← heq, List.dropLast_concat]

/-- What holds of a path and passes from what ends in a segment that is not blank to its parent
holds of all parents. -/
lemma forall_parentsOf_root {R : List String → Prop}
    (hparent : ∀ init last, R (init ++ [last]) → R (trimBlank init)) {rest : List String}
    (hrest : R (trimBlank rest)) {p : Path} (hp : p ∈ parentsOf .root rest) :
    ∃ body, R body ∧ p = ofSplit .root body := by
  induction hn : (trimBlank rest).length using Nat.strongRecOn generalizing rest with
  | ind n ih =>
    rcases List.eq_nil_or_concat (trimBlank rest) with hnil | ⟨init, last, hconcat⟩
    · rw [parentsOf_root_nil hnil] at hp
      cases hp
    · rw [List.concat_eq_append] at hconcat
      rw [parentsOf_root_concat hconcat] at hp
      have hinit := hparent init last (hconcat ▸ hrest)
      rcases List.mem_cons.mp hp with rfl | hp
      · exact ⟨trimBlank init, hinit, rfl⟩
      · refine ih (trimBlank init).length ?_ ((trimBlank_trimBlank init).symm ▸ hinit) hp
          (by rw [trimBlank_trimBlank])
        have hle := length_trimBlank_le init
        rw [← hn, hconcat, List.length_append, List.length_singleton]
        omega

lemma isAbsolute_of_mem_ancestors {p q : Path} (hp : p.isAbsolute = true)
    (hq : q ∈ p.ancestors) : q.isAbsolute = true := by
  rcases List.mem_cons.mp hq with rfl | hq
  · exact hp
  · have hsplit : p.split = (.root, p.segments.tail) := if_pos hp
    rw [hsplit] at hq
    obtain ⟨body, -, rfl⟩ := forall_parentsOf_root (R := fun _ => True) (fun _ _ _ => trivial)
      trivial hq
    exact isAbsolute_ofSplit_root body

lemma way_of_mem_parentsOf {lead : Lead} {body : List String}
    (hslash : ∀ segment ∈ body, '/' ∉ segment.toList) {q : Path} (hq : q ∈ parentsOf lead body) :
    q.way <+: body.filterMap Component.ofSegment? := by
  induction hn : body.length using Nat.strongRecOn generalizing body with
  | ind n ih =>
    unfold parentsOf at hq
    split at hq
    · split_ifs at hq
      · rw [List.mem_singleton.mp hq]
        exact List.nil_prefix
      · cases hq
    · next segment rest hbody =>
      have habove : (trimBlank (segment :: rest).dropLast).filterMap Component.ofSegment? <+:
          body.filterMap Component.ofSegment? := by
        rw [filterMap_trimBlank, ← hbody, filterMap_dropLast_trimBlank]
        exact List.dropLast_prefix _
      have hmem : trimBlank (segment :: rest).dropLast ⊆ body := fun x hx => by
        apply mem_of_mem_trimBlank
        rw [hbody]
        exact List.dropLast_subset _ (mem_of_mem_trimBlank hx)
      have hlength : (trimBlank (segment :: rest).dropLast).length < n := by
        have hkept := length_trimBlank_le body
        have hdropped := length_trimBlank_le (segment :: rest).dropLast
        rw [hbody] at hkept
        simp only [List.length_dropLast, List.length_cons] at hkept hdropped
        omega
      rcases List.mem_cons.mp hq with rfl | hq
      · rw [way_ofSplit lead fun x hx => hslash x (hmem hx)]
        exact habove
      · exact (ih _ hlength (fun x hx => hslash x (hmem hx)) hq rfl).trans habove

/-- The parents of a path take the first of its steps. -/
lemma way_of_mem_ancestors {p q : Path} (hq : q ∈ p.ancestors) : q.way <+: p.way := by
  rcases List.mem_cons.mp hq with rfl | hq
  · exact List.prefix_refl _
  · rw [← filterMap_split p]
    exact way_of_mem_parentsOf (fun _ => not_mem_of_mem_split) hq

end Path

end AddonBuild
