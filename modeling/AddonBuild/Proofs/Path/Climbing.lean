import AddonBuild.Proofs.Path.Ancestors
import Mathlib.Data.List.Infix
import Mathlib.Data.List.Nodup

/-!
# Climbing to the root

An absolute path is followed by its parents up to the root, each the parent of the one before it. A
search that climbs tests every one of them until one passes. It makes no more tests than the path
has components, and ends at the deepest of the paths that pass.
-/

namespace AddonBuild

namespace Path

variable {p q start : Path} {test : Path → Bool}

/-! ### The parents of an absolute path -/

lemma parentsOf_segments_ofSplit {body : List String}
    (hslash : ∀ segment ∈ body, '/' ∉ segment.toList) :
    parentsOf .root (ofSplit .root body).segments.tail = parentsOf .root body := by
  by_cases hne : body = []
  · have hblank : trimBlank (ofSplit .root []).segments.tail = [] := by with_unfolding_all rfl
    have hnil : trimBlank [] = [] := rfl
    rw [hne, parentsOf_root_nil hblank, parentsOf_root_nil hnil]
  · rw [segments_ofSplit_root hne hslash, List.tail_cons]

lemma ancestors_of_isAbsolute (h : p.isAbsolute = true) :
    p.ancestors = p :: parentsOf .root p.segments.tail := by
  rw [ancestors, show p.split = (.root, p.segments.tail) from if_pos h]

/-- An absolute path without steps has no parent. Any other has one that lacks its last step, and
the paths above it are its parent and those above that. -/
lemma parent_cases (h : p.isAbsolute = true) :
    (p.parent? = none ∧ p.way = [] ∧ p.ancestors = [p]) ∨
    ∃ q c, p.parent? = some q ∧ q.isAbsolute = true ∧ p.way = q.way ++ [c] ∧
      p.ancestors = p :: q.ancestors := by
  have hsplit : p.split = (.root, p.segments.tail) := if_pos h
  have hway := filterMap_split p
  rw [hsplit, ← filterMap_trimBlank] at hway
  rcases List.eq_nil_or_concat (trimBlank p.segments.tail) with hnil | ⟨init, last, hconcat⟩
  · refine .inl ⟨?_, by rw [← hway, hnil]; rfl, ?_⟩
    · rw [parent?, hsplit]
      simp [hnil]
    · rw [ancestors_of_isAbsolute h, parentsOf_root_nil hnil]
  · rw [List.concat_eq_append] at hconcat
    have hslash : ∀ segment ∈ trimBlank init, '/' ∉ segment.toList := fun segment hmem => by
      apply not_mem_of_mem_segments (p := p)
      apply List.mem_of_mem_tail
      apply mem_of_mem_trimBlank
      rw [hconcat]
      exact List.mem_append_left _ (mem_of_mem_trimBlank hmem)
    have habsolute := isAbsolute_ofSplit_root (trimBlank init)
    obtain ⟨c, hc⟩ := exists_ofSegment?_eq_some (isBlank_of_trimBlank_eq hconcat)
    refine .inr ⟨ofSplit .root (trimBlank init), c, ?_, habsolute, ?_, ?_⟩
    · obtain ⟨first, rest, hcons⟩ := List.exists_cons_of_ne_nil (l := init ++ [last]) (by simp)
      rw [parent?, hsplit]
      simp only [hconcat, hcons]
      rw [← hcons, List.dropLast_concat]
    · rw [← hway, hconcat, List.filterMap_append, List.filterMap_cons_some hc,
        way_ofSplit .root hslash, filterMap_trimBlank]
      rfl
    · rw [ancestors_of_isAbsolute h, parentsOf_root_concat hconcat,
        ancestors_of_isAbsolute habsolute, parentsOf_segments_ofSplit hslash]

/-- The paths from which one climbs, from parent to parent, to a root. -/
inductive Climbable : Path → Prop where
  | root {p : Path} (hparent : p.parent? = none) (hway : p.way = [])
      (hancestors : p.ancestors = [p]) : Climbable p
  | child {p q : Path} {c : Component} (hparent : p.parent? = some q)
      (hway : p.way = q.way ++ [c]) (hancestors : p.ancestors = p :: q.ancestors)
      (above : Climbable q) : Climbable p

lemma climbable (h : p.isAbsolute = true) : Climbable p := by
  induction hn : p.way.length generalizing p with
  | zero =>
    obtain ⟨hparent, hway, hancestors⟩ | ⟨q, c, -, -, hway, -⟩ := parent_cases h
    · exact .root hparent hway hancestors
    · simp [hway] at hn
  | succ n ih =>
    obtain ⟨-, hway, -⟩ | ⟨q, c, hparent, hq, hway, hancestors⟩ := parent_cases h
    · simp [hway] at hn
    · refine .child hparent hway hancestors (ih hq ?_)
      simpa [hway] using hn

lemma Climbable.map_way_ancestors (h : p.Climbable) :
    p.ancestors.map way = p.way.inits.reverse := by
  induction h with
  | root hparent hway hancestors =>
    rw [hancestors, List.map_singleton, hway]
    rfl
  | @child p q c hparent hway hancestors above ih =>
    rw [hancestors, List.map_cons, ih, hway, List.inits_append]
    simp

/-- An absolute path and those above it take the first of its steps: all of them, then one less
each time, down to the root alone. -/
lemma map_components_ancestors (h : p.isAbsolute = true) :
    p.ancestors.map components = p.components.inits.tail.reverse := by
  have hcomponents : p.ancestors.map components = (p.ancestors.map way).map (.root :: ·) := by
    rw [List.map_map]
    exact List.map_congr_left fun q hq =>
      components_of_isAbsolute (isAbsolute_of_mem_ancestors h hq)
  rw [hcomponents, (climbable h).map_way_ancestors, components_of_isAbsolute h, List.map_reverse]
  simp

/-- Every path is below the ones behind it among the paths above. -/
lemma Climbable.pairwise_ancestors (h : p.Climbable) :
    p.ancestors.Pairwise fun q above => above.way <+: q.way ∧ above.way ≠ q.way := by
  induction h with
  | root hparent hway hancestors =>
    rw [hancestors]
    exact List.pairwise_singleton _ _
  | @child p q c hparent hway hancestors above ih =>
    rw [hancestors]
    refine List.pairwise_cons.mpr ⟨fun r hr => ?_, ih⟩
    have hlead := way_of_mem_ancestors hr
    refine ⟨hlead.trans (hway ▸ List.prefix_append _ _), fun heq => ?_⟩
    have hlength := hlead.length_le
    rw [heq, hway, List.length_append, List.length_singleton] at hlength
    omega

/-- Of the paths above an absolute path, each takes other steps than the rest. -/
lemma eq_of_mem_ancestors {r : Path} (h : p.isAbsolute = true) (hq : q ∈ p.ancestors)
    (hr : r ∈ p.ancestors) (hway : q.way = r.way) : q = r := by
  have hnodup : (p.ancestors.map way).Nodup :=
    List.pairwise_map.mpr ((climbable h).pairwise_ancestors.imp fun hbelow => hbelow.2.symm)
  exact List.inj_on_of_nodup_map hnodup hq hr hway

/-! ### Searching upwards -/

/-- The run of a search from a path upwards that ends at the first path that passes a test or has
no parent: how many paths it tests, and what it finds. -/
inductive Climbs (test : Path → Bool) : Path → Nat → Option Path → Prop where
  | found {p : Path} (hpass : test p = true) : Climbs test p 1 (some p)
  | up {p q : Path} {n : Nat} {answer : Option Path} (hfail : test p = false)
      (hparent : p.parent? = some q) (hmore : Climbs test q n answer) :
      Climbs test p (n + 1) answer
  | top {p : Path} (hfail : test p = false) (hparent : p.parent? = none) : Climbs test p 1 none

/-- To search among a path and those above it is to climb. -/
lemma Climbable.exists_climbs (test : Path → Bool) (h : p.Climbable) :
    ∃ n ≤ p.way.length + 1, Climbs test p n (p.ancestors.find? test) := by
  induction h with
  | @root p hparent hway hancestors =>
    rw [hancestors]
    refine ⟨1, by simp, ?_⟩
    cases htest : test p with
    | true => rw [List.find?_cons_of_pos htest]; exact .found htest
    | false => rw [List.find?_cons_of_neg (by simp [htest])]; exact .top htest hparent
  | @child p q c hparent hway hancestors above ih =>
    rw [hancestors, hway, List.length_append, List.length_singleton]
    cases htest : test p with
    | true =>
      rw [List.find?_cons_of_pos htest]
      exact ⟨1, by omega, .found htest⟩
    | false =>
      rw [List.find?_cons_of_neg (by simp [htest])]
      obtain ⟨n, hn, hclimbs⟩ := ih
      exact ⟨n + 1, by omega, .up htest hparent hclimbs⟩

/-- The deepest path that passes a test, among a path and those above it. -/
structure Nearest (test : Path → Bool) (start q : Path) : Prop where
  mem : q ∈ start.ancestors
  passes : test q = true
  deepest : ∀ p ∈ start.ancestors, test p = true → p.components <+: q.components

/-- A search among a path and those above it finds the deepest one that passes. -/
lemma find?_ancestors_eq_some (h : start.isAbsolute = true) :
    start.ancestors.find? test = some q ↔ Nearest test start q := by
  have hcomponents {r r' : Path} (hr : r ∈ start.ancestors) (hr' : r' ∈ start.ancestors) :
      r.components <+: r'.components ↔ r.way <+: r'.way := by
    rw [components_of_isAbsolute (isAbsolute_of_mem_ancestors h hr),
      components_of_isAbsolute (isAbsolute_of_mem_ancestors h hr'), List.prefix_cons_inj]
  have hfound {r : Path} (hfind : start.ancestors.find? test = some r) : Nearest test start r := by
    obtain ⟨hpass, before, after, hsplit, hfail⟩ := List.find?_eq_some_iff_append.mp hfind
    have hr := List.mem_of_find?_eq_some hfind
    have hbelow := (climbable h).pairwise_ancestors
    rw [hsplit, List.pairwise_append, List.pairwise_cons] at hbelow
    refine ⟨hr, hpass, fun p hp htest => (hcomponents hp hr).mpr ?_⟩
    rcases List.mem_append.mp (hsplit ▸ hp) with hp | hp
    · exact absurd htest (by simpa using hfail p hp)
    · rcases List.mem_cons.mp hp with rfl | hp
      · exact List.prefix_refl _
      · exact (hbelow.2.1.1 p hp).1
  refine ⟨hfound, fun ⟨hq, hpass, hdeepest⟩ => ?_⟩
  obtain ⟨r, hr⟩ := Option.isSome_iff_exists.mp (List.find?_isSome.mpr ⟨q, hq, hpass⟩)
  obtain ⟨hmem, hrpass, hrdeepest⟩ := hfound hr
  have hle := (hcomponents hmem hq).mp (hdeepest r hmem hrpass)
  have hge := (hcomponents hq hmem).mp (hrdeepest q hq hpass)
  have hway := hle.eq_of_length (le_antisymm hle.length_le hge.length_le)
  rw [hr, eq_of_mem_ancestors h hmem hq hway]

/-- What a search upwards comes to: the deepest path that passes, or nothing if none does, after at
most one test for every component of the path that it starts from. -/
structure FindsNearest (test : Path → Bool) (start : Path) (answer : Option Path) : Prop where
  found : ∀ q, answer = some q ↔ Nearest test start q
  missing : answer = none ↔ ∀ q ∈ start.ancestors, test q = false
  steps : ∃ n ≤ start.components.length, Climbs test start n answer

lemma findsNearest (test : Path → Bool) (h : start.isAbsolute = true) :
    FindsNearest test start (start.ancestors.find? test) where
  found q := find?_ancestors_eq_some h
  missing := by simp
  steps := by
    rw [components_of_isAbsolute h]
    exact (climbable h).exists_climbs test

end Path

end AddonBuild
