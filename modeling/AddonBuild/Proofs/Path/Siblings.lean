import AddonBuild.Proofs.Path.Straight

/-!
# Siblings

Paths that differ in their last names alone are different, and neither is an ancestor of the other.
That is so as they are written and when they are cleaned, because a name at the end of a path stays
there.
-/

namespace AddonBuild

namespace Path

/-! ### Cleaned steps -/

lemma cleanComponents_append_names (l : List Component) (names : List String) :
    cleanComponents (l ++ names.map .name) = cleanComponents l ++ names.map .name := by
  rw [cleanComponents, List.foldl_append, foldl_cleanStep_names, List.reverse_append,
    List.reverse_reverse, cleanComponents]

lemma cleanComponents_append_name (l : List Component) (name : String) :
    cleanComponents (l ++ [.name name]) = cleanComponents l ++ [.name name] :=
  cleanComponents_append_names l [name]

/-- The steps of a path are what cleaning leaves of its components. -/
lemma steps_eq (p : Path) : p.steps = cleanComponents p.components := by
  have hclean : (p.clean.components).filter (· ≠ .here) =
      (cleanComponents p.components).filter (· ≠ .here) := by
    rcases components_clean_or p with h | ⟨hnil, hdot⟩
    · rw [h]
    · rw [hnil, hdot]
      rfl
  rw [steps, hclean, List.filter_eq_self]
  intro c hc
  rw [decide_eq_true_iff]
  rintro rfl
  exact here_not_mem_cleanComponents _ hc

/-! ### Joining names -/

lemma components_join {p q : Path} (hq : q.isAbsolute = false) (hlead : q.lead = []) :
    (p.join q).components = p.components ++ q.components := by
  by_cases hp : p.text = ""
  · obtain ⟨text⟩ := p
    obtain rfl : text = "" := hp
    rw [join, if_neg (by simp [hq]), if_pos (by simp), String.empty_append]
    rfl
  · rw [components_eq, lead_join hp hq, way_join p hq, components_eq p, components_eq q, hlead,
      List.append_assoc, List.nil_append]

lemma components_child {name : String} (h : (Component.name name).IsStep) (p : Path) :
    (p.child name).components = p.components ++ [.name name] := by
  have hrelative : isAbsolute ⟨name⟩ = false := h.isAbsolute_text
  have hlead : lead ⟨name⟩ = [] := h.lead_text
  have hway : way ⟨name⟩ = [.name name] := h.way_text
  have hcomponents : components ⟨name⟩ = [.name name] := by
    rw [components_eq, hlead, hway]
    rfl
  rw [child, components_join hrelative hlead, hcomponents]

/-! ### Last names that differ -/

/-- Neither of two paths is the other or an ancestor of the other, as they are written and when they
are cleaned. -/
structure Apart (p q : Path) : Prop where
  not_lead : ¬ p.components <+: q.components
  not_behind : ¬ q.components <+: p.components
  not_lead_clean : ¬ p.steps <+: q.steps
  not_behind_clean : ¬ q.steps <+: p.steps

lemma not_concat_prefix {α : Type} {l : List α} {a b : α} (h : a ≠ b) :
    ¬ l ++ [a] <+: l ++ [b] := by
  intro hlead
  exact h (List.singleton_inj.mp
    (List.append_cancel_left (hlead.eq_of_length (by simp))))

/-- A text with different suffixes makes paths that are apart. -/
lemma apart_withSuffix (p : Path) {first second : String} (hfirst : '/' ∉ first.toList)
    (hsecond : '/' ∉ second.toList) (hfirst' : 2 < first.length) (hsecond' : 2 < second.length)
    (hne : first ≠ second) : (p.withSuffix first).Apart (p.withSuffix second) := by
  obtain ⟨lead, way, last, -, hsuffix⟩ := exists_withSuffix p
  have hcomponents {suffix : String} (hslash : '/' ∉ suffix.toList) (hlength : 2 < suffix.length) :
      (p.withSuffix suffix).components = lead ++ way ++ [.name (last ++ suffix)] := by
    obtain ⟨hlead, hway⟩ := hsuffix suffix hslash hlength
    rw [components_eq, hlead, hway, List.append_assoc]
  have hnames : Component.name (last ++ first) ≠ .name (last ++ second) := by
    intro heq
    have htext := congrArg String.toList (Component.name.inj heq)
    rw [String.toList_append, String.toList_append] at htext
    exact hne (String.toList_injective (List.append_cancel_left htext))
  refine ⟨?_, ?_, ?_, ?_⟩
  all_goals
    simp only [steps_eq, hcomponents hfirst hfirst', hcomponents hsecond hsecond',
      cleanComponents_append_name]
    first
    | exact not_concat_prefix hnames
    | exact not_concat_prefix hnames.symm

end Path

end AddonBuild
