import AddonBuild.Proofs.Disk.Agreement
import AddonBuild.Proofs.Path.FileNames
import AddonBuild.Proofs.Path.Siblings

/-!
# Paths under a directory

Joining a path that does not climb leads deeper into a directory, whatever the directory is. What
lies under a directory still does with another extension.
-/

namespace AddonBuild

namespace Path

variable {p q root : Path} {name extension : String}

/-! ### Cleaned steps of joined paths -/

lemma steps_child (h : (Component.name name).IsStep) (p : Path) :
    (p.child name).steps = p.steps ++ [.name name] := by
  rw [steps_eq, components_child h, cleanComponents_append_name, ← steps_eq]

lemma steps_join_path (p : Path) {l : Location} (h : ∀ name ∈ l, (Component.name name).IsStep) :
    (p.join l.path).steps = p.steps ++ l.map .name := by
  obtain ⟨hrelative, hcomponents⟩ := Location.components_path h
  have hlead : l.path.lead = [] := by
    rw [components_eq] at hcomponents
    rcases lead_cases l.path with hlead | hlead | hlead
    · exact hlead
    all_goals
      rw [hlead] at hcomponents
      cases l <;> cases hcomponents
  rw [steps_eq, components_join hrelative hlead, hcomponents, cleanComponents_append_names,
    ← steps_eq]

/-- Whether a path starts at the root is all that matters of its lead once it is cleaned. -/
lemma steps_eq_of_way (p : Path) :
    p.steps = cleanComponents ((if p.isAbsolute then [.root] else []) ++ p.way) := by
  rw [steps_eq, components_eq, lead, split]
  cases p.isAbsolute with
  | true => rfl
  | false => by_cases hhere : p.segments.head? = some "." <;> simp only [hhere] <;> rfl

/-! ### Paths that do not climb -/

/-- Whether a path leads from any directory to a place in it. -/
structure Descends (p : Path) : Prop where
  relative : p.isAbsolute = false
  not_climbing : .up ∉ p.steps

/-- Whether a path leads to a directory or into it, once both are cleaned. -/
def Within (root p : Path) : Prop :=
  ∃ names : List String, p.steps = root.steps ++ names.map .name

/-- Whether a path leads into a directory, once both are cleaned. -/
def IsUnder (p root : Path) : Prop :=
  ∃ names : List String, names ≠ [] ∧ p.steps = root.steps ++ names.map .name

lemma Descends.exists_names (h : p.Descends) :
    ∃ names : List String, p.steps = names.map .name := by
  apply exists_map_name
  intro c hc
  have hclimb : c ≠ .up := by
    rintro rfl
    exact h.not_climbing hc
  rw [steps_eq_of_way, h.relative] at hc
  have hstep : c.IsStep := by
    rcases mem_of_mem_foldl_cleanStep (List.mem_reverse.mp hc) with hmem | hmem
    · exact isStep_of_mem_way hmem
    · cases hmem
  cases c with
  | root | here => exact hstep.elim
  | up => exact absurd rfl hclimb
  | name text => exact ⟨text, rfl⟩

lemma Descends.steps_join (h : q.Descends) (p : Path) : (p.join q).steps = p.steps ++ q.steps := by
  have hq : q.steps = cleanComponents q.way := by
    rw [steps_eq_of_way, h.relative]
    rfl
  have hclimb : .up ∉ q.way.foldl cleanStep [] := by
    have hclimb := h.not_climbing
    rwa [hq, cleanComponents, List.mem_reverse] at hclimb
  by_cases hp : p.text = ""
  · obtain ⟨text⟩ := p
    obtain rfl : text = "" := hp
    rw [join, if_neg (by simp [h.relative]), if_pos (by simp), String.empty_append]
    rfl
  · have hstack : (p.lead ++ p.way).foldl cleanStep [] = p.steps.reverse := by
      rw [steps_eq, components_eq, cleanComponents, List.reverse_reverse]
    rw [steps_eq (p.join q), components_eq, lead_join hp h.relative, way_join p h.relative,
      ← List.append_assoc, cleanComponents, List.foldl_append, hstack,
      ← List.nil_append p.steps.reverse, foldl_cleanStep_append hclimb, List.reverse_append,
      List.reverse_reverse, hq, cleanComponents]

lemma Descends.within (h : q.Descends) (root : Path) : root.Within (root.join q) := by
  obtain ⟨names, hnames⟩ := h.exists_names
  exact ⟨names, by rw [h.steps_join, hnames]⟩

lemma IsUnder.withExtension (h : p.IsUnder root) (hextension : '/' ∉ extension.toList)
    (hlength : 1 < extension.length) : (p.withExtension extension).IsUnder root := by
  cases hname : p.fileName? with
  | none => rwa [Path.withExtension, hname]
  | some name =>
    obtain ⟨init, hway⟩ := List.getLast?_eq_some_iff.mp (fileName?_eq_some_iff.mp hname)
    obtain ⟨names, hne, hsteps⟩ := h
    obtain ⟨before, last, rfl⟩ : ∃ before last, names = before ++ [last] := by
      simpa [List.concat_eq_append] using (List.eq_nil_or_concat names).resolve_left hne
    rw [steps_eq_of_way, hway, ← List.append_assoc, cleanComponents_append_name, List.map_append,
      ← List.append_assoc] at hsteps
    obtain ⟨hbefore, -⟩ := List.append_inj' hsteps rfl
    refine ⟨before ++ [(splitName name).1 ++ "." ++ extension], by simp, ?_⟩
    rw [steps_eq_of_way, isAbsolute_withExtension hextension hlength hname,
      way_withExtension hextension hlength hname, hway, List.dropLast_concat, ← List.append_assoc,
      cleanComponents_append_name, hbefore, List.map_append, List.append_assoc]
    rfl

end Path

end AddonBuild
