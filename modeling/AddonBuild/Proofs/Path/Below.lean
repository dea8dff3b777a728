import AddonBuild.Proofs.Path.Specifier

/-!
# Files below a root

The place of a file below a directory is cleaned without regard to what that directory is, as long
as the way to the file does not climb. So module specifiers between files below one root are the
same as those between the same files below another.
-/

namespace AddonBuild

namespace Path

/-- A relative path to a file that does not climb above the directory it is read from. -/
structure FileBelow (f : Path) : Prop where
  relative : f.isAbsolute = false
  way_ne_nil : f.way ≠ []
  not_climbing : Component.up ∉ cleanComponents f.way.dropLast

lemma up_mem_cleanStep {taken : List Component} (h : .up ∈ taken) (c : Component) :
    .up ∈ cleanStep taken c := by
  cases c with
  | here => exact h
  | root | name => exact List.mem_cons_of_mem _ h
  | up =>
    cases taken with
    | nil => cases h
    | cons t taken =>
      cases t with
      | root => exact h
      | here | up => exact List.mem_cons_self
      | name text =>
        rcases List.mem_cons.mp h with h | h
        · cases h
        · exact h

/-- What climbs once stays climbing. -/
lemma up_mem_foldl_cleanStep {taken : List Component} (h : .up ∈ taken) (way : List Component) :
    .up ∈ way.foldl cleanStep taken := by
  induction way generalizing taken with
  | nil => exact h
  | cons c way ih => exact ih (up_mem_cleanStep h c)

/-- A step that does not climb leaves alone what lies below. -/
lemma cleanStep_append {first : List Component} {c : Component} (h : .up ∉ cleanStep first c)
    (taken : List Component) : cleanStep (first ++ taken) c = cleanStep first c ++ taken := by
  cases first with
  | nil =>
    cases c with
    | here | root | name => cases taken <;> rfl
    | up => exact absurd List.mem_cons_self h
  | cons t first => cases c <;> cases t <;> rfl

lemma foldl_cleanStep_append {first way : List Component}
    (h : .up ∉ way.foldl cleanStep first) (taken : List Component) :
    way.foldl cleanStep (first ++ taken) = way.foldl cleanStep first ++ taken := by
  induction way generalizing first with
  | nil => rfl
  | cons c way ih =>
    have hstep : .up ∉ cleanStep first c := fun hup => h (up_mem_foldl_cleanStep hup way)
    rw [List.foldl_cons, List.foldl_cons, cleanStep_append hstep]
    exact ih h

lemma steps_of_way_eq {root p : Path} (hroot : root.isAbsolute = true)
    (hp : p.isAbsolute = true) {way : List Component} (hway : p.way = root.way ++ way)
    (hclimb : .up ∉ cleanComponents way) : p.steps = root.steps ++ cleanComponents way := by
  have hstack : root.components.foldl cleanStep [] = root.steps.reverse := by
    rw [steps_of_isAbsolute hroot, cleanComponents, List.reverse_reverse]
  have hcomponents : p.components = root.components ++ way := by
    rw [components_of_isAbsolute hp, components_of_isAbsolute hroot, hway]
    rfl
  rw [cleanComponents, List.mem_reverse] at hclimb
  rw [steps_of_isAbsolute hp, cleanComponents, hcomponents, List.foldl_append, hstack,
    ← List.nil_append root.steps.reverse, foldl_cleanStep_append hclimb, List.reverse_append,
    List.reverse_reverse]
  rfl

/-- The directory of a file below a root. -/
lemma steps_directory {root f : Path} (hroot : root.isAbsolute = true) (hf : f.FileBelow) :
    (root.join f).directory.steps = root.steps ++ cleanComponents f.way.dropLast := by
  obtain ⟨habs, hway⟩ := directory_of_isAbsolute (isAbsolute_join hroot f)
  apply steps_of_way_eq hroot habs _ hf.not_climbing
  rw [hway, way_join root hf.relative, List.dropLast_append_of_ne_nil hf.way_ne_nil]

lemma exists_map_name {l : List Component} (h : ∀ c ∈ l, ∃ name, c = .name name) :
    ∃ names : List String, l = names.map .name := by
  induction l with
  | nil => exact ⟨[], rfl⟩
  | cons c l ih =>
    obtain ⟨name, rfl⟩ := h c List.mem_cons_self
    obtain ⟨names, rfl⟩ := ih fun d hd => h d (List.mem_cons_of_mem _ hd)
    exact ⟨name :: names, rfl⟩

/-- A path of names takes no step that cleaning takes back. -/
lemma steps_join_names {root g : Path} (hroot : root.isAbsolute = true)
    (hg : ∀ c ∈ g.components, ∃ name, c = .name name) :
    (root.join g).steps = root.steps ++ cleanComponents g.way := by
  have hrelative : g.isAbsolute = false := by
    cases habs : g.isAbsolute with
    | false => rfl
    | true =>
      rw [components_of_isAbsolute habs] at hg
      obtain ⟨name, h⟩ := hg .root List.mem_cons_self
      cases h
  rw [components_eq] at hg
  obtain ⟨names, hnames⟩ := exists_map_name fun c hc => hg c (List.mem_append_right _ hc)
  apply steps_of_way_eq hroot (isAbsolute_join hroot g) (way_join root hrelative)
  rw [hnames, cleanComponents, foldl_cleanStep_names, List.append_nil, List.reverse_reverse]
  simp

lemma moduleSpecifier_eq_of_wayBetween {start target start' target' : Path}
    (h : wayBetween start.steps target.steps = wayBetween start'.steps target'.steps) :
    start.moduleSpecifier target = start'.moduleSpecifier target' := by
  rw [moduleSpecifier, moduleSpecifier, relative_eq, relative_eq, h]

/-- The specifier by which one file below a root imports another does not depend on the root. -/
lemma moduleSpecifier_join {S D f g : Path} (hS : S.isAbsolute = true) (hD : D.isAbsolute = true)
    (hf : f.FileBelow) (hg : ∀ c ∈ g.components, ∃ name, c = .name name) :
    (S.join f).directory.moduleSpecifier (S.join g) =
      (D.join f).directory.moduleSpecifier (D.join g) := by
  apply moduleSpecifier_eq_of_wayBetween
  rw [steps_directory hS hf, steps_directory hD hf, steps_join_names hS hg, steps_join_names hD hg,
    wayBetween_append, wayBetween_append]

/-- A module specifier depends on no more of its target than the place it names. -/
lemma moduleSpecifier_clean (start : Path) {target : Path} (h : target.isAbsolute = true) :
    start.moduleSpecifier target.clean = start.moduleSpecifier target := by
  have hsteps : target.clean.steps = target.steps := by
    rw [steps, clean_clean h, steps]
  apply moduleSpecifier_eq_of_wayBetween
  rw [hsteps]

end Path

end AddonBuild
