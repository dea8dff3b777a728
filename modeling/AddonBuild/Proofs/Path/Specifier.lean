import AddonBuild.Proofs.Path.Cleaning

/-!
# Where a module specifier leads

A module specifier read from the directory that it was made for leads to its target. It depends on
no more than the cleaned places of the two, and on these only behind what they have in common.
-/

namespace AddonBuild

namespace Path

/-! ### The way between two places -/

/-- The steps of an absolute path are what cleaning leaves. -/
lemma steps_of_isAbsolute {p : Path} (h : p.isAbsolute = true) :
    p.steps = cleanComponents p.components := by
  obtain ⟨names, hnames, -, -⟩ := exists_names h
  rw [steps, components_clean h, hnames]
  simp

lemma exists_steps {p : Path} (h : p.isAbsolute = true) :
    ∃ names : List String, p.steps = .root :: names.map .name ∧
      ∀ c ∈ names.map Component.name, c.IsStep := by
  obtain ⟨names, hnames, -, hstep⟩ := exists_names h
  exact ⟨names, (steps_of_isAbsolute h).trans hnames, hstep⟩

lemma dropCommon_append (common as bs : List Component) :
    dropCommon (common ++ as) (common ++ bs) = dropCommon as bs := by
  induction common with
  | nil => rfl
  | cons c common ih => rw [List.cons_append, List.cons_append, dropCommon, if_pos rfl, ih]

lemma exists_dropCommon (start target : List String) :
    ∃ common back ahead, start = common ++ back ∧ target = common ++ ahead ∧
      dropCommon (start.map .name) (target.map .name) = (back.map .name, ahead.map .name) := by
  induction start generalizing target with
  | nil => exact ⟨[], [], target, rfl, rfl, by rw [List.map_nil, dropCommon]; simp⟩
  | cons a start ih =>
    cases target with
    | nil => exact ⟨[], a :: start, [], rfl, rfl, rfl⟩
    | cons b target =>
      by_cases hab : a = b
      · obtain ⟨common, back, ahead, hstart, htarget, hdrop⟩ := ih target
        refine ⟨a :: common, back, ahead, congrArg _ hstart, ?_, ?_⟩
        · rw [← hab]
          exact congrArg _ htarget
        · rw [List.map_cons, List.map_cons, dropCommon, if_pos (congrArg _ hab), hdrop]
      · refine ⟨[], a :: start, b :: target, rfl, rfl, ?_⟩
        rw [List.map_cons, List.map_cons, dropCommon, if_neg]
        intro h
        exact hab (Component.name.inj h)

/-- The steps of the way from one place to another. -/
def wayBetween (start target : List Component) : List Component :=
  (dropCommon start target).1.map (fun _ => .up) ++ (dropCommon start target).2

/-- What two places have in common is no part of the way. -/
lemma wayBetween_append (common start target : List Component) :
    wayBetween (common ++ start) (common ++ target) = wayBetween start target := by
  rw [wayBetween, dropCommon_append, wayBetween]

lemma wayBetween_cons (c : Component) (start target : List Component) :
    wayBetween (c :: start) (c :: target) = wayBetween start target :=
  wayBetween_append [c] start target

lemma relative_eq (start target : Path) :
    start.relative target = ofComponents (wayBetween start.steps target.steps) := by
  rw [relative, wayBetween]

lemma isStep_of_mem_wayBetween {start target : List String}
    (htarget : ∀ c ∈ target.map Component.name, c.IsStep) {c : Component}
    (h : c ∈ wayBetween (start.map .name) (target.map .name)) : c.IsStep := by
  obtain ⟨common, back, ahead, -, rfl, hdrop⟩ := exists_dropCommon start target
  rw [wayBetween, hdrop, List.mem_append] at h
  rcases h with h | h
  · obtain ⟨_, -, rfl⟩ := List.mem_map.mp h
    trivial
  · apply htarget
    rw [List.map_append]
    exact List.mem_append_right _ h

lemma isStep_of_mem_wayBetween_steps {start target : Path} (hstart : start.isAbsolute = true)
    (htarget : target.isAbsolute = true) :
    ∀ c ∈ wayBetween start.steps target.steps, c.IsStep := by
  obtain ⟨back, hback, -⟩ := exists_steps hstart
  obtain ⟨ahead, hahead, hstep⟩ := exists_steps htarget
  rw [hback, hahead, wayBetween_cons]
  exact fun _ => isStep_of_mem_wayBetween hstep

/-- The way between two places leads from the one to the other. -/
lemma foldl_wayBetween (start target : List String) (taken : List Component) :
    (wayBetween (start.map .name) (target.map .name)).foldl cleanStep
        ((start.map .name).reverse ++ taken) =
      (target.map .name).reverse ++ taken := by
  obtain ⟨common, back, ahead, rfl, rfl, hdrop⟩ := exists_dropCommon start target
  have hups := foldl_cleanStep_ups back.reverse ((common.map .name).reverse ++ taken)
  rw [List.length_reverse, List.map_reverse] at hups
  have hback : (back.map Component.name).map (fun _ => Component.up) =
      List.replicate back.length .up := by
    rw [List.map_const', List.length_map]
  rw [wayBetween, hdrop, hback, List.foldl_append, List.map_append, List.reverse_append,
    List.append_assoc, hups, foldl_cleanStep_names, List.map_append, List.reverse_append,
    List.append_assoc]

/-! ### Module specifiers -/

lemma slashed_ofComponents {l : List Component} (hl : ∀ c ∈ l, c.IsStep) :
    (ofComponents l).slashed = (ofComponents l).text := by
  rw [slashed, components_ofComponents hl]

lemma startsWith_iff {lead text : String} :
    Text.startsWith lead text = true ↔ ∃ rest, text.toList = lead.toList ++ rest := by
  rw [Text.startsWith, List.isPrefixOf_iff_prefix]
  constructor
  · rintro ⟨rest, h⟩
    exact ⟨rest, h.symm⟩
  · rintro ⟨rest, h⟩
    exact ⟨rest, h.symm⟩

lemma mk_text (p : Path) : ⟨p.text⟩ = p := rfl

/-- A module specifier starts with a dot. -/
lemma startsWith_moduleSpecifier (start target : Path) :
    Text.startsWith "." (start.moduleSpecifier target) = true := by
  rw [moduleSpecifier, startsWith_iff]
  split_ifs with hup hempty
  · rcases Bool.or_eq_true _ _ ▸ hup with h | h
    · obtain ⟨rest, h⟩ := startsWith_iff.mp h
      exact ⟨'.' :: '/' :: rest, h⟩
    · rw [of_decide_eq_true h]
      exact ⟨['.'], rfl⟩
  · exact ⟨[], rfl⟩
  · refine ⟨'/' :: (start.relative target).slashed.toList, ?_⟩
    rw [String.toList_append]
    rfl

lemma isAbsolute_of_startsWith_dot {text : String} (h : Text.startsWith "." text = true) :
    isAbsolute ⟨text⟩ = false := by
  obtain ⟨rest, hrest⟩ := startsWith_iff.mp h
  rw [isAbsolute, hrest]
  rfl

/-- The dots that are put in front of a way for a script are no steps. -/
lemma way_moduleSpecifier_eq (start target : Path) :
    way ⟨start.moduleSpecifier target⟩ = way ⟨(start.relative target).slashed⟩ := by
  rw [moduleSpecifier]
  split_ifs with hup hempty
  · rfl
  · have h : (start.relative target).slashed = "" := by simpa using hempty
    rw [h]
    rfl
  · have hdot : "./" = "." ++ "/" := by decide
    have hnone : way ⟨"."⟩ = [] := rfl
    rw [hdot, way_slash, hnone, List.nil_append]

lemma way_moduleSpecifier {start target : Path} (hstart : start.isAbsolute = true)
    (htarget : target.isAbsolute = true) :
    way ⟨start.moduleSpecifier target⟩ = wayBetween start.steps target.steps := by
  have hway := isStep_of_mem_wayBetween_steps hstart htarget
  rw [way_moduleSpecifier_eq, relative_eq, slashed_ofComponents hway, mk_text,
    way_ofComponents hway]

/-- A relative path that takes the way from a directory to a target leads there from the
directory. -/
lemma absolutize_of_way {start target q : Path} (hstart : start.isAbsolute = true)
    (htarget : target.isAbsolute = true) (hq : q.isAbsolute = false)
    (hway : q.way = wayBetween start.steps target.steps) :
    start.absolutize q = target.clean := by
  obtain ⟨back, hback, -⟩ := exists_steps hstart
  obtain ⟨ahead, hahead, -⟩ := exists_steps htarget
  have hjoin := isAbsolute_join hstart q
  have hcomponents : (start.join q).components =
      start.components ++ wayBetween start.steps target.steps := by
    rw [components_of_isAbsolute hjoin, way_join _ hq, components_of_isAbsolute hstart, hway]
    rfl
  have hstack : start.components.foldl cleanStep [] = (back.map .name).reverse ++ [.root] := by
    have h := (steps_of_isAbsolute hstart).symm.trans hback
    rw [cleanComponents, List.reverse_eq_iff, List.reverse_cons] at h
    exact h
  rw [absolutize, clean_eq hjoin, clean_eq htarget, ← steps_of_isAbsolute htarget, hahead,
    hcomponents, cleanComponents, List.foldl_append, hstack, hback, hahead, wayBetween_cons,
    foldl_wayBetween, List.reverse_append, List.reverse_reverse]
  rfl

/-- Read from the directory that it was made for, a module specifier leads to its target. -/
lemma absolutize_moduleSpecifier {start target : Path} (hstart : start.isAbsolute = true)
    (htarget : target.isAbsolute = true) :
    start.absolutize ⟨start.moduleSpecifier target⟩ = target.clean :=
  absolutize_of_way hstart htarget
    (isAbsolute_of_startsWith_dot (startsWith_moduleSpecifier start target))
    (way_moduleSpecifier hstart htarget)

end Path

end AddonBuild
