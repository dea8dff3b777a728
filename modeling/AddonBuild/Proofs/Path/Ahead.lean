import AddonBuild.Proofs.Path.Filling
import AddonBuild.Proofs.Path.RoundTrip
import AddonBuild.Proofs.Path.Under

/-!
# What lies ahead of a directory

A module specifier is made of dots and of the names that lie behind the last directory on the way to
both of its ends. Which names these are is settled by the steps of the two paths. A path that is
read from a directory shares with it all steps but those that it takes itself.
-/

namespace AddonBuild

namespace Path

variable {p q start target : Path} {l : List Component}

/-! ### Steps of any path -/

/-- Whether a list of steps starts with the root or with steps up, if with anything, and goes on
with names. -/
def IsDirect (l : List Component) : Prop :=
  ∃ (dots : List Component) (names : List String), l = dots ++ names.map .name ∧
    (dots = [.root] ∨ ∃ n, dots = List.replicate n .up) ∧
    ∀ c ∈ names.map Component.name, c.IsStep

lemma cleanStep_ups (n : Nat) :
    cleanStep (List.replicate n .up) .up = List.replicate (n + 1) .up := by
  cases n with
  | zero => rfl
  | succ n => rfl

lemma isDirect_cleanComponents (p : Path) : IsDirect (cleanComponents p.components) := by
  cases hp : p.isAbsolute with
  | true =>
    obtain ⟨names, hnames, -, hstep⟩ := exists_names hp
    exact ⟨[.root], names, hnames, .inl rfl, hstep⟩
  | false =>
    have hrelative : ¬ p.isAbsolute = true := by simp [hp]
    obtain ⟨n, hcomponents⟩ := cleanComponents_of_relative hrelative
    refine ⟨List.replicate n .up, p.location, hcomponents, .inr ⟨n, rfl⟩, fun c hc => ?_⟩
    refine isStep_of_mem_cleanComponents hrelative ?_
    rw [hcomponents]
    exact List.mem_append_right _ hc

/-- A list of steps is direct below the root, or made of steps. -/
lemma IsDirect.cases (h : IsDirect l) :
    (∃ names : List String, l = .root :: names.map .name ∧
      ∀ c ∈ names.map Component.name, c.IsStep) ∨ ∀ c ∈ l, c.IsStep := by
  obtain ⟨dots, names, rfl, rfl | ⟨n, rfl⟩, hstep⟩ := h
  · exact .inl ⟨names, rfl, hstep⟩
  · refine .inr fun c hc => ?_
    rcases List.mem_append.mp hc with hc | hc
    · rw [List.eq_of_mem_replicate hc]
      trivial
    · exact hstep c hc

lemma IsDirect.components_ofComponents (h : IsDirect l) : (ofComponents l).components = l := by
  obtain ⟨names, rfl, hstep⟩ | hstep := h.cases
  · exact components_ofComponents_root hstep
  · exact Path.components_ofComponents hstep

lemma IsDirect.cleanComponents_eq (h : IsDirect l) : cleanComponents l = l := by
  have hups (n : Nat) : (List.replicate n .up).foldl cleanStep [] = List.replicate n .up := by
    induction n with
    | zero => rfl
    | succ n ih =>
      rw [List.replicate_succ', List.foldl_append, ih, List.foldl_cons, List.foldl_nil,
        cleanStep_ups, List.replicate_succ']
  obtain ⟨dots, names, rfl, rfl | ⟨n, rfl⟩, -⟩ := h
  · rw [List.singleton_append, cleanComponents, List.foldl_cons, foldl_cleanStep_names]
    simp [cleanStep]
  · rw [cleanComponents, List.foldl_append, hups, foldl_cleanStep_names]
    simp

lemma isDirect_steps (p : Path) : IsDirect p.steps :=
  p.steps_eq ▸ isDirect_cleanComponents p

lemma IsDirect.steps_ofComponents (h : IsDirect l) : (ofComponents l).steps = l := by
  rw [steps_eq, h.components_ofComponents, h.cleanComponents_eq]

/-- A cleaned path is written by its steps, or as a dot if it has none. -/
lemma clean_cases (p : Path) : (p.steps = [] ∧ p.clean = ⟨"."⟩) ∨
    (p.steps ≠ [] ∧ p.clean = ofComponents p.steps) := by
  rw [steps_eq, clean]
  cases cleanComponents p.components with
  | nil => exact .inl ⟨rfl, rfl⟩
  | cons c l => exact .inr ⟨List.cons_ne_nil c l, rfl⟩

lemma steps_clean (p : Path) : p.clean.steps = p.steps := by
  obtain ⟨hsteps, hclean⟩ | ⟨-, hclean⟩ := p.clean_cases
  · rw [hsteps, hclean]
    rfl
  · rw [hclean, p.isDirect_steps.steps_ofComponents]

/-- Cleaning makes up no names. -/
lemma name_mem_way {name : String} (h : .name name ∈ p.steps) : .name name ∈ p.way := by
  rw [steps_eq, cleanComponents, List.mem_reverse, components_eq] at h
  rcases mem_of_mem_foldl_cleanStep h with h | h
  · rcases List.mem_append.mp h with h | h
    · cases hp : p.isAbsolute with
      | true => rw [lead_of_isAbsolute hp] at h; simp at h
      | false =>
        rcases lead_of_not_isAbsolute hp with hlead | hlead <;> rw [hlead] at h <;> simp at h
    · exact h
  · cases h

/-! ### Texts of paths -/

/-- The characters of a path that is made of steps are slashes and those of its steps. -/
lemma mem_text_ofComponents {c : Char} (h : c ∈ (ofComponents l).text.toList) :
    c = '/' ∨ ∃ step ∈ l, c ∈ step.text.toList := by
  induction l using List.reverseRecOn with
  | nil => cases h
  | append_singleton init last ih =>
    rw [ofComponents, List.foldl_append] at h
    rcases mem_text_join h with h | h | h
    · obtain h | ⟨step, hstep, h⟩ := ih h
      · exact .inl h
      · exact .inr ⟨step, List.mem_append_left _ hstep, h⟩
    · exact .inl h
    · exact .inr ⟨last, List.mem_append_right _ List.mem_cons_self, h⟩

/-- Cleaning makes up no characters but slashes and dots. -/
lemma mem_text_of_mem_clean {c : Char} (h : c ∈ p.clean.text.toList) :
    c = '/' ∨ c = '.' ∨ c ∈ p.text.toList := by
  obtain ⟨-, hclean⟩ | ⟨-, hclean⟩ := p.clean_cases
  · rw [hclean] at h
    exact .inr (.inl (List.mem_singleton.mp h))
  · rw [hclean] at h
    obtain h | ⟨step, hstep, h⟩ := mem_text_ofComponents h
    · exact .inl h
    · cases step with
      | root => exact .inl (List.mem_singleton.mp h)
      | here => exact .inr (.inl (List.mem_singleton.mp h))
      | up => exact .inr (.inl (by simpa [Component.text] using h))
      | name text => exact .inr (.inr (mem_text_of_mem_way (name_mem_way hstep) h))

/-- What is read from a path is written behind it. -/
lemma toList_foldl_child {p : Path} (hne : p.text ≠ "")
    (hend : p.text.toList.getLast? ≠ some '/') (hl : ∀ c ∈ l, c.IsStep) :
    (l.foldl (fun p step => p.child step.text) p).text.toList =
      p.text.toList ++ l.flatMap fun c => '/' :: c.text.toList := by
  induction l generalizing p with
  | nil => exact (List.append_nil _).symm
  | cons c l ih =>
    obtain ⟨hc, hl⟩ := List.forall_mem_cons.mp hl
    have hchild : (p.child c.text).text.toList = p.text.toList ++ '/' :: c.text.toList := by
      rw [toList_child hne hc.isAbsolute_text, if_neg hend]
    have hlast : (p.child c.text).text.toList.getLast? ≠ some '/' := by
      have hcne : c.text.toList ≠ [] := mt String.toList_eq_nil_iff.mp hc.text_ne.1
      rw [hchild, ← List.singleton_append, ← List.append_assoc,
        List.getLast?_append_of_ne_nil _ hcne]
      exact fun h => hc.not_mem_text (List.mem_of_getLast? h)
    have hnonempty : (p.child c.text).text ≠ "" := by
      rw [← String.toList_eq_nil_iff.ne, hchild]
      simp
    rw [List.foldl_cons, ih hnonempty hlast hl, hchild, List.flatMap_cons, List.append_assoc]

lemma intercalate_slash_cons (first : List Char) (rest : List (List Char)) :
    ['/'].intercalate (first :: rest) = first ++ rest.flatMap ('/' :: ·) := by
  induction rest generalizing first with
  | nil => simp [List.intercalate]
  | cons second rest ih => rw [List.intercalate_cons_cons, ih]; simp

/-- A path that is made of steps has them between its slashes. -/
lemma toList_ofComponents (hl : ∀ c ∈ l, c.IsStep) :
    (ofComponents l).text.toList = ['/'].intercalate (l.map (·.text.toList)) := by
  cases l with
  | nil => rfl
  | cons c l =>
    obtain ⟨hc, hl⟩ := List.forall_mem_cons.mp hl
    have hfirst : child ⟨""⟩ c.text = ⟨c.text⟩ := by
      rw [child, join, if_neg (by simp [hc.isAbsolute_text])]
      simp
    have hend : c.text.toList.getLast? ≠ some '/' := fun h =>
      hc.not_mem_text (List.mem_of_getLast? h)
    have htext := toList_foldl_child (p := ⟨c.text⟩) hc.text_ne.1 hend hl
    rw [ofComponents, List.foldl_cons, hfirst, htext, List.map_cons, intercalate_slash_cons,
      List.flatMap_map]

/-! ### Ahead -/

/-- The name of a step, if it has one. -/
def Component.name? : Component → Option String
  | .name text => some text
  | .root | .here | .up => none

/-- The names on the way from a directory to a target, behind the last directory that leads to
both. -/
def ahead (start target : Path) : List String :=
  (dropCommon start.steps target.steps).2.filterMap Component.name?

lemma exists_common (as bs : List Component) : ∃ common back rest, as = common ++ back ∧
    bs = common ++ rest ∧ dropCommon as bs = (back, rest) := by
  fun_induction dropCommon as bs with
  | case1 as c bs ih =>
    obtain ⟨common, back, rest, rfl, rfl, hdrop⟩ := ih
    exact ⟨c :: common, back, rest, rfl, rfl, hdrop⟩
  | case2 a as b bs hne => exact ⟨[], _, _, rfl, rfl, rfl⟩
  | case3 as bs => exact ⟨[], as, bs, rfl, rfl, rfl⟩

lemma IsDirect.of_append {common : List Component} (h : IsDirect (common ++ l)) : IsDirect l := by
  obtain ⟨dots, names, heq, hdots, hstep⟩ := h
  rcases List.append_eq_append_iff.mp heq with ⟨behind, rfl, rfl⟩ | ⟨first, rfl, hnames⟩
  · refine ⟨behind, names, rfl, ?_, hstep⟩
    rcases hdots with hroot | ⟨n, hups⟩
    · cases common with
      | nil => exact .inl hroot
      | cons c common =>
        refine .inr ⟨0, ?_⟩
        exact (List.append_eq_nil_iff.mp (List.cons.inj hroot).2).2
    · refine .inr ⟨behind.length, List.eq_replicate_of_mem fun c hc => ?_⟩
      refine List.eq_of_mem_replicate (n := n) (hups ▸ List.mem_append_right _ hc)
  · obtain ⟨taken, names, rfl, -, rfl⟩ := List.map_eq_append_iff.mp hnames
    refine ⟨[], names, rfl, .inr ⟨0, rfl⟩, fun c hc => hstep c ?_⟩
    rw [List.map_append]
    exact List.mem_append_right _ hc

lemma filterMap_name? (names : List String) :
    (names.map Component.name).filterMap Component.name? = names := by
  simp [List.filterMap_map, Function.comp_def, Component.name?]

lemma intercalate_slash_of_ne_nil (first : List Char) {rest : List (List Char)} (h : rest ≠ []) :
    ['/'].intercalate (first :: rest) = first ++ '/' :: ['/'].intercalate rest := by
  obtain ⟨second, rest, rfl⟩ := List.exists_cons_of_ne_nil h
  rw [List.intercalate_cons_cons, List.append_assoc]
  rfl

/-- The way of a module specifier as text, and in front of it a dot unless it goes up. -/
lemma moduleSpecifier_text_cases (start target : Path) :
    (start.moduleSpecifier target = (start.relative target).slashed) ∨
    ((start.relative target).slashed = "" ∧ start.moduleSpecifier target = ".") ∨
    ((start.relative target).slashed ≠ "" ∧
      start.moduleSpecifier target = "./" ++ (start.relative target).slashed) := by
  rw [moduleSpecifier]
  split_ifs with hup hempty
  · exact .inl rfl
  · exact .inr (.inl ⟨by simpa using hempty, rfl⟩)
  · exact .inr (.inr ⟨by simpa using hempty, rfl⟩)

lemma mem_intercalate_slash {c : Char} {part : List Char} (hc : c ∈ part) :
    {parts : List (List Char)} → part ∈ parts → c ∈ ['/'].intercalate parts
  | first :: rest, h => by
    rw [intercalate_slash_cons]
    rcases List.mem_cons.mp h with rfl | h
    · exact List.mem_append_left _ hc
    · exact List.mem_append_right _ (List.mem_flatMap.mpr ⟨part, h, List.mem_cons_of_mem _ hc⟩)

/-- Steps up, and then the root or more steps up, are written as dots in front of the names. -/
lemma exists_toList_slashed (m : Nat) {dots : List Component} {names : List String}
    (hdots : dots = [.root] ∨ ∃ n, dots = List.replicate n .up)
    (hstep : ∀ c ∈ names.map Component.name, c.IsStep) : ∃ lead : List (List Char),
      (∀ part ∈ lead, ∀ c ∈ part, c = '.') ∧
      (ofComponents (List.replicate m .up ++ (dots ++ names.map .name))).slashed.toList =
        ['/'].intercalate (lead ++ names.map String.toList) := by
  rcases hdots with rfl | ⟨n, rfl⟩
  · -- what follows the root is read from there
    have hroot : ofComponents (List.replicate m .up ++ ([.root] ++ names.map .name)) =
        ofComponents (.root :: names.map .name) := by
      rw [ofComponents, List.foldl_append]
      rfl
    rw [hroot, slashed, components_ofComponents_root hstep]
    by_cases hne : names = []
    · rw [hne]
      exact ⟨[[], []], by simp, rfl⟩
    · refine ⟨[[]], by simp, ?_⟩
      rw [toList_ofComponents_root hstep hne, List.singleton_append, intercalate_slash_cons,
        List.flatMap_map]
      rfl
  · have hall : ∀ c ∈ List.replicate m .up ++ (List.replicate n .up ++ names.map Component.name),
        c.IsStep := by
      intro c hc
      rw [← List.append_assoc, List.replicate_append_replicate, List.mem_append] at hc
      rcases hc with hc | hc
      · rw [List.eq_of_mem_replicate hc]
        trivial
      · exact hstep c hc
    refine ⟨(List.replicate (m + n) Component.up).map (·.text.toList), ?_, ?_⟩
    · simp [Component.text]
    · rw [slashed_ofComponents hall, toList_ofComponents hall, ← List.append_assoc,
        List.replicate_append_replicate, List.map_append, List.map_map]
      rfl

/-- A module specifier has the names that lie ahead between its slashes, behind dots. -/
lemma exists_toList_moduleSpecifier (start target : Path) : ∃ dots : List (List Char),
    (∀ part ∈ dots, ∀ c ∈ part, c = '.') ∧
      (start.moduleSpecifier target).toList =
        ['/'].intercalate (dots ++ (start.ahead target).map String.toList) := by
  obtain ⟨common, back, rest, -, htarget, hdrop⟩ := exists_common start.steps target.steps
  have hdirect : IsDirect rest := (htarget ▸ target.isDirect_steps).of_append
  have hrelative : start.relative target =
      ofComponents (List.replicate back.length .up ++ rest) := by
    rw [relative, hdrop]
    dsimp only
    rw [List.map_const']
  have hcases := moduleSpecifier_text_cases start target
  rw [ahead, hdrop]
  obtain ⟨dots, names, rfl, hdots, hstep⟩ := hdirect
  have hnames : (dots ++ names.map Component.name).filterMap Component.name? = names := by
    have hnone : dots.filterMap Component.name? = [] := by
      rcases hdots with rfl | ⟨n, rfl⟩
      · rfl
      · rw [List.filterMap_eq_nil_iff]
        intro c hc
        rw [List.eq_of_mem_replicate hc]
        rfl
    rw [List.filterMap_append, hnone, filterMap_name?, List.nil_append]
  obtain ⟨lead, hlead, htext⟩ := exists_toList_slashed back.length hdots hstep
  rw [← hrelative] at htext
  rw [hnames]
  rcases hcases with hsame | ⟨hempty, hdot⟩ | ⟨hne, hdot⟩
  · exact ⟨lead, hlead, hsame ▸ htext⟩
  · -- there is no name in an empty text
    obtain rfl : names = [] := by
      refine List.eq_nil_iff_forall_not_mem.mpr fun name hname => ?_
      have hstepName := hstep _ (List.mem_map_of_mem hname)
      obtain ⟨c, rest, hc⟩ :=
        List.exists_cons_of_ne_nil (mt String.toList_eq_nil_iff.mp hstepName.2.1)
      have hmem : c ∈ name.toList := hc ▸ List.mem_cons_self
      have htextMem := mem_intercalate_slash hmem
        (List.mem_append_right lead (List.mem_map_of_mem (f := String.toList) hname))
      rw [← htext, hempty] at htextMem
      cases htextMem
    exact ⟨[['.']], by simp, by rw [hdot]; rfl⟩
  · refine ⟨['.'] :: lead, ?_, ?_⟩
    · exact List.forall_mem_cons.mpr ⟨by simp, hlead⟩
    · have hparts : lead ++ names.map String.toList ≠ [] := by
        intro hnil
        rw [hnil] at htext
        exact hne (String.toList_eq_nil_iff.mp htext)
      rw [hdot, List.cons_append, intercalate_slash_of_ne_nil _ hparts, ← htext,
        String.toList_append]
      rfl

/-- Behind steps that lead to both, only the names of the target's other steps lie ahead. -/
lemma mem_of_mem_ahead {kept new back : List Component} (hstart : start.steps = kept ++ back)
    (htarget : target.steps = kept ++ new) {name : String} (h : name ∈ start.ahead target) :
    .name name ∈ new := by
  rw [ahead, hstart, htarget, dropCommon_append] at h
  obtain ⟨common, left, rest, -, rfl, hdrop⟩ := exists_common back new
  rw [hdrop] at h
  obtain ⟨c, hc, hname⟩ := List.mem_filterMap.mp h
  cases c with
  | name text =>
    rw [← Option.some.inj hname]
    exact List.mem_append_right _ hc
  | root | here | up => cases hname

/-- The characters of the names ahead are written in the target. -/
lemma mem_text_of_mem_ahead {name : String} (h : name ∈ start.ahead target) {c : Char}
    (hc : c ∈ name.toList) : c ∈ target.text.toList := by
  have hsteps := mem_of_mem_ahead (List.nil_append _).symm (List.nil_append _).symm h
  exact mem_text_of_mem_way (name_mem_way hsteps) hc

/-! ### Paths read from a directory -/

lemma cleanStep_cases (taken : List Component) (c : Component) :
    cleanStep taken c <:+ taken ∨ cleanStep taken c = c :: taken := by
  fun_cases cleanStep taken c with
  | case1 => exact .inl (List.suffix_refl _)
  | case2 => exact .inl (List.suffix_refl _)
  | case3 => exact .inl (List.suffix_cons _ _)
  | case4 => exact .inr rfl

/-- A way takes back some of the steps before it, and puts its own behind the others. -/
lemma exists_foldl_cleanStep_eq (way taken : List Component) :
    ∃ new kept, way.foldl cleanStep taken = new ++ kept ∧ kept <:+ taken ∧ ∀ c ∈ new, c ∈ way := by
  induction way generalizing taken with
  | nil => exact ⟨[], taken, rfl, List.suffix_refl taken, by simp⟩
  | cons c way ih =>
    obtain ⟨new, kept, hfold, hkept, hnew⟩ := ih (cleanStep taken c)
    have hnew' : ∀ d ∈ new, d ∈ c :: way := fun d hd => List.mem_cons_of_mem c (hnew d hd)
    rw [List.foldl_cons, hfold]
    rcases cleanStep_cases taken c with hstep | hstep
    · exact ⟨new, kept, rfl, hkept.trans hstep, hnew'⟩
    · rw [hstep] at hkept
      rcases List.suffix_cons_iff.mp hkept with rfl | hkept
      · refine ⟨new ++ [c], taken, by simp, List.suffix_refl taken, ?_⟩
        exact List.forall_mem_append.mpr ⟨hnew', by simp⟩
      · exact ⟨new, kept, rfl, hkept, hnew'⟩

lemma isAbsolute_join_of_relative (p : Path) (hq : q.isAbsolute = false) :
    (p.join q).isAbsolute = p.isAbsolute := by
  by_cases hp : p.text = ""
  · rw [join, if_neg (by simp [hq]), if_pos (by simp [hp]), hp, String.empty_append, hq, isAbsolute,
      hp]
    rfl
  · obtain ⟨c, rest, hc⟩ := List.exists_cons_of_ne_nil (mt String.toList_eq_nil_iff.mp hp)
    rw [join, if_neg (by simp [hq])]
    split_ifs <;> simp [isAbsolute, hc]

/-- The steps of a path that is read from a directory go on from those of the directory. -/
lemma steps_join (p : Path) (hq : q.isAbsolute = false) :
    (p.join q).steps = (q.way.foldl cleanStep p.steps.reverse).reverse := by
  rw [steps_eq_of_way, steps_eq_of_way p, cleanComponents, cleanComponents, List.reverse_reverse,
    isAbsolute_join_of_relative p hq, way_join p hq, ← List.append_assoc, List.foldl_append]

/-- Where a relative path leads is, behind a place on the way to the directory that it is read from,
given by its own steps. -/
lemma exists_steps_absolutize (p : Path) (hq : q.isAbsolute = false) :
    ∃ kept new back, (p.absolutize q).steps = kept ++ new ∧ p.steps = kept ++ back ∧
      ∀ c ∈ new, c ∈ q.way := by
  obtain ⟨new, kept, hfold, ⟨back, hback⟩, hnew⟩ := exists_foldl_cleanStep_eq q.way p.steps.reverse
  refine ⟨kept.reverse, new.reverse, back.reverse, ?_, ?_, fun c hc => ?_⟩
  · rw [absolutize, steps_clean, steps_join p hq, hfold, List.reverse_append]
  · rw [← List.reverse_append, hback, List.reverse_reverse]
  · exact hnew c (List.mem_reverse.mp hc)

lemma IsDirect.cases_concat {init : List Component} {last : Component}
    (h : IsDirect (init ++ [last])) (hlast : last ≠ .root) :
    last.IsStep ∧
      ∀ name : String, (Component.name name).IsStep → IsDirect (init ++ [.name name]) := by
  have hmem : last ∈ init ++ [last] := List.mem_append_right _ List.mem_cons_self
  obtain ⟨dots, names, heq, hdots, hstep⟩ := h
  rcases List.eq_nil_or_concat names with rfl | ⟨before, name, rfl⟩
  · rw [List.map_nil, List.append_nil] at heq
    rcases hdots with rfl | ⟨n, rfl⟩
    · rw [heq] at hmem
      exact absurd (List.mem_singleton.mp hmem) hlast
    · rw [heq] at hmem
      rw [List.eq_of_mem_replicate hmem]
      refine ⟨trivial, fun name hname => ⟨init, [name], rfl, .inr ⟨init.length, ?_⟩, ?_⟩⟩
      · refine List.eq_replicate_of_mem fun c hc => ?_
        exact List.eq_of_mem_replicate (n := n) (heq ▸ List.mem_append_left _ hc)
      · simpa using hname
  · rw [List.concat_eq_append] at heq hstep
    rw [List.map_append, ← List.append_assoc, List.map_singleton] at heq
    obtain ⟨rfl, hsame⟩ := List.append_inj' heq rfl
    obtain rfl := List.singleton_inj.mp hsame
    refine ⟨hstep _ (by simp), fun other hother => ⟨dots, before ++ [other], ?_, hdots, ?_⟩⟩
    · simp
    · intro c hc
      rw [List.map_append, List.mem_append] at hc
      rcases hc with hc | hc
      · exact hstep c (by rw [List.map_append]; exact List.mem_append_left _ hc)
      · rw [List.mem_singleton.mp hc]
        exact hother

/-- The name of a compiled file takes the place of the last step of a cleaned path. -/
lemma steps_withSuffix_js {init : List Component} {last : Component}
    (hp : p.steps = init ++ [last]) (hlast : last ≠ .root) :
    (p.clean.withSuffix ".js").steps = init ++ [.name (last.text ++ ".js")] := by
  obtain ⟨hstep, hother⟩ := (hp ▸ p.isDirect_steps).cases_concat hlast
  have hname : (Component.name (last.text ++ ".js")).IsStep := by
    cases last with
    | root | here => exact hstep.elim
    | up => decide
    | name text => exact hstep.append_js
  obtain ⟨hnil, -⟩ | ⟨-, hclean⟩ := p.clean_cases
  · rw [hp] at hnil
    simp at hnil
  have hwritten : p.clean.withSuffix ".js" =
      ofComponents (init ++ [.name (last.text ++ ".js")]) := by
    rw [hclean, hp, ofComponents, List.foldl_append, ofComponents, List.foldl_append]
    exact withSuffix_child _ hstep.isAbsolute_text hname.isAbsolute_text
  rw [hwritten, (hother _ hname).steps_ofComponents]

end Path

end AddonBuild
