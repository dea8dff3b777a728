import AddonBuild.Path.Relative
import AddonBuild.Proofs.Path.Segments

/-!
# What cleaning leaves

Cleaning an absolute path leaves the root and names below it. A path of that form is written in one
way only, so that cleaning it again changes nothing.
-/

namespace AddonBuild

namespace Path

/-! ### Paths from steps -/

lemma Component.IsStep.not_mem_text {c : Component} (h : c.IsStep) : '/' ∉ c.text.toList := by
  cases c with
  | root | here => exact h.elim
  | up => decide
  | name text => exact h.1

lemma Component.IsStep.isAbsolute_text {c : Component} (h : c.IsStep) :
    isAbsolute ⟨c.text⟩ = false := by
  rw [← Bool.not_eq_true, isAbsolute_iff]
  intro hslash
  exact h.not_mem_text (List.mem_of_mem_head? hslash)

lemma Component.IsStep.text_ne {c : Component} (h : c.IsStep) : c.text ≠ "" ∧ c.text ≠ "." := by
  cases c with
  | root | here => exact h.elim
  | up => decide
  | name text => exact ⟨h.2.1, h.2.2.1⟩

lemma Component.IsStep.segments_text {c : Component} (h : c.IsStep) :
    segments ⟨c.text⟩ = [c.text] :=
  segments_of_not_mem h.not_mem_text

lemma Component.IsStep.way_text {c : Component} (h : c.IsStep) : way ⟨c.text⟩ = [c] := by
  rw [way, h.segments_text, List.filterMap_cons_some (ofSegment?_of_isStep h)]
  rfl

lemma Component.IsStep.lead_text {c : Component} (h : c.IsStep) : lead ⟨c.text⟩ = [] := by
  rw [lead, split, if_neg (by simp [h.isAbsolute_text]), h.segments_text,
    if_neg (by simpa using h.text_ne.2)]
  rfl

/-- Joining a relative path puts its text behind a slash, which may be there already. -/
lemma exists_text_join (p : Path) {q : Path} (hp : p.text ≠ "") (hq : q.isAbsolute = false) :
    ∃ t, (p.text = t ∨ p.text = t ++ "/") ∧ p.join q = ⟨t ++ "/" ++ q.text⟩ := by
  rw [join, if_neg (by simp [hq])]
  split_ifs with h
  · have hslash : p.text.toList.getLast? = some '/' := by simpa [hp] using h
    obtain ⟨t, ht⟩ := exists_of_getLast?_eq_slash hslash
    exact ⟨t, Or.inr ht, by rw [ht]⟩
  · exact ⟨p.text, Or.inl rfl, rfl⟩

lemma lead_join {p q : Path} (hp : p.text ≠ "") (hq : q.isAbsolute = false) :
    (p.join q).lead = p.lead := by
  obtain ⟨s⟩ := p
  obtain ⟨t, ht, hjoin⟩ := exists_text_join ⟨s⟩ hp hq
  obtain ⟨first, rest, hsegments⟩ := List.exists_cons_of_ne_nil (segments_ne_nil ⟨t⟩)
  have habs : (join ⟨s⟩ q).isAbsolute = isAbsolute ⟨s⟩ := by
    obtain ⟨u, hu⟩ : ∃ u, (join ⟨s⟩ q).text = s ++ u := by
      rw [hjoin]
      rcases ht with rfl | rfl
      · exact ⟨"/" ++ q.text, String.append_assoc⟩
      · exact ⟨q.text, rfl⟩
    obtain ⟨c, cs, hs⟩ := List.exists_cons_of_ne_nil (mt String.toList_eq_nil_iff.mp hp)
    rw [isAbsolute, isAbsolute, hu, String.toList_append, hs]
    rfl
  have hhead : (join ⟨s⟩ q).segments.head? = (segments ⟨s⟩).head? := by
    rw [hjoin, segments_slash, hsegments]
    rcases ht with rfl | rfl
    · rw [hsegments]
      rfl
    · have hs := segments_slash t ""
      rw [String.append_empty, hsegments] at hs
      rw [hs]
      rfl
  rw [lead, lead, split, split, habs, hhead]
  split_ifs <;> rfl

lemma isAbsolute_foldl_child {p : Path} (hp : p.isAbsolute = true) (l : List Component) :
    (l.foldl (fun p step => p.child step.text) p).isAbsolute = true := by
  induction l generalizing p with
  | nil => exact hp
  | cons c l ih => exact ih (isAbsolute_join hp _)

lemma isAbsolute_ofComponents_root (l : List Component) :
    (ofComponents (.root :: l)).isAbsolute = true :=
  isAbsolute_foldl_child (p := ⟨"/"⟩) rfl l

section Fold

variable {l : List Component} (hl : ∀ c ∈ l, c.IsStep)
include hl

lemma way_foldl_child (p : Path) :
    (l.foldl (fun p step => p.child step.text) p).way = p.way ++ l := by
  induction l generalizing p with
  | nil => rw [List.append_nil]; rfl
  | cons c l ih =>
    have hc : c.IsStep := hl c List.mem_cons_self
    rw [List.foldl_cons, ih fun d hd => hl d (List.mem_cons_of_mem c hd), child,
      way_join p hc.isAbsolute_text, hc.way_text, List.append_assoc]
    rfl

lemma lead_foldl_child {p : Path} (hp : p.text ≠ "") :
    (l.foldl (fun p step => p.child step.text) p).lead = p.lead := by
  induction l generalizing p with
  | nil => rfl
  | cons c l ih =>
    have hc : isAbsolute ⟨c.text⟩ = false := (hl c List.mem_cons_self).isAbsolute_text
    obtain ⟨t, -, hjoin⟩ := exists_text_join p hp hc
    rw [List.foldl_cons, ih fun d hd => hl d (List.mem_cons_of_mem c hd), child, lead_join hp hc]
    rw [child, hjoin]
    simp

lemma way_ofComponents : (ofComponents l).way = l := by
  rw [ofComponents, way_foldl_child hl, way_empty, List.nil_append]

/-- A path that is made of steps takes them. -/
lemma components_ofComponents : (ofComponents l).components = l := by
  rw [components_eq, way_ofComponents hl, ofComponents]
  cases l with
  | nil => rfl
  | cons c l =>
    have hc : c.IsStep := hl c List.mem_cons_self
    have hfirst : child ⟨""⟩ c.text = ⟨c.text⟩ := by
      rw [child, join, if_neg (by simp [hc.isAbsolute_text])]
      simp
    have hlead := lead_foldl_child (fun d hd => hl d (List.mem_cons_of_mem c hd))
      (p := ⟨c.text⟩) hc.text_ne.1
    rw [List.foldl_cons, hfirst, hlead, hc.lead_text]
    rfl

lemma way_ofComponents_root : (ofComponents (.root :: l)).way = l :=
  way_foldl_child hl ⟨"/"⟩

lemma components_ofComponents_root : (ofComponents (.root :: l)).components = .root :: l := by
  rw [components_of_isAbsolute (isAbsolute_ofComponents_root l), way_ofComponents_root hl]

end Fold

/-! ### Cleaning absolute paths -/

/-- What cleaning has taken on the way from the root, the last step first: names, with the root
below. -/
inductive Settled : List Component → Prop where
  | root : Settled [.root]
  | name {text : String} {taken : List Component} (htext : (Component.name text).IsStep)
    (h : Settled taken) : Settled (.name text :: taken)

lemma Settled.cleanStep {taken : List Component} (h : Settled taken) {c : Component}
    (hc : c.IsStep) : Settled (cleanStep taken c) := by
  cases c with
  | root | here => exact hc.elim
  | name text => exact .name hc h
  | up =>
    cases h with
    | root => exact .root
    | name _ h => exact h

lemma Settled.foldl {taken : List Component} (h : Settled taken) {way : List Component}
    (hway : ∀ c ∈ way, c.IsStep) : Settled (way.foldl Path.cleanStep taken) := by
  induction way generalizing taken with
  | nil => exact h
  | cons c way ih =>
    apply ih (h.cleanStep (hway c List.mem_cons_self))
    intro d hd
    exact hway d (List.mem_cons_of_mem c hd)

lemma Settled.exists_reverse {taken : List Component} (h : Settled taken) :
    ∃ names : List String, taken.reverse = .root :: names.map .name ∧
      ∀ c ∈ names.map Component.name, c.IsStep := by
  induction h with
  | root => exact ⟨[], rfl, by simp⟩
  | @name text taken htext _ ih =>
    obtain ⟨names, hnames, hstep⟩ := ih
    refine ⟨names ++ [text], ?_, ?_⟩
    · rw [List.reverse_cons, hnames, List.map_append]
      rfl
    · intro c hc
      rw [List.map_append, List.mem_append] at hc
      rcases hc with hc | hc
      · exact hstep c hc
      · obtain rfl := List.mem_singleton.mp hc
        exact htext

/-- What cleaning has taken of an absolute path. -/
lemma settled_of_isAbsolute {p : Path} (h : p.isAbsolute = true) :
    Settled (p.components.foldl cleanStep []) := by
  rw [components_of_isAbsolute h, List.foldl_cons]
  exact Settled.root.foldl fun _ => isStep_of_mem_way

/-- The names below the root are all that a cleaned absolute path has. -/
lemma exists_names {p : Path} (h : p.isAbsolute = true) :
    ∃ names : List String, cleanComponents p.components = .root :: names.map .name ∧
      p.clean = ofComponents (.root :: names.map .name) ∧
      ∀ c ∈ names.map Component.name, c.IsStep := by
  obtain ⟨names, hnames, hstep⟩ := (settled_of_isAbsolute h).exists_reverse
  refine ⟨names, hnames, ?_, hstep⟩
  rw [clean, cleanComponents, hnames]

lemma clean_isAbsolute {p : Path} (h : p.isAbsolute = true) : p.clean.isAbsolute = true := by
  obtain ⟨names, -, hclean, -⟩ := exists_names h
  rw [hclean]
  exact isAbsolute_ofComponents_root _

lemma components_clean {p : Path} (h : p.isAbsolute = true) :
    p.clean.components = cleanComponents p.components := by
  obtain ⟨names, hnames, hclean, hstep⟩ := exists_names h
  rw [hclean, components_ofComponents_root hstep, hnames]

lemma clean_eq {p : Path} (h : p.isAbsolute = true) :
    p.clean = ofComponents (cleanComponents p.components) := by
  obtain ⟨names, hnames, hclean, -⟩ := exists_names h
  rw [hclean, hnames]

/-- Names push themselves onto what has been taken. -/
lemma foldl_cleanStep_names (names : List String) (taken : List Component) :
    (names.map .name).foldl cleanStep taken = (names.map .name).reverse ++ taken := by
  induction names generalizing taken with
  | nil => rfl
  | cons text names ih =>
    rw [List.map_cons, List.foldl_cons, ih, List.reverse_cons, List.append_assoc]
    rfl

/-- Each `..` takes back a name. -/
lemma foldl_cleanStep_ups (names : List String) (taken : List Component) :
    (List.replicate names.length Component.up).foldl cleanStep (names.map .name ++ taken) =
      taken := by
  induction names with
  | nil => rfl
  | cons text names ih => exact ih

lemma clean_ofComponents_root {names : List String}
    (h : ∀ c ∈ names.map Component.name, c.IsStep) :
    (ofComponents (.root :: names.map .name)).clean = ofComponents (.root :: names.map .name) := by
  rw [clean_eq (isAbsolute_ofComponents_root _), components_ofComponents_root h, cleanComponents,
    List.foldl_cons, foldl_cleanStep_names]
  simp [cleanStep]

/-- Cleaning a cleaned path changes nothing. -/
lemma clean_clean {p : Path} (h : p.isAbsolute = true) : p.clean.clean = p.clean := by
  obtain ⟨names, -, hclean, hstep⟩ := exists_names h
  rw [hclean, clean_ofComponents_root hstep]

lemma absolutize_isAbsolute {base : Path} (h : base.isAbsolute = true) (p : Path) :
    (base.absolutize p).isAbsolute = true :=
  clean_isAbsolute (isAbsolute_join h p)

lemma clean_absolutize {base : Path} (h : base.isAbsolute = true) (p : Path) :
    (base.absolutize p).clean = base.absolutize p :=
  clean_clean (isAbsolute_join h p)

/-! ### Suffixes -/

lemma withSuffix_child (p : Path) {name suffix : String} (h : isAbsolute ⟨name⟩ = false)
    (hsuffix : isAbsolute ⟨name ++ suffix⟩ = false) :
    (p.child name).withSuffix suffix = p.child (name ++ suffix) := by
  have hname : ¬ isAbsolute ⟨name⟩ = true := by simp [h]
  have hlong : ¬ isAbsolute ⟨name ++ suffix⟩ = true := by simp [hsuffix]
  rw [child, child, join, join, if_neg hname, if_neg hlong, withSuffix]
  split_ifs <;> simp [String.append_assoc]

lemma Component.IsStep.append_js {name : String} (h : (Component.name name).IsStep) :
    (Component.name (name ++ ".js")).IsStep := by
  have hlength : 2 < (name ++ ".js").length := by
    rw [String.length_append]
    exact Nat.lt_of_lt_of_le (by decide) (Nat.le_add_left _ _)
  refine ⟨?_, ?_, ?_, ?_⟩
  · rw [String.toList_append, List.mem_append, not_or]
    exact ⟨h.1, by decide⟩
  all_goals
    intro heq
    rw [heq] at hlength
    exact absurd hlength (by decide)

lemma ofComponents_concat (l : List Component) (name : String) :
    ofComponents (l ++ [.name name]) = (ofComponents l).child name := by
  rw [ofComponents, List.foldl_append]
  rfl

/-- The name of a compiled file is written behind a cleaned path, and the path stays clean. -/
lemma exists_withSuffix_js {p : Path} (h : p.isAbsolute = true) :
    ∃ names : List String, p.clean.withSuffix ".js" = ofComponents (.root :: names.map .name) ∧
      ∀ c ∈ names.map Component.name, c.IsStep := by
  obtain ⟨names, -, hclean, hstep⟩ := exists_names h
  rw [hclean]
  rcases List.eq_nil_or_concat names with rfl | ⟨init, last, rfl⟩
  · refine ⟨[".js"], rfl, ?_⟩
    intro c hc
    obtain rfl := List.mem_singleton.mp hc
    decide
  · simp only [List.concat_eq_append, List.map_append, List.map_cons, List.map_nil] at hstep ⊢
    have hlast : (Component.name last).IsStep := hstep _ (by simp)
    refine ⟨init ++ [last ++ ".js"], ?_, ?_⟩
    · have hname : isAbsolute ⟨last⟩ = false := hlast.isAbsolute_text
      have hlong : isAbsolute ⟨last ++ ".js"⟩ = false := hlast.append_js.isAbsolute_text
      rw [List.map_append, ← List.cons_append, ← List.cons_append, ofComponents_concat,
        withSuffix_child _ hname hlong]
      exact (ofComponents_concat _ _).symm
    · intro c hc
      rw [List.map_append, List.mem_append] at hc
      rcases hc with hc | hc
      · exact hstep c (List.mem_append_left _ hc)
      · obtain rfl := List.mem_singleton.mp hc
        exact hlast.append_js

lemma clean_withSuffix_js {p : Path} (h : p.isAbsolute = true) :
    (p.clean.withSuffix ".js").clean = p.clean.withSuffix ".js" := by
  obtain ⟨names, hnames, hstep⟩ := exists_withSuffix_js h
  rw [hnames, clean_ofComponents_root hstep]

lemma isAbsolute_withSuffix {p : Path} (h : p.isAbsolute = true) (suffix : String) :
    (p.withSuffix suffix).isAbsolute = true := by
  obtain ⟨s, hs⟩ := exists_of_isAbsolute h
  rw [isAbsolute_iff, withSuffix, String.toList_append, hs]
  rfl

end Path

end AddonBuild
