import AddonBuild.Proofs.Path.Below
import AddonBuild.Proofs.Path.Slashes
import AddonBuild.Proofs.Pattern.Filling

/-!
# Filling in the wildcard of a place

A path that keeps below its base can be cleaned before its wildcard is filled in or afterwards: the
value ends up between the same steps, and whatever it climbs over is the same.
-/

namespace AddonBuild

namespace Path

open Pattern (mark Sides fill)

/-! ### Characters of a cleaned path -/

lemma mem_of_mem_splitSlashes {s piece : List Char} (h : piece ∈ splitSlashes s) {c : Char}
    (hc : c ∈ piece) : c ∈ s := by
  induction s generalizing piece with
  | nil =>
    obtain rfl := List.mem_singleton.mp h
    exact hc
  | cons a s ih =>
    obtain ⟨first, pieces, hs⟩ := List.exists_cons_of_ne_nil (splitSlashes_ne_nil s)
    rw [hs] at ih
    by_cases ha : a = '/'
    · rw [ha, splitSlashes_slash, hs] at h
      rcases List.mem_cons.mp h with rfl | h
      · cases hc
      · exact List.mem_cons_of_mem _ (ih h hc)
    · rw [splitSlashes_cons ha hs] at h
      rcases List.mem_cons.mp h with rfl | h
      · rcases List.mem_cons.mp hc with rfl | hc
        · exact List.mem_cons_self
        · exact List.mem_cons_of_mem _ (ih List.mem_cons_self hc)
      · exact List.mem_cons_of_mem _ (ih (List.mem_cons_of_mem _ h) hc)

/-- The names on the way of a path are written in its text. -/
lemma mem_text_of_mem_way {p : Path} {name : String} (h : .name name ∈ p.way) {c : Char}
    (hc : c ∈ name.toList) : c ∈ p.text.toList := by
  obtain ⟨segment, hmem, hname⟩ := List.mem_filterMap.mp h
  obtain ⟨piece, hpiece, rfl⟩ := List.mem_map.mp hmem
  unfold Component.ofSegment? at hname
  split_ifs at hname with hblank hup
  · cases hname
  obtain rfl := Component.name.inj (Option.some.inj hname)
  rw [String.toList_ofList] at hc
  exact mem_of_mem_splitSlashes hpiece hc

lemma mem_of_mem_cleanStep {taken : List Component} {step c : Component}
    (h : c ∈ cleanStep taken step) : c = step ∨ c ∈ taken := by
  unfold cleanStep at h
  split at h
  · exact .inr h
  · exact .inr h
  · exact .inr (List.mem_cons_of_mem _ h)
  · exact List.mem_cons.mp h

lemma mem_of_mem_foldl_cleanStep {way taken : List Component} {c : Component}
    (h : c ∈ way.foldl cleanStep taken) : c ∈ way ∨ c ∈ taken := by
  induction way generalizing taken with
  | nil => exact .inr h
  | cons step way ih =>
    rcases ih h with h | h
    · exact .inl (List.mem_cons_of_mem _ h)
    · rcases mem_of_mem_cleanStep h with rfl | h
      · exact .inl List.mem_cons_self
      · exact .inr h

/-- Cleaning makes up no names. -/
lemma name_mem_way_of_mem_steps {p : Path} (hp : p.isAbsolute = true) {name : String}
    (h : .name name ∈ p.steps) : .name name ∈ p.way := by
  rw [steps_of_isAbsolute hp, cleanComponents, List.mem_reverse, components_of_isAbsolute hp] at h
  rcases mem_of_mem_foldl_cleanStep h with h | h
  · exact (List.mem_cons.mp h).resolve_left Component.noConfusion
  · cases h

lemma mem_text_join {p q : Path} {c : Char} (h : c ∈ (p.join q).text.toList) :
    c ∈ p.text.toList ∨ c = '/' ∨ c ∈ q.text.toList := by
  rw [join] at h
  split_ifs at h
  · exact .inr (.inr h)
  · rw [String.toList_append, List.mem_append] at h
    exact h.imp_right .inr
  · rw [String.toList_append, String.toList_append, List.mem_append, List.mem_append] at h
    rcases h with (h | h) | h
    · exact .inl h
    · exact .inr (.inl (List.mem_singleton.mp h))
    · exact .inr (.inr h)

/-! ### The text of a cleaned path -/

lemma mem_text_clean {p : Path} (hp : p.isAbsolute = true) {c : Char}
    (h : c ∈ p.clean.text.toList) : c = '/' ∨ c ∈ p.text.toList := by
  obtain ⟨names, hnames, hclean, hstep⟩ := exists_names hp
  rw [hclean] at h
  by_cases hne : names = []
  · rw [hne] at h
    exact .inl (List.mem_singleton.mp h)
  · rw [toList_ofComponents_root hstep hne] at h
    obtain ⟨name, hname, hc⟩ := List.mem_flatMap.mp h
    rcases List.mem_cons.mp hc with hc | hc
    · exact .inl hc
    · refine .inr (mem_text_of_mem_way (name_mem_way_of_mem_steps hp ?_) hc)
      rw [steps_of_isAbsolute hp, hnames]
      exact List.mem_cons_of_mem _ (List.mem_map_of_mem hname)

/-- Nothing is left to do for a cleaned path when it is written with single slashes. -/
lemma slashed_clean {p : Path} (hp : p.isAbsolute = true) : p.clean.slashed = p.clean.text := by
  obtain ⟨names, -, hclean, hstep⟩ := exists_names hp
  rw [slashed, hclean, components_ofComponents_root hstep]

/-! ### Filling in -/

lemma way_ofList_slash (s t : List Char) :
    way ⟨String.ofList (s ++ '/' :: t)⟩ = way ⟨String.ofList s⟩ ++ way ⟨String.ofList t⟩ := by
  rw [← way_slash, ← List.singleton_append, ← List.append_assoc, String.ofList_append,
    String.ofList_append]

/-- A text with a mark and no slash around it is the name of one step. -/
lemma way_of_mark {left right : List Char} (hleft : '/' ∉ left) (hright : '/' ∉ right) :
    way ⟨String.ofList (left ++ mark :: right)⟩ =
      [.name (String.ofList (left ++ mark :: right))] := by
  have hstep : (Component.name (String.ofList (left ++ mark :: right))).IsStep := by
    have hmark : mark ∈ (String.ofList (left ++ mark :: right)).toList := by simp
    refine ⟨?_, ?_, ?_, ?_⟩
    · rw [String.toList_ofList, List.mem_append, List.mem_cons]
      rintro (h | h | h)
      · exact hleft h
      · exact absurd h (by decide)
      · exact hright h
    all_goals
      intro heq
      rw [heq] at hmark
      exact absurd hmark (by decide)
  exact hstep.way_text

/-- What stands behind a slash, or nothing, takes its own steps. -/
lemma way_append_tail (s : List Char) {t : List Char} (h : t = [] ∨ t.head? = some '/') :
    way ⟨String.ofList (s ++ t)⟩ = way ⟨String.ofList s⟩ ++ way ⟨String.ofList t⟩ := by
  rcases h with rfl | h
  · rw [List.append_nil]
    exact (List.append_nil _).symm
  · obtain ⟨rest, rfl⟩ := List.head?_eq_some_iff.mp h
    rw [way_ofList_slash, ← List.nil_append ('/' :: rest), way_ofList_slash]
    rfl

lemma head?_dropWhile_ne_slash (s : List Char) :
    s.dropWhile (· ≠ '/') = [] ∨ (s.dropWhile (· ≠ '/')).head? = some '/' := by
  have h := List.head?_dropWhile_not (· ≠ '/') s
  cases hs : s.dropWhile (· ≠ '/') with
  | nil => exact .inl rfl
  | cons c rest =>
    rw [hs] at h
    exact .inr (by simpa using h)

lemma not_mem_takeWhile_ne_slash (s : List Char) : '/' ∉ s.takeWhile (· ≠ '/') := by
  intro h
  have hall := List.all_eq_true.mp List.all_takeWhile _ h
  simp at hall

/-- The end of a text behind its last slash. -/
lemma exists_last_slash {s : List Char} (h : '/' ∈ s) :
    ∃ head last, s = head ++ '/' :: last ∧ '/' ∉ last := by
  induction s with
  | nil => cases h
  | cons c s ih =>
    by_cases hs : '/' ∈ s
    · obtain ⟨head, last, rfl, hlast⟩ := ih hs
      exact ⟨c :: head, last, rfl, hlast⟩
    · obtain rfl : '/' = c := (List.mem_cons.mp h).resolve_right hs
      exact ⟨[], s, rfl, hs⟩

/-- Where the mark of a file stands: behind a slash, in a name, with whole names behind that. -/
structure MarkPlace {file : String} (sides : Sides file) where
  head : List Char
  lead : List Char
  rest : List Char
  tail : List Char
  left_eq : sides.left = head ++ '/' :: lead
  right_eq : sides.right = rest ++ tail
  slash_not_mem_lead : '/' ∉ lead
  slash_not_mem_rest : '/' ∉ rest
  tail_eq : tail = [] ∨ tail.head? = some '/'

lemma exists_markPlace {file : String} (sides : Sides file)
    (hlead : Text.startsWith "./" file = true) : Nonempty (MarkPlace sides) := by
  obtain ⟨text, htext⟩ := startsWith_iff.mp hlead
  have hslash : '/' ∈ sides.left := by
    have h : sides.left ++ mark :: sides.right = '.' :: '/' :: text :=
      sides.toList_eq.symm.trans htext
    cases hleft : sides.left with
    | nil => rw [hleft] at h; exact absurd (List.cons.inj h).1 (by decide)
    | cons a left =>
      rw [hleft] at h
      have h := (List.cons.inj h).2
      cases left with
      | nil => exact absurd (List.cons.inj h).1 (by decide)
      | cons b left =>
        rw [(List.cons.inj h).1]
        simp
  obtain ⟨head, lead, hleft, hnot⟩ := exists_last_slash hslash
  exact ⟨head, lead, sides.right.takeWhile (· ≠ '/'), sides.right.dropWhile (· ≠ '/'), hleft,
    List.takeWhile_append_dropWhile.symm, hnot, not_mem_takeWhile_ne_slash _,
    head?_dropWhile_ne_slash _⟩

lemma way_between {head middle tail : List Char} (h : tail = [] ∨ tail.head? = some '/') :
    way ⟨String.ofList (head ++ '/' :: middle ++ tail)⟩ =
      way ⟨String.ofList head⟩ ++ way ⟨String.ofList middle⟩ ++ way ⟨String.ofList tail⟩ := by
  rw [way_append_tail _ h, way_ofList_slash]

lemma MarkPlace.way_fill {file : String} {sides : Sides file} (place : MarkPlace sides)
    (value : String) :
    way ⟨fill value file⟩ =
      way ⟨String.ofList place.head⟩ ++
        way ⟨String.ofList (place.lead ++ value.toList ++ place.rest)⟩ ++
        way ⟨String.ofList place.tail⟩ := by
  rw [← String.ofList_toList (s := fill value file), sides.fill_eq, place.left_eq, place.right_eq,
    ← way_between place.tail_eq]
  simp

lemma MarkPlace.way_eq {file : String} {sides : Sides file} (place : MarkPlace sides) :
    way ⟨file⟩ =
      way ⟨String.ofList place.head⟩ ++
        [.name (String.ofList (place.lead ++ mark :: place.rest))] ++
        way ⟨String.ofList place.tail⟩ := by
  have hname := way_of_mark place.slash_not_mem_lead place.slash_not_mem_rest
  have hfile : file = String.ofList
      (place.head ++ '/' :: (place.lead ++ mark :: place.rest) ++ place.tail) := by
    rw [← String.toList_inj, String.toList_ofList, sides.toList_eq, place.left_eq, place.right_eq]
    simp
  rw [congrArg (way ⟨·⟩) hfile, way_between place.tail_eq, hname]

/-- Beginnings that are cleaned to the same steps can stand for each other. -/
lemma clean_eq_of_way_eq {p q : Path} (hp : p.isAbsolute = true) (hq : q.isAbsolute = true)
    {first second way : List Component} (hpway : p.way = first ++ way)
    (hqway : q.way = second ++ way)
    (h : first.foldl cleanStep [.root] = second.foldl cleanStep [.root]) : p.clean = q.clean := by
  have hroot : cleanStep [] .root = [.root] := rfl
  rw [clean_eq hp, clean_eq hq, components_of_isAbsolute hp, components_of_isAbsolute hq, hpway,
    hqway, cleanComponents, cleanComponents, List.foldl_cons, List.foldl_cons, hroot,
    List.foldl_append, List.foldl_append, h]

lemma foldl_way_eq_of_steps {p : Path} (hp : p.isAbsolute = true) {names : List String}
    (h : p.steps = .root :: names.map .name) :
    p.way.foldl cleanStep [.root] = (names.map .name).foldl cleanStep [.root] := by
  rw [foldl_cleanStep_names]
  rw [steps_of_isAbsolute hp, cleanComponents, components_of_isAbsolute hp, List.foldl_cons,
    List.reverse_eq_iff, List.reverse_cons] at h
  exact h

lemma exists_names_of_way {p : Path} {way : List Component} (hsub : way ⊆ p.way)
    (hclimb : .up ∉ p.way) : ∃ names : List String, way = names.map .name := by
  apply exists_map_name
  intro c hc
  have hstep := isStep_of_mem_way (hsub hc)
  cases c with
  | root | here => exact hstep.elim
  | up => exact absurd (hsub hc) hclimb
  | name text => exact ⟨text, rfl⟩

lemma cleanComponents_names (names : List String) :
    cleanComponents (names.map .name) = names.map .name := by
  rw [cleanComponents, foldl_cleanStep_names, List.append_nil, List.reverse_reverse]

lemma not_mem_slashes {names : List String} (h : ∀ name ∈ names, mark ∉ name.toList) :
    mark ∉ slashes names := by
  intro hmem
  obtain ⟨name, hname, hc⟩ := List.mem_flatMap.mp hmem
  rcases List.mem_cons.mp hc with hc | hc
  · exact absurd hc (by decide)
  · exact h name hname hc

lemma startsWith_fill {lead text : String} (h : Text.startsWith lead text = true)
    (hmark : mark ∉ lead.toList) (value : String) :
    Text.startsWith lead (fill value text) = true := by
  obtain ⟨rest, hrest⟩ := startsWith_iff.mp h
  rw [startsWith_iff, fill, String.toList_ofList, hrest, List.flatMap_append,
    Pattern.flatMap_fill_of_not_mem hmark]
  exact ⟨_, rfl⟩

lemma startsWith_dot {text : String} (h : Text.startsWith "./" text = true) :
    Text.startsWith "." text = true := by
  obtain ⟨rest, hrest⟩ := startsWith_iff.mp h
  exact startsWith_iff.mpr ⟨'/' :: rest, hrest⟩

/-- Text that is filled in does not make an absolute path relative. -/
lemma isAbsolute_of_fill {file value : String} (h : isAbsolute ⟨fill value file⟩ = false) :
    isAbsolute ⟨file⟩ = false := by
  rw [← Bool.not_eq_true, isAbsolute_iff] at h ⊢
  intro hhead
  obtain ⟨rest, hrest⟩ := List.head?_eq_some_iff.mp hhead
  apply h
  have hslash : ¬ '/' = mark := by decide
  rw [fill, String.toList_ofList, hrest, List.flatMap_cons, if_neg hslash]
  rfl

/-- The names around the mark of a file that keeps below its base, and those of the base. -/
structure Around (base : Path) {file : String} {sides : Sides file} (place : MarkPlace sides) where
  above : List String
  below : List String
  behind : List String
  steps_base : base.steps = .root :: above.map .name
  way_head : way ⟨String.ofList place.head⟩ = below.map .name
  way_tail : way ⟨String.ofList place.tail⟩ = behind.map .name

section Around

variable {base : Path} {file : String} {sides : Sides file} {place : MarkPlace sides}

lemma exists_around (hbase : base.isAbsolute = true) (place : MarkPlace sides)
    (hclimb : .up ∉ way ⟨file⟩) : Nonempty (Around base place) := by
  have hway := place.way_eq
  obtain ⟨above, habove, -⟩ := exists_steps hbase
  have hhead : way ⟨String.ofList place.head⟩ ⊆ way ⟨file⟩ := by
    rw [hway]
    simp
  have htail : way ⟨String.ofList place.tail⟩ ⊆ way ⟨file⟩ := by
    rw [hway]
    simp
  obtain ⟨below, hbelow⟩ := exists_names_of_way hhead hclimb
  obtain ⟨behind, hbehind⟩ := exists_names_of_way htail hclimb
  exact ⟨above, below, behind, habove, hbelow, hbehind⟩

/-- The names of the file, from its base on. -/
def Around.names (a : Around base place) : List String :=
  a.below ++ String.ofList (place.lead ++ mark :: place.rest) :: a.behind

lemma Around.way_file (a : Around base place) : way ⟨file⟩ = a.names.map .name := by
  rw [place.way_eq, a.way_head, a.way_tail, names]
  simp

lemma Around.steps_join (a : Around base place) (hbase : base.isAbsolute = true)
    (hrelative : isAbsolute ⟨file⟩ = false) :
    (base.join ⟨file⟩).steps = .root :: (a.above ++ a.names).map .name := by
  have hup : .up ∉ cleanComponents (way ⟨file⟩) := by
    rw [a.way_file, cleanComponents_names]
    simp
  rw [steps_of_way_eq hbase (isAbsolute_join hbase ⟨file⟩) (way_join base hrelative) hup,
    a.way_file, cleanComponents_names, a.steps_base, List.map_append]
  rfl

lemma Around.isStep (a : Around base place) (hbase : base.isAbsolute = true) :
    ∀ c ∈ (a.above ++ a.names).map Component.name, c.IsStep := by
  obtain ⟨above, habove, hstep⟩ := exists_steps hbase
  obtain rfl : above = a.above := by
    have h := (List.cons.inj (habove.symm.trans a.steps_base)).2
    exact List.map_injective_iff.mpr (fun _ _ => Component.name.inj) h
  intro c hc
  rw [List.map_append, List.mem_append, ← a.way_file] at hc
  rcases hc with hc | hc
  · exact hstep c hc
  · exact isStep_of_mem_way hc

/-- How the place of the file is written. -/
lemma Around.toList_absolutize (a : Around base place) (hbase : base.isAbsolute = true)
    (hrelative : isAbsolute ⟨file⟩ = false) :
    (base.absolutize ⟨file⟩).text.toList =
      slashes (a.above ++ a.below) ++ '/' :: (place.lead ++ mark :: place.rest) ++
        slashes a.behind := by
  have hjoin := isAbsolute_join hbase ⟨file⟩
  have hne : a.above ++ a.names ≠ [] := by simp [names]
  rw [absolutize, clean_eq hjoin, ← steps_of_isAbsolute hjoin, a.steps_join hbase hrelative,
    toList_ofComponents_root (a.isStep hbase) hne]
  simp [names, slashes]

lemma Around.not_mem_above (a : Around base place) (hbase : base.isAbsolute = true)
    (hmark : mark ∉ base.text.toList) : ∀ name ∈ a.above, mark ∉ name.toList := by
  intro name hname hc
  have hsteps : .name name ∈ base.steps := by
    rw [a.steps_base]
    exact List.mem_cons_of_mem _ (List.mem_map_of_mem hname)
  exact hmark (mem_text_of_mem_way (name_mem_way_of_mem_steps hbase hsteps) hc)

lemma Around.not_mem_below (a : Around base place) : ∀ name ∈ a.below, mark ∉ name.toList := by
  intro name hname hc
  have hway : .name name ∈ way ⟨String.ofList place.head⟩ := by
    rw [a.way_head]
    exact List.mem_map_of_mem hname
  have hhead := mem_text_of_mem_way hway hc
  rw [String.toList_ofList] at hhead
  apply sides.not_mem_left
  rw [place.left_eq]
  exact List.mem_append_left _ hhead

lemma Around.not_mem_behind (a : Around base place) : ∀ name ∈ a.behind, mark ∉ name.toList := by
  intro name hname hc
  have hway : .name name ∈ way ⟨String.ofList place.tail⟩ := by
    rw [a.way_tail]
    exact List.mem_map_of_mem hname
  have htail := mem_text_of_mem_way hway hc
  rw [String.toList_ofList] at htail
  apply sides.not_mem_right
  rw [place.right_eq]
  exact List.mem_append_right _ htail

/-- The two sides of the mark in the place of the file. -/
def Around.placed (a : Around base place) (hbase : base.isAbsolute = true)
    (hmark : mark ∉ base.text.toList) (hrelative : isAbsolute ⟨file⟩ = false) :
    Sides (base.absolutize ⟨file⟩).text where
  left := slashes (a.above ++ a.below) ++ '/' :: place.lead
  right := place.rest ++ slashes a.behind
  toList_eq := by
    rw [a.toList_absolutize hbase hrelative]
    simp
  not_mem_left := by
    have hnames : mark ∉ slashes (a.above ++ a.below) := by
      apply not_mem_slashes
      intro name hname
      exact (List.mem_append.mp hname).elim (a.not_mem_above hbase hmark name)
        (a.not_mem_below name)
    have hlead : mark ∉ place.lead := by
      intro h
      apply sides.not_mem_left
      rw [place.left_eq]
      simp [h]
    simp [hnames, hlead, show mark ≠ '/' by decide]
  not_mem_right := by
    have hrest : mark ∉ place.rest := by
      intro h
      apply sides.not_mem_right
      rw [place.right_eq]
      exact List.mem_append_left _ h
    rw [List.mem_append, not_or]
    exact ⟨hrest, not_mem_slashes a.not_mem_behind⟩

lemma Around.fill_absolutize (a : Around base place) (hbase : base.isAbsolute = true)
    (hmark : mark ∉ base.text.toList) (hrelative : isAbsolute ⟨file⟩ = false) (value : String) :
    fill value (base.absolutize ⟨file⟩).text = String.ofList
      (slashes (a.above ++ a.below) ++ '/' :: (place.lead ++ value.toList ++ place.rest) ++
        slashes a.behind) := by
  rw [← String.toList_inj, (a.placed hbase hmark hrelative).fill_eq, String.toList_ofList, placed]
  simp

/-- Filling in the place of the file leaves the names around the mark. -/
lemma Around.way_fill_absolutize (a : Around base place) (hbase : base.isAbsolute = true)
    (hmark : mark ∉ base.text.toList) (hrelative : isAbsolute ⟨file⟩ = false) (value : String) :
    way ⟨fill value (base.absolutize ⟨file⟩).text⟩ =
      (a.above.map .name ++ a.below.map .name) ++
        way ⟨String.ofList (place.lead ++ value.toList ++ place.rest)⟩ ++ a.behind.map .name := by
  have hstep := a.isStep hbase
  have habove : ∀ c ∈ (a.above ++ a.below).map Component.name, c.IsStep := by
    intro c hc
    apply hstep
    simp only [names, List.map_append, List.mem_append] at hc ⊢
    tauto
  have hbehind : ∀ c ∈ a.behind.map Component.name, c.IsStep := by
    intro c hc
    apply hstep
    simp only [names, List.map_append, List.map_cons, List.mem_append, List.mem_cons] at hc ⊢
    tauto
  rw [a.fill_absolutize hbase hmark hrelative, way_between (slashes_eq_nil_or _),
    way_slashes habove, way_slashes hbehind, List.map_append]

lemma Around.isAbsolute_fill_absolutize (a : Around base place) (hbase : base.isAbsolute = true)
    (hmark : mark ∉ base.text.toList) (hrelative : isAbsolute ⟨file⟩ = false) (value : String) :
    isAbsolute ⟨fill value (base.absolutize ⟨file⟩).text⟩ = true := by
  rw [a.fill_absolutize hbase hmark hrelative, isAbsolute_iff, String.toList_ofList]
  rcases slashes_eq_nil_or (a.above ++ a.below) with h | h
  · rw [h]
    rfl
  · obtain ⟨rest, hrest⟩ := List.head?_eq_some_iff.mp h
    rw [hrest]
    rfl

end Around

/-- A file with a wildcard that keeps below its base is placed before its wildcard is filled in or
afterwards. -/
lemma exists_fill_absolutize {base : Path} (hbase : base.isAbsolute = true)
    (hmark : mark ∉ base.text.toList) {file : String} (sides : Sides file)
    (hlead : Text.startsWith "./" file = true) (hclimb : .up ∉ way ⟨file⟩) :
    Nonempty (Sides (base.absolutize ⟨file⟩).text) ∧
      ∀ value, isAbsolute ⟨fill value (base.absolutize ⟨file⟩).text⟩ = true ∧
        clean ⟨fill value (base.absolutize ⟨file⟩).text⟩ = base.absolutize ⟨fill value file⟩ := by
  obtain ⟨place⟩ := exists_markPlace sides hlead
  obtain ⟨a⟩ := exists_around hbase place hclimb
  have hrelative : isAbsolute ⟨file⟩ = false := isAbsolute_of_startsWith_dot (startsWith_dot hlead)
  refine ⟨⟨a.placed hbase hmark hrelative⟩, ?_⟩
  intro value
  have hfilled : isAbsolute ⟨fill value file⟩ = false :=
    isAbsolute_of_startsWith_dot (startsWith_dot (startsWith_fill hlead (by decide) value))
  have habsolute := a.isAbsolute_fill_absolutize hbase hmark hrelative value
  have hbelow := way_join base hfilled
  rw [place.way_fill, a.way_head, a.way_tail] at hbelow
  refine ⟨habsolute, ?_⟩
  refine clean_eq_of_way_eq habsolute (isAbsolute_join hbase _) ?_ hbelow
    (foldl_way_eq_of_steps hbase a.steps_base).symm
  rw [a.way_fill_absolutize hbase hmark hrelative]
  simp only [List.append_assoc]

end Path

end AddonBuild
