import AddonBuild.Proofs.Disk.Place
import AddonBuild.Proofs.Path.Filling

/-!
# Straight paths

A cleaned path goes up before it goes down, and so does a cleaned path with a suffix. Such a path
leads through the locations above its own alone, so that it is found wherever there is an entry at
its location, unless it is too long.
-/

namespace AddonBuild

namespace Path

/-! ### Where cleaned paths lead -/

/-- Cleaning takes the names of the location that it leads to, behind what cannot be cancelled. -/
lemma exists_foldl_cleanStep {B : List Component → Prop}
    (hname : ∀ base, B base → ∀ text, cleanStep base (.name text) = .name text :: base)
    (hup : ∀ base, B base → B (cleanStep base .up)) {way : List Component}
    (hway : ∀ c ∈ way, c.IsStep) (here : Location) {base : List Component} (hbase : B base) :
    ∃ base', B base' ∧ way.foldl cleanStep ((here.map .name).reverse ++ base) =
      ((Location.along here way).map .name).reverse ++ base' := by
  induction way generalizing here base with
  | nil => exact ⟨base, hbase, rfl⟩
  | cons c way ih =>
    obtain ⟨hc, hrest⟩ := List.forall_mem_cons.mp hway
    rw [List.foldl_cons]
    cases c with
    | root | here => exact hc.elim
    | name text =>
      have hstep : cleanStep ((here.map .name).reverse ++ base) (.name text) =
          ((here ++ [text]).map .name).reverse ++ base := by
        rcases List.eq_nil_or_concat here with rfl | ⟨init, last, rfl⟩
        · exact hname base hbase text
        · simp [cleanStep]
      rw [hstep]
      exact ih hrest (here ++ [text]) hbase
    | up =>
      rcases List.eq_nil_or_concat here with rfl | ⟨init, last, rfl⟩
      · exact ih hrest [] (hup base hbase)
      · have hstep : cleanStep (((init ++ [last]).map .name).reverse ++ base) .up =
            (init.map .name).reverse ++ base := by
          simp [cleanStep]
        have hlast : Location.step (init ++ [last]) .up = init := List.dropLast_concat
        rw [List.concat_eq_append, hstep, Location.along, List.foldl_cons, hlast]
        exact ih hrest init hbase

/-- A location has the names of the steps that lead to it. -/
lemma name_mem_of_mem_along {way : List Component} {name : String}
    (h : name ∈ Location.along [] way) : .name name ∈ way := by
  induction way using List.reverseRecOn with
  | nil => cases h
  | append_singleton way c ih =>
    rw [Location.along_append] at h
    cases c with
    | name text =>
      rcases List.mem_append.mp h with h | h
      · exact List.mem_append_left _ (ih h)
      · rw [List.mem_singleton.mp h]
        exact List.mem_append_right _ List.mem_cons_self
    | up => exact List.mem_append_left _ (ih (List.dropLast_subset _ h))
    | root | here => exact List.mem_append_left _ (ih h)

/-- A cleaned absolute path goes down to its location. -/
lemma way_clean {p : Path} (hp : p.isAbsolute = true) :
    p.clean.way = p.location.map .name := by
  have hclean := components_clean hp
  obtain ⟨base, rfl, hfold⟩ := exists_foldl_cleanStep (B := (· = [.root]))
    (by rintro _ rfl _; rfl) (by rintro _ rfl; rfl)
    (fun c (hc : c ∈ p.way) => isStep_of_mem_way hc) [] rfl
  rw [components_of_isAbsolute (clean_isAbsolute hp), components_of_isAbsolute hp, cleanComponents,
    List.foldl_cons] at hclean
  have hroot : cleanStep [] .root = ((List.map Component.name []).reverse ++ [.root]) := rfl
  rw [hroot, hfold, List.reverse_append, List.reverse_reverse] at hclean
  exact (List.cons.inj hclean).2

/-! ### Paths that go up before they go down -/

/-- A path that goes up before it goes down. -/
def Straight (p : Path) : Prop :=
  ∃ (n : Nat) (names : List String), p.way = List.replicate n .up ++ names.map .name

lemma along_replicate_up (n : Nat) (names : List Component) :
    Location.along [] (List.replicate n .up ++ names) = Location.along [] names ∧
      Location.trail [] (List.replicate n .up ++ names) = Location.trail [] names := by
  induction n with
  | zero => exact ⟨rfl, rfl⟩
  | succ n ih => exact ih

lemma along_names (names : List String) (here : Location) :
    Location.along here (names.map .name) = here ++ names := by
  induction names generalizing here with
  | nil => exact (List.append_nil here).symm
  | cons name names ih =>
    exact (ih (here ++ [name])).trans (List.append_assoc here [name] names)

/-- What is left at the top of a relative path when it is cleaned is some steps up. -/
lemma cleanComponents_of_relative {p : Path} (hp : ¬ p.isAbsolute = true) :
    ∃ n, cleanComponents p.components = List.replicate n .up ++ p.location.map .name := by
  obtain ⟨base, ⟨n, rfl⟩, hfold⟩ := exists_foldl_cleanStep
    (B := fun base => ∃ n, base = List.replicate n .up)
    (by rintro _ ⟨_ | n, rfl⟩ text <;> rfl)
    (by rintro _ ⟨n, rfl⟩; exact ⟨n + 1, by cases n <;> rfl⟩)
    (fun c (hc : c ∈ p.way) => isStep_of_mem_way hc) [] ⟨0, rfl⟩
  have hlead : p.lead.foldl cleanStep [] = [] := by
    rw [lead, split, if_neg hp]
    split_ifs <;> rfl
  rw [List.map_nil, List.reverse_nil, List.nil_append, List.replicate_zero] at hfold
  refine ⟨n, ?_⟩
  rw [components_eq, cleanComponents, List.foldl_append, hlead, hfold, List.reverse_append,
    List.reverse_reverse, List.reverse_replicate]
  rfl

lemma isStep_of_mem_cleanComponents {p : Path} (hp : ¬ p.isAbsolute = true) {c : Component}
    (hc : c ∈ cleanComponents p.components) : c.IsStep := by
  obtain ⟨n, hcomponents⟩ := cleanComponents_of_relative hp
  rw [hcomponents, List.mem_append, List.mem_map] at hc
  rcases hc with hc | ⟨name, hname, rfl⟩
  · rw [List.eq_of_mem_replicate hc]
    trivial
  · exact isStep_of_mem_way (name_mem_of_mem_along hname)

/-- A cleaned path takes what is left by cleaning, unless nothing is. -/
lemma components_clean_or (p : Path) :
    p.clean.components = cleanComponents p.components ∨
      cleanComponents p.components = [] ∧ p.clean = ⟨"."⟩ := by
  by_cases hp : p.isAbsolute = true
  · exact .inl (components_clean hp)
  · rw [clean]
    split
    · next hnil => exact .inr ⟨hnil, rfl⟩
    · exact .inl (components_ofComponents fun c => isStep_of_mem_cleanComponents hp)

/-- A cleaned path goes up some steps, if it is relative, and then down to its location. -/
lemma exists_way_clean (p : Path) :
    ∃ n, p.clean.way = List.replicate n .up ++ p.location.map .name := by
  by_cases hp : p.isAbsolute = true
  · exact ⟨0, way_clean hp⟩
  obtain ⟨n, hcomponents⟩ := cleanComponents_of_relative hp
  rw [clean]
  split
  · next hnil =>
    rw [hcomponents, List.append_eq_nil_iff] at hnil
    exact ⟨0, by rw [hnil.2]; rfl⟩
  · exact ⟨n, (way_ofComponents fun c => isStep_of_mem_cleanComponents hp).trans hcomponents⟩

lemma location_clean (p : Path) : p.clean.location = p.location := by
  obtain ⟨n, hway⟩ := exists_way_clean p
  rw [location, hway, (along_replicate_up n _).1, along_names, List.nil_append]

lemma here_not_mem_cleanComponents (l : List Component) : .here ∉ cleanComponents l := by
  rw [cleanComponents, List.mem_reverse]
  induction l using List.reverseRecOn with
  | nil => simp
  | append_singleton l c ih =>
    rw [List.foldl_append, List.foldl_cons, List.foldl_nil]
    intro hmem
    cases c with
    | here => exact ih hmem
    | root | name =>
      rcases mem_of_mem_cleanStep hmem with h | h
      · cases h
      · exact ih h
    | up =>
      rcases mem_of_mem_cleanStep hmem with h | h
      · cases h
      · exact ih h

/-- Cleaned paths that take the same steps are written in the same way. -/
lemma same_clean_iff_eq {p q : Path} : p.clean.same q.clean = true ↔ p.clean = q.clean := by
  rw [same, decide_eq_true_iff]
  refine ⟨fun h => ?_, fun h => by rw [h]⟩
  have hdot : components ⟨"."⟩ = [.here] := rfl
  rcases components_clean_or p with hp | ⟨-, hp⟩ <;>
    rcases components_clean_or q with hq | ⟨-, hq⟩
  · rw [hp, hq] at h
    rw [clean, clean, h]
  · rw [hp, hq, hdot] at h
    exact absurd (h ▸ List.mem_cons_self) (here_not_mem_cleanComponents _)
  · rw [hp, hq, hdot] at h
    exact absurd (h ▸ List.mem_cons_self) (here_not_mem_cleanComponents _)
  · rw [hp, hq]

/-- The cleaned form of an absolute path is that of its location. -/
lemma clean_eq_ofComponents {p : Path} (hp : p.isAbsolute = true) :
    p.clean = ofComponents (.root :: p.location.map .name) := by
  obtain ⟨names, -, hclean, hstep⟩ := exists_names hp
  have hway := way_clean hp
  rw [hclean, way_ofComponents_root hstep] at hway
  rw [hclean, hway]

lemma clean_eq_clean_iff {p q : Path} (hp : p.isAbsolute = true) (hq : q.isAbsolute = true) :
    p.clean = q.clean ↔ p.location = q.location := by
  constructor
  · intro h
    rw [← location_clean p, h, location_clean q]
  · intro h
    rw [clean_eq_ofComponents hp, h, clean_eq_ofComponents hq]

lemma prefix_of_mem_trail_names {names : List String} {here k : Location}
    (h : k ∈ Location.trail here (names.map .name)) : here <+: k ∧ k <+: here ++ names := by
  induction names generalizing here with
  | nil => cases h
  | cons name names ih =>
    rw [List.append_cons]
    rcases List.mem_cons.mp h with rfl | h
    · exact ⟨List.prefix_append _ _, List.prefix_append _ _⟩
    · exact ⟨(List.prefix_append _ _).trans (ih h).1, (ih h).2⟩

/-- A straight path leads through the locations above its own. -/
lemma Straight.prefix_location {p : Path} (h : p.Straight) {k : Location} (hk : k ∈ p.trail) :
    k <+: p.location := by
  obtain ⟨n, names, hway⟩ := h
  rw [trail, hway, (along_replicate_up n _).2] at hk
  rw [location, hway, (along_replicate_up n _).1, along_names]
  exact (prefix_of_mem_trail_names hk).2

lemma straight_clean (p : Path) : p.clean.Straight := by
  obtain ⟨n, hway⟩ := exists_way_clean p
  exact ⟨n, _, hway⟩

lemma lead_slash (s t t' : String) : lead ⟨s ++ "/" ++ t⟩ = lead ⟨s ++ "/" ++ t'⟩ := by
  have habsolute : isAbsolute ⟨s ++ "/" ++ t⟩ = isAbsolute ⟨s ++ "/" ++ t'⟩ := by
    rw [isAbsolute, isAbsolute, String.toList_append, String.toList_append (t := t')]
    cases h : (s ++ "/").toList with
    | nil => simp at h
    | cons c cs => rfl
  have hhead : (segments ⟨s ++ "/" ++ t⟩).head? = (segments ⟨s ++ "/" ++ t'⟩).head? := by
    obtain ⟨first, rest, hsegments⟩ := List.exists_cons_of_ne_nil (segments_ne_nil ⟨s⟩)
    rw [segments_slash, segments_slash, hsegments]
    rfl
  rw [lead, lead, split, split, habsolute, hhead]
  split_ifs <;> rfl

/-- A suffix makes a longer name of the last segment, and nothing before that depends on it. -/
lemma exists_withSuffix (p : Path) :
    ∃ (lead way : List Component) (last : String), way <+: p.way ∧
      ∀ suffix : String, '/' ∉ suffix.toList → 2 < suffix.length →
        (p.withSuffix suffix).lead = lead ∧
          (p.withSuffix suffix).way = way ++ [.name (last ++ suffix)] := by
  have hstep {last suffix : String} (hlast : '/' ∉ last.toList) (hslash : '/' ∉ suffix.toList)
      (hlength : 2 < suffix.length) : (Component.name (last ++ suffix)).IsStep := by
    refine ⟨by simp [hlast, hslash], ?_⟩
    have hlong : 2 < (last ++ suffix).length := by
      rw [String.length_append]
      omega
    refine ⟨?_, ?_, ?_⟩ <;>
    · intro heq
      rw [heq] at hlong
      exact absurd hlong (by decide)
  by_cases hp : '/' ∈ p.text.toList
  · obtain ⟨head, last, htext, hlast⟩ := exists_last_slash hp
    have hp : p = ⟨String.ofList head ++ "/" ++ String.ofList last⟩ := by
      obtain ⟨text⟩ := p
      refine congrArg Path.mk (String.toList_injective (htext.trans ?_))
      simp
    refine ⟨p.lead, way ⟨String.ofList head⟩, String.ofList last, ?_,
      fun suffix hslash hlength => ⟨?_, ?_⟩⟩
    · rw [hp, way_slash]
      exact List.prefix_append _ _
    · rw [hp, withSuffix, String.append_assoc]
      exact lead_slash ..
    · rw [hp, withSuffix, String.append_assoc, way_slash]
      exact congrArg _ (hstep (by simpa using hlast) hslash hlength).way_text
  · exact ⟨[], [], p.text, List.nil_prefix, fun suffix hslash hlength =>
      ⟨(hstep hp hslash hlength).lead_text, (hstep hp hslash hlength).way_text⟩⟩

lemma Straight.withSuffix {p : Path} (h : p.Straight) {suffix : String}
    (hslash : '/' ∉ suffix.toList) (hlength : 2 < suffix.length) :
    (p.withSuffix suffix).Straight := by
  obtain ⟨n, names, hway⟩ := h
  obtain ⟨_, before, last, hlead, hsuffix⟩ := exists_withSuffix p
  have hlong := (hsuffix suffix hslash hlength).2
  rw [hway, List.prefix_iff_eq_take, List.take_append, List.take_replicate, ← List.map_take,
    List.length_replicate] at hlead
  refine ⟨min before.length n, names.take (before.length - n) ++ [last ++ suffix], ?_⟩
  rw [hlong, List.map_append, ← List.append_assoc, ← hlead]
  rfl

lemma way_child {name : String} (h : (Component.name name).IsStep) (p : Path) :
    (p.child name).way = p.way ++ [.name name] := by
  have hrelative : isAbsolute ⟨name⟩ = false := h.isAbsolute_text
  have hway : way ⟨name⟩ = [.name name] := h.way_text
  rw [child, way_join p hrelative, hway]

lemma Straight.child {p : Path} (h : p.Straight) {name : String}
    (hname : (Component.name name).IsStep) : (p.child name).Straight := by
  obtain ⟨n, names, hway⟩ := h
  refine ⟨n, names ++ [name], ?_⟩
  rw [way_child hname, hway, List.map_append, List.append_assoc]
  rfl

end Path

/-! ### Where straight paths are found -/

namespace Disk

open AddonBuild.Path

variable {d d' : Disk} {p : Path}

lemma exists_iff : d.exists p = true ↔ ∃ e, d.entry p = .ok e := by
  rw [Disk.exists]
  cases d.entry p with
  | ok e => exact ⟨fun _ => ⟨e, rfl⟩, fun _ => rfl⟩
  | error e =>
    constructor
    · intro h
      cases h
    · rintro ⟨_, h⟩
      cases h

/-- Above an entry there are directories. -/
lemma get?_above {l k : Location} {e : Entry} (h : d.get? l = some e) (hk : k <+: l)
    (hne : k ≠ l) : d.get? k = some .directory := by
  obtain ⟨rest, rfl⟩ := hk
  induction rest using List.reverseRecOn generalizing e with
  | nil => exact absurd (List.append_nil k).symm hne
  | append_singleton rest name ih =>
    have habove := get?_dropLast h
    rw [← List.append_assoc, List.dropLast_concat] at habove
    by_cases hnil : rest = []
    · rwa [hnil, List.append_nil] at habove
    · exact ih habove (by simpa using hnil)

/-- What is found on a disk that has grown was there before if its location was taken. -/
lemma Grows.exists_of_straight (h : d.Grows d') (hp : p.Straight) (hfound : d'.exists p = true)
    (hentry : d.get? p.location ≠ none) : d.exists p = true := by
  obtain ⟨e', he'⟩ := exists_iff.mp hfound
  obtain ⟨l, hl, hget⟩ := entry_eq_ok.mp he'
  obtain ⟨hfits, rfl, -⟩ := of_locate_eq_ok hl
  obtain ⟨e, he⟩ := Option.ne_none_iff_exists'.mp hentry
  have habove : ∀ k ∈ p.trail, k = p.location ∨ d.get? k = some .directory := fun k hk =>
    or_iff_not_imp_left.mpr (get?_above he (hp.prefix_location hk))
  have hfinish : d.locate p = .ok p.location → d.exists p = true := fun hlocate =>
    exists_iff.mpr ⟨e, entry_eq_ok.mpr ⟨_, hlocate, he⟩⟩
  cases e with
  | directory =>
    apply hfinish
    rw [locate_eq_descend hfits, ← List.append_nil p.segments, descend_append [] hfits.names]
    · rfl
    · intro k hk
      rcases habove k hk with rfl | hdirectory
      · exact he
      · exact hdirectory
  | file content =>
    obtain ⟨content', hcontent'⟩ := h.file he
    obtain ⟨init, last, hsegments, hblank, -⟩ := exists_last_of_locate hl (by simp [hcontent'])
    have hpassage := passage_of_locate hl hsegments hblank
    apply hfinish
    refine locate_eq_location hfits hsegments hblank fun k hk => ?_
    rw [← dropLast_way hsegments hblank] at hk
    rcases habove k (passage_subset_trail p hk) with rfl | hdirectory
    · rw [hpassage _ hk] at hcontent'
      cases hcontent'
    · exact hdirectory

lemma Grows.exists (h : d.Grows d') (hp : d.exists p = true) : d'.exists p = true := by
  obtain ⟨e, he⟩ := exists_iff.mp hp
  obtain ⟨l, hl, hget⟩ := entry_eq_ok.mp he
  have hl' := h.locate_eq_ok hl
  cases e with
  | directory => exact exists_iff.mpr ⟨_, entry_eq_ok.mpr ⟨l, hl', h.directory hget⟩⟩
  | file content =>
    obtain ⟨content', hcontent'⟩ := h.file hget
    exact exists_iff.mpr ⟨_, entry_eq_ok.mpr ⟨l, hl', hcontent'⟩⟩

lemma get?_location_of_exists (h : d.exists p = true) : d.get? p.location ≠ none := by
  obtain ⟨e, he⟩ := exists_iff.mp h
  obtain ⟨l, hl, hget⟩ := entry_eq_ok.mp he
  rw [← (of_locate_eq_ok hl).2.1, hget]
  simp

end Disk

end AddonBuild
