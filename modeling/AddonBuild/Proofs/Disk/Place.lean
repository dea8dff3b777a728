import AddonBuild.Proofs.Disk.Locating
import Mathlib.Data.List.Pairwise

/-!
# Places of paths

An absolute path leads to one location, by its steps alone; the disk only decides whether the path
can be followed. The locations on the way have to be directories, and the path and its names must
not be too long.
-/

namespace AddonBuild

/-! ### Entries -/

namespace Disk

variable {d : Disk}

/-- There is one entry at a location. -/
lemma eq_of_mem_entries {l : Location} {e e' : Entry} (h : (l, e) ∈ d.entries)
    (h' : (l, e') ∈ d.entries) : e = e' := by
  have : Std.Symm fun a b : Location × Entry => a.1 ≠ b.1 := ⟨fun _ _ => Ne.symm⟩
  have hdistinct : d.entries.Pairwise fun a b => a.1 ≠ b.1 :=
    d.sorted.imp fun {a b} (hlt : a.1 < b.1) heq => List.lt_irrefl b.1 (heq ▸ hlt)
  by_contra hne
  exact hdistinct.forall h h' (fun heq => hne (Prod.mk.inj heq).2) rfl

lemma lookup_of_mem {l : Location} {e : Entry} {es : List (Location × Entry)} (h : (l, e) ∈ es) :
    ∃ e', es.lookup l = some e' := by
  induction es with
  | nil => cases h
  | cons a es ih =>
    rw [List.lookup_cons]
    split
    · exact ⟨_, rfl⟩
    · next hne =>
      rcases List.mem_cons.mp h with rfl | h
      · simp at hne
      · exact ih h

lemma get?_eq_some_iff {l : Location} {e : Entry} (hl : l ≠ []) :
    d.get? l = some e ↔ (l, e) ∈ d.entries := by
  constructor
  · exact mem_entries_of_get? hl
  · intro h
    obtain ⟨e', he'⟩ := lookup_of_mem h
    rw [get?, if_neg hl, he', eq_of_mem_entries h (mem_of_lookup he')]

lemma isDirectoryIn_iff {l : Location} :
    IsDirectoryIn d.entries l ↔ d.get? l = some .directory := by
  by_cases hl : l = []
  · simp [IsDirectoryIn, hl]
  · rw [get?_eq_some_iff hl, IsDirectoryIn, or_iff_right hl]

/-- There is always a directory at the top. -/
lemma ne_nil_of_get?_ne {l : Location} (h : d.get? l ≠ some .directory) : l ≠ [] := by
  rintro rfl
  exact h d.get?_nil

/-- What lies at a location lies in a directory. -/
lemma get?_dropLast {l : Location} {e : Entry} (h : d.get? l = some e) :
    d.get? l.dropLast = some .directory := by
  by_cases hl : l = []
  · rw [hl]
    exact d.get?_nil
  · exact isDirectoryIn_iff.mp (d.rooted _ ((get?_eq_some_iff hl).mp h)).2

lemma get?_put {l : Location} {e : Entry} (h : d.Admits l e) (k : Location) :
    (d.put l e h).get? k = if k = l then some e else d.get? k := by
  split_ifs with hk
  · rw [hk, get?_eq_some_iff h.1]
    exact mem_place_self l e _
  · by_cases hnil : k = []
    · rw [hnil, get?_nil, get?_nil]
    · apply Option.ext
      intro e'
      rw [get?_eq_some_iff hnil, get?_eq_some_iff hnil]
      constructor
      · intro hmem
        rcases mem_place hmem with heq | hmem
        · exact absurd (Prod.mk.inj heq).1 hk
        · exact hmem
      · exact mem_place_of_ne hk

end Disk

/-! ### Where steps lead -/

namespace Location

/-- The location one step further. -/
def step (here : Location) : Path.Component → Location
  | .up => here.dropLast
  | .name name => here ++ [name]
  | .root | .here => here

/-- The location that steps lead to. -/
def along (here : Location) (way : List Path.Component) : Location :=
  way.foldl step here

/-- The locations that names on a way lead to. -/
def trail (here : Location) : List Path.Component → List Location
  | [] => []
  | .name name :: rest => (here ++ [name]) :: trail (here ++ [name]) rest
  | c :: rest => trail (step here c) rest

lemma along_append (here : Location) (first second : List Path.Component) :
    along here (first ++ second) = along (along here first) second :=
  List.foldl_append

lemma trail_append (here : Location) (first second : List Path.Component) :
    trail here (first ++ second) = trail here first ++ trail (along here first) second := by
  induction first generalizing here with
  | nil => rfl
  | cons c first ih =>
    cases c with
    | name name => exact congrArg _ (ih _)
    | root | here | up => exact ih _

/-- Whoever arrives at a location has been led through all that lies above it. -/
lemma mem_trail_of_prefix {way : List Path.Component} {k : Location} (hk : k ≠ [])
    (h : k <+: along [] way) : k ∈ trail [] way := by
  induction way using List.reverseRecOn with
  | nil => exact absurd (List.prefix_nil.mp h) hk
  | append_singleton way c ih =>
    rw [trail_append]
    rw [along_append] at h
    cases c with
    | name name =>
      rcases List.prefix_concat_iff.mp h with rfl | h
      · exact List.mem_append_right _ List.mem_cons_self
      · exact List.mem_append_left _ (ih h)
    | up => exact List.mem_append_left _ (ih (h.trans (List.dropLast_prefix _)))
    | root | here => exact List.mem_append_left _ (ih h)

end Location

namespace Path

/-- The location that an absolute path leads to. -/
def location (p : Path) : Location :=
  Location.along [] p.way

/-- The locations that an absolute path leads through, its own included if it ends in a name. -/
def trail (p : Path) : List Location :=
  Location.trail [] p.way

/-- The locations that an absolute path leads through before its last step. -/
def passage (p : Path) : List Location :=
  Location.trail [] p.way.dropLast

lemma passage_subset_trail (p : Path) : p.passage ⊆ p.trail := by
  obtain ⟨rest, hrest⟩ := List.dropLast_prefix p.way
  rw [trail, ← hrest, Location.trail_append, passage]
  exact List.subset_append_left _ _

/-- A path that is neither too long nor malformed, and none of whose names is. -/
structure Fits (p : Path) : Prop where
  nul : '\x00' ∉ p.text.toList
  ne : p.text ≠ ""
  short : p.text.utf8ByteSize ≤ Disk.maxPathLength
  names : ∀ segment ∈ p.segments, segment.utf8ByteSize ≤ Disk.maxNameLength

instance (p : Path) : Decidable p.Fits :=
  decidable_of_iff ('\x00' ∉ p.text.toList ∧ p.text ≠ "" ∧
      p.text.utf8ByteSize ≤ Disk.maxPathLength ∧
      ∀ segment ∈ p.segments, segment.utf8ByteSize ≤ Disk.maxNameLength)
    ⟨fun ⟨hnul, hne, hshort, hnames⟩ => ⟨hnul, hne, hshort, hnames⟩,
      fun h => ⟨h.nul, h.ne, h.short, h.names⟩⟩

end Path

/-! ### Following a path -/

namespace Path

/-- A segment is blank, goes up, or is a name. -/
lemma segment_cases (segment : String) :
    (isBlank segment = true ∧ Component.ofSegment? segment = none) ∨
    (isBlank segment = false ∧ segment = ".." ∧ Component.ofSegment? segment = some .up) ∨
    (isBlank segment = false ∧ segment ≠ ".." ∧
      Component.ofSegment? segment = some (.name segment)) := by
  rw [Component.ofSegment?]
  cases hblank : isBlank segment with
  | true => exact .inl ⟨rfl, rfl⟩
  | false =>
    by_cases hup : segment = ".."
    · exact .inr (.inl ⟨rfl, hup, if_pos hup⟩)
    · exact .inr (.inr ⟨rfl, hup, if_neg hup⟩)

lemma mem_segments_of_mem_way {p : Path} {name : String} (h : .name name ∈ p.way) :
    name ∈ p.segments := by
  obtain ⟨segment, hmem, hname⟩ := List.mem_filterMap.mp h
  obtain ⟨-, hnone⟩ | ⟨-, -, hsome⟩ | ⟨-, -, hsome⟩ := segment_cases segment
  · rw [hnone] at hname
    cases hname
  · rw [hsome] at hname
    cases hname
  · rw [hsome] at hname
    obtain rfl := Component.name.inj (Option.some.inj hname)
    exact hmem

section Last

variable {p : Path} {init : List String} {last : String} (h : p.segments = init ++ [last])
  (hblank : isBlank last = false)
include h hblank

/-- A last segment that is not blank is the last step. -/
lemma dropLast_way : p.way.dropLast = init.filterMap Component.ofSegment? := by
  rw [way, h, List.filterMap_append]
  obtain ⟨htrue, -⟩ | ⟨-, -, hsome⟩ | ⟨-, -, hsome⟩ := segment_cases last
  · rw [hblank] at htrue
    cases htrue
  all_goals
    rw [List.filterMap_cons_some hsome]
    exact List.dropLast_concat

/-- A path whose last step is a name. -/
lemma way_of_last (hup : last ≠ "..") : p.way = p.way.dropLast ++ [.name last] := by
  obtain ⟨htrue, -⟩ | ⟨-, hdots, -⟩ | ⟨-, -, hsome⟩ := segment_cases last
  · rw [hblank] at htrue
    cases htrue
  · exact absurd hdots hup
  · rw [dropLast_way h hblank, way, h, List.filterMap_append, List.filterMap_cons_some hsome]
    rfl

lemma location_of_last (hup : last ≠ "..") :
    p.location = Location.along [] p.way.dropLast ++ [last] := by
  rw [location, way_of_last h hblank hup, Location.along_append, List.dropLast_concat]
  rfl

lemma trail_of_last (hup : last ≠ "..") : p.trail = p.passage ++ [p.location] := by
  rw [location_of_last h hblank hup, trail, way_of_last h hblank hup, Location.trail_append,
    passage, List.dropLast_concat]
  rfl

end Last

end Path

namespace Disk

open AddonBuild.Path Location

variable {d : Disk} {segment : String} {rest : List String} {here : Location}

lemma descend_of_isBlank (h : isBlank segment = true) :
    d.descend here (segment :: rest) = d.descend here rest := by
  rw [descend, if_pos h]

lemma descend_up : d.descend here (".." :: rest) = d.descend here.dropLast rest := by
  rw [descend, if_neg (by decide), if_pos rfl]

lemma descend_of_long (hblank : isBlank segment = false) (hup : segment ≠ "..")
    (hlong : maxNameLength < segment.utf8ByteSize) :
    d.descend here (segment :: rest) = .error .nameTooLong := by
  rw [descend, if_neg (by simp [hblank]), if_neg hup, if_pos hlong]

lemma descend_name (hblank : isBlank segment = false) (hup : segment ≠ "..")
    (hshort : segment.utf8ByteSize ≤ maxNameLength) :
    d.descend here (segment :: rest) =
      match d.get? (here ++ [segment]) with
      | some .directory => d.descend (here ++ [segment]) rest
      | some (.file _) => if rest.isEmpty then .ok (here ++ [segment]) else .error .notDirectory
      | none => if rest.isEmpty then .ok (here ++ [segment]) else .error .notFound := by
  rw [descend, if_neg (by simp [hblank]), if_neg hup]
  exact if_neg (Nat.not_lt.mpr hshort)

/-- Whoever follows a name goes on behind a directory, or ends there. -/
lemma of_descend_name {l : Location} (hblank : isBlank segment = false) (hup : segment ≠ "..")
    (h : d.descend here (segment :: rest) = .ok l) :
    segment.utf8ByteSize ≤ maxNameLength ∧
      ((d.get? (here ++ [segment]) = some .directory ∧
          d.descend (here ++ [segment]) rest = .ok l) ∨
        (rest = [] ∧ l = here ++ [segment])) := by
  have hshort : segment.utf8ByteSize ≤ maxNameLength := by
    by_contra hlong
    rw [descend_of_long hblank hup (Nat.lt_of_not_le hlong)] at h
    cases h
  refine ⟨hshort, ?_⟩
  rw [descend_name hblank hup hshort] at h
  split at h
  case h_1 hnext => exact .inl ⟨hnext, h⟩
  all_goals
    split_ifs at h with hempty
    exact .inr ⟨List.isEmpty_iff.mp hempty, (Except.ok.inj h).symm⟩

lemma locate_eq_descend {p : Path} (h : p.Fits) : d.locate p = d.descend [] p.segments := by
  rw [locate, if_neg h.nul, if_neg (by simpa using h.ne), if_neg (Nat.not_lt.mpr h.short)]

/-- Segments of directories lead on to what is behind them. -/
lemma descend_append {first : List String} (second : List String) {here : Location}
    (hnames : ∀ segment ∈ first, segment.utf8ByteSize ≤ maxNameLength)
    (hdirectories : ∀ k ∈ Location.trail here (first.filterMap Component.ofSegment?),
      d.get? k = some .directory) :
    d.descend here (first ++ second) =
      d.descend (along here (first.filterMap Component.ofSegment?)) second := by
  induction first generalizing here with
  | nil => rfl
  | cons segment first ih =>
    obtain ⟨hshort, hrest⟩ := List.forall_mem_cons.mp hnames
    rw [List.cons_append]
    obtain ⟨hblank, hnone⟩ | ⟨hblank, rfl, hsome⟩ | ⟨hblank, hup, hsome⟩ := segment_cases segment
    · rw [List.filterMap_cons_none hnone] at hdirectories ⊢
      rw [descend_of_isBlank hblank]
      exact ih hrest hdirectories
    · rw [List.filterMap_cons_some hsome] at hdirectories ⊢
      rw [descend_up]
      exact ih hrest hdirectories
    · rw [List.filterMap_cons_some hsome, Location.trail] at hdirectories
      obtain ⟨hnext, hbehind⟩ := List.forall_mem_cons.mp hdirectories
      rw [List.filterMap_cons_some hsome, descend_name hblank hup hshort, hnext]
      exact ih hrest hbehind

/-- A path can be followed to its last step if it leads through directories up to there. -/
lemma locate_eq_location {p : Path} {init : List String} {last : String} (hfits : p.Fits)
    (hsegments : p.segments = init ++ [last]) (hlast : isBlank last = false)
    (hdirectories : ∀ k ∈ Location.trail [] (init.filterMap Component.ofSegment?),
      d.get? k = some .directory) :
    d.locate p = .ok p.location := by
  have hnames := hfits.names
  rw [hsegments] at hnames
  have hinit : ∀ s ∈ init, s.utf8ByteSize ≤ maxNameLength := fun s hs =>
    hnames s (List.mem_append_left _ hs)
  have hshort := hnames last (List.mem_append_right _ List.mem_cons_self)
  rw [locate_eq_descend hfits, location, way, hsegments, List.filterMap_append, along_append,
    descend_append [last] hinit hdirectories]
  obtain ⟨hblank, -⟩ | ⟨-, rfl, hsome⟩ | ⟨-, hup, hsome⟩ := segment_cases last
  · rw [hblank] at hlast
    cases hlast
  · rw [List.filterMap_cons_some hsome, descend_up]
    rfl
  · rw [List.filterMap_cons_some hsome, descend_name hlast hup hshort]
    split <;> rfl

/-- Where no file stands in the way, segments lead through directories or something is missing. -/
lemma descend_append_or {first second : List String} (hsecond : second ≠ []) {here : Location}
    (hnames : ∀ segment ∈ first, segment.utf8ByteSize ≤ maxNameLength)
    (hfiles : ∀ k ∈ Location.trail here (first.filterMap Component.ofSegment?),
      ∀ content, d.get? k ≠ some (.file content)) :
    (∀ k ∈ Location.trail here (first.filterMap Component.ofSegment?),
      d.get? k = some .directory) ∨
      d.descend here (first ++ second) = .error .notFound := by
  induction first generalizing here with
  | nil => exact .inl (by simp [Location.trail])
  | cons segment first ih =>
    obtain ⟨hshort, hrest⟩ := List.forall_mem_cons.mp hnames
    rw [List.cons_append]
    obtain ⟨hblank, hnone⟩ | ⟨hblank, rfl, hsome⟩ | ⟨hblank, hup, hsome⟩ := segment_cases segment
    · rw [List.filterMap_cons_none hnone] at hfiles ⊢
      rw [descend_of_isBlank hblank]
      exact ih hrest hfiles
    · rw [List.filterMap_cons_some hsome] at hfiles ⊢
      rw [descend_up]
      exact ih hrest hfiles
    · rw [List.filterMap_cons_some hsome, Location.trail] at hfiles ⊢
      obtain ⟨hnext, hbehind⟩ := List.forall_mem_cons.mp hfiles
      have hmore : (first ++ second).isEmpty = false := by simp [hsecond]
      rw [descend_name hblank hup hshort]
      cases hentry : d.get? (here ++ [segment]) with
      | none => exact .inr (by simp [hmore])
      | some e =>
        cases e with
        | file content => exact absurd hentry (hnext content)
        | directory =>
          rcases ih hrest hbehind with hdirectories | hmissing
          · exact .inl (List.forall_mem_cons.mpr ⟨hentry, hdirectories⟩)
          · exact .inr hmissing

/-- Where no file stands in the way, a path can be followed to its last step, or something is
missing. -/
lemma locate_eq_location_or {p : Path} {init : List String} {last : String} (hfits : p.Fits)
    (hsegments : p.segments = init ++ [last]) (hlast : isBlank last = false)
    (hfiles : ∀ k ∈ p.passage, ∀ content, d.get? k ≠ some (.file content)) :
    (d.locate p = .ok p.location ∧ ∀ k ∈ p.passage, d.get? k = some .directory) ∨
      d.locate p = .error .notFound := by
  rw [passage, dropLast_way hsegments hlast] at hfiles ⊢
  have hnames := hfits.names
  rw [hsegments] at hnames
  rcases descend_append_or (List.cons_ne_nil last [])
    (fun s hs => hnames s (List.mem_append_left _ hs)) hfiles with hdirectories | hmissing
  · exact .inl ⟨locate_eq_location hfits hsegments hlast hdirectories, hdirectories⟩
  · exact .inr (by rw [locate_eq_descend hfits, hsegments, hmissing])

/-- Whoever follows segments arrives where their steps lead, through directories. -/
lemma of_descend_eq_ok {segments : List String} {here l : Location}
    (h : d.descend here segments = .ok l) :
    (∀ segment ∈ segments, segment.utf8ByteSize ≤ maxNameLength) ∧
      l = along here (segments.filterMap Component.ofSegment?) ∧
      ∀ k ∈ Location.trail here (segments.filterMap Component.ofSegment?),
        k = l ∨ d.get? k = some .directory := by
  induction segments generalizing here with
  | nil =>
    cases h
    simp [along, Location.trail]
  | cons segment rest ih =>
    obtain ⟨hblank, hnone⟩ | ⟨hblank, rfl, hsome⟩ | ⟨hblank, hup, hsome⟩ := segment_cases segment
    · rw [descend_of_isBlank hblank] at h
      obtain ⟨hnames, hl, htrail⟩ := ih h
      have hshort : segment.utf8ByteSize ≤ maxNameLength := by
        rcases Bool.or_eq_true_iff.mp hblank with hs | hs <;> rw [of_decide_eq_true hs] <;> decide
      rw [List.filterMap_cons_none hnone]
      exact ⟨List.forall_mem_cons.mpr ⟨hshort, hnames⟩, hl, htrail⟩
    · rw [descend_up] at h
      obtain ⟨hnames, hl, htrail⟩ := ih h
      rw [List.filterMap_cons_some hsome]
      exact ⟨List.forall_mem_cons.mpr ⟨by decide, hnames⟩, hl, htrail⟩
    · rw [List.filterMap_cons_some hsome, Location.trail]
      obtain ⟨hshort, ⟨hnext, hbehind⟩ | ⟨rfl, rfl⟩⟩ := of_descend_name hblank hup h
      · obtain ⟨hnames, hl, htrail⟩ := ih hbehind
        exact ⟨List.forall_mem_cons.mpr ⟨hshort, hnames⟩, hl,
          List.forall_mem_cons.mpr ⟨.inr hnext, htrail⟩⟩
      · simp [hshort, along, step, Location.trail]

/-- What a path leads to, if it can be followed. -/
lemma of_locate_eq_ok {p : Path} {l : Location} (h : d.locate p = .ok l) :
    p.Fits ∧ l = p.location ∧ ∀ k ∈ p.trail, k = l ∨ d.get? k = some .directory := by
  obtain ⟨hnul, hne, hshort, hdescend⟩ := locate_eq_ok.mp h
  obtain ⟨hnames, hl, htrail⟩ := of_descend_eq_ok hdescend
  exact ⟨⟨hnul, hne, hshort, hnames⟩, hl, htrail⟩

lemma isDirectory_iff {p : Path} :
    d.isDirectory p = true ↔ d.locate p = .ok p.location ∧ d.get? p.location = some .directory := by
  have hentry : d.isDirectory p = true ↔ d.entry p = .ok .directory := by
    rw [isDirectory]
    cases d.entry p with
    | error e => simp
    | ok e => cases e <;> simp
  rw [hentry, entry_eq_ok]
  constructor
  · rintro ⟨l, hl, hget⟩
    obtain rfl := (of_locate_eq_ok hl).2.1
    exact ⟨hl, hget⟩
  · rintro ⟨hl, hget⟩
    exact ⟨_, hl, hget⟩

/-- What leads to a last segment leads through directories. -/
lemma of_descend_concat {init : List String} {last : String} {here l : Location}
    (h : d.descend here (init ++ [last]) = .ok l) :
    ∀ k ∈ Location.trail here (init.filterMap Component.ofSegment?),
      d.get? k = some .directory := by
  induction init generalizing here with
  | nil => simp [Location.trail]
  | cons segment init ih =>
    rw [List.cons_append] at h
    obtain ⟨hblank, hnone⟩ | ⟨hblank, rfl, hsome⟩ | ⟨hblank, hup, hsome⟩ := segment_cases segment
    · rw [descend_of_isBlank hblank] at h
      rw [List.filterMap_cons_none hnone]
      exact ih h
    · rw [descend_up] at h
      rw [List.filterMap_cons_some hsome]
      exact ih h
    · rw [List.filterMap_cons_some hsome, Location.trail]
      obtain ⟨-, ⟨hnext, hbehind⟩ | ⟨hnil, -⟩⟩ := of_descend_name hblank hup h
      · exact List.forall_mem_cons.mpr ⟨hnext, ih hbehind⟩
      · simp at hnil

lemma passage_of_locate {p : Path} {l : Location} {init : List String} {last : String}
    (h : d.locate p = .ok l) (hsegments : p.segments = init ++ [last])
    (hlast : isBlank last = false) : ∀ k ∈ p.passage, d.get? k = some .directory := by
  have hdescend := (locate_eq_ok.mp h).2.2.2
  rw [hsegments] at hdescend
  rw [passage, dropLast_way hsegments hlast]
  exact of_descend_concat hdescend

/-- Segments that lead to no directory end in a name. -/
lemma exists_last_of_descend {segments : List String} {here l : Location}
    (hhere : d.get? here = some .directory) (h : d.descend here segments = .ok l)
    (hl : d.get? l ≠ some .directory) :
    ∃ init last, segments = init ++ [last] ∧ isBlank last = false ∧ last ≠ ".." := by
  induction segments generalizing here with
  | nil =>
    cases h
    exact absurd hhere hl
  | cons segment rest ih =>
    have longer : (∃ init last, rest = init ++ [last] ∧ isBlank last = false ∧ last ≠ "..") →
        ∃ init last, segment :: rest = init ++ [last] ∧ isBlank last = false ∧ last ≠ ".." := by
      rintro ⟨init, last, rfl, hlast⟩
      exact ⟨segment :: init, last, rfl, hlast⟩
    obtain ⟨hblank, -⟩ | ⟨-, rfl, -⟩ | ⟨hblank, hup, -⟩ := segment_cases segment
    · rw [descend_of_isBlank hblank] at h
      exact longer (ih hhere h)
    · rw [descend_up] at h
      exact longer (ih (get?_dropLast hhere) h)
    · obtain ⟨-, ⟨hnext, hbehind⟩ | ⟨rfl, -⟩⟩ := of_descend_name hblank hup h
      · exact longer (ih hnext hbehind)
      · exact ⟨[], segment, rfl, hblank, hup⟩

/-- A path that leads to no directory ends in a name. -/
lemma exists_last_of_locate {p : Path} {l : Location} (h : d.locate p = .ok l)
    (hl : d.get? l ≠ some .directory) :
    ∃ init last, p.segments = init ++ [last] ∧ isBlank last = false ∧ last ≠ ".." :=
  exists_last_of_descend d.get?_nil (Disk.locate_eq_ok.mp h).2.2.2 hl

/-! ### Disks that grow -/

/-- Directories stay directories and files stay files, whatever their content. -/
structure Grows (d d' : Disk) : Prop where
  directory : ∀ {l : Location}, d.get? l = some .directory → d'.get? l = some .directory
  file : ∀ {l : Location} {content : ByteArray}, d.get? l = some (.file content) →
    ∃ content', d'.get? l = some (.file content')

lemma Grows.refl (d : Disk) : d.Grows d :=
  ⟨id, fun h => ⟨_, h⟩⟩

lemma Grows.trans {d₁ d₂ d₃ : Disk} (h : d₁.Grows d₂) (h' : d₂.Grows d₃) : d₁.Grows d₃ where
  directory hl := h'.directory (h.directory hl)
  file hl := by
    obtain ⟨content, hcontent⟩ := h.file hl
    exact h'.file hcontent

variable {d' : Disk}

/-- A path that leads somewhere or is refused for good does so on a disk that has grown. -/
lemma Grows.descend_eq (h : d.Grows d') {segments : List String} {here : Location}
    (hfound : d.descend here segments ≠ .error .notFound) :
    d'.descend here segments = d.descend here segments := by
  induction segments generalizing here with
  | nil => rfl
  | cons segment rest ih =>
    obtain ⟨hblank, -⟩ | ⟨-, rfl, -⟩ | ⟨hblank, hup, -⟩ := segment_cases segment
    · rw [descend_of_isBlank hblank] at hfound ⊢
      rw [descend_of_isBlank hblank, ih hfound]
    · rw [descend_up] at hfound ⊢
      rw [descend_up, ih hfound]
    · by_cases hlong : maxNameLength < segment.utf8ByteSize
      · rw [descend_of_long hblank hup hlong, descend_of_long hblank hup hlong]
      have hshort := Nat.not_lt.mp hlong
      rw [descend_name hblank hup hshort] at hfound ⊢
      rw [descend_name hblank hup hshort]
      -- where there is no entry the path has to end, and what is there stays of its kind
      cases hnext : d.get? (here ++ [segment]) with
      | none =>
        rw [hnext] at hfound
        cases hempty : rest.isEmpty with
        | false => simp [hempty] at hfound
        | true =>
          obtain rfl := List.isEmpty_iff.mp hempty
          cases d'.get? (here ++ [segment]) with
          | none => rfl
          | some e => cases e <;> rfl
      | some e =>
        rw [hnext] at hfound
        cases e with
        | directory =>
          rw [h.directory hnext]
          exact ih hfound
        | file content =>
          obtain ⟨content', hcontent'⟩ := h.file hnext
          rw [hcontent']

lemma Grows.locate_eq (h : d.Grows d') {p : Path} (hfound : d.locate p ≠ .error .notFound) :
    d'.locate p = d.locate p := by
  rw [locate] at hfound
  rw [locate, locate]
  split_ifs at hfound ⊢ with hnul hempty hlong
  · rfl
  · rfl
  · rfl
  · exact h.descend_eq hfound

lemma Grows.locate_eq_ok (h : d.Grows d') {p : Path} {l : Location} (hl : d.locate p = .ok l) :
    d'.locate p = .ok l := by
  rw [h.locate_eq (by simp [hl]), hl]

end Disk

end AddonBuild
