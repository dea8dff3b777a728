import AddonBuild.Proofs.Disk.Agreement
import Mathlib.Data.List.Sort

/-!
# Walking through a tree

A walk stops at everything below a directory, and leaves each directory after all that lies in it,
in whichever order the names in a directory come. Its files, once they are sorted, are therefore the
files of the tree in the order of their names. It gets to its end just if the path of every
directory of the tree can be followed.
-/

namespace AddonBuild

open AddonBuild.Path

/-! ### Sorting -/

namespace Location

lemma ne_of_lt {l k : Location} (h : l < k) : l ≠ k :=
  fun heq => List.lt_irrefl k (heq ▸ h)

/-- One location does not come after another. -/
def NotAfter (l k : Location) : Prop :=
  ¬ k < l

instance (l k : Location) : Decidable (NotAfter l k) :=
  inferInstanceAs (Decidable (¬ k < l))

instance : Std.Total NotAfter :=
  ⟨fun _ _ => or_iff_not_imp_left.mpr fun h => List.lt_asymm (not_not.mp h)⟩

instance : IsTrans Location NotAfter :=
  ⟨fun _ _ _ h h' => List.not_lt.mpr (List.le_trans (List.not_lt.mp h) (List.not_lt.mp h'))⟩

lemma insert_eq_orderedInsert (l : Location) (ls : List Location) :
    insert l ls = ls.orderedInsert NotAfter l := by
  induction ls with
  | nil => rfl
  | cons k rest ih =>
    rw [insert, List.orderedInsert, ih]
    by_cases hlt : l.NotAfter k
    · rw [if_pos hlt, if_neg hlt]
    · rw [if_neg hlt, if_pos (not_not.mp hlt)]

lemma sort_eq_insertionSort (ls : List Location) : sort ls = ls.insertionSort NotAfter := by
  induction ls with
  | nil => rfl
  | cons l ls ih =>
    rw [List.insertionSort_cons, ← ih, ← insert_eq_orderedInsert]
    rfl

/-- What is listed in the order of the locations is what comes of sorting the same locations. -/
lemma sort_eq {ls ks : List Location} (hls : ls.Nodup) (hks : ks.Pairwise (· < ·))
    (h : ∀ k, k ∈ ls ↔ k ∈ ks) : sort ls = ks := by
  have hnodup : ks.Nodup := hks.imp ne_of_lt
  have hperm : (ls.insertionSort NotAfter).Perm ks :=
    (List.perm_insertionSort _ ls).trans ((List.perm_ext_iff_of_nodup hls hnodup).mpr h)
  have hks : ks.Pairwise NotAfter := hks.imp List.lt_asymm
  rw [sort_eq_insertionSort]
  refine hperm.eq_of_pairwise ?_ (List.pairwise_insertionSort NotAfter ls) hks
  exact fun a b _ _ hab hba => List.le_antisymm (List.not_lt.mp hab) (List.not_lt.mp hba)

lemma lt_of_append_lt_append {k k' : Location} : (l : Location) → l ++ k < l ++ k' → k < k'
  | [], h => h
  | name :: l, h => by
    rw [List.cons_append, List.cons_append, List.cons_lt_cons_iff] at h
    obtain hlt | ⟨-, h⟩ := h
    · exact absurd hlt (String.lt_irrefl name)
    · exact lt_of_append_lt_append l h

end Location

namespace Disk

variable {d d' : Disk} {root p relative : Path} {l : Location} {names : Location → List String}
  {files : List Path}

/-! ### The files of a tree -/

/-- The locations of the files strictly below a location, relative to it. -/
def filesBelow (d : Disk) (l : Location) : List Location :=
  (d.below l).filterMap fun a =>
    match a.2 with
    | .file _ => some a.1
    | .directory => none

/-- What lies below a location is listed in the order of the locations. -/
lemma pairwise_below (d : Disk) (l : Location) :
    (d.below l).Pairwise fun a b => l ++ a.1 < l ++ b.1 := by
  rw [below, List.pairwise_filterMap]
  refine d.sorted.imp fun {a b} hlt a' ha' b' hb' => ?_
  have hplace {a a' : Location × Entry} (h : (if l.isPrefixOf a.1 ∧ a.1 ≠ l then
      some (a.1.drop l.length, a.2) else none) = some a') : l ++ a'.1 = a.1 := by
    split_ifs at h with hlead
    obtain ⟨rel, hrel⟩ := List.isPrefixOf_iff_prefix.mp hlead.1
    rw [← Option.some.inj h, ← hrel, List.drop_left]
  rw [hplace ha', hplace hb']
  exact hlt

lemma mem_filesBelow {rel : Location} :
    rel ∈ d.filesBelow l ↔ rel ≠ [] ∧ ∃ content, d.get? (l ++ rel) = some (.file content) := by
  rw [filesBelow, List.mem_filterMap]
  constructor
  · rintro ⟨⟨k, e⟩, hmem, hfile⟩
    obtain ⟨hne, hget⟩ := mem_below.mp hmem
    cases e with
    | directory => cases hfile
    | file content =>
      obtain rfl := Option.some.inj hfile
      exact ⟨hne, content, hget⟩
  · rintro ⟨hne, content, hget⟩
    exact ⟨(rel, .file content), mem_below.mpr ⟨hne, hget⟩, rfl⟩

lemma pairwise_filesBelow (d : Disk) (l : Location) :
    (d.filesBelow l).Pairwise (· < ·) := by
  rw [filesBelow, List.pairwise_filterMap]
  refine (pairwise_below d l).imp fun {a b} hlt k hk k' hk' => ?_
  obtain ⟨m, e⟩ := a
  obtain ⟨m', e'⟩ := b
  cases e with
  | directory => cases hk
  | file content =>
    cases e' with
    | directory => cases hk'
    | file content' =>
      rw [← Option.some.inj hk, ← Option.some.inj hk']
      exact Location.lt_of_append_lt_append l hlt

lemma nodup_filesBelow (d : Disk) (l : Location) : (d.filesBelow l).Nodup :=
  (pairwise_filesBelow d l).imp Location.ne_of_lt

/-! ### The names in a directory -/

/-- An order in which to go through the names in each directory: each name that has an entry comes
once, and no other name. -/
structure Enumerates (d : Disk) (names : Location → List String) : Prop where
  nodup : ∀ l, (names l).Nodup
  mem : ∀ {l name}, name ∈ names l ↔ d.get? (l ++ [name]) ≠ none

lemma enumerates_names (d : Disk) : d.Enumerates d.names where
  nodup l := by
    rw [names, List.Nodup, List.pairwise_filterMap]
    refine (pairwise_below d l).imp fun {a b} hlt name hname name' hname' heq => ?_
    obtain ⟨k, e⟩ := a
    obtain ⟨k', e'⟩ := b
    match k, k' with
    | [first], [second] =>
      rw [Option.some.inj hname, Option.some.inj hname', heq] at hlt
      exact List.lt_irrefl _ hlt
  mem {l name} := by
    rw [names, List.mem_filterMap, Option.ne_none_iff_exists']
    constructor
    · rintro ⟨⟨k, e⟩, hmem, hname⟩
      match k with
      | [first] =>
        rw [← Option.some.inj hname]
        exact ⟨e, (mem_below.mp hmem).2⟩
    · rintro ⟨e, he⟩
      exact ⟨([name], e), mem_below.mpr ⟨by simp, he⟩, rfl⟩

/-- The names on the way to something below a location are no more than the tree there is high. -/
lemma length_le_height {rel : Location} (hne : rel ≠ []) (h : d.get? (l ++ rel) ≠ none) :
    rel.length ≤ d.height l := by
  obtain ⟨e, he⟩ := Option.ne_none_iff_exists'.mp h
  have hmem : (rel, e) ∈ d.below l := mem_below.mpr ⟨hne, he⟩
  rw [height]
  generalize d.below l = below at hmem
  induction below with
  | nil => cases hmem
  | cons a below ih =>
    rw [List.foldr_cons]
    rcases List.mem_cons.mp hmem with rfl | hmem
    · exact Nat.le_max_left _ _
    · exact (ih hmem).trans (Nat.le_max_right _ _)

end Disk

/-! ### The stops of a walk -/

namespace Stop

/-- The place of a stop. -/
def place : Stop → Location
  | .enter k | .file k | .leave k => k

/-- What a stop is for is at its place, which is taken from a location. -/
def Is (d : Disk) (l : Location) : Stop → Prop
  | .enter k | .leave k => d.get? (l ++ k) = some .directory
  | .file k => ∃ content, d.get? (l ++ k) = some (.file content)

lemma Is.ne_none {d : Disk} {l : Location} {s : Stop} (h : s.Is d l) :
    d.get? (l ++ s.place) ≠ none := by
  cases s with
  | enter k | leave k => exact fun hnone => nomatch hnone.symm.trans h
  | file k =>
    obtain ⟨content, h⟩ := h
    exact fun hnone => nomatch hnone.symm.trans h

/-- A stop that may come before another: it is a different one, and if a directory is left there,
the other is not in that directory. -/
def Before (s t : Stop) : Prop :=
  s ≠ t ∧ ∀ k, s = .leave k → ¬ k <+: t.place

/-- The directory that is left at a stop. -/
def left? : Stop → Option Location
  | .leave k => some k
  | .enter _ | .file _ => none

lemma left?_eq_some {s : Stop} {k : Location} : s.left? = some k ↔ s = .leave k := by
  cases s <;> simp [left?]

lemma file?_eq_some {s : Stop} {k : Location} : s.file? = some k ↔ s = .file k := by
  cases s <;> simp [file?]

end Stop

namespace Disk

variable {d d' : Disk} {root p relative : Path} {l : Location} {names : Location → List String}
  {files : List Path} {inside : List Stop}

lemma mem_stopsAt {place : Location} {s : Stop} :
    s ∈ d.stopsAt l place inside ↔
      s.place = place ∧ s.Is d l ∨ d.get? (l ++ place) = some .directory ∧ s ∈ inside := by
  rw [stopsAt]
  cases hget : d.get? (l ++ place) with
  | none =>
    refine iff_of_false List.not_mem_nil ?_
    rintro (⟨rfl, his⟩ | ⟨h, -⟩)
    · exact his.ne_none hget
    · cases h
  | some e =>
    cases e with
    | file content =>
      rw [List.mem_singleton]
      constructor
      · rintro rfl
        exact .inl ⟨rfl, content, hget⟩
      · rintro (⟨rfl, his⟩ | ⟨h, -⟩)
        · cases s with
          | file k => rfl
          | enter k | leave k => exact nomatch hget.symm.trans his
        · cases h
    | directory =>
      simp only [List.cons_append, List.mem_cons, List.mem_append, List.not_mem_nil, or_false,
        true_and]
      constructor
      · rintro (rfl | h | rfl)
        · exact .inl ⟨rfl, hget⟩
        · exact .inr h
        · exact .inl ⟨rfl, hget⟩
      · rintro (⟨rfl, his⟩ | h)
        · cases s with
          | enter k => exact .inl rfl
          | leave k => exact .inr (.inr rfl)
          | file k =>
            obtain ⟨content, his⟩ := his
            exact nomatch hget.symm.trans his
        · exact .inr (.inl h)

/-- A walk that goes on through so many levels stops at everything that lies on them. -/
lemma mem_stopsFrom (hnames : d.Enumerates names) {levels : Nat} {here : Location} {s : Stop} :
    s ∈ d.stopsFrom names l levels here ↔
      ∃ rel ≠ [], rel.length ≤ levels ∧ s.place = here ++ rel ∧ s.Is d l := by
  induction levels generalizing here with
  | zero =>
    refine iff_of_false List.not_mem_nil ?_
    rintro ⟨rel, hne, hlength, -⟩
    exact hne (List.length_eq_zero_iff.mp (Nat.le_zero.mp hlength))
  | succ levels ih =>
    simp only [stopsFrom, List.mem_flatMap, mem_stopsAt, ih, hnames.mem]
    constructor
    · rintro ⟨name, -, ⟨hplace, his⟩ | ⟨-, rel, hne, hlength, hplace, his⟩⟩
      · exact ⟨[name], by simp, by simp, hplace, his⟩
      · exact ⟨name :: rel, by simp, by simpa using hlength, by simpa using hplace, his⟩
    · rintro ⟨rel, hne, hlength, hplace, his⟩
      obtain ⟨name, rel, rfl⟩ := List.exists_cons_of_ne_nil hne
      have hthere : d.get? (l ++ (here ++ name :: rel)) ≠ none := hplace ▸ his.ne_none
      by_cases hrel : rel = []
      · subst hrel
        exact ⟨name, by rwa [List.append_assoc], .inl ⟨hplace, his⟩⟩
      · -- the first name leads to a directory, as something lies behind it
        obtain ⟨e, he⟩ := Option.ne_none_iff_exists'.mp hthere
        have habove : d.get? (l ++ (here ++ [name])) = some .directory := by
          refine get?_above he ⟨rel, by simp⟩ ?_
          simpa using Ne.symm hrel
        refine ⟨name, by simp [habove], .inr ⟨habove, rel, hrel, ?_, by simpa using hplace, his⟩⟩
        simpa using hlength

lemma mem_stops (hnames : d.Enumerates names) {s : Stop} :
    s ∈ d.stops names l ↔ s.place ≠ [] ∧ s.Is d l := by
  rw [stops, mem_stopsFrom hnames]
  constructor
  · rintro ⟨rel, hne, -, hplace, his⟩
    exact ⟨hplace ▸ hne, his⟩
  · rintro ⟨hne, his⟩
    exact ⟨s.place, hne, length_le_height hne his.ne_none, rfl, his⟩

lemma pairwise_stopsAt {place : Location} (hinside : inside.Pairwise Stop.Before)
    (hbelow : ∀ s ∈ inside, ∃ rel ≠ [], s.place = place ++ rel) :
    (d.stopsAt l place inside).Pairwise Stop.Before := by
  have hplace : ∀ s ∈ inside, ¬ s.place <+: place := by
    intro s hs hlead
    obtain ⟨rel, hne, heq⟩ := hbelow s hs
    have hlength := hlead.length_le
    rw [heq, List.length_append] at hlength
    exact hne (List.length_eq_zero_iff.mp (by omega))
  have henter : ∀ s ∈ inside, (Stop.enter place).Before s := fun s hs =>
    ⟨fun heq => hplace s hs (heq ▸ List.prefix_refl place), nofun⟩
  have hleave : ∀ s ∈ inside, s.Before (.leave place) := by
    refine fun s hs => ⟨fun heq => ?_, fun k hk => ?_⟩
    · exact hplace s hs (heq ▸ List.prefix_refl place)
    · subst hk
      exact hplace _ hs
  rw [stopsAt]
  split
  · rw [List.cons_append, List.pairwise_cons, List.pairwise_append]
    refine ⟨fun s hs => ?_, hinside, List.pairwise_singleton _ _, fun s hs t ht => ?_⟩
    · rcases List.mem_append.mp hs with hs | hs
      · exact henter s hs
      · rw [List.mem_singleton.mp hs]
        exact ⟨nofun, nofun⟩
    · rw [List.mem_singleton.mp ht]
      exact hleave s hs
  · exact List.pairwise_singleton _ _
  · exact .nil

/-- Of two names in a directory, nothing that lies at or below the one lies below the other. -/
lemma pairwise_stopsFrom (hnames : d.Enumerates names) (levels : Nat) (here : Location) :
    (d.stopsFrom names l levels here).Pairwise Stop.Before := by
  induction levels generalizing here with
  | zero => exact .nil
  | succ levels ih =>
    have hbelow {here : Location} {s : Stop} (hs : s ∈ d.stopsFrom names l levels here) :
        ∃ rel ≠ [], s.place = here ++ rel := by
      obtain ⟨rel, hne, -, hplace, -⟩ := (mem_stopsFrom hnames).mp hs
      exact ⟨rel, hne, hplace⟩
    have hat {name : String} {s : Stop} (hs : s ∈ d.stopsAt l (here ++ [name])
        (d.stopsFrom names l levels (here ++ [name]))) : here ++ [name] <+: s.place := by
      rcases mem_stopsAt.mp hs with ⟨hplace, -⟩ | ⟨-, hs⟩
      · exact hplace ▸ List.prefix_refl _
      · obtain ⟨rel, -, hplace⟩ := hbelow hs
        exact hplace ▸ List.prefix_append _ _
    refine List.pairwise_flatMap.mpr ⟨fun name _ => ?_, (hnames.nodup _).imp ?_⟩
    · exact pairwise_stopsAt (ih _) fun s => hbelow
    · intro name name' hdiffer s hs t ht
      have hapart : ¬ s.place <+: t.place := by
        intro hlead
        have heq := List.prefix_of_prefix_length_le ((hat hs).trans hlead) (hat ht) (by simp)
        exact hdiffer (by simpa using heq.eq_of_length (by simp))
      refine ⟨fun heq => hapart (heq ▸ List.prefix_refl _), fun k hk => ?_⟩
      subst hk
      exact hapart

lemma pairwise_stops (hnames : d.Enumerates names) (l : Location) :
    (d.stops names l).Pairwise Stop.Before :=
  pairwise_stopsFrom hnames _ _

/-- The files that a walk stops at, once sorted, are those of the tree in their order. -/
lemma sort_files (hnames : d.Enumerates names) (l : Location) :
    Location.sort ((d.stops names l).filterMap Stop.file?) = d.filesBelow l := by
  refine Location.sort_eq ?_ (pairwise_filesBelow d l) fun k => ?_
  · refine List.pairwise_filterMap.mpr ((pairwise_stops hnames l).imp ?_)
    rintro s t ⟨hne, -⟩ k hk k' hk' rfl
    exact hne ((Stop.file?_eq_some.mp hk).trans (Stop.file?_eq_some.mp hk').symm)
  · simp only [List.mem_filterMap, mem_stops hnames, mem_filesBelow, Stop.file?_eq_some]
    constructor
    · rintro ⟨s, h, rfl⟩
      exact h
    · exact fun h => ⟨.file k, h, rfl⟩

/-! ### Getting through a tree -/

lemma openDirectory_eq_ok :
    d.openDirectory p = .ok l ↔ d.locate p = .ok l ∧ d.get? l = some .directory := by
  rw [openDirectory, bind_eq_ok]
  constructor
  · rintro ⟨k, hk, h⟩
    cases hget : d.get? k with
    | none => simp [hget] at h
    | some e =>
      cases e with
      | file content => simp [hget] at h
      | directory =>
        obtain rfl : k = l := by simpa [hget] using h
        exact ⟨hk, hget⟩
  · rintro ⟨hl, hget⟩
    exact ⟨l, hl, by simp [hget]⟩

/-- Behind a path, the relative path to something below leads through what is above that. -/
lemma of_mem_passage_join {rel k : Location} (hne : rel ≠ [])
    (hstep : ∀ name ∈ rel, (Component.name name).IsStep) (hk : k ∈ (p.join rel.path).passage) :
    k ∈ p.trail ∨ p.location <+: k ∧ k <+: p.location ++ rel ∧ k ≠ p.location ++ rel := by
  obtain ⟨init, last, rfl⟩ : ∃ init last, rel = init ++ [last] := by
    simpa [List.concat_eq_append] using (List.eq_nil_or_concat rel).resolve_left hne
  rw [passage, p.way_join_path hstep, List.map_append, ← List.append_assoc, List.map_singleton,
    List.dropLast_concat, Location.trail_append, List.mem_append] at hk
  refine hk.imp_right fun hk => ?_
  obtain ⟨habove, hlead⟩ := prefix_of_mem_trail_names hk
  rw [← List.append_assoc]
  refine ⟨habove, hlead.trans (List.prefix_append _ _), ?_⟩
  rintro rfl
  have hlength := hlead.length_le
  simp only [location, List.length_append, List.length_singleton] at hlength
  omega

lemma endsInName_join (p : Path) {rel : Location} (hne : rel ≠ [])
    (hstep : ∀ name ∈ rel, (Component.name name).IsStep) : (p.join rel.path).EndsInName := by
  obtain ⟨hsegments, hrelative⟩ := Location.segments_path hne hstep
  obtain ⟨init, last, rfl⟩ : ∃ init last, rel = init ++ [last] := by
    simpa [List.concat_eq_append] using (List.eq_nil_or_concat rel).resolve_left hne
  obtain ⟨before, hbefore, -⟩ := p.exists_segments_join hrelative
  obtain ⟨-, hempty, hdot, hdots⟩ := hstep last (List.mem_append_right _ List.mem_cons_self)
  rw [hsegments, ← List.append_assoc] at hbefore
  exact ⟨before ++ init, last, hbefore, by simp [isBlank, hempty, hdot], hdots⟩

/-- The path of a root leads through directories alone. -/
lemma isDirectory_iff_trail :
    d.isDirectory p = true ↔ d.locate p = .ok p.location ∧ d.get? p.location = some .directory ∧
      ∀ k ∈ p.trail, d.get? k = some .directory := by
  rw [isDirectory_iff]
  refine ⟨fun ⟨hl, hget⟩ => ⟨hl, hget, fun k hk => ?_⟩, fun ⟨hl, hget, _⟩ => ⟨hl, hget⟩⟩
  rcases (of_locate_eq_ok hl).2.2 k hk with rfl | hdirectory
  · exact hget
  · exact hdirectory

/-- A directory of a tree opens if its path fits. -/
lemma openDirectory_join {rel : Location} (hne : rel ≠ [])
    (hstep : ∀ name ∈ rel, (Component.name name).IsStep)
    (htrail : ∀ k ∈ root.trail, d.get? k = some .directory)
    (hget : d.get? (root.location ++ rel) = some .directory) (hfits : (root.join rel.path).Fits) :
    d.openDirectory (root.join rel.path) = .ok (root.location ++ rel) := by
  obtain ⟨init, last, hsegments, hblank, -⟩ := endsInName_join root hne hstep
  have hpassage : ∀ k ∈ (root.join rel.path).passage, d.get? k = some .directory := by
    intro k hk
    rcases of_mem_passage_join hne hstep hk with hk | ⟨-, hlead, hdiffer⟩
    · exact htrail k hk
    · exact get?_above hget hlead hdiffer
  rw [passage, dropLast_way hsegments hblank] at hpassage
  have hlocate := locate_eq_location hfits hsegments hblank hpassage
  rw [root.location_join_path hstep] at hlocate
  exact openDirectory_eq_ok.mpr ⟨hlocate, hget⟩

/-- Whether the path from a root to each directory of its tree can be followed: it is not too long,
and has no name in it that is. -/
def Walkable (d : Disk) (root : Path) : Prop :=
  ∀ rel : Location, rel ≠ [] → d.get? (root.location ++ rel) = some .directory →
    (root.join rel.path).Fits

lemma isStep_of_get? (hd : d.Proper) {rel : Location} (hne : rel ≠ [])
    (h : d.get? (l ++ rel) ≠ none) : ∀ name ∈ rel, (Component.name name).IsStep := by
  obtain ⟨e, he⟩ := Option.ne_none_iff_exists'.mp h
  have hmem := (get?_eq_some_iff (by simp [hne])).mp he
  exact fun name hname => hd _ hmem name (List.mem_append_right _ hname)

lemma pass_eq_ok {s : Stop} :
    d.pass root s = .ok () ↔
      ∀ k, s = .enter k → ∃ l, d.openDirectory (root.join k.path) = .ok l := by
  cases s with
  | file k | leave k => exact iff_of_true rfl nofun
  | enter k =>
    rw [pass, enter]
    cases hopen : d.openDirectory (root.join k.path) with
    | ok l =>
      refine iff_of_true rfl fun k' hk' => ?_
      obtain rfl := Stop.enter.inj hk'
      exact ⟨l, hopen⟩
    | error e =>
      refine iff_of_false nofun fun h => ?_
      obtain ⟨l, hl⟩ := h k rfl
      exact nomatch hopen.symm.trans hl

lemma of_pass_eq_error {s : Stop} {e : DiskError} (h : d.pass root s = .error e) :
    ∃ k cause, s = .enter k ∧ d.openDirectory (root.join k.path) = .error cause ∧
      e = .unopened (root.join k.path) cause := by
  cases s with
  | file k | leave k => cases h
  | enter k =>
    rw [pass, enter] at h
    cases hopen : d.openDirectory (root.join k.path) with
    | ok l =>
      rw [hopen] at h
      cases h
    | error cause =>
      rw [hopen] at h
      exact ⟨k, cause, rfl, hopen, (Except.error.inj h).symm⟩

/-- A walk passes all its stops just if the paths of the directories can be followed. -/
lemma forM_pass_eq_ok (hd : d.Proper) (hnames : d.Enumerates names)
    (hroot : d.isDirectory root = true) :
    (d.stops names root.location).forM (d.pass root) = .ok () ↔ d.Walkable root := by
  obtain ⟨-, -, htrail⟩ := isDirectory_iff_trail.mp hroot
  rw [forM_eq_ok]
  constructor
  · intro h rel hne hget
    obtain ⟨l, hl⟩ := pass_eq_ok.mp (h (.enter rel) ((mem_stops hnames).mpr ⟨hne, hget⟩)) rel rfl
    exact (of_locate_eq_ok (openDirectory_eq_ok.mp hl).1).1
  · refine fun h s hs => pass_eq_ok.mpr fun k hk => ?_
    subst hk
    obtain ⟨hne, hget⟩ := (mem_stops hnames).mp hs
    exact ⟨_, openDirectory_join hne (isStep_of_get? hd hne (Stop.Is.ne_none hget)) htrail hget
      (h k hne hget)⟩

/-! ### Listing -/

lemma listFiles_of_not_isDirectory (h : d.isDirectory root = false) :
    d.listFiles root = .ok [] := by
  rw [listFiles, if_neg (by simp [h])]
  rfl

lemma listFiles_eq (hroot : d.isDirectory root = true) :
    d.listFiles root = (d.stops d.names root.location).forM (d.pass root) >>= fun _ =>
      .ok ((d.filesBelow root.location).map Location.path) := by
  rw [listFiles, if_pos hroot, (isDirectory_iff.mp hroot).1]
  simp only [sort_files (enumerates_names d)]
  rfl

lemma of_listFiles_eq_ok (h : d.listFiles root = .ok files) :
    d.isDirectory root = false ∧ files = [] ∨
      d.isDirectory root = true ∧ files = (d.filesBelow root.location).map Location.path := by
  cases hroot : d.isDirectory root with
  | false =>
    rw [listFiles_of_not_isDirectory hroot] at h
    exact .inl ⟨rfl, (Except.ok.inj h).symm⟩
  | true =>
    rw [listFiles_eq hroot] at h
    obtain ⟨-, -, hfiles⟩ := bind_eq_ok.mp h
    exact .inr ⟨rfl, (Except.ok.inj hfiles).symm⟩

/-- The files of a tree are listed just if the paths of its directories can be followed. -/
lemma listFiles_eq_ok (hd : d.Proper) (hroot : d.isDirectory root = true) :
    d.listFiles root = .ok files ↔
      d.Walkable root ∧ files = (d.filesBelow root.location).map Location.path := by
  rw [listFiles_eq hroot, bind_eq_ok, ← forM_pass_eq_ok hd (enumerates_names d) hroot]
  constructor
  · rintro ⟨⟨⟩, hpass, hfiles⟩
    exact ⟨hpass, (Except.ok.inj hfiles).symm⟩
  · rintro ⟨hpass, rfl⟩
    exact ⟨(), hpass, rfl⟩

/-- Whether the files under a root can be listed. -/
def Listable (d : Disk) (root : Path) : Prop :=
  d.isDirectory root = true → d.Walkable root

lemma exists_listFiles_iff (hd : d.Proper) :
    (∃ files, d.listFiles root = .ok files) ↔ d.Listable root := by
  constructor
  · rintro ⟨files, hfiles⟩ hroot
    exact ((listFiles_eq_ok hd hroot).mp hfiles).1
  · intro h
    cases hroot : d.isDirectory root with
    | false => exact ⟨[], listFiles_of_not_isDirectory hroot⟩
    | true => exact ⟨_, (listFiles_eq_ok hd hroot).mpr ⟨h hroot, rfl⟩⟩

/-- What stops a listing is a directory of the tree that cannot be opened by its path. -/
lemma of_listFiles_eq_error (hd : d.Proper) {e : DiskError} (h : d.listFiles root = .error e) :
    ∃ (rel : Location) (cause : DiskError), rel ≠ [] ∧
      d.get? (root.location ++ rel) = some .directory ∧ ¬ (root.join rel.path).Fits ∧
      d.openDirectory (root.join rel.path) = .error cause ∧
      e = .unopened (root.join rel.path) cause := by
  cases hroot : d.isDirectory root with
  | false =>
    rw [listFiles_of_not_isDirectory hroot] at h
    cases h
  | true =>
    rw [listFiles_eq hroot] at h
    obtain hpass | ⟨-, -, h⟩ := bind_eq_error.mp h
    · obtain ⟨s, hs, hfail⟩ := exists_of_forM_eq_error hpass
      obtain ⟨k, cause, rfl, hopen, rfl⟩ := of_pass_eq_error hfail
      obtain ⟨hne, hget⟩ := (mem_stops (enumerates_names d)).mp hs
      refine ⟨k, cause, hne, hget, fun hfits => ?_, hopen, rfl⟩
      obtain ⟨-, -, htrail⟩ := isDirectory_iff_trail.mp hroot
      have hstep := isStep_of_get? hd hne (Stop.Is.ne_none hget)
      exact nomatch hopen.symm.trans (openDirectory_join hne hstep htrail hget hfits)
    · cases h

/-- A file that is listed lies below the directory it is listed under, under names that are
proper. -/
lemma exists_of_mem_listFiles (hd : d.Proper) (hfiles : d.listFiles p = .ok files)
    (h : relative ∈ files) :
    ∃ rel : Location, relative = rel.path ∧ rel ≠ [] ∧
      (∀ name ∈ rel, (Component.name name).IsStep) ∧
      (∃ content, d.get? (p.location ++ rel) = some (.file content)) ∧
      ∀ k ∈ p.trail, d.get? k = some .directory := by
  obtain ⟨-, rfl⟩ | ⟨hdirectory, rfl⟩ := of_listFiles_eq_ok hfiles
  · cases h
  · obtain ⟨rel, hrel, rfl⟩ := List.mem_map.mp h
    obtain ⟨hne, content, hget⟩ := mem_filesBelow.mp hrel
    have hthere : d.get? (p.location ++ rel) ≠ none := by simp [hget]
    exact ⟨rel, rfl, hne, isStep_of_get? hd hne hthere, ⟨content, hget⟩,
      (isDirectory_iff_trail.mp hdirectory).2.2⟩

/-- A listed file is read behind the directory it is listed under. -/
lemma join_of_mem_listFiles (hd : d.Proper) (hfiles : d.listFiles p = .ok files)
    (h : relative ∈ files) :
    (p.join relative).EndsInName ∧
      (∀ k ∈ (p.join relative).passage, d.get? k = some .directory ∧
        (k ∈ p.trail ∨ p.location <+: k)) ∧
      (∃ content, d.get? (p.join relative).location = some (.file content)) ∧
      p.location <+: (p.join relative).location := by
  obtain ⟨rel, rfl, hne, hstep, ⟨content, hget⟩, htrail⟩ := exists_of_mem_listFiles hd hfiles h
  have hlocation := p.location_join_path hstep
  refine ⟨endsInName_join p hne hstep, fun k hk => ?_, ⟨content, hlocation ▸ hget⟩,
    hlocation ▸ List.prefix_append _ _⟩
  rcases of_mem_passage_join hne hstep hk with hk | ⟨habove, hlead, hdiffer⟩
  · exact ⟨htrail k hk, .inl hk⟩
  · exact ⟨get?_above hget hlead hdiffer, .inr habove⟩

lemma mem_listFiles {rel : Location} {content : ByteArray}
    (hdirectory : d.isDirectory p = true) (hfiles : d.listFiles p = .ok files) (hne : rel ≠ [])
    (h : d.get? (p.location ++ rel) = some (.file content)) : rel.path ∈ files := by
  obtain ⟨hnone, -⟩ | ⟨-, rfl⟩ := of_listFiles_eq_ok hfiles
  · rw [hdirectory] at hnone
    cases hnone
  · exact List.mem_map_of_mem (mem_filesBelow.mpr ⟨hne, content, h⟩)

/-! ### Listing on disks that agree -/

lemma names_congr {k : Location} (hk : l <+: k) (h : ∀ k, l <+: k → d.get? k = d'.get? k) :
    d.names k = d'.names k := by
  rw [names, names, below_congr fun m hm => h m (hk.trans hm)]

lemma stopsFrom_congr (h : ∀ k, l <+: k → d.get? k = d'.get? k) (levels : Nat)
    (here : Location) :
    d.stopsFrom d.names l levels here = d'.stopsFrom d'.names l levels here := by
  induction levels generalizing here with
  | zero => rfl
  | succ levels ih =>
    simp only [stopsFrom, stopsAt, names_congr (List.prefix_append l here) h, ih,
      h _ (List.prefix_append l _)]

/-- A walk of a disk stops at the same places on a disk that has the same tree there. -/
lemma stops_congr (h : ∀ k, l <+: k → d.get? k = d'.get? k) :
    d.stops d.names l = d'.stops d'.names l := by
  rw [stops, stops, height, height, below_congr h, stopsFrom_congr h]

lemma openDirectory_congr (h : ∀ k ∈ p.trail, d.get? k = d'.get? k) :
    d.openDirectory p = d'.openDirectory p := by
  rw [openDirectory, openDirectory, ← locate_congr h]
  cases hl : d.locate p with
  | error e => rfl
  | ok l =>
    have hget : d.get? l = d'.get? l := by
      rw [(of_locate_eq_ok hl).2.1]
      by_cases hnil : p.location = []
      · rw [hnil, get?_nil, get?_nil]
      · exact h _ (Location.mem_trail_of_prefix hnil (List.prefix_refl _))
    simp only [bind, Except.bind, hget]

lemma of_mem_trail_join {rel k : Location}
    (hstep : ∀ name ∈ rel, (Component.name name).IsStep) (hk : k ∈ (p.join rel.path).trail) :
    k ∈ p.trail ∨ p.location <+: k := by
  rw [trail, p.way_join_path hstep, Location.trail_append, List.mem_append] at hk
  exact hk.imp_right fun hk => (prefix_of_mem_trail_names hk).1

/-- A path that stays outside of a tree is listed alike on disks that agree outside of it. -/
lemma listFiles_congr {root : Path} (hd : d.Proper) (h : AgreesOutside root d d')
    (hp : p.Outside root) : d.listFiles p = d'.listFiles p := by
  have htrail : ∀ k ∈ p.trail, d.get? k = d'.get? k := fun k hk => h k (hp.trail k hk)
  have hbelow : ∀ k, p.location <+: k → d.get? k = d'.get? k := fun k hk => h k (hp.below hk)
  have hdirectory : d.isDirectory p = d'.isDirectory p := by
    rw [isDirectory, isDirectory, entry_congr htrail]
  cases hroot : d.isDirectory p with
  | false =>
    rw [listFiles_of_not_isDirectory hroot, listFiles_of_not_isDirectory (hdirectory ▸ hroot)]
  | true =>
    have hpass : ∀ s ∈ d.stops d.names p.location, d.pass p s = d'.pass p s := by
      intro s hs
      cases s with
      | file k | leave k => rfl
      | enter k =>
        obtain ⟨hne, hget⟩ := (mem_stops (enumerates_names d)).mp hs
        have hstep := isStep_of_get? hd hne (Stop.Is.ne_none hget)
        rw [pass, pass, enter, enter, openDirectory_congr fun m hm => ?_]
        exact (of_mem_trail_join hstep hm).elim (htrail m) (hbelow m)
    rw [listFiles_eq hroot, listFiles_eq (hdirectory ▸ hroot), ← stops_congr hbelow,
      forM_congr hpass, filesBelow, filesBelow, below_congr hbelow]

end Disk

end AddonBuild
