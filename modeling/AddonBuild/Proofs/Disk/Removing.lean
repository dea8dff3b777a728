import AddonBuild.Proofs.Disk.Walking
import Mathlib.Algebra.Order.BigOperators.Group.List
import Mathlib.Algebra.Order.Ring.Nat

/-!
# Removing from a disk

Removing a file takes nothing else from a disk. Once the empty directories of a tree are removed,
the deepest first, just those directories are left in it that a file lies below.
-/

namespace AddonBuild

open AddonBuild.Path

/-- One location lies strictly above another. -/
def Location.Above (l k : Location) : Prop :=
  l <+: k ∧ k ≠ l

lemma Location.Above.ne_nil {l k : Location} (h : l.Above k) : k ≠ [] := by
  rintro rfl
  exact h.2 (List.prefix_nil.mp h.1).symm

lemma Location.Above.trans_prefix {l k m : Location} (h : l.Above k) (hm : k <+: m) :
    l.Above m := by
  refine ⟨h.1.trans hm, ?_⟩
  rintro rfl
  exact h.2 (hm.eq_of_length (le_antisymm hm.length_le h.1.length_le))

lemma Location.above_append {l rel : Location} (h : rel ≠ []) : l.Above (l ++ rel) :=
  ⟨List.prefix_append l rel, by simpa using h⟩

namespace Disk

variable {d d' : Disk} {p root : Path} {l k : Location} {content : ByteArray}

/-! ### Removing an entry -/

lemma get?_remove (hl : l ≠ []) (k : Location) :
    (d.remove l).get? k = if l <+: k then none else d.get? k := by
  by_cases hk : k = []
  · rw [hk, get?_nil, get?_nil, if_neg (mt List.prefix_nil.mp hl)]
  apply Option.ext
  intro e
  rw [get?_eq_some_iff hk, remove, List.mem_filter, ← get?_eq_some_iff hk]
  split_ifs with hlead
  · simp [List.isPrefixOf_iff_prefix.mpr hlead]
  · simp [mt List.isPrefixOf_iff_prefix.mp hlead]

/-- Nothing lies below a file. -/
lemma get?_below_file (h : d.get? l = some (.file content)) (hk : l <+: k) (hne : k ≠ l) :
    d.get? k = none := by
  by_contra hentry
  obtain ⟨e, he⟩ := Option.ne_none_iff_exists'.mp hentry
  rw [get?_above he hk (Ne.symm hne)] at h
  cases h

lemma get?_remove_file (h : d.get? l = some (.file content)) (k : Location) :
    (d.remove l).get? k = if k = l then none else d.get? k := by
  rw [get?_remove (d.ne_nil_of_get?_ne (by simp [h]))]
  split_ifs with hlead heq heq
  · rfl
  · exact (get?_below_file h hlead heq).symm
  · exact absurd (heq ▸ List.prefix_refl _) hlead
  · rfl

/-- Files can be left out of a disk. -/
lemma exists_leftOut (d : Disk) (places : List Location) : ∃ rest : Disk,
    (∀ k, rest.get? k = d.get? k ∨
      k ∈ places ∧ rest.get? k = none ∧ ∃ content, d.get? k = some (.file content)) ∧
    ∀ k ∈ places, ∀ content, rest.get? k ≠ some (.file content) := by
  induction places with
  | nil => exact ⟨d, fun _ => .inl rfl, nofun⟩
  | cons l places ih =>
    obtain ⟨rest, hget, hnone⟩ := ih
    have hmore (k : Location) := (hget k).imp_right (And.imp_left (List.mem_cons_of_mem l))
    by_cases hfile : ∃ content, rest.get? l = some (.file content)
    · obtain ⟨content, hfile⟩ := hfile
      refine ⟨rest.remove l, fun k => ?_, fun k hk found => ?_⟩
      · rw [get?_remove_file hfile]
        split_ifs with hk
        · rw [hk]
          rcases hget l with heq | ⟨-, hl, -⟩
          · exact .inr ⟨List.mem_cons_self, rfl, content, heq ▸ hfile⟩
          · rw [hfile] at hl
            cases hl
        · exact hmore k
      · rw [get?_remove_file hfile]
        split_ifs with hkl
        · simp
        · exact hnone k ((List.mem_cons.mp hk).resolve_left hkl) found
    · exact ⟨rest, hmore, List.forall_mem_cons.mpr
        ⟨fun content hl => hfile ⟨content, hl⟩, hnone⟩⟩

lemma on_removeFile_eq_ok :
    (removeFile p).on d = (.ok (), d') ↔
      (∃ content, d.entry p = .ok (.file content)) ∧ d' = d.remove p.location := by
  rw [removeFile, WorkM.on_bind, WorkM.on_consult]
  cases hl : d.locate p with
  | error e => simp [entry_eq_ok, hl]
  | ok l =>
    obtain rfl := (of_locate_eq_ok hl).2.1
    dsimp only
    rw [WorkM.on_bind, WorkM.on_get]
    dsimp only
    cases hget : d.get? p.location with
    | none => simp [entry_eq_ok, hl, hget]
    | some e =>
      cases e with
      | directory => simp [entry_eq_ok, hl, hget]
      | file content =>
        have hmodify : (modify (·.remove p.location) : DiskM DiskError Unit).on d =
            (.ok (), d.remove p.location) := rfl
        simp [entry_eq_ok, hl, hget, hmodify, eq_comm]

/-- Removing files takes those files. -/
lemma get?_of_forM_removeFile {ε : Type} {f : DiskError → ε} {paths : List Path}
    (h : (paths.forM fun p => (removeFile p).mapError f).on d = (.ok (), d')) (k : Location) :
    d'.get? k = if k ∈ paths.map Path.location then none else d.get? k := by
  induction paths generalizing d with
  | nil =>
    obtain rfl := (Prod.mk.inj h).2
    rfl
  | cons p paths ih =>
    obtain ⟨⟨⟩, d₁, hfirst, hrest⟩ := WorkM.on_bind_eq_ok.mp h
    have hremove : (removeFile p).on d = (.ok (), d₁) := by
      rw [WorkM.on_mapError] at hfirst
      obtain ⟨hresult, hd₁⟩ := Prod.mk.inj hfirst
      exact Prod.ext (mapError_eq_ok.mp hresult) hd₁
    obtain ⟨⟨content, hentry⟩, rfl⟩ := on_removeFile_eq_ok.mp hremove
    rw [ih hrest, get?_remove_file (entry_eq_file_iff.mp hentry).2.2.2, List.map_cons]
    by_cases hk : k = p.location
    · simp [hk]
    · simp [hk]

/-! ### Removing empty directories -/

lemma isEmpty_below_iff : (d.below l).isEmpty = true ↔ ∀ rel ≠ [], d.get? (l ++ rel) = none := by
  rw [List.isEmpty_iff, List.eq_nil_iff_forall_not_mem]
  constructor
  · intro h rel hrel
    by_contra hentry
    obtain ⟨e, he⟩ := Option.ne_none_iff_exists'.mp hentry
    exact h (rel, e) (mem_below.mpr ⟨hrel, he⟩)
  · rintro h a ha
    obtain ⟨hne, hget⟩ := mem_below.mp ha
    rw [h a.1 hne] at hget
    cases hget

/-- Remove the directory at a location if nothing lies below it, and count it. -/
def removeIfEmpty (state : Disk × Nat) (l : Location) : Disk × Nat :=
  if (state.1.below l).isEmpty then (state.1.remove l, state.2 + 1) else state

/-- At most the directory itself is removed. -/
lemma get?_removeIfEmpty {state : Disk × Nat} (hl : l ≠ []) (k : Location) :
    (removeIfEmpty state l).1.get? k =
      if k = l ∧ (state.1.below l).isEmpty then none else state.1.get? k := by
  rw [removeIfEmpty]
  by_cases hempty : (state.1.below l).isEmpty = true
  · rw [if_pos hempty, get?_remove hl]
    by_cases hk : k = l
    · rw [hk, if_pos (List.prefix_refl l), if_pos ⟨rfl, hempty⟩]
    · rw [if_neg (mt And.left hk)]
      split_ifs with hlead
      · obtain ⟨rel, rfl⟩ := hlead
        exact (isEmpty_below_iff.mp hempty rel (by simpa using hk)).symm
      · rfl
  · rw [if_neg hempty, if_neg (mt And.right hempty)]

/-- When each directory comes after those that lie in it, none that is left is empty in the end. -/
lemma get?_foldl_removeIfEmpty {directories : List Location}
    (hinner : directories.Pairwise fun a b => ¬ a <+: b) (hne : ∀ l ∈ directories, l ≠ [])
    (state : Disk × Nat) (k : Location) :
    (k ∉ directories →
        (directories.foldl removeIfEmpty state).1.get? k = state.1.get? k) ∧
      (k ∈ directories →
        (directories.foldl removeIfEmpty state).1.get? k = none ∨
        (directories.foldl removeIfEmpty state).1.get? k = state.1.get? k ∧
          ∃ rel ≠ [], (directories.foldl removeIfEmpty state).1.get? (k ++ rel) ≠ none) := by
  induction directories generalizing state k with
  | nil => simp
  | cons l directories ih =>
    obtain ⟨hfirst, hinner⟩ := List.pairwise_cons.mp hinner
    obtain ⟨hl, hne⟩ := List.forall_mem_cons.mp hne
    have ih (k : Location) := ih hinner hne (removeIfEmpty state l) k
    have hother (k : Location) (hk : k ≠ l) :
        (removeIfEmpty state l).1.get? k = state.1.get? k := by
      rw [get?_removeIfEmpty hl, if_neg (mt And.left hk)]
    have hlater (rel : Location) : l ++ rel ∉ directories := fun hmem =>
      hfirst _ hmem (List.prefix_append l rel)
    rw [List.foldl_cons]
    refine ⟨fun hk => ?_, fun hk => ?_⟩
    · obtain ⟨hk, hrest⟩ := not_or.mp (mt List.mem_cons.mpr hk)
      rw [(ih k).1 hrest, hother k hk]
    -- what comes later lies neither here nor inside, so the directory stays as it is left now
    rcases List.mem_cons.mp hk with rfl | hk
    · have hkept := (ih k).1 (by simpa using hlater [])
      rw [hkept, get?_removeIfEmpty hl]
      split_ifs with hempty
      · exact .inl rfl
      · have hfull := mt (isEmpty_below_iff.mpr) (mt (And.intro rfl) hempty)
        push Not at hfull
        obtain ⟨rel, hrel, hentry⟩ := hfull
        refine .inr ⟨rfl, rel, hrel, ?_⟩
        rw [(ih _).1 (hlater rel), hother _ (by simpa using hrel)]
        exact hentry
    · have hkl : k ≠ l := fun heq => by
        have hmem := hlater []
        rw [List.append_nil, ← heq] at hmem
        exact hmem hk
      rw [← hother k hkl]
      exact (ih k).2 hk

lemma exists_length_le (d : Disk) : ∃ n, ∀ k e, d.get? k = some e → k.length ≤ n := by
  refine ⟨(d.entries.map (·.1.length)).sum, fun k e h => ?_⟩
  by_cases hk : k = []
  · rw [hk]
    exact Nat.zero_le _
  · exact List.le_sum_of_mem
      (List.mem_map_of_mem (f := (·.1.length)) ((get?_eq_some_iff hk).mp h))

/-- A directory of a tree in which none is empty lies above a file. -/
lemma exists_file_below {l : Location}
    (hfull : ∀ k, l <+: k → d.get? k = some .directory → ∃ rel ≠ [], d.get? (k ++ rel) ≠ none)
    (h : d.get? l = some .directory) :
    ∃ k content, l <+: k ∧ d.get? k = some (.file content) := by
  obtain ⟨n, hn⟩ := d.exists_length_le
  induction hm : n - l.length using Nat.strongRecOn generalizing l with
  | ind m ih =>
    obtain ⟨rel, hrel, hentry⟩ := hfull l (List.prefix_refl l) h
    obtain ⟨e, he⟩ := Option.ne_none_iff_exists'.mp hentry
    cases e with
    | file content => exact ⟨l ++ rel, content, List.prefix_append l rel, he⟩
    | directory =>
      have hlength := hn _ _ he
      have hpos := List.length_pos_iff.mpr hrel
      rw [List.length_append] at hlength
      obtain ⟨k, content, hk, hfile⟩ := ih (n - (l ++ rel).length)
        (by rw [List.length_append]; omega)
        (fun k hk => hfull k ((List.prefix_append l rel).trans hk)) he rfl
      exact ⟨k, content, (List.prefix_append l rel).trans hk, hfile⟩

/-- A place strictly below a location at and below which there is no file. -/
def Deserted (d : Disk) (l k : Location) : Prop :=
  l.Above k ∧ ∀ m content, k <+: m → d.get? m ≠ some (.file content)

/-- What the removal of the empty directories of a tree does: of the directories of the tree, each
one that is left is not empty, and nothing else has changed. -/
structure Emptied (l : Location) (d d' : Disk) : Prop where
  elsewhere : ∀ {k}, ¬ (l.Above k ∧ d.get? k = some .directory) → d'.get? k = d.get? k
  directory : ∀ {k : Location}, l.Above k → d.get? k = some .directory →
    d'.get? k = none ∨ d'.get? k = d.get? k ∧ ∃ rel ≠ [], d'.get? (k ++ rel) ≠ none

/-- An order in which to go through the directories strictly below a location: each comes once, and
after those that lie in it. -/
structure ContentsFirst (d : Disk) (l : Location) (order : List Location) : Prop where
  mem : ∀ {k}, k ∈ order ↔ l.Above k ∧ d.get? k = some .directory
  inner : order.Pairwise fun a b => ¬ a <+: b

lemma ContentsFirst.ne_nil {order : List Location} (h : d.ContentsFirst l order) :
    ∀ k ∈ order, k ≠ [] :=
  fun _ hk => (h.mem.mp hk).1.ne_nil

lemma ContentsFirst.emptied {order : List Location} (h : d.ContentsFirst l order) :
    Emptied l d (order.foldl removeIfEmpty (d, 0)).1 := by
  have hfold := get?_foldl_removeIfEmpty h.inner h.ne_nil (d, 0)
  simp only [h.mem] at hfold
  exact ⟨(hfold _).1, fun habove hget => (hfold _).2 ⟨habove, hget⟩⟩

lemma Emptied.get?_eq (h : Emptied l d d') (hget : d'.get? k ≠ none) : d'.get? k = d.get? k := by
  by_cases hmem : l.Above k ∧ d.get? k = some .directory
  · exact ((h.directory hmem.1 hmem.2).resolve_left hget).1
  · exact h.elsewhere hmem

lemma Emptied.get?_of_deserted (h : Emptied l d d') (hdeserted : d.Deserted l k) :
    d'.get? k = none := by
  obtain ⟨habove, hnone⟩ := hdeserted
  have hdirectory {m : Location} (hm : k <+: m) (hget : d'.get? m ≠ none) :
      d'.get? m = some .directory := by
    have heq := h.get?_eq hget
    obtain ⟨e, he⟩ := Option.ne_none_iff_exists'.mp hget
    cases e with
    | directory => exact he
    | file content => exact absurd (heq ▸ he) (hnone m content hm)
  by_contra hentry
  obtain ⟨m, content, hm, hget⟩ := exists_file_below (l := k) (fun m hm hget => by
    refine ((h.directory (habove.trans_prefix hm) ?_).resolve_left (by simp [hget])).2
    rw [← h.get?_eq (by simp [hget]), hget]) (hdirectory (List.prefix_refl k) hentry)
  rw [hdirectory hm (by simp [hget])] at hget
  cases hget

lemma Emptied.get?_of_not_deserted (h : Emptied l d d') (hk : ¬ d.Deserted l k) :
    d'.get? k = d.get? k := by
  by_cases hmem : l.Above k ∧ d.get? k = some .directory
  · refine ((h.directory hmem.1 hmem.2).resolve_left fun hnone => ?_).1
    refine hk ⟨hmem.1, fun m content hm hget => ?_⟩
    have hfile : d'.get? m = some (.file content) := by
      rw [h.elsewhere (by simp [hget]), hget]
    by_cases heq : k = m
    · rw [heq, hfile] at hnone
      cases hnone
    · rw [get?_above hfile hm heq] at hnone
      cases hnone
  · exact h.elsewhere hmem

/-! ### Sweeping along a walk -/

section Sweep

variable {names : Location → List String} {stops : List Stop} {n m : Nat} {e : DiskError}

lemma contentsFirst_stops (hnames : d.Enumerates names) (l : Location) :
    d.ContentsFirst l (((d.stops names l).filterMap Stop.left?).map (l ++ ·)) where
  mem {k} := by
    simp only [List.mem_map, List.mem_filterMap, mem_stops hnames, Stop.left?_eq_some]
    constructor
    · rintro ⟨rel, ⟨s, ⟨hne, hget⟩, rfl⟩, rfl⟩
      exact ⟨Location.above_append hne, hget⟩
    · rintro ⟨⟨⟨rel, rfl⟩, hne⟩, hget⟩
      exact ⟨rel, ⟨.leave rel, ⟨by simpa [Stop.place] using hne, hget⟩, rfl⟩, rfl⟩
  inner := by
    refine List.pairwise_map.mpr (List.pairwise_filterMap.mpr ?_)
    refine (pairwise_stops hnames l).imp fun {s t} hbefore k hk k' hk' hlead => ?_
    rw [Stop.left?_eq_some.mp hk, Stop.left?_eq_some.mp hk'] at hbefore
    exact hbefore.2 k rfl ((List.prefix_append_right_inj l).mp hlead)

lemma on_sweep_enter_of_ok {k : Location} (h : d.openDirectory (root.join k.path) = .ok l) :
    (sweep root n (.enter k)).on d = (.ok n, d) := by
  have henter : (d.enter root k) = .ok () := by rw [enter, h]
  rw [sweep, WorkM.on_bind_of_ok (by rw [WorkM.on_consult, henter])]
  rfl

lemma on_sweep_enter_of_error {k : Location} (h : d.openDirectory (root.join k.path) = .error e) :
    (sweep root n (.enter k)).on d = (.error (.unopened (root.join k.path) e), d) := by
  have henter : (d.enter root k) = .error (.unopened (root.join k.path) e) := by rw [enter, h]
  rw [sweep, WorkM.on_bind_of_error (by rw [WorkM.on_consult, henter])]

lemma on_sweep_leave_of_ok {k : Location} (h : d.openDirectory (root.join k.path) = .ok l) :
    (sweep root n (.leave k)).on d =
      (.ok (removeIfEmpty (d, n) l).2, (removeIfEmpty (d, n) l).1) := by
  rw [sweep, WorkM.on_bind_of_ok (by rw [WorkM.on_consult, h]),
    WorkM.on_bind_of_ok (WorkM.on_get d), removeIfEmpty]
  by_cases hempty : (d.below l).isEmpty = true
  · rw [if_pos hempty, if_pos hempty]
    rfl
  · rw [if_neg hempty, if_neg hempty]
    rfl

lemma on_sweep_leave_of_error {k : Location} (h : d.openDirectory (root.join k.path) = .error e) :
    (sweep root n (.leave k)).on d = (.error e, d) := by
  rw [sweep, WorkM.on_bind_of_error (by rw [WorkM.on_consult, h])]

/-- The location of a directory that was opened along names. -/
lemma eq_of_openDirectory_join {k : Location} (hstep : ∀ name ∈ k, (Component.name name).IsStep)
    (h : d.openDirectory (root.join k.path) = .ok l) : l = root.location ++ k := by
  rw [(of_locate_eq_ok (openDirectory_eq_ok.mp h).1).2.1, root.location_join_path hstep]

/-- A sweep that gets to its end has gone through the directories that were left. -/
lemma foldl_of_on_foldlM_sweep (hstep : ∀ s ∈ stops, ∀ name ∈ s.place, (Component.name name).IsStep)
    (h : (stops.foldlM (sweep root) n).on d = (.ok m, d')) :
    ((stops.filterMap Stop.left?).map (root.location ++ ·)).foldl removeIfEmpty (d, n) =
      (d', m) := by
  induction stops generalizing d n with
  | nil =>
    obtain ⟨hn, hd⟩ := Prod.mk.inj h
    exact Prod.ext hd (Except.ok.inj hn)
  | cons s stops ih =>
    obtain ⟨hfirst, hstep⟩ := List.forall_mem_cons.mp hstep
    rw [List.foldlM_cons] at h
    obtain ⟨i, d₁, hsweep, hrest⟩ := WorkM.on_bind_eq_ok.mp h
    -- only leaving a directory changes the disk
    rw [← ih hstep hrest]
    cases s with
    | file k =>
      obtain ⟨hi, rfl⟩ := Prod.mk.inj hsweep
      rw [← Except.ok.inj hi]
      rfl
    | enter k =>
      cases hopen : d.openDirectory (root.join k.path) with
      | error e =>
        rw [on_sweep_enter_of_error hopen] at hsweep
        cases hsweep
      | ok l =>
        rw [on_sweep_enter_of_ok hopen] at hsweep
        obtain ⟨hi, rfl⟩ := Prod.mk.inj hsweep
        rw [← Except.ok.inj hi]
        rfl
    | leave k =>
      cases hopen : d.openDirectory (root.join k.path) with
      | error e =>
        rw [on_sweep_leave_of_error hopen] at hsweep
        cases hsweep
      | ok l =>
        obtain rfl := eq_of_openDirectory_join hfirst hopen
        rw [on_sweep_leave_of_ok hopen] at hsweep
        obtain ⟨hi, rfl⟩ := Prod.mk.inj hsweep
        rw [← Except.ok.inj hi]
        rfl

/-- A directory is deserted if nothing lies below it. -/
lemma deserted_of_isEmpty {k : Location} (hk : k ≠ []) (hget : d.get? (l ++ k) = some .directory)
    (hempty : (d.below (l ++ k)).isEmpty = true) : d.Deserted l (l ++ k) := by
  refine ⟨Location.above_append hk, ?_⟩
  rintro _ content ⟨rel, rfl⟩ hfile
  by_cases hrel : rel = []
  · rw [hrel, List.append_nil, hget] at hfile
    cases hfile
  · rw [isEmpty_below_iff.mp hempty rel hrel] at hfile
    cases hfile

/-- What is deserted once an empty directory has been removed was deserted before. -/
lemma Deserted.of_removeIfEmpty {k j : Location} (hk : k ≠ [])
    (hget : d.get? k = some .directory) (h : (removeIfEmpty (d, n) k).1.Deserted l j) :
    d.Deserted l j := by
  refine ⟨h.1, fun m content hm hfile => h.2 m content hm ?_⟩
  rw [get?_removeIfEmpty hk, if_neg]
  · exact hfile
  · rintro ⟨rfl, -⟩
    exact nomatch hget.symm.trans hfile

/-- A sweep gets to its end if the paths of the directories can be followed and the path of the root
leads through none that goes. -/
lemma exists_on_foldlM_sweep (hbefore : stops.Pairwise Stop.Before)
    (hstep : ∀ s ∈ stops, s.place ≠ [] ∧ ∀ name ∈ s.place, (Component.name name).IsStep)
    (hopens : ∀ s ∈ stops, ∀ k, s = .enter k ∨ s = .leave k →
      d.get? (root.location ++ k) = some .directory ∧ (root.join k.path).Fits)
    (htrail : ∀ k ∈ root.trail, d.get? k = some .directory ∧ ¬ d.Deserted root.location k)
    (n : Nat) : ∃ m d', (stops.foldlM (sweep root) n).on d = (.ok m, d') := by
  induction stops generalizing d n with
  | nil => exact ⟨n, d, rfl⟩
  | cons s stops ih =>
    rw [List.pairwise_cons] at hbefore
    rw [List.forall_mem_cons] at hstep hopens
    obtain ⟨hfirst, hbefore⟩ := hbefore
    obtain ⟨⟨hplace, hname⟩, hstep⟩ := hstep
    obtain ⟨hopen, hopens⟩ := hopens
    have hopened {k : Location} (hk : s = .enter k ∨ s = .leave k) (heq : s.place = k) :
        d.openDirectory (root.join k.path) = .ok (root.location ++ k) :=
      openDirectory_join (heq ▸ hplace) (heq ▸ hname) (fun j hj => (htrail j hj).1)
        (hopen k hk).1 (hopen k hk).2
    rw [List.foldlM_cons]
    cases s with
    | file k =>
      obtain ⟨m, d', hrest⟩ := ih hbefore hstep hopens htrail n
      exact ⟨m, d', WorkM.on_bind_eq_ok.mpr ⟨n, d, rfl, hrest⟩⟩
    | enter k =>
      obtain ⟨m, d', hrest⟩ := ih hbefore hstep hopens htrail n
      exact ⟨m, d', WorkM.on_bind_eq_ok.mpr
        ⟨n, d, on_sweep_enter_of_ok (hopened (.inl rfl) rfl), hrest⟩⟩
    | leave k =>
      -- none of the directories that are still to come is the one that may go here
      have hne : root.location ++ k ≠ [] := by simp_all [Stop.place]
      have hhere := (hopen k (.inr rfl)).1
      have hother {j : Location} (hj : j ≠ root.location ++ k) :
          (removeIfEmpty (d, n) (root.location ++ k)).1.get? j = d.get? j := by
        rw [get?_removeIfEmpty hne, if_neg (mt And.left hj)]
      obtain ⟨m, d', hrest⟩ := ih (d := (removeIfEmpty (d, n) (root.location ++ k)).1) hbefore hstep
        (fun s hs k' hk' => by
          obtain ⟨hget, hfits⟩ := hopens s hs k' hk'
          refine ⟨?_, hfits⟩
          rw [hother, hget]
          intro heq
          refine (hfirst s hs).2 k rfl ?_
          rcases hk' with rfl | rfl <;>
            exact List.append_cancel_left heq ▸ List.prefix_refl _)
        (fun j hj => by
          obtain ⟨hget, hdeserted⟩ := htrail j hj
          refine ⟨?_, fun h => hdeserted (h.of_removeIfEmpty hne hhere)⟩
          rw [get?_removeIfEmpty hne, if_neg, hget]
          rintro ⟨rfl, hempty⟩
          exact hdeserted (deserted_of_isEmpty hplace hhere hempty))
        (removeIfEmpty (d, n) (root.location ++ k)).2
      exact ⟨m, d', WorkM.on_bind_eq_ok.mpr
        ⟨_, _, on_sweep_leave_of_ok (hopened (.inr rfl) rfl), hrest⟩⟩

/-- Whatever comes of a sweep, just directories go that no file lies below. -/
lemma get?_of_on_foldlM_sweep
    (hstep : ∀ s ∈ stops, s.place ≠ [] ∧ ∀ name ∈ s.place, (Component.name name).IsStep)
    (n : Nat) (k : Location) :
    ((stops.foldlM (sweep root) n).on d).2.get? k = d.get? k ∨
      d.Deserted root.location k ∧ ((stops.foldlM (sweep root) n).on d).2.get? k = none := by
  induction stops generalizing d n with
  | nil => exact .inl rfl
  | cons s stops ih =>
    rw [List.forall_mem_cons] at hstep
    obtain ⟨⟨hplace, hname⟩, hstep⟩ := hstep
    rw [List.foldlM_cons]
    cases s with
    | file j =>
      have hsweep : (sweep root n (.file j)).on d = (.ok n, d) := rfl
      rw [WorkM.on_bind_of_ok hsweep]
      exact ih hstep n
    | enter j =>
      cases hopen : d.openDirectory (root.join j.path) with
      | error e =>
        rw [WorkM.on_bind_of_error (on_sweep_enter_of_error hopen)]
        exact .inl rfl
      | ok l =>
        rw [WorkM.on_bind_of_ok (on_sweep_enter_of_ok hopen)]
        exact ih hstep n
    | leave j =>
      cases hopen : d.openDirectory (root.join j.path) with
      | error e =>
        rw [WorkM.on_bind_of_error (on_sweep_leave_of_error hopen)]
        exact .inl rfl
      | ok l =>
        have hget := (openDirectory_eq_ok.mp hopen).2
        obtain rfl : l = root.location ++ j := eq_of_openDirectory_join hname hopen
        have hne : root.location ++ j ≠ [] := by simp_all [Stop.place]
        rw [WorkM.on_bind_of_ok (on_sweep_leave_of_ok hopen)]
        have hfirst : (removeIfEmpty (d, n) (root.location ++ j)).1.get? k =
            if k = root.location ++ j ∧ (d.below (root.location ++ j)).isEmpty then none
            else d.get? k :=
          get?_removeIfEmpty hne k
        -- a directory that is gone was deserted before, since nothing but deserted places went
        rcases ih (d := (removeIfEmpty (d, n) (root.location ++ j)).1) hstep
          (removeIfEmpty (d, n) (root.location ++ j)).2 with hrest | ⟨hdeserted, hrest⟩
        · rw [hrest, hfirst]
          split_ifs with hempty
          · obtain ⟨rfl, hempty⟩ := hempty
            exact .inr ⟨deserted_of_isEmpty hplace hget hempty, rfl⟩
          · exact .inl rfl
        · exact .inr ⟨hdeserted.of_removeIfEmpty hne hget, hrest⟩

lemma isStep_of_mem_stops (hd : d.Proper) (hnames : d.Enumerates names) :
    ∀ s ∈ d.stops names l, s.place ≠ [] ∧ ∀ name ∈ s.place, (Component.name name).IsStep := by
  intro s hs
  obtain ⟨hne, his⟩ := (mem_stops hnames).mp hs
  exact ⟨hne, isStep_of_get? hd hne his.ne_none⟩

/-- A sweep of the tree under a root that gets to its end, in whichever order the names come. -/
lemma exists_contentsFirst (hd : d.Proper) (hnames : d.Enumerates names)
    (h : ((d.stops names root.location).foldlM (sweep root) 0).on d = (.ok n, d')) :
    ∃ order, d.ContentsFirst root.location order ∧
      order.foldl removeIfEmpty (d, 0) = (d', n) :=
  ⟨_, contentsFirst_stops hnames root.location,
    foldl_of_on_foldlM_sweep (fun s hs => (isStep_of_mem_stops hd hnames s hs).2) h⟩

/-- A sweep that can follow the paths of all directories, and whose root is not led to through one
that goes, gets to its end. -/
lemma exists_on_sweep (hd : d.Proper) (hnames : d.Enumerates names)
    (hroot : d.isDirectory root = true) (hwalk : d.Walkable root)
    (hpath : ∀ k ∈ root.trail, ¬ d.Deserted root.location k) :
    ∃ n d', ((d.stops names root.location).foldlM (sweep root) 0).on d = (.ok n, d') := by
  obtain ⟨-, -, htrail⟩ := isDirectory_iff_trail.mp hroot
  refine exists_on_foldlM_sweep (pairwise_stops hnames _) (isStep_of_mem_stops hd hnames) ?_
    (fun k hk => ⟨htrail k hk, hpath k hk⟩) 0
  rintro s hs k (rfl | rfl) <;>
  · obtain ⟨hne, hget⟩ := (mem_stops hnames).mp hs
    exact ⟨hget, hwalk k hne hget⟩

lemma on_removeEmptyDirectories_of_not_isDirectory (h : d.isDirectory root = false) :
    (removeEmptyDirectories root).on d = (.ok 0, d) := by
  rw [removeEmptyDirectories, WorkM.on_bind_of_ok (WorkM.on_get d), if_neg (by simp [h])]
  rfl

lemma on_removeEmptyDirectories (hroot : d.isDirectory root = true) :
    (removeEmptyDirectories root).on d =
      ((d.stops d.names root.location).foldlM (sweep root) 0).on d := by
  rw [removeEmptyDirectories, WorkM.on_bind_of_ok (WorkM.on_get d), if_pos hroot,
    WorkM.on_bind_of_ok (by rw [WorkM.on_consult, (isDirectory_iff.mp hroot).1])]

/-- A sweep that gets to its end has followed the paths of all directories that it entered. -/
lemma fits_of_on_foldlM_sweep (h : (stops.foldlM (sweep root) n).on d = (.ok m, d')) {k : Location}
    (hk : .enter k ∈ stops) : (root.join k.path).Fits := by
  induction stops generalizing d n with
  | nil => cases hk
  | cons s stops ih =>
    rw [List.foldlM_cons] at h
    obtain ⟨i, d₁, hsweep, hrest⟩ := WorkM.on_bind_eq_ok.mp h
    rcases List.mem_cons.mp hk with rfl | hk
    · cases hopen : d.openDirectory (root.join k.path) with
      | error e =>
        rw [on_sweep_enter_of_error hopen] at hsweep
        cases hsweep
      | ok l => exact (of_locate_eq_ok (openDirectory_eq_ok.mp hopen).1).1
    · exact ih hrest hk

/-- Where empty directories can be removed, files can be listed. -/
lemma listable_of_on_removeEmptyDirectories (h : (removeEmptyDirectories root).on d = (.ok n, d')) :
    d.Listable root := by
  intro hroot rel hne hget
  rw [on_removeEmptyDirectories hroot] at h
  exact fits_of_on_foldlM_sweep h ((mem_stops (enumerates_names d)).mpr ⟨hne, hget⟩)

/-- Whatever comes of removing empty directories, just directories go that no file lies below. -/
lemma get?_of_on_removeEmptyDirectories (hd : d.Proper) (root : Path) (k : Location) :
    ((removeEmptyDirectories root).on d).2.get? k = d.get? k ∨
      d.Deserted root.location k ∧ ((removeEmptyDirectories root).on d).2.get? k = none := by
  cases hroot : d.isDirectory root with
  | false =>
    rw [on_removeEmptyDirectories_of_not_isDirectory hroot]
    exact .inl rfl
  | true =>
    rw [on_removeEmptyDirectories hroot]
    exact get?_of_on_foldlM_sweep (isStep_of_mem_stops hd (enumerates_names d)) 0 k

open Classical in
/-- Of a tree, just what is deserted goes with the empty directories. -/
lemma get?_removeEmptyDirectories (hd : d.Proper) (hroot : d.isDirectory root = true)
    (h : (removeEmptyDirectories root).on d = (.ok n, d')) (k : Location) :
    d'.get? k = if d.Deserted root.location k then none else d.get? k := by
  rw [on_removeEmptyDirectories hroot] at h
  obtain ⟨order, horder, hfold⟩ := exists_contentsFirst hd (enumerates_names d) h
  have hemptied := horder.emptied
  rw [hfold] at hemptied
  split_ifs with hdeserted
  · exact hemptied.get?_of_deserted hdeserted
  · exact hemptied.get?_of_not_deserted hdeserted

end Sweep

end Disk

end AddonBuild
