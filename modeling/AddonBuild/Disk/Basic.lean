/-!
# A tree of files and directories

A disk is a finite map from locations to files and directories. The entries are kept in the order
of their locations, and whatever lies below the top lies in a directory of the disk; both are part
of the type. Two disks with the same entries at every location are therefore the same disk.
-/

namespace AddonBuild

/-- The names on the way from the top of the tree to an entry. -/
abbrev Location := List String

/-- What a location of a disk can hold. -/
inductive Entry where
  | file (content : ByteArray)
  | directory

/-- Two files are the same entry when they have the same bytes. -/
instance : DecidableEq Entry
  | .file a, .file b =>
    if h : a.data = b.data then .isTrue (congrArg Entry.file (ByteArray.ext h))
    else .isFalse fun e => h (congrArg ByteArray.data (Entry.file.inj e))
  | .directory, .directory => .isTrue rfl
  | .file _, .directory => .isFalse Entry.noConfusion
  | .directory, .file _ => .isFalse Entry.noConfusion

/-- Whether a location is the top or listed as a directory. -/
def IsDirectoryIn (entries : List (Location × Entry)) (l : Location) : Prop :=
  l = [] ∨ (l, Entry.directory) ∈ entries

instance (entries : List (Location × Entry)) (l : Location) :
    Decidable (IsDirectoryIn entries l) :=
  inferInstanceAs (Decidable (_ ∨ _))

/-- Files and directories by location. -/
structure Disk where
  entries : List (Location × Entry)
  sorted : entries.Pairwise fun a b => a.1 < b.1
  rooted : ∀ a ∈ entries, a.1 ≠ [] ∧ IsDirectoryIn entries a.1.dropLast

namespace Disk

/-- The disk that holds nothing but its top directory. -/
def empty : Disk := ⟨[], .nil, by simp⟩

instance : Inhabited Disk := ⟨empty⟩

/-! ### Looking up -/

/-- What a location holds. The top is always a directory. -/
def get? (d : Disk) (l : Location) : Option Entry :=
  if l = [] then some .directory else d.entries.lookup l

@[simp] theorem get?_nil (d : Disk) : d.get? [] = some .directory := by
  simp [get?]

theorem mem_of_lookup {l : Location} {e : Entry} :
    {es : List (Location × Entry)} → es.lookup l = some e → (l, e) ∈ es
  | [], h => by simp at h
  | (k, v) :: rest, h => by
    rw [List.lookup_cons] at h
    split at h
    · next hk =>
      simp only [beq_iff_eq] at hk
      simp_all
    · exact List.mem_cons_of_mem _ (mem_of_lookup h)

theorem mem_entries_of_get? {d : Disk} {l : Location} {e : Entry} (hl : l ≠ [])
    (h : d.get? l = some e) : (l, e) ∈ d.entries := by
  rw [get?, if_neg hl] at h
  exact mem_of_lookup h

/-! ### Placing an entry -/

/-- List an entry at its location, in place of what is listed there. -/
def place (l : Location) (e : Entry) : List (Location × Entry) → List (Location × Entry)
  | [] => [(l, e)]
  | a :: rest =>
    if l < a.1 then (l, e) :: a :: rest
    else if a.1 < l then a :: place l e rest
    else (l, e) :: rest

theorem mem_place {l : Location} {e : Entry} {a : Location × Entry} :
    {es : List (Location × Entry)} → a ∈ place l e es → a = (l, e) ∨ a ∈ es
  | [], h => by simpa [place] using h
  | b :: rest, h => by
    rw [place] at h
    split at h
    · simpa using h
    · split at h
      · rcases List.mem_cons.mp h with rfl | h
        · simp
        · rcases mem_place h with h | h <;> simp [h]
      · rcases List.mem_cons.mp h with rfl | h <;> simp [*]

theorem mem_place_self (l : Location) (e : Entry) :
    (es : List (Location × Entry)) → (l, e) ∈ place l e es
  | [] => by simp [place]
  | b :: rest => by
    rw [place]
    split
    · simp
    · split
      · exact List.mem_cons_of_mem _ (mem_place_self l e rest)
      · simp

theorem mem_place_of_ne {l : Location} {e : Entry} {a : Location × Entry} (hne : a.1 ≠ l) :
    {es : List (Location × Entry)} → a ∈ es → a ∈ place l e es
  | b :: rest, h => by
    rw [place]
    split
    · exact List.mem_cons_of_mem _ h
    · split
      · rcases List.mem_cons.mp h with rfl | h
        · simp
        · exact List.mem_cons_of_mem _ (mem_place_of_ne hne h)
      · next h₁ h₂ =>
        rcases List.mem_cons.mp h with rfl | h
        · exact absurd (Std.Trichotomous.trichotomous a.1 l h₂ h₁) hne
        · exact List.mem_cons_of_mem _ h

theorem sorted_place (l : Location) (e : Entry) :
    {es : List (Location × Entry)} → (es.Pairwise fun a b => a.1 < b.1) →
      (place l e es).Pairwise fun a b => a.1 < b.1
  | [], _ => by simp [place]
  | b :: rest, h => by
    rw [List.pairwise_cons] at h
    rw [place]
    split
    · next hl =>
      refine List.pairwise_cons.mpr ⟨?_, List.pairwise_cons.mpr h⟩
      intro a ha
      rcases List.mem_cons.mp ha with rfl | ha
      · exact hl
      · exact List.lt_trans hl (h.1 a ha)
    · split
      · next hb =>
        refine List.pairwise_cons.mpr ⟨?_, sorted_place l e h.2⟩
        intro a ha
        rcases mem_place ha with rfl | ha
        · exact hb
        · exact h.1 a ha
      · next h₁ h₂ =>
        have hl : l = b.1 := (Std.Trichotomous.trichotomous b.1 l h₂ h₁).symm
        refine List.pairwise_cons.mpr ⟨?_, h.2⟩
        intro a ha
        exact hl ▸ h.1 a ha

/-- Whether an entry may be put at a location: its parent is a directory, and a directory is not
replaced by a file. -/
def Admits (d : Disk) (l : Location) (e : Entry) : Prop :=
  l ≠ [] ∧ IsDirectoryIn d.entries l.dropLast ∧
    ((l, Entry.directory) ∈ d.entries → e = .directory)

instance (d : Disk) (l : Location) (e : Entry) : Decidable (d.Admits l e) :=
  inferInstanceAs (Decidable (_ ∧ _ ∧ _))

/-- The disk with an entry put at a location that admits it. -/
def put (d : Disk) (l : Location) (e : Entry) (h : d.Admits l e) : Disk where
  entries := place l e d.entries
  sorted := sorted_place l e d.sorted
  rooted := by
    have keep : ∀ k, IsDirectoryIn d.entries k → IsDirectoryIn (place l e d.entries) k := by
      intro k hk
      rcases hk with hk | hk
      · exact .inl hk
      · by_cases hkl : k = l
        · subst hkl
          rw [h.2.2 hk]
          exact .inr (mem_place_self k _ _)
        · exact .inr (mem_place_of_ne hkl hk)
    intro a ha
    rcases mem_place ha with rfl | ha
    · exact ⟨h.1, keep _ h.2.1⟩
    · exact ⟨(d.rooted a ha).1, keep _ (d.rooted a ha).2⟩

/-! ### Removing -/

/-- The disk without the entry at a location and without all that lies below it. -/
def remove (d : Disk) (l : Location) : Disk where
  entries := d.entries.filter fun a => !l.isPrefixOf a.1
  sorted := d.sorted.filter _
  rooted := by
    intro a ha
    rw [List.mem_filter] at ha
    refine ⟨(d.rooted a ha.1).1, ?_⟩
    rcases (d.rooted a ha.1).2 with h | h
    · exact .inl h
    · refine .inr (List.mem_filter.mpr ⟨h, ?_⟩)
      have hl := ha.2
      simp only [Bool.not_eq_true', ← Bool.not_eq_true, List.isPrefixOf_iff_prefix] at hl ⊢
      exact fun hp => hl (hp.trans (List.dropLast_prefix a.1))

/-! ### Listing -/

/-- The entries strictly below a location, named relative to it, in the order of their names. -/
def below (d : Disk) (l : Location) : List (Location × Entry) :=
  d.entries.filterMap fun a =>
    if l.isPrefixOf a.1 ∧ a.1 ≠ l then some (a.1.drop l.length, a.2) else none

end Disk

end AddonBuild
