import AddonBuild.Proofs.Disk.Changing
import AddonBuild.Proofs.Disk.Waiting

/-!
# Writing a file

A file that was written stands behind directories at the place that its path leads to, and nothing
else has changed but that directories were added on the way. A file can be written where no file
stands in the way and no directory in its place, if neither its path nor that of the temporary file
is too long.
-/

namespace AddonBuild

open AddonBuild.Path

namespace Disk

variable {d d' : Disk} {p : Path} {content : ByteArray} {stamp : Stamp}

lemma get?_along_dropLast (hpassage : ∀ k ∈ p.passage, d.get? k = some .directory) :
    d.get? (Location.along [] p.way.dropLast) = some .directory := by
  by_cases hnil : Location.along [] p.way.dropLast = []
  · rw [hnil, get?_nil]
  · exact hpassage _ (Location.mem_trail_of_prefix hnil (List.prefix_refl _))

/-- There is a file at a path if the path leads through directories to one. -/
lemma entry_eq_file_iff :
    d.entry p = .ok (.file content) ↔
      p.Fits ∧ p.EndsInName ∧ (∀ k ∈ p.passage, d.get? k = some .directory) ∧
        d.get? p.location = some (.file content) := by
  rw [entry_eq_ok]
  constructor
  · rintro ⟨l, hl, hfile⟩
    obtain ⟨hfits, rfl, -⟩ := of_locate_eq_ok hl
    obtain ⟨init, last, hsegments, hblank, hup⟩ := exists_last_of_locate hl (by simp [hfile])
    exact ⟨hfits, ⟨init, last, hsegments, hblank, hup⟩,
      passage_of_locate hl hsegments hblank, hfile⟩
  · rintro ⟨hfits, ⟨init, last, hsegments, hblank, hup⟩, hpassage, hfile⟩
    refine ⟨p.location, locate_eq_location hfits hsegments hblank ?_, hfile⟩
    rwa [passage, dropLast_way hsegments hblank] at hpassage

/-- A file may be put behind directories wherever there is no directory. -/
lemma admits_of_endsInName (hname : p.EndsInName)
    (hpassage : ∀ k ∈ p.passage, d.get? k = some .directory)
    (hfree : d.get? p.location ≠ some .directory) : d.Admits p.location (.file content) := by
  obtain ⟨init, last, hsegments, hblank, hup⟩ := hname
  have hlocation := location_of_last hsegments hblank hup
  have hne : p.location ≠ [] := by simp [hlocation]
  refine ⟨hne, ?_, fun hmem => absurd ((get?_eq_some_iff hne).mpr hmem) hfree⟩
  rw [hlocation, List.dropLast_concat]
  exact isDirectoryIn_iff.mpr (get?_along_dropLast hpassage)

/-! ### What a written file leaves behind -/

/-- A path leads to a file with the given content, and nothing has changed elsewhere but that
directories were added on the way. -/
structure Wrote (d d' : Disk) (p : Path) (content : ByteArray) : Prop where
  entry : d'.entry p = .ok (.file content)
  free : d.get? p.location ≠ some .directory
  elsewhere : ∀ k ≠ p.location, d'.get? k = d.get? k ∨
    k ∈ p.passage ∧ d.get? k = none ∧ d'.get? k = some .directory

lemma Wrote.get? (h : d.Wrote d' p content) : d'.get? p.location = some (.file content) :=
  (entry_eq_file_iff.mp h.entry).2.2.2

lemma Wrote.grows (h : d.Wrote d' p content) : d.Grows d' where
  directory {l} hl := by
    have hne : l ≠ p.location := by
      rintro rfl
      exact h.free hl
    rcases h.elsewhere l hne with hk | ⟨-, hnone, -⟩
    · rw [hk, hl]
    · rw [hl] at hnone
      cases hnone
  file {l found} hl := by
    by_cases heq : l = p.location
    · exact ⟨content, heq ▸ h.get?⟩
    · rcases h.elsewhere l heq with hk | ⟨-, hnone, -⟩
      · exact ⟨found, by rw [hk, hl]⟩
      · rw [hl] at hnone
        cases hnone

/-- A write leaves a file with its content, unless it gives that very file other content. -/
lemma Wrote.entry_of (h : d.Wrote d' p content) {q : Path} {kept : ByteArray}
    (hentry : d.entry q = .ok (.file kept)) (hsame : q.location = p.location → kept = content) :
    d'.entry q = .ok (.file kept) := by
  obtain ⟨hfits, hname, hpassage, hfile⟩ := entry_eq_file_iff.mp hentry
  refine entry_eq_file_iff.mpr
    ⟨hfits, hname, fun k hk => h.grows.directory (hpassage k hk), ?_⟩
  by_cases hplace : q.location = p.location
  · rw [hplace, h.get?, hsame hplace]
  · rcases h.elsewhere _ hplace with heq | ⟨-, hnone, -⟩
    · rw [heq, hfile]
    · rw [hfile] at hnone
      cases hnone

lemma wrote_self (h : d.entry p = .ok (.file content)) : d.Wrote d p content where
  entry := h
  free := by
    rw [(entry_eq_file_iff.mp h).2.2.2]
    simp
  elsewhere _ _ := .inl rfl

/-- The directory in which an absolute path names a file. -/
lemma homeOf_eq (hp : p.isAbsolute = true) {init : List String} {last : String}
    (hsegments : p.segments.tail = init ++ [last]) (hblank : isBlank last = false) :
    homeOf p = ofSplit .root (trimBlank init) := by
  have hsplit : p.split = (.root, p.segments.tail) := if_pos hp
  rw [homeOf, parent?, hsplit]
  simp only [hsegments, trimBlank_of_last hblank]
  obtain ⟨first, rest, hcons⟩ := List.exists_cons_of_ne_nil (l := init ++ [last]) (by simp)
  rw [hcons]
  simp only [Option.getD_some]
  rw [← hcons, List.dropLast_concat]

/-- Only the segments behind the root can be names. -/
lemma exists_tail_of_endsInName (hp : p.isAbsolute = true) (h : p.EndsInName) :
    ∃ init last, p.segments.tail = init ++ [last] ∧ isBlank last = false ∧ last ≠ ".." := by
  obtain ⟨init, last, hsegments, hlast⟩ := h
  have htail := (segments_of_isAbsolute hp).2.1
  cases init with
  | nil =>
    rw [hsegments] at htail
    exact absurd rfl htail
  | cons first init => exact ⟨init, last, by rw [hsegments]; rfl, hlast⟩

/-- A path leads to its last step through what leads to its directory. -/
lemma trail_homeOf (p : Path) : (homeOf p).trail = p.passage :=
  congrArg (Location.trail []) (p.way_parent rfl)

/-- A file that is put behind the directories that were made for it is written. -/
lemma wrote_of_putFile {d₁ : Disk} (hfurnishes : d.Furnishes d₁ p.passage)
    (hput : (putFile p content).on d₁ = (.ok (), d')) : d.Wrote d' p content := by
  obtain ⟨l, hl, hadmits, rfl⟩ := on_putFile_eq_ok.mp hput
  obtain ⟨hfits, rfl, -⟩ := of_locate_eq_ok hl
  have hfree : d₁.get? p.location ≠ some .directory := by
    intro hdirectory
    cases hadmits.2.2 ((get?_eq_some_iff hadmits.1).mp hdirectory)
  have hname : p.EndsInName := exists_last_of_locate hl hfree
  refine ⟨entry_eq_file_iff.mpr ⟨hfits, hname, ?_, ?_⟩, ?_, ?_⟩
  · intro k hk
    obtain ⟨init, last, hsegments, hblank, -⟩ := hname
    have hdirectory := passage_of_locate hl hsegments hblank k hk
    rw [get?_put, if_neg, hdirectory]
    rintro rfl
    exact hfree hdirectory
  · rw [get?_put, if_pos rfl]
  · exact fun hdirectory => hfree (hfurnishes.grows.directory hdirectory)
  · intro k hk
    rw [get?_put, if_neg hk]
    exact hfurnishes k

lemma furnishes_homeOf (p : Path) (d : Disk) :
    d.Furnishes ((makeDirectories (homeOf p)).on d).2 p.passage := by
  rw [← trail_homeOf]
  exact furnishes_makeDirectories (homeOf p) d

lemma wrote_of_write (h : (write stamp p content).on d = (.ok (), d')) :
    d.Wrote d' p content ∧ (waiting stamp p).Fits := by
  obtain ⟨d₁, hmake, ⟨l, hwaiting⟩, -, -, hput⟩ := on_write_eq_ok.mp h
  have hfurnishes := furnishes_homeOf p d
  rw [hmake] at hfurnishes
  exact ⟨wrote_of_putFile hfurnishes hput, (of_locate_eq_ok hwaiting).1⟩

/-- What a file leaves behind that is there with its content, be it written now or before. Only
what is written now needs room for the name under which it waits. -/
lemma wrote_of_writeIfChanged {fresh : Bool}
    (h : (writeIfChanged stamp p content).on d = (.ok fresh, d')) :
    d.Wrote d' p content ∧ (d' = d ∨ (waiting stamp p).Fits) := by
  rcases on_writeIfChanged_eq_ok.mp h with ⟨hentry, -, rfl⟩ | ⟨-, -, hwrite⟩
  · exact ⟨wrote_self hentry, .inl rfl⟩
  · exact (wrote_of_write hwrite).imp_right .inr

/-! ### Making directories where nothing stands in the way -/

/-- Making a directory leaves it there, be it a new one or one that was there before. -/
def Made (d : Disk) (p : Path) (d' : Disk) : Prop :=
  (makeDirectory p).on d = (.ok (), d') ∨
    (makeDirectory p).on d = (.error .alreadyExists, d') ∧ d'.isDirectory p = true

lemma makeChain_of_made {above : List Path} (hp : p.text.isEmpty = false) (h : d.Made p d') :
    (makeChain (p :: above)).on d = (.ok (), d') := by
  rw [on_makeChain_cons, if_neg (by simp [hp])]
  obtain hmake | ⟨hmake, hdirectory⟩ := h
  · rw [hmake]
  · rw [hmake]
    exact if_pos hdirectory

/-- A directory that lacks the ones above it is made behind them. -/
lemma makeChain_of_above {d₁ : Disk} {above : List Path} (hp : p.text.isEmpty = false)
    (hmissing : (makeDirectory p).on d = (.error .notFound, d))
    (habove : (makeChain above).on d = (.ok (), d₁)) (h : d₁.Made p d') :
    (makeChain (p :: above)).on d = (.ok (), d') := by
  rw [on_makeChain_cons, if_neg (by simp [hp]), hmissing]
  dsimp only
  rw [habove]
  dsimp only
  obtain hmake | ⟨hmake, hdirectory⟩ := h
  · rw [hmake]
  · rw [hmake]
    exact if_pos hdirectory

/-- A directory can be made behind directories, or it is there already. -/
lemma makeDirectory_of_passage {init : List String} {last : String} (hfits : p.Fits)
    (hsegments : p.segments = init ++ [last]) (hblank : isBlank last = false)
    (hpassage : ∀ k ∈ p.passage, d.get? k = some .directory)
    (hfiles : ∀ k ∈ p.trail, ∀ found, d.get? k ≠ some (.file found)) :
    ∃ d', d.Made p d' ∧ ∀ k ∈ p.trail, d'.get? k = some .directory := by
  have hl : d.locate p = .ok p.location := by
    refine locate_eq_location hfits hsegments hblank ?_
    rwa [passage, dropLast_way hsegments hblank] at hpassage
  have habove := get?_along_dropLast hpassage
  simp only [Made, on_makeDirectory, hl]
  cases hentry : d.get? p.location with
  | some e =>
    cases e with
    | file found =>
      have hne : p.location ≠ [] := d.ne_nil_of_get?_ne (by simp [hentry])
      exact absurd hentry (hfiles _ (Location.mem_trail_of_prefix hne (List.prefix_refl _)) found)
    | directory =>
      refine ⟨d, .inr ⟨rfl, ?_⟩, fun k hk => ?_⟩
      · rw [isDirectory, entry_eq_ok.mpr ⟨_, hl, hentry⟩]
      · rcases (of_locate_eq_ok hl).2.2 k hk with rfl | hdirectory
        · exact hentry
        · exact hdirectory
  | none =>
    have hup : last ≠ ".." := by
      rintro rfl
      have hlocation : p.location = (Location.along [] p.way.dropLast).dropLast := by
        rw [location, dropLast_way hsegments hblank, way, hsegments, List.filterMap_append,
          Location.along_append]
        rfl
      rw [hlocation, get?_dropLast habove] at hentry
      cases hentry
    have hlocation := location_of_last hsegments hblank hup
    have hadmits : d.Admits p.location .directory := by
      refine ⟨by simp [hlocation], ?_, fun _ => rfl⟩
      rw [hlocation, List.dropLast_concat]
      exact isDirectoryIn_iff.mpr habove
    dsimp only
    rw [on_putAt, dif_pos hadmits]
    refine ⟨_, .inl rfl, fun k hk => ?_⟩
    rw [get?_put]
    split_ifs with heq
    · rfl
    · rw [trail_of_last hsegments hblank hup, List.mem_append, List.mem_singleton] at hk
      exact hpassage k (hk.resolve_right heq)

/-- The text of an absolute path starts with that of the path of its first segments. -/
lemma exists_text_ofSplit (first rest : List String) :
    ∃ t, (ofSplit .root (first ++ rest)).text = (ofSplit .root first).text ++ t := by
  by_cases hfirst : first = []
  · rw [hfirst]
    exact ⟨"/".intercalate rest, rfl⟩
  · refine ⟨String.ofList (slashes rest), String.toList_injective ?_⟩
    rw [toList_ofSplit_root (by simp [hfirst]), String.toList_append, toList_ofSplit_root hfirst,
      String.toList_ofList, slashes_append]

lemma fits_root : (ofSplit .root []).Fits where
  nul := by decide
  ne := by decide
  short := by decide
  names := by decide

/-- The path of the first segments is not too long if the whole path is not. -/
lemma fits_of_append {first : List String} (rest : List String)
    (hslash : ∀ segment ∈ first ++ rest, '/' ∉ segment.toList)
    (h : (ofSplit .root (first ++ rest)).Fits) : (ofSplit .root first).Fits := by
  by_cases hfirst : first = []
  · rw [hfirst]
    exact fits_root
  obtain ⟨t, ht⟩ := exists_text_ofSplit first rest
  have hsegments := segments_ofSplit_root (by simp [hfirst]) hslash
  have hsegments' := segments_ofSplit_root hfirst fun segment hs =>
    hslash segment (List.mem_append_left _ hs)
  refine ⟨fun hnul => h.nul ?_, text_ne_of_isAbsolute (isAbsolute_ofSplit_root _), ?_, ?_⟩
  · rw [ht, String.toList_append]
    exact List.mem_append_left _ hnul
  · have hshort := h.short
    rw [ht, String.utf8ByteSize_append] at hshort
    omega
  · have hnames := h.names
    rw [hsegments, ← List.cons_append] at hnames
    rw [hsegments']
    exact fun segment hs => hnames segment (List.mem_append_left _ hs)

lemma made_root (d : Disk) : d.Made (ofSplit .root []) d := by
  have hl : d.locate (ofSplit .root []) = .ok [] := rfl
  refine .inr ⟨?_, ?_⟩
  · rw [on_makeDirectory, hl]
    dsimp only
    rw [get?_nil]
  · rw [isDirectory, entry_eq_ok.mpr ⟨_, hl, d.get?_nil⟩]

/-- A directory and its parents can be made if no file stands in the way. -/
lemma makeChain_of_not_file {body : List String}
    (hslash : ∀ segment ∈ body, '/' ∉ segment.toList) (htrim : trimBlank body = body)
    (hfits : (ofSplit .root body).Fits)
    (hfiles : ∀ k ∈ (ofSplit .root body).trail, ∀ found, d.get? k ≠ some (.file found)) :
    ∃ d', (makeChain (ofSplit .root body :: parentsOf .root body)).on d = (.ok (), d') ∧
      ∀ k ∈ (ofSplit .root body).trail, d'.get? k = some .directory := by
  induction hn : body.length using Nat.strongRecOn generalizing body d with
  | ind n ih =>
    rcases List.eq_nil_or_concat body with rfl | ⟨init, last, rfl⟩
    · exact ⟨d, makeChain_of_made (by decide) d.made_root, nofun⟩
    rw [List.concat_eq_append] at *
    have hblank := isBlank_of_trimBlank_eq htrim
    have hinit : ∀ segment ∈ trimBlank init, '/' ∉ segment.toList := fun segment hs =>
      hslash segment (List.mem_append_left _ (mem_of_mem_trimBlank hs))
    have hsegments : (ofSplit .root (init ++ [last])).segments = ("" :: init) ++ [last] :=
      segments_ofSplit_root (by simp) hslash
    have hpassage : (ofSplit .root (init ++ [last])).passage =
        (ofSplit .root (trimBlank init)).trail := by
      rw [passage, dropLast_way hsegments hblank, trail, way_ofSplit .root hinit,
        filterMap_trimBlank]
      rfl
    have htext : (ofSplit .root (init ++ [last])).text.isEmpty = false := by
      simpa using text_ne_of_isAbsolute (isAbsolute_ofSplit_root (init ++ [last]))
    rcases locate_eq_location_or hfits hsegments hblank
      (fun k hk => hfiles k (passage_subset_trail _ hk)) with ⟨-, hdirectories⟩ | hmissing
    · obtain ⟨d', hmade, htrail⟩ :=
        makeDirectory_of_passage hfits hsegments hblank hdirectories hfiles
      exact ⟨d', makeChain_of_made htext hmade, htrail⟩
    · -- the parents are made first
      obtain ⟨blanks, hblanks, -⟩ := exists_trimBlank init
      have hlength := length_trimBlank_le init
      obtain ⟨d₁, hchain, hdirectories⟩ := ih (trimBlank init).length
        (by rw [← hn, List.length_append, List.length_singleton]; omega) hinit
        (trimBlank_trimBlank init)
        (fits_of_append (blanks ++ [last])
          (by rw [← List.append_assoc, ← hblanks]; exact hslash)
          (by rw [← List.append_assoc, ← hblanks]; exact hfits))
        (fun k hk => hfiles k (passage_subset_trail _ (hpassage ▸ hk))) rfl
      rw [← hpassage] at hdirectories
      rw [← parentsOf_root_concat htrim] at hchain
      have hfurnishes := furnishes_makeChain (parentsOf .root (init ++ [last])) d
      rw [hchain] at hfurnishes
      obtain ⟨d', hmade, htrail⟩ := makeDirectory_of_passage hfits hsegments hblank hdirectories
        fun k hk found hfound => hfiles k hk found (hfurnishes.file hfound)
      exact ⟨d', makeChain_of_above htext (by rw [on_makeDirectory, hmissing]) hchain hmade, htrail⟩

/-! ### Writing where nothing stands in the way -/

lemma endsInName_eq_true (h : p.EndsInName) : endsInName p = true ∧ endsInSlash p = false := by
  obtain ⟨init, last, hsegments, hblank, hup⟩ := h
  have hlast : last ≠ "" ∧ last ≠ "." := by simpa [isBlank] using hblank
  constructor
  · rw [endsInName, hsegments, List.reverse_append, List.reverse_singleton, List.singleton_append,
      List.find?_cons_of_pos (by simp [hlast.1])]
    simp [hlast.2, hup]
  · rw [endsInSlash, beq_eq_false_iff_ne]
    intro hslash
    obtain ⟨t, ht⟩ := exists_of_getLast?_eq_slash hslash
    have hempty := segments_slash t ""
    rw [String.append_empty, ← ht, hsegments] at hempty
    exact hlast.1 (List.cons.inj (List.append_inj_right' hempty rfl)).1

lemma fits_homeOf (hp : p.isAbsolute = true) (hname : p.EndsInName) (hfits : p.Fits) :
    (homeOf p).Fits := by
  obtain ⟨init, last, hsegments, hblank, -⟩ := exists_tail_of_endsInName hp hname
  obtain ⟨blanks, hblanks, -⟩ := exists_trimBlank init
  have hinit : init ++ [last] = trimBlank init ++ (blanks ++ [last]) := by
    rw [← List.append_assoc, ← hblanks]
  rw [homeOf_eq hp hsegments hblank]
  refine fits_of_append (blanks ++ [last]) ?_ ?_
  · intro segment hsegment
    rw [← hinit, ← hsegments] at hsegment
    exact not_mem_of_mem_segments (List.mem_of_mem_tail hsegment)
  · rw [← hinit, ← hsegments, ofSplit_tail hp]
    exact hfits

/-- The directory of a file can be made if no file stands in the way. -/
lemma makeDirectories_homeOf (hp : p.isAbsolute = true) (hname : p.EndsInName) (hfits : p.Fits)
    (hfiles : ∀ k ∈ p.passage, ∀ found, d.get? k ≠ some (.file found)) :
    ∃ d', (makeDirectories (homeOf p)).on d = (.ok (), d') ∧
      ∀ k ∈ p.passage, d'.get? k = some .directory := by
  have hhome := fits_homeOf hp hname hfits
  have htrail := trail_homeOf p
  obtain ⟨init, last, hsegments, hblank, -⟩ := exists_tail_of_endsInName hp hname
  have hslash : ∀ segment ∈ trimBlank init, '/' ∉ segment.toList := by
    intro segment hsegment
    refine not_mem_of_mem_segments (p := p) (List.mem_of_mem_tail ?_)
    rw [hsegments]
    exact List.mem_append_left _ (mem_of_mem_trimBlank hsegment)
  have heq := homeOf_eq hp hsegments hblank
  rw [heq] at hhome htrail
  rw [← htrail] at hfiles
  have hancestors : (ofSplit .root (trimBlank init)).ancestors =
      ofSplit .root (trimBlank init) :: parentsOf .root (trimBlank init) := by
    have hsplit : (ofSplit .root (trimBlank init)).split =
        (.root, (ofSplit .root (trimBlank init)).segments.tail) :=
      if_pos (isAbsolute_ofSplit_root _)
    rw [ancestors, hsplit]
    by_cases hnil : trimBlank init = []
    · rw [hnil]
      exact congrArg _ ((parentsOf_root_nil rfl).trans (parentsOf_root_nil rfl).symm)
    · rw [segments_ofSplit_root hnil hslash]
      rfl
  rw [makeDirectories, heq, hancestors, ← htrail]
  exact makeChain_of_not_file hslash (trimBlank_trimBlank init) hhome hfiles

/-- A file can be written unless a file stands in the way, a directory in its place, or a path is
too long. -/
lemma exists_writeIfChanged (hp : p.isAbsolute = true) (hname : p.EndsInName) (hfits : p.Fits)
    (hwaiting : (waiting stamp p).Fits) (hplace : p.location ∉ p.passage)
    (hfiles : ∀ k ∈ p.passage, ∀ found, d.get? k ≠ some (.file found))
    (hfree : d.get? p.location ≠ some .directory) :
    ∃ fresh d', (writeIfChanged stamp p content).on d = (.ok fresh, d') := by
  obtain ⟨init, last, hsegments, hblank, hup⟩ := id hname
  by_cases hsame : d.entry p = .ok (.file content)
  · exact ⟨false, d, on_writeIfChanged_eq_ok.mpr (.inl ⟨hsame, rfl, rfl⟩)⟩
  have hentry : d.entry p = .error .notFound ∨
      ∃ found, d.entry p = .ok found ∧ found ≠ .file content := by
    cases hfound : d.entry p with
    | ok found => exact .inr ⟨found, rfl, fun heq => hsame (heq ▸ hfound)⟩
    | error e =>
      refine .inl (congrArg _ ?_)
      rw [entry] at hfound
      rcases locate_eq_location_or hfits hsegments hblank hfiles with ⟨hl, -⟩ | hmissing
      · rw [hl] at hfound
        cases hget : d.get? p.location <;> simp [hget, bind, Except.bind] at hfound
        exact hfound.symm
      · rw [hmissing] at hfound
        exact (Except.error.inj hfound).symm
  obtain ⟨d₁, hmake, hdirectories⟩ := makeDirectories_homeOf (d := d) hp hname hfits hfiles
  have hfurnishes := furnishes_homeOf p d
  rw [hmake] at hfurnishes
  have hfree₁ : d₁.get? p.location ≠ some .directory := by
    rcases hfurnishes p.location with heq | ⟨hmem, -⟩
    · rwa [heq]
    · exact absurd hmem hplace
  have hl : d₁.locate p = .ok p.location := by
    refine locate_eq_location hfits hsegments hblank ?_
    rwa [passage, dropLast_way hsegments hblank] at hdirectories
  have hadmits : d₁.Admits p.location (.file content) :=
    admits_of_endsInName hname hdirectories hfree₁
  -- the content waits in the directory of the file
  have hroom : ∃ l, d₁.locate (waiting stamp p) = .ok l := by
    obtain ⟨hslash, hempty, hdot, -⟩ := isStep_waitingName stamp p
    obtain ⟨before, hbefore, hway⟩ := (homeOf p).exists_segments_child hslash
    refine ⟨_, locate_eq_location hwaiting hbefore (by simp [isBlank, hempty, hdot]) ?_⟩
    rw [hway, ← trail, trail_homeOf]
    exact hdirectories
  obtain ⟨hends, hslash⟩ := endsInName_eq_true hname
  exact ⟨true, _, on_writeIfChanged_eq_ok.mpr (.inr ⟨hentry, rfl, on_write_eq_ok.mpr
    ⟨d₁, hmake, hroom, hends, hslash, on_putFile_eq_ok.mpr ⟨_, hl, hadmits, rfl⟩⟩⟩)⟩

end Disk

end AddonBuild
