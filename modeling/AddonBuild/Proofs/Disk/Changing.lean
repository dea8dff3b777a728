import AddonBuild.Proofs.Disk.Place
import AddonBuild.Proofs.Disk.Running

/-!
# What a change leaves behind

Making directories and writing a file only add to a disk: the directories on the way that it
lacked, and the file. Whether they succeed depends on what stands in the way.
-/

namespace AddonBuild

namespace Disk

open WorkM AddonBuild.Path

/-! ### Making directories -/

variable {d d' : Disk} {p : Path}

lemma on_putAt (l : Location) (e : Entry) (d : Disk) :
    (putAt l e).on d =
      if h : d.Admits l e then (.ok (), d.put l e h) else (.error .notFound, d) := by
  rw [putAt, on_bind, on_get]
  dsimp only
  split_ifs <;> rfl

lemma on_makeDirectory (p : Path) (d : Disk) :
    (makeDirectory p).on d =
      match d.locate p with
      | .error e => (.error e, d)
      | .ok l =>
        match d.get? l with
        | some _ => (.error .alreadyExists, d)
        | none => (putAt l .directory).on d := by
  rw [makeDirectory, on_bind, on_consult]
  cases d.locate p with
  | error e => rfl
  | ok l =>
    dsimp only
    rw [on_bind, on_get]
    dsimp only
    cases d.get? l <;> rfl

/-- Report success if there is a directory, whatever kept it from being made. -/
def settle (p : Path) (e : DiskError) (d : Disk) : Except DiskError Unit × Disk :=
  if d.isDirectory p then (.ok (), d) else (.error e, d)

lemma on_makeChain_cons (p : Path) (above : List Path) (d : Disk) :
    (makeChain (p :: above)).on d =
      if p.text.isEmpty then (.ok (), d)
      else
        match (makeDirectory p).on d with
        | (.ok _, d₁) => (.ok (), d₁)
        | (.error .notFound, d₁) =>
          match (makeChain above).on d₁ with
          | (.error e, d₂) => (.error e, d₂)
          | (.ok _, d₂) =>
            match (makeDirectory p).on d₂ with
            | (.ok _, d₃) => (.ok (), d₃)
            | (.error e, d₃) => settle p e d₃
        | (.error e, d₁) => settle p e d₁ := by
  have hsettle : ∀ (e : DiskError) (d : Disk), (do
      unless (← get).isDirectory p do throw e : DiskM DiskError Unit).on d = settle p e d := by
    intro e d
    rw [on_bind, on_get, settle]
    dsimp only
    split_ifs <;> rfl
  rw [makeChain]
  split_ifs with hempty
  · rfl
  · rw [on_bind, on_attempt]
    generalize (makeDirectory p).on d = made
    obtain ⟨result, d₁⟩ := made
    cases result with
    | ok => rfl
    | error e =>
      cases e with
      | notFound =>
        dsimp only
        -- the parents that it lacks are made, and the directory is tried once more
        rw [on_bind]
        generalize (makeChain above).on d₁ = chain
        obtain ⟨result, d₂⟩ := chain
        cases result with
        | error e => rfl
        | ok =>
          dsimp only
          rw [on_bind, on_attempt]
          generalize (makeDirectory p).on d₂ = made
          obtain ⟨result, d₃⟩ := made
          cases result with
          | ok => rfl
          | error e => exact hsettle e d₃
      | _ => exact hsettle _ d₁

/-! ### Directories that were missing -/

/-- Directories have been made at some of the given places, and nothing else has changed. -/
def Furnishes (d d' : Disk) (places : List Location) : Prop :=
  ∀ k, d'.get? k = d.get? k ∨ k ∈ places ∧ d.get? k = none ∧ d'.get? k = some .directory

lemma Furnishes.refl (d : Disk) (places : List Location) : d.Furnishes d places :=
  fun _ => .inl rfl

lemma Furnishes.trans {d₁ d₂ d₃ : Disk} {places : List Location} (h : d₁.Furnishes d₂ places)
    (h' : d₂.Furnishes d₃ places) : d₁.Furnishes d₃ places := by
  intro k
  rcases h k with hk | ⟨hplace, hnone, hk⟩ <;> rcases h' k with hk' | ⟨hplace', hnone', hk'⟩
  · exact .inl (hk'.trans hk)
  · exact .inr ⟨hplace', hk ▸ hnone', hk'⟩
  · exact .inr ⟨hplace, hnone, hk'.trans hk⟩
  · rw [hk] at hnone'
    cases hnone'

lemma Furnishes.mono {places more : List Location} (h : d.Furnishes d' places)
    (hsub : places ⊆ more) : d.Furnishes d' more :=
  fun k => (h k).imp_right fun ⟨hplace, hk⟩ => ⟨hsub hplace, hk⟩

lemma Furnishes.grows {places : List Location} (h : d.Furnishes d' places) : d.Grows d' where
  directory {l} hl := by
    rcases h l with hk | ⟨-, hnone, -⟩
    · rw [hk, hl]
    · rw [hl] at hnone
      cases hnone
  file {l content} hl := by
    rcases h l with hk | ⟨-, hnone, -⟩
    · exact ⟨content, by rw [hk, hl]⟩
    · rw [hl] at hnone
      cases hnone

/-- Nowhere has a file been made. -/
lemma Furnishes.file {places : List Location} (h : d.Furnishes d' places) {k : Location}
    {content : ByteArray} (hk : d'.get? k = some (.file content)) :
    d.get? k = some (.file content) := by
  rcases h k with heq | ⟨-, -, hdirectory⟩
  · rw [← heq, hk]
  · rw [hk] at hdirectory
    cases hdirectory

lemma furnishes_put {l : Location} (hl : d.get? l = none) (h : d.Admits l .directory) :
    d.Furnishes (d.put l .directory h) [l] := by
  intro k
  rw [get?_put]
  split_ifs with hk
  · exact .inr ⟨by simp [hk], hk ▸ hl, rfl⟩
  · exact .inl rfl

/-- The step that makes a directory adds at most that one. -/
lemma furnishes_makeDirectory (p : Path) (d : Disk) :
    d.Furnishes ((makeDirectory p).on d).2 [p.location] := by
  rw [on_makeDirectory]
  cases hl : d.locate p with
  | error e => exact .refl d _
  | ok l =>
    dsimp only
    split
    next hentry => exact .refl d _
    next hentry =>
      rw [on_putAt]
      split_ifs with hadmits
      · rw [← (of_locate_eq_ok hl).2.1]
        exact furnishes_put hentry hadmits
      · exact .refl d _

lemma settle_snd (p : Path) (e : DiskError) (d : Disk) : (settle p e d).2 = d := by
  rw [settle]
  split_ifs <;> rfl

lemma furnishes_makeChain (chain : List Path) (d : Disk) :
    d.Furnishes ((makeChain chain).on d).2 (chain.map Path.location) := by
  induction chain generalizing d with
  | nil => exact .refl d _
  | cons p above ih =>
    have hmake : ∀ d : Disk,
        d.Furnishes ((makeDirectory p).on d).2 ((p :: above).map Path.location) :=
      fun d => (furnishes_makeDirectory p d).mono (List.cons_subset_cons _ (List.nil_subset _))
    rw [on_makeChain_cons]
    split_ifs with hempty
    · exact .refl d _
    have hfirst := hmake d
    generalize (makeDirectory p).on d = made at hfirst
    obtain ⟨result, d₁⟩ := made
    split
    case h_1 heq => cases heq; exact hfirst
    case h_3 heq => cases heq; rw [settle_snd]; exact hfirst
    case h_2 heq =>
      cases heq
      have hchain : d₁.Furnishes ((makeChain above).on d₁).2 ((p :: above).map Path.location) :=
        (ih d₁).mono (by simp)
      generalize (makeChain above).on d₁ = chain at hchain
      obtain ⟨result, d₂⟩ := chain
      split
      case h_1 heq => cases heq; exact hfirst.trans hchain
      case h_2 heq =>
        cases heq
        have hsecond := hmake d₂
        generalize (makeDirectory p).on d₂ = made at hsecond
        obtain ⟨result, d₃⟩ := made
        split
        case h_1 heq => cases heq; exact (hfirst.trans hchain).trans hsecond
        case h_2 heq => cases heq; rw [settle_snd]; exact (hfirst.trans hchain).trans hsecond

/-- Making a directory and its parents adds directories on its way alone. -/
lemma furnishes_makeDirectories (p : Path) (d : Disk) :
    d.Furnishes ((makeDirectories p).on d).2 p.trail := by
  intro k
  refine (furnishes_makeChain p.ancestors d k).imp_right fun ⟨hplace, hnone, hk⟩ => ?_
  refine ⟨?_, hnone, hk⟩
  obtain ⟨q, hq, rfl⟩ := List.mem_map.mp hplace
  obtain ⟨rest, hrest⟩ := way_of_mem_ancestors hq
  -- the top is a directory from the start
  have hne : q.location ≠ [] := d.ne_nil_of_get?_ne (by simp [hnone])
  have hmem := Location.mem_trail_of_prefix hne (List.prefix_refl q.location)
  rw [trail, ← hrest, Location.trail_append]
  exact List.mem_append_left _ hmem

/-! ### Writing a file -/

variable {content : ByteArray}

lemma on_putFile_eq_ok :
    (putFile p content).on d = (.ok (), d') ↔
      ∃ l, d.locate p = .ok l ∧
        ∃ h : d.Admits l (.file content), d' = d.put l (.file content) h := by
  rw [putFile, on_bind, on_consult]
  cases hl : d.locate p with
  | error e => simp
  | ok l =>
    have hadmits (h : d.Admits l (.file content)) : d.get? l ≠ some .directory := by
      intro hdirectory
      cases h.2.2 ((get?_eq_some_iff h.1).mp hdirectory)
    dsimp only
    rw [on_bind, on_get]
    dsimp only
    split_ifs with hdirectory
    · rw [on_bind, on_throw]
      simp only [Except.ok.injEq, exists_eq_left', Prod.mk.injEq, reduceCtorEq, false_and,
        false_iff, not_exists]
      exact fun h => absurd hdirectory (hadmits h)
    · rw [on_putAt]
      split_ifs with h
      · simp [h, eq_comm]
      · simp [h]

lemma on_putFile_eq_error {e : DiskError} (h : (putFile p content).on d = (.error e, d')) :
    d' = d := by
  rw [putFile, on_bind, on_consult] at h
  cases hl : d.locate p with
  | error e' =>
    rw [hl] at h
    exact (Prod.mk.inj h).2.symm
  | ok l =>
    rw [hl] at h
    dsimp only at h
    rw [on_bind, on_get] at h
    dsimp only at h
    split_ifs at h
    · exact (Prod.mk.inj h).2.symm
    · rw [on_putAt] at h
      split_ifs at h
      · cases (Prod.mk.inj h).1
      · exact (Prod.mk.inj h).2.symm

/-! ### Writing a file as a whole -/

variable {stamp : Stamp}

/-- What a write with the given stamp does to the disk. -/
def write (stamp : Stamp) (p : Path) (content : ByteArray) : DiskM DiskError Unit := do
  makeDirectories (homeOf p)
  land stamp p content

/-- What a write with the given stamp does to the disk unless the file has the content. -/
def writeIfChanged (stamp : Stamp) (p : Path) (content : ByteArray) : DiskM DiskError Bool := do
  unlessThere ((← get).entry p) (· = .file content) (write stamp p content)

lemma on_putInPlace_eq_ok :
    (putInPlace p content).on d = (.ok (), d') ↔
      endsInName p = true ∧ endsInSlash p = false ∧ (putFile p content).on d = (.ok (), d') := by
  rw [putInPlace]
  constructor
  · intro h
    split_ifs at h with hname hslash
    · rw [on_bind, on_throw] at h
      cases (Prod.mk.inj h).1
    · exact ⟨hname, by simpa using hslash, h⟩
    · obtain ⟨-, d₁, -, h⟩ := on_bind_eq_ok.mp h
      rw [on_throw] at h
      cases (Prod.mk.inj h).1
  · rintro ⟨hname, hslash, hput⟩
    rw [if_pos hname, if_neg (by simp [hslash])]
    exact hput

lemma on_putInPlace_eq_error {e : DiskError}
    (h : (putInPlace p content).on d = (.error e, d')) : d' = d := by
  rw [putInPlace] at h
  split_ifs at h
  · exact (Prod.mk.inj h).2.symm
  · exact on_putFile_eq_error h
  · rw [on_bind, on_consult] at h
    cases hl : d.locate p with
    | error e' =>
      rw [hl] at h
      exact (Prod.mk.inj h).2.symm
    | ok l =>
      rw [hl] at h
      exact (Prod.mk.inj h).2.symm

lemma on_land (stamp : Stamp) (p : Path) (content : ByteArray) (d : Disk) :
    (land stamp p content).on d =
      match d.locate (waiting stamp p) with
      | .error e => (.error e, d)
      | .ok _ => (putInPlace p content).on d := by
  rw [land, on_bind, on_consult]
  cases d.locate (waiting stamp p) <;> rfl

lemma on_land_eq_error {e : DiskError} (h : (land stamp p content).on d = (.error e, d')) :
    d' = d := by
  rw [on_land] at h
  cases hl : d.locate (waiting stamp p) with
  | error e' =>
    rw [hl] at h
    exact (Prod.mk.inj h).2.symm
  | ok l =>
    rw [hl] at h
    exact on_putInPlace_eq_error h

lemma on_write_eq_ok :
    (write stamp p content).on d = (.ok (), d') ↔
      ∃ d₁, (makeDirectories (homeOf p)).on d = (.ok (), d₁) ∧
        (∃ l, d₁.locate (waiting stamp p) = .ok l) ∧ endsInName p = true ∧
        endsInSlash p = false ∧ (putFile p content).on d₁ = (.ok (), d') := by
  rw [write, on_bind_eq_ok, exists_comm]
  refine exists_congr fun d₁ => ?_
  rw [← on_putInPlace_eq_ok]
  constructor
  · rintro ⟨⟨⟩, hmake, h⟩
    obtain ⟨l, hl, hput⟩ := on_consult_bind_eq_ok.mp h
    exact ⟨hmake, ⟨l, hl⟩, hput⟩
  · rintro ⟨hmake, ⟨l, hl⟩, hput⟩
    exact ⟨(), hmake, on_consult_bind_eq_ok.mpr ⟨l, hl, hput⟩⟩

/-! ### Writing what has changed -/

section

variable {σ : Type} {found : Except DiskError Entry} {isRight : Entry → Bool}
  {work : WorkM σ DiskError Unit} {s s' : σ} {fresh : Bool}

/-- Whether work on a file is called for: nothing is there, or something else. -/
def CallsFor (found : Except DiskError Entry) (isRight : Entry → Bool) : Prop :=
  found = .error .notFound ∨ ∃ e, found = .ok e ∧ isRight e = false

/-- Report a file as written. -/
def asWritten (outcome : Except DiskError Unit × σ) : Except DiskError Bool × σ :=
  (outcome.1.map fun _ => true, outcome.2)

lemma asWritten_eq_ok {outcome : Except DiskError Unit × σ} :
    asWritten outcome = (.ok fresh, s') ↔ fresh = true ∧ outcome = (.ok (), s') := by
  obtain ⟨result, s₁⟩ := outcome
  cases result <;> simp [asWritten, Except.map, eq_comm]

lemma on_bind_return_true (work : WorkM σ DiskError Unit) (s : σ) :
    (do work; return true : WorkM σ DiskError Bool).on s = asWritten (work.on s) := by
  rw [on_bind]
  generalize work.on s = outcome
  obtain ⟨result, s'⟩ := outcome
  cases result <;> rfl

lemma on_unlessThere_of_right {e : Entry} (h : found = .ok e) (he : isRight e = true) :
    (unlessThere found isRight work).on s = (.ok false, s) := by
  rw [h, unlessThere, if_pos he]
  rfl

lemma on_unlessThere_of_callsFor (h : CallsFor found isRight) :
    (unlessThere found isRight work).on s = asWritten (work.on s) := by
  rw [← on_bind_return_true]
  rcases h with rfl | ⟨e, rfl, he⟩
  · rfl
  · rw [unlessThere, if_neg (by simp [he])]

lemma on_unlessThere_of_error {e : DiskError} (h : found = .error e) (he : e ≠ .notFound) :
    (unlessThere found isRight work).on s = (.error e, s) := by
  subst h
  cases e with
  | notFound => exact absurd rfl he
  | _ => rfl

lemma right_or_callsFor_or_error (found : Except DiskError Entry) (isRight : Entry → Bool) :
    (∃ e, found = .ok e ∧ isRight e = true) ∨ CallsFor found isRight ∨
      ∃ e, found = .error e ∧ e ≠ .notFound := by
  cases found with
  | ok e =>
    cases he : isRight e with
    | true => exact .inl ⟨e, rfl, he⟩
    | false => exact .inr (.inl (.inr ⟨e, rfl, he⟩))
  | error e =>
    by_cases he : e = .notFound
    · exact .inr (.inl (.inl (congrArg _ he)))
    · exact .inr (.inr ⟨e, rfl, he⟩)

lemma not_callsFor_of_right {e : Entry} (h : found = .ok e) (he : isRight e = true) :
    ¬ CallsFor found isRight := by
  rintro (hnone | ⟨e', he', hnot⟩)
  · rw [h] at hnone
    cases hnone
  · rw [← Except.ok.inj (h.symm.trans he'), he] at hnot
    cases hnot

/-- Work on a file is done just if it is called for. -/
lemma on_unlessThere_eq_ok :
    (unlessThere found isRight work).on s = (.ok fresh, s') ↔
      ((∃ e, found = .ok e ∧ isRight e = true) ∧ fresh = false ∧ s' = s) ∨
      (CallsFor found isRight ∧ fresh = true ∧ work.on s = (.ok (), s')) := by
  rcases right_or_callsFor_or_error found isRight with ⟨e, h, he⟩ | h | ⟨e, h, he⟩
  · rw [on_unlessThere_of_right h he]
    constructor
    · intro hrun
      obtain ⟨hfresh, hs⟩ := Prod.mk.inj hrun
      exact .inl ⟨⟨e, h, he⟩, (Except.ok.inj hfresh).symm, hs.symm⟩
    · rintro (⟨-, rfl, rfl⟩ | ⟨hcalls, -⟩)
      · rfl
      · exact absurd hcalls (not_callsFor_of_right h he)
  · rw [on_unlessThere_of_callsFor h, asWritten_eq_ok]
    refine ⟨fun hwork => .inr ⟨h, hwork⟩, ?_⟩
    rintro (⟨⟨e, hfound, he⟩, -⟩ | ⟨-, hwork⟩)
    · exact absurd h (not_callsFor_of_right hfound he)
    · exact hwork
  · rw [on_unlessThere_of_error h he]
    constructor
    · intro hrun
      cases (Prod.mk.inj hrun).1
    · rintro (⟨⟨e', hfound, -⟩, -⟩ | ⟨hnone | ⟨e', hfound, -⟩, -⟩)
      · cases h.symm.trans hfound
      · exact absurd (Except.error.inj (h.symm.trans hnone)) he
      · cases h.symm.trans hfound

end

lemma on_writeIfChanged (stamp : Stamp) (p : Path) (content : ByteArray) (d : Disk) :
    (writeIfChanged stamp p content).on d =
      (unlessThere (d.entry p) (· = .file content) (write stamp p content)).on d := by
  rw [writeIfChanged, on_bind, on_get]

/-- A file is left as it is if it has the content already, and else written. -/
lemma on_writeIfChanged_eq_ok {fresh : Bool} :
    (writeIfChanged stamp p content).on d = (.ok fresh, d') ↔
      (d.entry p = .ok (.file content) ∧ fresh = false ∧ d' = d) ∨
      ((d.entry p = .error .notFound ∨ ∃ found, d.entry p = .ok found ∧ found ≠ .file content) ∧
        fresh = true ∧ (write stamp p content).on d = (.ok (), d')) := by
  rw [on_writeIfChanged, on_unlessThere_eq_ok]
  simp [CallsFor]

end Disk

end AddonBuild
