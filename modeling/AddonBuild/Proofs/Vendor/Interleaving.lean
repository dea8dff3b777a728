import AddonBuild.Proofs.Disk.Replacing
import AddonBuild.Proofs.Import.Asking
import AddonBuild.Proofs.Vendor.Schedules

/-!
# What every schedule preserves

While modules are staged, a disk gains directories on the way to outputs and files at outputs, and
loses at most files that an earlier staging left under names that new content gets. If nothing that
is asked for can come into being or go that way, every module is relocated alike at every moment, so
that all schedules write the same texts, and none of them fails unless all do. Which number a write
gets depends on the schedule, so this holds of files that have room beside them for each of the
names under which new content may wait.
-/

namespace AddonBuild

open AddonBuild.Path Relation

/-! ### Modules that are relocated alike at every moment -/

/-- Two disks agree about the modules to be staged, and staging does not change the answers: both
hold the same sources, what is asked for is present on both or on neither and comes into being
nowhere, and no output takes the place of a source. -/
structure Undisturbed (r : Relocator) (jobs : List StagingJob) (base d : Disk) : Prop where
  absolute : ∀ j ∈ jobs, j.output.isAbsolute = true
  source : ∀ j ∈ jobs, j.source.EndsInName ∧
    (∀ k ∈ j.source.passage, base.get? k = some .directory ∧ d.get? k = some .directory) ∧
    ∃ content, base.get? j.source.location = some (.file content) ∧
      d.get? j.source.location = some (.file content)
  asked : ∀ j ∈ jobs, ∀ text, base.readText j.source = .ok text →
    ∀ p ∈ r.askedForScript (r.presence base) j.source text,
      r.presence d p = r.presence base p ∧
        (r.presence base p = true ∨ ∀ i ∈ jobs, p.location ∉ i.output.trail)
  apart : ∀ i ∈ jobs, ∀ j ∈ jobs, i.output.location ≠ j.source.location
  once : ∀ i ∈ jobs, ∀ j ∈ jobs, i.output.location = j.output.location → ∀ s t,
    i.script r base = .ok s → j.script r base = .ok t → s.contents = t.contents

/-- The stamp that is taken after some more writes. -/
def Stamp.later (stamp : Stamp) (n : Nat) : Stamp :=
  Stamp.next^[n] stamp

/-- A place at which new content may wait while modules are staged in a session. -/
def MayWaitAt (jobs : List StagingJob) (s : Session) (k : Location) : Prop :=
  ∃ j ∈ jobs, ∃ n < jobs.length, k = (Disk.waiting (s.stamp.later n) j.output).location

/-- Nothing was left where new content may wait. -/
def Unused (jobs : List StagingJob) (s : Session) : Prop :=
  ∀ k, MayWaitAt jobs s k → s.disk.get? k = none

/-- What a staging puts out is taken for nothing else. New content waits on the way to no output,
and a file that was left where it may wait is no source and is not asked for. BLAKE3 tells every
script from what stands in its place. -/
structure Unmistaken (r : Relocator) (jobs : List StagingJob) (base : Disk) (s : Session) :
    Prop where
  off : ∀ j ∈ jobs, ∀ k ∈ j.output.trail, ¬ MayWaitAt jobs s k
  spared : ∀ k, MayWaitAt jobs s k → (∃ content, s.disk.get? k = some (.file content)) →
    ∀ j ∈ jobs, j.source.location ≠ k ∧ ∀ text, base.readText j.source = .ok text →
      ∀ p ∈ r.askedForScript (r.presence base) j.source text, p.location ≠ k
  told : ∀ j ∈ jobs, ∀ t, j.script r base = .ok t →
    ∀ old, s.disk.get? j.output.location = some (.file old) →
      Blake3.hash old.data.toList = Blake3.hash t.contents.toUTF8.data.toList →
        old = t.contents.toUTF8

/-- A temporary file can be made for a module after some more writes: its path is not too long, and
no directory has it. -/
def HasRoom (s : Session) (j : StagingJob) (n : Nat) : Prop :=
  (Disk.waiting (s.stamp.later n) j.output).Fits ∧
    s.disk.get? (Disk.waiting (s.stamp.later n) j.output).location ≠ some .directory

section

variable {r : Relocator} {jobs : List StagingJob} {base rest : Disk} {s : Session}
  {j : StagingJob} {content : ByteArray}

lemma Unmistaken.off_output (hs : Unmistaken r jobs base s) (hj : j ∈ jobs)
    (hne : j.output.location ≠ []) : ¬ MayWaitAt jobs s j.output.location :=
  hs.off j hj _ (Location.mem_trail_of_prefix hne (List.prefix_refl _))

lemma Unmistaken.off_passage (hs : Unmistaken r jobs base s) (hj : j ∈ jobs) {n : Nat}
    (hn : n < jobs.length) : (Disk.waiting (s.stamp.later n) j.output).location ∉
      j.output.passage :=
  fun hmem => hs.off j hj _ (passage_subset_trail _ hmem) ⟨j, hj, n, hn, rfl⟩

/-! ### What was left by an earlier staging -/

/-- The disk of a session without the files that were left where new content may wait. A staging
takes them away one by one, so that this is what it can count on. -/
structure Rest (jobs : List StagingJob) (s : Session) (rest : Disk) : Prop where
  get? : ∀ k, rest.get? k = s.disk.get? k ∨
    MayWaitAt jobs s k ∧ rest.get? k = none ∧ ∃ content, s.disk.get? k = some (.file content)
  unused : ∀ k, MayWaitAt jobs s k → ∀ content, rest.get? k ≠ some (.file content)

lemma exists_rest (jobs : List StagingJob) (s : Session) : ∃ rest, Rest jobs s rest := by
  obtain ⟨rest, hget, hunused⟩ := s.disk.exists_leftOut (jobs.flatMap fun j =>
    (List.range jobs.length).map fun n => (Disk.waiting (s.stamp.later n) j.output).location)
  have hplaces (k : Location) : (k ∈ jobs.flatMap fun j => (List.range jobs.length).map fun n =>
      (Disk.waiting (s.stamp.later n) j.output).location) ↔ MayWaitAt jobs s k := by
    simp [MayWaitAt, eq_comm]
  simp only [hplaces] at hget hunused
  exact ⟨rest, hget, hunused⟩

lemma Rest.of_file (h : Rest jobs s rest) {k : Location} (hk : rest.get? k = some (.file content)) :
    s.disk.get? k = some (.file content) := by
  rcases h.get? k with heq | ⟨-, hnone, -⟩
  · rw [← heq, hk]
  · rw [hk] at hnone
    cases hnone

lemma Rest.directory_iff (h : Rest jobs s rest) {k : Location} :
    rest.get? k = some .directory ↔ s.disk.get? k = some .directory := by
  rcases h.get? k with heq | ⟨-, hnone, found, hfile⟩
  · rw [heq]
  · rw [hnone, hfile]
    simp

lemma Rest.eq_of_not (h : Rest jobs s rest) {k : Location} (hk : ¬ MayWaitAt jobs s k) :
    rest.get? k = s.disk.get? k :=
  (h.get? k).resolve_right fun hleft => hk hleft.1

lemma Rest.grows (h : Rest jobs s rest) : rest.Grows s.disk where
  directory hk := h.directory_iff.mp hk
  file hk := ⟨_, h.of_file hk⟩

/-- A module that stands in its place was not left there to wait. -/
lemma Rest.entry_output (h : Rest jobs s rest) (hs : Unmistaken r jobs base s) (hj : j ∈ jobs)
    (hentry : s.disk.entry j.output = .ok (.file content)) :
    rest.entry j.output = .ok (.file content) := by
  obtain ⟨hfits, hname, hpassage, hfile⟩ := Disk.entry_eq_file_iff.mp hentry
  have hplace := h.eq_of_not (hs.off_output hj (s.disk.ne_nil_of_get?_ne (by simp [hfile])))
  exact Disk.entry_eq_file_iff.mpr ⟨hfits, hname,
    fun k hk => h.directory_iff.mpr (hpassage k hk), hplace ▸ hfile⟩

/-- What is found on a disk that has grown was found before, unless its place was free. -/
lemma presence_of_grows {d d' : Disk} (h : d.Grows d') {p : Path} (hp : p.Straight)
    (hplace : r.presence d p = false → d.get? p.location = none → d'.get? p.location = none) :
    r.presence d' p = r.presence d p := by
  cases hpresent : r.presence d p with
  | true =>
    rw [Relocator.presence, Bool.or_eq_true] at hpresent ⊢
    exact hpresent.imp_right h.exists
  | false =>
    have hfree := hplace hpresent
    rw [Relocator.presence, Bool.or_eq_false_iff] at hpresent ⊢
    refine ⟨hpresent.1, ?_⟩
    by_contra hfound
    rw [Bool.not_eq_false] at hfound
    have hnone : d.get? p.location = none := by
      by_contra hentry
      rw [h.exists_of_straight hp hfound hentry] at hpresent
      cases hpresent.2
    exact Disk.get?_location_of_exists hfound (hfree hnone)

lemma straight_of_mem_askedForScript {present : Path → Bool} {source p : Path} {text : String}
    (hp : p ∈ r.askedForScript present source text) : p.Straight := by
  obtain ⟨span, -, hspan⟩ := List.mem_flatMap.mp hp
  exact Relocator.straight_of_mem_asked hspan

/-- What was left to wait has no say in how modules are relocated. -/
lemma Undisturbed.of_rest (h : Undisturbed r jobs base s.disk) (hs : Unmistaken r jobs base s)
    (hrest : Rest jobs s rest) : Undisturbed r jobs base rest where
  absolute := h.absolute
  source j hj := by
    obtain ⟨hname, hpassage, content, hbase, hcontent⟩ := h.source j hj
    refine ⟨hname, fun k hk => ?_, content, hbase, ?_⟩
    · exact (hpassage k hk).imp_right hrest.directory_iff.mpr
    · rcases hrest.get? j.source.location with heq | ⟨hwaits, -, hfile⟩
      · rw [heq, hcontent]
      · exact absurd rfl (hs.spared _ hwaits hfile j hj).1
  asked j hj text htext p hp := by
    obtain ⟨hpresence, hfixed⟩ := h.asked j hj text htext p hp
    refine ⟨Eq.trans ?_ hpresence, hfixed⟩
    refine (presence_of_grows hrest.grows (straight_of_mem_askedForScript hp)
      fun _ hnone => ?_).symm
    rcases hrest.get? p.location with heq | ⟨hwaits, -, hfile⟩
    · rw [← heq, hnone]
    · exact absurd rfl ((hs.spared _ hwaits hfile j hj).2 text htext p hp)
  apart := h.apart
  once := h.once

end

namespace Staging

variable {r : Relocator} {jobs : List StagingJob} {base rest : Disk} {s : Session}
  {st st' : Staging}

/-- What holds at every moment of a staging that started in a session, told by the rest of its disk.
A stamp has been taken for no more than each of the modules that are written. -/
structure Inv (r : Relocator) (jobs : List StagingJob) (base : Disk) (s : Session) (rest : Disk)
    (st : Staging) : Prop where
  grows : rest.Grows st.session.disk
  new : ∀ k, st.session.disk.get? k = rest.get? k ∨
    (MayWaitAt jobs s k ∧ rest.get? k = none ∧ st.session.disk.get? k = s.disk.get? k) ∨
    (∃ j ∈ jobs, k ∈ j.output.passage ∧ rest.get? k = none ∧
      st.session.disk.get? k = some .directory) ∨
    ∃ j ∈ jobs, k = j.output.location ∧ ∃ t, j.script r base = .ok t ∧
      st.session.disk.get? k = some (.file t.contents.toUTF8)
  waiting : ∀ j ∈ st.waiting, j ∈ jobs
  ready : ∀ t ∈ st.ready, ∃ j ∈ jobs, j.script r base = .ok t
  progress : ∀ j ∈ jobs, j ∈ st.waiting ∨ ∃ t, j.script r base = .ok t ∧
    (t ∈ st.ready ∨ st.session.disk.entry j.output = .ok (.file t.contents.toUTF8))
  stamps : ∃ n, n + st.waiting.length + st.ready.length ≤ jobs.length ∧
    st.session.stamp = s.stamp.later n
  room : ∀ j ∈ jobs, ∀ content, st.session.disk.get? j.output.location = some (.file content) →
    rest.get? j.output.location = some (.file content) ∨
      ∃ i ∈ jobs, i.output.location = j.output.location ∧ ∃ n < jobs.length, HasRoom s i n

lemma Inv.start (r : Relocator) (base : Disk) (hrest : Rest jobs s rest)
    (hs : Unmistaken r jobs base s) : Inv r jobs base s rest ⟨s, jobs, []⟩ where
  grows := hrest.grows
  new k := (hrest.get? k).imp Eq.symm fun ⟨hwaits, hnone, _⟩ => .inl ⟨hwaits, hnone, rfl⟩
  waiting _ hj := hj
  ready _ ht := by cases ht
  progress _ hj := .inl hj
  stamps := ⟨0, by simp, rfl⟩
  room j hj content hcontent := by
    have hoff := hs.off_output hj (s.disk.ne_nil_of_get?_ne (by simp [hcontent]))
    exact .inl ((hrest.eq_of_not hoff).trans hcontent)

/-- Nothing asked for comes into being, and nothing asked for goes. -/
lemma Inv.presence_eq (h : Inv r jobs base s rest st) (hrest : Rest jobs s rest) {p : Path}
    (hp : p.Straight)
    (hspared : MayWaitAt jobs s p.location →
      ¬ ∃ content, s.disk.get? p.location = some (.file content))
    (hasked : r.presence rest p = true ∨ ∀ i ∈ jobs, p.location ∉ i.output.trail) :
    r.presence st.session.disk p = r.presence rest p := by
  refine presence_of_grows h.grows hp fun hpresent hnone => ?_
  have hway := hasked.resolve_left (by simp [hpresent])
  rcases h.new p.location with heq | ⟨hwaits, -, heq⟩ | ⟨j, hj, hmem, -⟩ | ⟨j, hj, heq, -⟩
  · rw [heq, hnone]
  · rcases hrest.get? p.location with hsame | ⟨-, -, hfile⟩
    · rw [heq, ← hsame, hnone]
    · exact absurd hfile (hspared hwaits)
  · exact absurd (passage_subset_trail _ hmem) (hway j hj)
  · have hne : j.output.location ≠ [] := rest.ne_nil_of_get?_ne (by simp [← heq, hnone])
    exact absurd (heq ▸ Location.mem_trail_of_prefix hne (List.prefix_refl _)) (hway j hj)

/-- The source of a module is read as it was from the start. -/
lemma Inv.readText_iff (h : Inv r jobs base s rest st) (hd : Undisturbed r jobs base rest)
    {j : StagingJob} (hj : j ∈ jobs) {text : String} :
    st.session.disk.readText j.source = .ok text ↔ base.readText j.source = .ok text := by
  obtain ⟨-, hpassage, content, hbase, hcontent⟩ := hd.source j hj
  have hkept : st.session.disk.get? j.source.location = some (.file content) := by
    rcases h.new j.source.location with heq | ⟨-, hnone, -⟩ | ⟨i, -, -, hnone, -⟩ | ⟨i, hi, heq, -⟩
    · rw [heq, hcontent]
    · rw [hcontent] at hnone
      cases hnone
    · rw [hcontent] at hnone
      cases hnone
    · exact absurd heq.symm (hd.apart i hi j hj)
  rw [Disk.readText_eq_ok, Disk.readText_eq_ok]
  refine exists_congr fun found => and_congr_left fun _ => ?_
  rw [Disk.entry_eq_file_iff, Disk.entry_eq_file_iff, hkept, hbase]
  refine and_congr_right fun _ => and_congr_right fun _ => and_congr_left fun _ => ?_
  exact ⟨fun _ k hk => (hpassage k hk).1, fun _ k hk => h.grows.directory (hpassage k hk).2⟩

/-- A module is relocated as it was from the start, or not at all. -/
lemma Inv.script_iff (h : Inv r jobs base s rest st) (hd : Undisturbed r jobs base rest)
    (hs : Unmistaken r jobs base s) (hrest : Rest jobs s rest) {j : StagingJob} (hj : j ∈ jobs)
    {t : ScriptText} : j.script r st.session.disk = .ok t ↔ j.script r base = .ok t := by
  rw [StagingJob.script_eq_ok, StagingJob.script_eq_ok]
  refine exists_congr fun text => exists_congr fun contents => ?_
  rw [h.readText_iff hd hj]
  refine and_congr_right fun htext => and_congr_left fun _ => ?_
  -- relocating depends on the presence of what is asked for alone, and that stays as it is
  have hsame : ∀ p ∈ r.askedForScript (r.presence base) j.source text,
      r.presence st.session.disk p = r.presence base p := by
    intro p hp
    obtain ⟨hpresence, hfixed⟩ := hd.asked j hj text htext p hp
    rw [h.presence_eq hrest (straight_of_mem_askedForScript hp) (fun hwaits hfile =>
      (hs.spared _ hwaits hfile j hj).2 text htext p hp rfl) (hpresence ▸ hfixed), hpresence]
  rw [Relocator.relocateContents_congr hsame]

lemma script_destination {d : Disk} {j : StagingJob} {t : ScriptText}
    (h : j.script r d = .ok t) : t.destination = j.output := by
  obtain ⟨text, contents, -, -, rfl⟩ := StagingJob.script_eq_ok.mp h
  rfl

/-! ### What is put out -/

/-- Only the script of a module comes to stand in its place. -/
lemma Inv.file_at_output (h : Inv r jobs base s rest st) (hd : Undisturbed r jobs base rest)
    (hs : Unmistaken r jobs base s) {j : StagingJob} (hj : j ∈ jobs) {t : ScriptText}
    (ht : j.script r base = .ok t) {content : ByteArray}
    (hcontent : st.session.disk.get? j.output.location = some (.file content)) :
    rest.get? j.output.location = some (.file content) ∨ content = t.contents.toUTF8 := by
  rcases h.new j.output.location with
    heq | ⟨hwaits, -⟩ | ⟨i, -, -, -, hdirectory⟩ | ⟨i, hi, hplace, u, hu, hfile⟩
  · exact .inl (heq ▸ hcontent)
  · exact absurd hwaits (hs.off_output hj (st.session.disk.ne_nil_of_get?_ne (by simp [hcontent])))
  · rw [hcontent] at hdirectory
    cases hdirectory
  · rw [hcontent, hd.once i hi j hj hplace.symm u t hu ht] at hfile
    exact .inr (Entry.file.inj (Option.some.inj hfile))

/-- What stood in the place of a module with the content of its script stays there. -/
lemma Inv.entry_kept (h : Inv r jobs base s rest st) (hd : Undisturbed r jobs base rest)
    (hs : Unmistaken r jobs base s) {j : StagingJob} (hj : j ∈ jobs) {t : ScriptText}
    (ht : j.script r base = .ok t)
    (hentry : rest.entry j.output = .ok (.file t.contents.toUTF8)) :
    st.session.disk.entry j.output = .ok (.file t.contents.toUTF8) := by
  obtain ⟨hfits, hname, hpassage, hfile⟩ := Disk.entry_eq_file_iff.mp hentry
  refine Disk.entry_eq_file_iff.mpr
    ⟨hfits, hname, fun k hk => h.grows.directory (hpassage k hk), ?_⟩
  obtain ⟨content, hcontent⟩ := h.grows.file hfile
  rcases h.file_at_output hd hs hj ht hcontent with hbefore | rfl
  · rw [hcontent, ← hbefore, hfile]
  · exact hcontent

/-- A file in the place of a module is told from its script. -/
lemma Inv.told (h : Inv r jobs base s rest st) (hd : Undisturbed r jobs base rest)
    (hs : Unmistaken r jobs base s) (hrest : Rest jobs s rest) {j : StagingJob} (hj : j ∈ jobs)
    {t : ScriptText} (ht : j.script r base = .ok t) :
    st.session.disk.HashTells j.output t.contents.toUTF8 := by
  intro old hold hsame
  rcases h.file_at_output hd hs hj ht (Disk.entry_eq_file_iff.mp hold).2.2.2 with hbefore | rfl
  · exact hs.told j hj t ht old (hrest.of_file hbefore) hsame
  · rfl

/-- What is found where new content may wait was there from the start. -/
lemma Inv.get?_of_mayWaitAt (h : Inv r jobs base s rest st) (hs : Unmistaken r jobs base s)
    {k : Location} (hk : MayWaitAt jobs s k) :
    st.session.disk.get? k = rest.get? k ∨ st.session.disk.get? k = s.disk.get? k := by
  rcases h.new k with heq | ⟨-, -, heq⟩ | ⟨j, hj, hmem, -⟩ | ⟨j, hj, hplace, t, -, hfile⟩
  · exact .inl heq
  · exact .inr heq
  · exact absurd hk (hs.off j hj k (passage_subset_trail _ hmem))
  · rw [hplace] at hk hfile
    exact absurd hk (hs.off_output hj (st.session.disk.ne_nil_of_get?_ne (by simp [hfile])))

/-- No directory comes to stand where new content may wait. -/
lemma Inv.directory_iff (h : Inv r jobs base s rest st) (hs : Unmistaken r jobs base s)
    (hrest : Rest jobs s rest) {k : Location} (hk : MayWaitAt jobs s k) :
    st.session.disk.get? k = some .directory ↔ s.disk.get? k = some .directory := by
  rcases h.get?_of_mayWaitAt hs hk with heq | heq
  · rw [heq, hrest.directory_iff]
  · rw [heq]

/-- Where new content may wait, nothing but a directory is counted on. -/
lemma Inv.rest_eq_none (h : Inv r jobs base s rest st) (hrest : Rest jobs s rest) {k : Location}
    (hk : MayWaitAt jobs s k) (hfree : st.session.disk.get? k ≠ some .directory) :
    rest.get? k = none := by
  cases hfound : rest.get? k with
  | none => rfl
  | some e =>
    cases e with
    | file content => exact absurd hfound (hrest.unused k hk content)
    | directory => exact absurd (h.grows.directory hfound) hfree

/-- There is a stamp left for every script that is ready. -/
lemma Inv.exists_stamp (h : Inv r jobs base s rest st) {t : ScriptText} (ht : t ∈ st.ready) :
    ∃ n < jobs.length, st.session.stamp = s.stamp.later n := by
  obtain ⟨n, hn, hstamp⟩ := h.stamps
  have := List.length_pos_of_mem ht
  exact ⟨n, by omega, hstamp⟩

/-- Replacing a script that is ready leaves the disk as writing it, if nothing was left to wait. -/
lemma Inv.replace_eq (h : Inv r jobs base s rest st) (hd : Undisturbed r jobs base rest)
    (hs : Unmistaken r jobs base s) (hrest : Rest jobs s rest) (hunused : Unused jobs s)
    {t : ScriptText} (ht : t ∈ st.ready) :
    (Disk.replaceIfChanged st.session.stamp t.destination t.contents.toUTF8).on st.session.disk =
      (Disk.writeIfChanged st.session.stamp t.destination t.contents.toUTF8).on
        st.session.disk := by
  obtain ⟨j, hj, hscript⟩ := h.ready t ht
  obtain ⟨n, hn, hstamp⟩ := h.exists_stamp ht
  rw [script_destination hscript, hstamp]
  refine Disk.replaceIfChanged_eq_writeIfChanged (h.told hd hs hrest hj hscript) ?_
    (hs.off_passage hj hn)
  have hwaits : MayWaitAt jobs s (Disk.waiting (s.stamp.later n) j.output).location :=
    ⟨j, hj, n, hn, rfl⟩
  rcases h.get?_of_mayWaitAt hs hwaits with heq | heq
  · rcases hrest.get? (Disk.waiting (s.stamp.later n) j.output).location with hsame | ⟨-, hnone, -⟩
    · rw [heq, hsame, hunused _ hwaits]
    · rw [heq, hnone]
  · rw [heq, hunused _ hwaits]

/-! ### Every step -/

lemma Inv.relocate {s' : Session} {before after : List StagingJob} {j : StagingJob}
    {ready : List ScriptText} {t : ScriptText} (hd : Undisturbed r jobs base rest)
    (hs : Unmistaken r jobs base s) (hrest : Rest jobs s rest)
    (h : Inv r jobs base s rest ⟨s', before ++ j :: after, ready⟩)
    (ht : j.script r s'.disk = .ok t) :
    Inv r jobs base s rest ⟨s', before ++ after, t :: ready⟩ := by
  have hj : j ∈ jobs := h.waiting j (by simp)
  have ht := (h.script_iff hd hs hrest hj).mp ht
  exact {
    grows := h.grows
    new := h.new
    room := h.room
    stamps := by
      obtain ⟨n, hn, hstamp⟩ := h.stamps
      simp only [List.length_append, List.length_cons] at hn ⊢
      exact ⟨n, by omega, hstamp⟩
    waiting i hi := h.waiting i (by
      rcases List.mem_append.mp hi with hi | hi <;> simp [hi])
    ready := List.forall_mem_cons.mpr ⟨⟨j, hj, ht⟩, h.ready⟩
    progress i hi := by
      rcases h.progress i hi with hwaiting | ⟨u, hu, hready | hentry⟩
      · rcases List.mem_append.mp hwaiting with hi | hi
        · exact .inl (List.mem_append_left _ hi)
        · rcases List.mem_cons.mp hi with rfl | hi
          · exact .inr ⟨t, ht, .inl List.mem_cons_self⟩
          · exact .inl (List.mem_append_right _ hi)
      · exact .inr ⟨u, hu, .inl (List.mem_cons_of_mem _ hready)⟩
      · exact .inr ⟨u, hu, .inr hentry⟩ }

lemma Inv.emit {s' : Session} {d : Disk} {waiting : List StagingJob}
    {before after : List ScriptText} {t : ScriptText} {fresh : Bool}
    (hd : Undisturbed r jobs base rest) (hs : Unmistaken r jobs base s)
    (hrest : Rest jobs s rest) (h : Inv r jobs base s rest ⟨s', waiting, before ++ t :: after⟩)
    (hemit : (Disk.replaceIfChanged s'.stamp t.destination t.contents.toUTF8).on s'.disk =
      (.ok fresh, d)) :
    Inv r jobs base s rest ⟨⟨d, if fresh then s'.stamp.next else s'.stamp⟩, waiting,
      before ++ after⟩ := by
  have hmem : t ∈ before ++ t :: after := by simp
  obtain ⟨j, hj, ht⟩ := h.ready t hmem
  obtain ⟨n, hn, hstamp⟩ := h.exists_stamp hmem
  dsimp only at hstamp
  rw [script_destination ht, hstamp] at hemit
  -- only the place of the output and directories on the way to it have changed, and a file that was
  -- left where the content has waited is gone
  obtain ⟨d₁, hwrote, hbut, hroom⟩ :=
    Disk.wrote_of_replaceIfChanged (h.told hd hs hrest hj ht) (hs.off_passage hj hn) hemit
  have hwaits : MayWaitAt jobs s (Disk.waiting (s.stamp.later n) j.output).location :=
    ⟨j, hj, n, hn, rfl⟩
  have hoff : ∀ i ∈ jobs, (Disk.waiting (s.stamp.later n) j.output).location ∉ i.output.trail :=
    fun i hi hmem => hs.off i hi _ hmem hwaits
  have hgone (hnone : d.get? (Disk.waiting (s.stamp.later n) j.output).location = none) :
      rest.get? (Disk.waiting (s.stamp.later n) j.output).location = none := by
    refine h.rest_eq_none hrest hwaits ?_
    rcases hroom with rfl | ⟨-, hfree⟩
    · simp [hnone]
    · exact hfree
  exact {
    grows := (h.grows.trans hwrote.grows).of_but hbut hgone
    waiting := h.waiting
    ready u hu := h.ready u (by
      rcases List.mem_append.mp hu with hu | hu <;> simp [hu])
    stamps := by
      obtain ⟨m, hm, hstamp⟩ := h.stamps
      simp only [List.length_append, List.length_cons] at hm ⊢
      cases fresh with
      | false => exact ⟨m, by omega, hstamp⟩
      | true =>
        refine ⟨m + 1, by omega, ?_⟩
        rw [Stamp.later, Function.iterate_succ_apply', ← Stamp.later, ← hstamp]
        rfl
    new k := by
      rcases hbut k with hsame | ⟨hk, hnone⟩
      · dsimp only
        rw [hsame]
        by_cases hk : k = j.output.location
        · exact .inr (.inr (.inr ⟨j, hj, hk, t, ht, hk ▸ hwrote.get?⟩))
        · rcases hwrote.elsewhere k hk with heq | ⟨hpassage, hnone, hdirectory⟩
          · rw [heq]
            exact h.new k
          · refine .inr (.inr (.inl ⟨j, hj, hpassage, ?_, hdirectory⟩))
            rcases h.new k with heq | ⟨-, hrest, -⟩ | ⟨i, -, -, -, hsome⟩ | ⟨i, -, -, u, -, hsome⟩
            · rw [← heq, hnone]
            · exact hrest
            · rw [hnone] at hsome
              cases hsome
            · rw [hnone] at hsome
              cases hsome
      · exact .inl (hnone.trans (hk ▸ hgone (hk ▸ hnone)).symm)
    progress i hi := by
      rcases h.progress i hi with hwaiting | ⟨u, hu, hready | hentry⟩
      · exact .inl hwaiting
      · refine .inr ⟨u, hu, ?_⟩
        rcases List.mem_append.mp hready with hmem | hmem
        · exact .inl (List.mem_append_left _ hmem)
        · rcases List.mem_cons.mp hmem with rfl | hmem
          · right
            rw [← script_destination hu, script_destination ht]
            exact Disk.entry_of_but hbut (hoff j hj) hwrote.entry
          · exact .inl (List.mem_append_right _ hmem)
      · refine .inr ⟨u, hu, .inr (Disk.entry_of_but hbut (hoff i hi)
          (hwrote.entry_of hentry fun hplace => ?_))⟩
        rw [hd.once i hi j hj hplace u t hu ht]
    room i hi content hcontent := by
      rcases hroom with rfl | ⟨hfits, hfree⟩
      · exact h.room i hi content hcontent
      · by_cases hplace : i.output.location = j.output.location
        · exact .inr ⟨j, hj, hplace.symm, n, hn, hfits,
            mt (h.directory_iff hs hrest hwaits).mpr hfree⟩
        · rcases hbut i.output.location with hsame | ⟨-, hnone⟩
          · rcases hwrote.elsewhere _ hplace with heq | ⟨-, -, hdirectory⟩
            · exact h.room i hi content (heq ▸ hsame ▸ hcontent)
            · rw [← hsame, hcontent] at hdirectory
              cases hdirectory
          · rw [hcontent] at hnone
            cases hnone }

lemma Inv.step (hd : Undisturbed r jobs base rest) (hs : Unmistaken r jobs base s)
    (hrest : Rest jobs s rest) (h : Inv r jobs base s rest st) (hstep : Step r st st') :
    Inv r jobs base s rest st' := by
  cases hstep with
  | relocate _ hscript => exact h.relocate hd hs hrest hscript
  | emit _ hemit => exact h.emit hd hs hrest hemit

/-- What holds at every moment of a run. -/
lemma Inv.run (hd : Undisturbed r jobs base rest) (hs : Unmistaken r jobs base s)
    (hrest : Rest jobs s rest) (hrun : ReflTransGen (Step r) ⟨s, jobs, []⟩ st) :
    Inv r jobs base s rest st := by
  induction hrun with
  | refl => exact .start r base hrest hs
  | tail _ hstep ih => exact ih.step hd hs hrest hstep

end Staging

/-! ### When all schedules succeed -/

/-- Every module can be relocated and has a place of its own kind: its path is that of a file and is
not too long, and no other module needs a directory there. -/
structure Placeable (r : Relocator) (jobs : List StagingJob) (base : Disk) : Prop where
  relocates : ∀ j ∈ jobs, ∃ t, j.script r base = .ok t
  named : ∀ j ∈ jobs, j.output.EndsInName
  fits : ∀ j ∈ jobs, j.output.Fits
  apart : ∀ i ∈ jobs, ∀ j ∈ jobs, i.output.location ∉ j.output.passage

/-- No file stands on the way to an output, and no directory in the place of one. -/
structure Clear (jobs : List StagingJob) (d : Disk) : Prop where
  passage : ∀ j ∈ jobs, ∀ k ∈ j.output.passage, ∀ content, d.get? k ≠ some (.file content)
  place : ∀ j ∈ jobs, d.get? j.output.location ≠ some .directory

/-- There is room beside a module for its new content, whatever stamp it gets, or the module is
there with its content already. -/
def Roomy (r : Relocator) (jobs : List StagingJob) (base : Disk) (s : Session) (j : StagingJob) :
    Prop :=
  (∀ n < jobs.length, HasRoom s j n) ∨
    ∃ t, j.script r base = .ok t ∧ s.disk.entry j.output = .ok (.file t.contents.toUTF8)

/-- A module has to be written, by one path, and whatever stamp it gets there is no room beside it
for its new content. -/
structure Cramped (r : Relocator) (jobs : List StagingJob) (base : Disk) (s : Session)
    (j : StagingJob) : Prop where
  full : ∀ n < jobs.length, ¬ HasRoom s j n
  lacking : ∀ t, j.script r base = .ok t →
    s.disk.get? j.output.location ≠ some (.file t.contents.toUTF8)
  alone : ∀ i ∈ jobs, i.output.location = j.output.location → i.output = j.output

namespace Staging

variable {r : Relocator} {jobs : List StagingJob} {base rest : Disk} {s s' : Session}
  {st : Staging}

/-- No file comes to stand on the way to a module. -/
lemma Inv.passage_clear (h : Inv r jobs base s rest st) (hrest : Rest jobs s rest)
    (hplaceable : Placeable r jobs base) (hclear : Clear jobs s.disk) {j : StagingJob}
    (hj : j ∈ jobs) {k : Location} (hk : k ∈ j.output.passage) (content : ByteArray) :
    st.session.disk.get? k ≠ some (.file content) := by
  intro hfile
  rcases h.new k with heq | ⟨-, -, heq⟩ | ⟨i, -, -, -, hdirectory⟩ | ⟨i, hi, hplace, -⟩
  · exact hclear.passage j hj k hk content (hrest.of_file (heq ▸ hfile))
  · exact hclear.passage j hj k hk content (heq ▸ hfile)
  · rw [hfile] at hdirectory
    cases hdirectory
  · exact hplaceable.apart i hi j hj (hplace ▸ hk)

/-- No directory comes to stand in the place of a module. -/
lemma Inv.place_clear (h : Inv r jobs base s rest st) (hrest : Rest jobs s rest)
    (hplaceable : Placeable r jobs base) (hclear : Clear jobs s.disk) {j : StagingJob}
    (hj : j ∈ jobs) : st.session.disk.get? j.output.location ≠ some .directory := by
  intro hdirectory
  rcases h.new j.output.location with
    heq | ⟨-, -, heq⟩ | ⟨i, hi, hmem, -⟩ | ⟨i, -, -, u, -, hfile⟩
  · exact hclear.place j hj (hrest.directory_iff.mp (heq ▸ hdirectory))
  · exact hclear.place j hj (heq ▸ hdirectory)
  · exact hplaceable.apart j hj i hi hmem
  · rw [hdirectory] at hfile
    cases hfile

/-- Nothing goes wrong while modules are staged that can be. -/
lemma Inv.not_fails (h : Inv r jobs base s rest st) (hd : Undisturbed r jobs base rest)
    (hs : Unmistaken r jobs base s) (hrest : Rest jobs s rest)
    (hplaceable : Placeable r jobs base) (hroomy : ∀ j ∈ jobs, Roomy r jobs base s j)
    (hclear : Clear jobs s.disk) : ¬ st.Fails r := by
  intro hfails
  cases hfails with
  | @relocate s₁ waiting j ready fault hj hscript =>
    have hj := h.waiting j hj
    obtain ⟨t, ht⟩ := hplaceable.relocates j hj
    have ht := (h.script_iff hd hs hrest hj).mpr ht
    rw [hscript] at ht
    cases ht
  | @emit s₁ d waiting ready t e ht hemit =>
    obtain ⟨j, hj, hscript⟩ := h.ready t ht
    obtain ⟨n, hn, hstamp⟩ := h.exists_stamp ht
    dsimp only at hstamp
    rw [script_destination hscript, hstamp] at hemit
    -- a script that is there already needs no room beside it
    rcases hroomy j hj with hroom | ⟨u, hu, hentry⟩
    · obtain ⟨hfits, hfree⟩ := hroom n hn
      have hpassage : ∀ k ∈ j.output.passage, ∀ found, s₁.disk.get? k ≠ some (.file found) :=
        fun k hk => h.passage_clear hrest hplaceable hclear hj hk
      have hplace : s₁.disk.get? j.output.location ≠ some .directory :=
        h.place_clear hrest hplaceable hclear hj
      obtain ⟨fresh, d', hwrite⟩ : ∃ fresh d', (Disk.writeIfChanged (s.stamp.later n) j.output
          t.contents.toUTF8).on s₁.disk = (.ok fresh, d') :=
        Disk.exists_writeIfChanged (hd.absolute j hj) (hplaceable.named j hj)
          (hplaceable.fits j hj) hfits (hplaceable.apart j hj j hj) hpassage hplace
      have hagree := Disk.replaceIfChanged_agreeBut (h.told hd hs hrest hj hscript)
        (mt (h.directory_iff hs hrest ⟨j, hj, n, hn, rfl⟩).mp hfree) (hs.off_passage hj hn)
      rw [hemit, hwrite] at hagree
      cases hagree.result
    · obtain rfl := Except.ok.inj (hscript.symm.trans hu)
      rw [Disk.on_replaceIfChanged_of_entry
        (h.entry_kept hd hs hj hscript (hrest.entry_output hs hj hentry))] at hemit
      cases hemit

/-- At the end every module has been written. -/
lemma Inv.entry_of_done (h : Inv r jobs base s rest ⟨s', [], []⟩) {j : StagingJob} (hj : j ∈ jobs) :
    ∃ t, j.script r base = .ok t ∧ s'.disk.entry j.output = .ok (.file t.contents.toUTF8) := by
  obtain hwaiting | ⟨t, ht, hready | hentry⟩ := h.progress j hj
  · cases hwaiting
  · cases hready
  · exact ⟨t, ht, hentry⟩

/-- Modules that have been staged can be staged. -/
lemma Inv.placeable (h : Inv r jobs base s rest ⟨s', [], []⟩) : Placeable r jobs base where
  relocates j hj := by
    obtain ⟨t, ht, -⟩ := h.entry_of_done hj
    exact ⟨t, ht⟩
  named j hj := by
    obtain ⟨t, -, hentry⟩ := h.entry_of_done hj
    exact (Disk.entry_eq_file_iff.mp hentry).2.1
  fits j hj := by
    obtain ⟨t, -, hentry⟩ := h.entry_of_done hj
    exact (Disk.entry_eq_file_iff.mp hentry).1
  apart i hi j hj hmem := by
    obtain ⟨t, -, hentry⟩ := h.entry_of_done hi
    obtain ⟨u, -, hentry'⟩ := h.entry_of_done hj
    obtain ⟨-, -, -, hfile⟩ := Disk.entry_eq_file_iff.mp hentry
    obtain ⟨-, -, hpassage, -⟩ := Disk.entry_eq_file_iff.mp hentry'
    rw [hpassage _ hmem] at hfile
    cases hfile

/-- A module that has been staged was there with its content or had room for it. -/
lemma Inv.not_cramped (h : Inv r jobs base s rest ⟨s', [], []⟩) (hrest : Rest jobs s rest)
    {j : StagingJob} (hj : j ∈ jobs) : ¬ Cramped r jobs base s j := by
  intro hcramped
  obtain ⟨t, ht, hentry⟩ := h.entry_of_done hj
  obtain ⟨-, -, -, hfile⟩ := Disk.entry_eq_file_iff.mp hentry
  rcases h.room j hj _ hfile with hbefore | ⟨i, hi, hplace, n, hn, hroom⟩
  · exact hcramped.lacking t ht (hrest.of_file hbefore)
  · refine hcramped.full n hn ?_
    rwa [HasRoom, ← hcramped.alone i hi hplace]

/-- Where modules have been staged, nothing stood in their way. -/
lemma Inv.clear (h : Inv r jobs base s rest ⟨s', [], []⟩) (hs : Unmistaken r jobs base s)
    (hrest : Rest jobs s rest) : Clear jobs s.disk where
  passage j hj k hk content hcontent := by
    obtain ⟨t, -, hentry⟩ := h.entry_of_done hj
    obtain ⟨-, -, hpassage, -⟩ := Disk.entry_eq_file_iff.mp hentry
    rw [← hrest.eq_of_not (hs.off j hj k (passage_subset_trail _ hk))] at hcontent
    obtain ⟨content', hcontent'⟩ := h.grows.file hcontent
    have hdirectory := hpassage k hk
    dsimp only at hcontent'
    rw [hdirectory] at hcontent'
    cases hcontent'
  place j hj hdirectory := by
    obtain ⟨t, -, hentry⟩ := h.entry_of_done hj
    obtain ⟨-, -, -, hfile⟩ := Disk.entry_eq_file_iff.mp hentry
    have hdirectory := h.grows.directory (hrest.directory_iff.mpr hdirectory)
    dsimp only at hdirectory
    rw [hfile] at hdirectory
    cases hdirectory

end Staging

end AddonBuild
