import AddonBuild.Disk.Output
import AddonBuild.Proofs.Disk.Writing

/-!
# Writing in a session

To the disk, a write in a session is a write with the stamp of the session, and the session goes on
with the next stamp if anything was written. A task counts what it puts out; however the counts are
added up, they are those of all its files.
-/

namespace AddonBuild

open WorkM

namespace Session

variable {s s' : Session} {p : Path} {content : ByteArray} {fresh : Bool}

lemma on_takeStamp (s : Session) :
    takeStamp.on s = (.ok s.stamp, { s with stamp := s.stamp.next }) := rfl

lemma on_write (p : Path) (content : ByteArray) (s : Session) :
    (write p content).on s =
      match (Disk.makeDirectories (Disk.homeOf p)).on s.disk with
      | (.error e, d) => (.error e, ⟨d, s.stamp⟩)
      | (.ok _, d) => (((Disk.land s.stamp p content).on d).1,
          ⟨((Disk.land s.stamp p content).on d).2, s.stamp.next⟩) := by
  rw [write, on_bind, SessionM.on_ofDisk]
  generalize (Disk.makeDirectories (Disk.homeOf p)).on s.disk = made
  obtain ⟨result, d⟩ := made
  cases result with
  | error e => rfl
  | ok =>
    dsimp only
    rw [on_bind_of_ok (on_takeStamp _), SessionM.on_ofDisk]

/-- A write in a session does to the disk what one with the stamp of the session does. -/
lemma disk_of_write (p : Path) (content : ByteArray) (s : Session) :
    (((write p content).on s).1, ((write p content).on s).2.disk) =
      (Disk.write s.stamp p content).on s.disk := by
  rw [on_write, Disk.write, on_bind]
  generalize (Disk.makeDirectories (Disk.homeOf p)).on s.disk = made
  obtain ⟨result, d⟩ := made
  cases result with
  | error e => rfl
  | ok => dsimp only

/-- A write that is done takes the stamp of the session. -/
lemma on_write_eq_ok :
    (write p content).on s = (.ok (), s') ↔
      ∃ d', (Disk.write s.stamp p content).on s.disk = (.ok (), d') ∧
        s' = ⟨d', s.stamp.next⟩ := by
  rw [on_write, Disk.write, on_bind]
  generalize (Disk.makeDirectories (Disk.homeOf p)).on s.disk = made
  obtain ⟨result, d⟩ := made
  cases result with
  | error e => simp
  | ok =>
    dsimp only
    generalize (Disk.land s.stamp p content).on d = landed
    obtain ⟨result, d'⟩ := landed
    simp [and_assoc, eq_comm]

lemma on_writeIfChanged (p : Path) (content : ByteArray) (s : Session) :
    (writeIfChanged p content).on s =
      (Disk.unlessThere (s.disk.entry p) (· = .file content) (write p content)).on s := by
  rw [writeIfChanged, on_bind, on_get]

/-- What has changed is written as with the stamp of the session. -/
lemma disk_of_writeIfChanged (p : Path) (content : ByteArray) (s : Session) :
    (((writeIfChanged p content).on s).1, ((writeIfChanged p content).on s).2.disk) =
      (Disk.writeIfChanged s.stamp p content).on s.disk := by
  rw [on_writeIfChanged, Disk.on_writeIfChanged]
  rcases Disk.right_or_callsFor_or_error (s.disk.entry p) (· = .file content) with
    ⟨e, h, he⟩ | h | ⟨e, h, he⟩
  · rw [Disk.on_unlessThere_of_right h he, Disk.on_unlessThere_of_right h he]
  · rw [Disk.on_unlessThere_of_callsFor h, Disk.on_unlessThere_of_callsFor h, ← disk_of_write]
    rfl
  · rw [Disk.on_unlessThere_of_error h he, Disk.on_unlessThere_of_error h he]

/-- Only what is written takes a stamp, not what is found up to date. -/
lemma on_writeIfChanged_eq_ok :
    (writeIfChanged p content).on s = (.ok fresh, s') ↔
      ∃ d', (Disk.writeIfChanged s.stamp p content).on s.disk = (.ok fresh, d') ∧
        s' = ⟨d', if fresh then s.stamp.next else s.stamp⟩ := by
  simp only [on_writeIfChanged, Disk.on_writeIfChanged, Disk.on_unlessThere_eq_ok, on_write_eq_ok]
  constructor
  · rintro (⟨hright, rfl, rfl⟩ | ⟨hcalls, rfl, d', hwrite, rfl⟩)
    · exact ⟨s'.disk, .inl ⟨hright, rfl, rfl⟩, rfl⟩
    · exact ⟨d', .inr ⟨hcalls, rfl, hwrite⟩, rfl⟩
  · rintro ⟨d', ⟨hright, rfl, rfl⟩ | ⟨hcalls, rfl, hwrite⟩, rfl⟩
    · exact .inl ⟨hright, rfl, rfl⟩
    · exact .inr ⟨hcalls, rfl, d', hwrite, rfl⟩

end Session

namespace Output

variable {s s' : Session} {p : Path} {content : ByteArray} {o : Output}

lemma on_emit_eq_ok :
    (emit p content).on s = (.ok o, s') ↔
      ∃ fresh d', (Disk.writeIfChanged s.stamp p content).on s.disk = (.ok fresh, d') ∧
        o = ⟨p, fresh⟩ ∧ s' = ⟨d', if fresh then s.stamp.next else s.stamp⟩ := by
  rw [emit, on_bind_eq_ok]
  simp only [on_mapError, Prod.mk.injEq, mapError_eq_ok, on_pure, Except.ok.injEq]
  constructor
  · rintro ⟨fresh, s₁, ⟨hok, rfl⟩, rfl, rfl⟩
    obtain ⟨d', hwrite, hs⟩ := Session.on_writeIfChanged_eq_ok.mp (Prod.ext hok rfl)
    exact ⟨fresh, d', hwrite, rfl, hs⟩
  · rintro ⟨fresh, d', hwrite, rfl, rfl⟩
    have hok := Session.on_writeIfChanged_eq_ok.mpr ⟨d', hwrite, rfl⟩
    exact ⟨fresh, _, Prod.mk.inj hok, rfl, rfl⟩

/-- A file that cannot be put out cannot be written. -/
lemma exists_of_on_emit_eq_error {fault : Fault} (h : (emit p content).on s = (.error fault, s')) :
    ∃ e d', (Disk.writeIfChanged s.stamp p content).on s.disk = (.error e, d') := by
  cases hwrite : (Disk.writeIfChanged s.stamp p content).on s.disk with
  | mk result d' =>
    cases result with
    | error e => exact ⟨e, d', rfl⟩
    | ok fresh =>
      rw [on_emit_eq_ok.mpr ⟨fresh, d', hwrite, rfl, rfl⟩] at h
      cases (Prod.mk.inj h).1

/-- Whether a file can be put out or not, the disk is left as by a write. -/
lemma disk_of_emit (p : Path) (content : ByteArray) (s : Session) :
    ((emit p content).on s).2.disk = ((Disk.writeIfChanged s.stamp p content).on s.disk).2 := by
  have hwrite := congrArg Prod.snd (Session.disk_of_writeIfChanged p content s)
  rw [← hwrite, emit, on_bind, on_mapError]
  generalize (Session.writeIfChanged p content).on s = outcome
  obtain ⟨result, s'⟩ := outcome
  cases result <;> rfl

end Output

/-! ### Counting -/

namespace Tally

variable {t a b : Tally}

@[simp] lemma outputs_record (t : Tally) (o : Output) :
    (t.record o).outputs = t.outputs ++ [o.path] := rfl

@[simp] lemma outputs_merge (a b : Tally) : (a.merge b).outputs = a.outputs ++ b.outputs := rfl

lemma outputs_foldl_record (outputs : List Output) (t : Tally) :
    (outputs.foldl record t).outputs = t.outputs ++ outputs.map (·.path) := by
  induction outputs generalizing t with
  | nil => exact (List.append_nil _).symm
  | cons o outputs ih => rw [List.foldl_cons, ih, outputs_record, List.append_assoc]; rfl

lemma outputs_foldl_merge (tallies : List Tally) (t : Tally) :
    (tallies.foldl merge t).outputs = t.outputs ++ tallies.flatMap (·.outputs) := by
  induction tallies generalizing t with
  | nil => exact (List.append_nil _).symm
  | cons first tallies ih =>
    rw [List.foldl_cons, ih, outputs_merge, List.append_assoc, List.flatMap_cons]

lemma outputs_ofOutputs (outputs : List Output) :
    (ofOutputs outputs).outputs = outputs.map (·.path) :=
  outputs_foldl_record outputs zero

/-- Every file that is counted is counted once, as written or as up to date. -/
def Balanced (t : Tally) : Prop :=
  t.written + t.unchanged = t.outputs.length

lemma balanced_zero : zero.Balanced := rfl

lemma Balanced.record (h : t.Balanced) (o : Output) : (t.record o).Balanced := by
  unfold Balanced at *
  rw [outputs_record, List.length_append, ← h, Tally.record]
  cases o.fresh <;> simp [Nat.add_assoc, Nat.add_comm 1]

lemma Balanced.merge (ha : a.Balanced) (hb : b.Balanced) : (a.merge b).Balanced := by
  unfold Balanced at *
  rw [outputs_merge, List.length_append, ← ha, ← hb]
  exact Nat.add_add_add_comm _ _ _ _

lemma Balanced.foldl_record (h : t.Balanced) (outputs : List Output) :
    (outputs.foldl Tally.record t).Balanced := by
  induction outputs generalizing t with
  | nil => exact h
  | cons o outputs ih => exact ih (h.record o)

lemma balanced_ofOutputs (outputs : List Output) : (ofOutputs outputs).Balanced :=
  balanced_zero.foldl_record outputs

lemma Balanced.foldl_merge {tallies : List Tally} (ht : t.Balanced)
    (h : ∀ t ∈ tallies, t.Balanced) : (tallies.foldl Tally.merge t).Balanced := by
  induction tallies generalizing t with
  | nil => exact ht
  | cons first tallies ih =>
    obtain ⟨hfirst, hrest⟩ := List.forall_mem_cons.mp h
    exact ih (ht.merge hfirst) hrest

/-- Files that are all up to date are not counted as written. -/
lemma written_foldl_record {outputs : List Output} (h : ∀ o ∈ outputs, o.fresh = false)
    (t : Tally) : (outputs.foldl record t).written = t.written := by
  induction outputs generalizing t with
  | nil => rfl
  | cons o outputs ih =>
    obtain ⟨hfirst, hrest⟩ := List.forall_mem_cons.mp h
    rw [List.foldl_cons, ih hrest, record, hfirst]
    rfl

end Tally

end AddonBuild
