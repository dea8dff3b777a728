import AddonBuild.Proofs.Disk.Agreement
import AddonBuild.Proofs.Disk.Sessions

/-!
# Disks that receive files

A task puts files at paths of one kind and makes the directories on their way. That holds of
whatever it has done when it fails, and if it succeeds, there are files at all the paths that it
answers for. Both follow for a task from the steps that it takes.
-/

namespace AddonBuild

open AddonBuild.Path

/-! ### Names on a way -/

/-- What a way leads through is where its first steps lead. -/
lemma Location.exists_of_mem_trail {way : List Component} {here k : Location}
    (h : k ∈ Location.trail here way) :
    ∃ first, first <+: way ∧ k = Location.along here first := by
  induction way generalizing here with
  | nil => cases h
  | cons c way ih =>
    have hstep {next : Location} (hnext : next = Location.step here c)
        (h : k ∈ Location.trail next way) :
        ∃ first, first <+: c :: way ∧ k = Location.along here first := by
      obtain ⟨first, hfirst, rfl⟩ := ih h
      exact ⟨c :: first, List.cons_prefix_cons.mpr ⟨rfl, hfirst⟩, by rw [hnext]; rfl⟩
    cases c with
    | name name =>
      rcases List.mem_cons.mp h with rfl | h
      · exact ⟨[.name name], List.prefix_append _ _, rfl⟩
      · exact hstep rfl h
    | root | here | up => exact hstep rfl h

namespace Path

variable {p : Path} {k : Location} {name : String}

lemma name_mem_way_of_mem_location (h : name ∈ p.location) : .name name ∈ p.way :=
  name_mem_of_mem_along h

lemma name_mem_way_of_mem_trail (hk : k ∈ p.trail) (h : name ∈ k) : .name name ∈ p.way := by
  obtain ⟨first, hfirst, rfl⟩ := Location.exists_of_mem_trail hk
  exact hfirst.subset (name_mem_of_mem_along h)

end Path

namespace Disk

/-! ### What has been received -/

variable {P : Path → Prop} {d d' : Disk} {p : Path} {content : ByteArray}

/-- Files were put at paths of one kind and directories were made where there was nothing. -/
def Receives (P : Path → Prop) (d d' : Disk) : Prop :=
  ∀ k, d'.get? k = d.get? k ∨
    (d.get? k = none ∧ d'.get? k = some .directory ∧
      ∀ name ∈ k, (Component.name name).IsStep) ∨
    ∃ p content, P p ∧ k = p.location ∧ d.get? k ≠ some .directory ∧
      d'.get? k = some (.file content)

lemma Receives.refl (P : Path → Prop) (d : Disk) : d.Receives P d :=
  fun _ => .inl rfl

lemma Receives.mono {Q : Path → Prop} (h : d.Receives P d') (hsub : ∀ p, P p → Q p) :
    d.Receives Q d' := by
  intro k
  refine (h k).imp_right (.imp_right ?_)
  rintro ⟨p, content, hp, hk⟩
  exact ⟨p, content, hsub p hp, hk⟩

lemma Receives.trans {d₁ d₂ d₃ : Disk} (h : d₁.Receives P d₂) (h' : d₂.Receives P d₃) :
    d₁.Receives P d₃ := by
  intro k
  rcases h k with hk | ⟨hnone, hk, hstep⟩ | ⟨p, content, hp, hplace, hfree, hk⟩
  · have h' := h' k
    rw [hk] at h'
    exact h'
  · rcases h' k with hk' | ⟨hnone', -⟩ | ⟨p, content, -, -, hfree, -⟩
    · exact .inr (.inl ⟨hnone, hk'.trans hk, hstep⟩)
    · rw [hk] at hnone'
      cases hnone'
    · exact absurd hk hfree
  · rcases h' k with hk' | ⟨hnone', -⟩ | ⟨q, content', hq, hplace', -, hk'⟩
    · exact .inr (.inr ⟨p, content, hp, hplace, hfree, hk'.trans hk⟩)
    · rw [hk] at hnone'
      cases hnone'
    · exact .inr (.inr ⟨q, content', hq, hplace', hfree, hk'⟩)

lemma Receives.grows (h : d.Receives P d') : d.Grows d' where
  directory {l} hl := by
    rcases h l with hk | ⟨hnone, -⟩ | ⟨p, content, -, -, hfree, -⟩
    · rw [hk, hl]
    · rw [hl] at hnone
      cases hnone
    · exact absurd hl hfree
  file {l found} hl := by
    rcases h l with hk | ⟨hnone, -⟩ | ⟨p, content, -, -, -, hk⟩
    · exact ⟨found, by rw [hk, hl]⟩
    · rw [hl] at hnone
      cases hnone
    · exact ⟨content, hk⟩

/-- The names that are made are those of paths. -/
lemma Receives.proper (h : d.Receives P d') (hd : d.Proper) : d'.Proper := by
  intro a ha
  obtain ⟨hne, hget⟩ := mem_entries_iff.mp ha
  rcases h a.1 with hk | ⟨-, -, hstep⟩ | ⟨p, content, -, hplace, -⟩
  · exact hd a (mem_entries_iff.mpr ⟨hne, hk ▸ hget⟩)
  · exact hstep
  · intro name hname
    rw [hplace] at hname
    exact isStep_of_mem_way (name_mem_way_of_mem_location hname)

lemma Grows.isFile (h : d.Grows d') (hp : d.isFile p = true) : d'.isFile p = true := by
  obtain ⟨content, hentry⟩ := isFile_iff.mp hp
  obtain ⟨l, hl, hget⟩ := entry_eq_ok.mp hentry
  obtain ⟨content', hget'⟩ := h.file hget
  exact isFile_iff.mpr ⟨content', entry_eq_ok.mpr ⟨l, h.locate_eq_ok hl, hget'⟩⟩

/-- A file keeps its content if no other file is put in its place. -/
lemma Receives.entry_eq (h : d.Receives P d') (hfile : d.entry p = .ok (.file content))
    (hplace : ∀ q, P q → q.location ≠ p.location) : d'.entry p = .ok (.file content) := by
  obtain ⟨l, hl, hget⟩ := entry_eq_ok.mp hfile
  refine entry_eq_ok.mpr ⟨l, h.grows.locate_eq_ok hl, ?_⟩
  obtain rfl := (of_locate_eq_ok hl).2.1
  rcases h p.location with hk | ⟨hnone, -⟩ | ⟨q, content', hq, heq, -⟩
  · rw [hk, hget]
  · rw [hget] at hnone
    cases hnone
  · exact absurd heq.symm (hplace q hq)

/-! ### Writing a file -/

lemma Furnishes.receives (h : d.Furnishes d' p.passage) : d.Receives P d' := by
  intro k
  refine (h k).imp_right fun ⟨hmem, hnone, hk⟩ => .inl ⟨hnone, hk, fun name hname => ?_⟩
  exact isStep_of_mem_way (name_mem_way_of_mem_trail (passage_subset_trail p hmem) hname)

lemma Wrote.receives (h : d.Wrote d' p content) (hp : P p) : d.Receives P d' := by
  intro k
  by_cases hk : k = p.location
  · rw [hk]
    exact .inr (.inr ⟨p, content, hp, rfl, h.free, h.get?⟩)
  · refine (h.elsewhere k hk).imp_right fun ⟨hmem, hnone, hk⟩ => .inl ⟨hnone, hk, ?_⟩
    intro name hname
    exact isStep_of_mem_way (name_mem_way_of_mem_trail (passage_subset_trail p hmem) hname)

/-- What cannot be written leaves no more than directories behind. -/
lemma furnishes_of_write_error {stamp : Stamp} {e : DiskError}
    (h : (write stamp p content).on d = (.error e, d')) : d.Furnishes d' p.passage := by
  have hmake := furnishes_homeOf p d
  rw [write, WorkM.on_bind] at h
  generalize (makeDirectories (homeOf p)).on d = made at h hmake
  obtain ⟨result, d₁⟩ := made
  cases result with
  | error e' =>
    obtain ⟨-, rfl⟩ := Prod.mk.inj h
    exact hmake
  | ok =>
    dsimp only at h
    obtain rfl : d' = d₁ := on_land_eq_error h
    exact hmake

/-- Whatever comes of writing a file, nothing else has changed but directories on the way. -/
lemma receives_writeIfChanged (hp : P p) (stamp : Stamp) (d : Disk) :
    d.Receives P ((writeIfChanged stamp p content).on d).2 := by
  have hwrite : d.Receives P (((write stamp p content).on d).2) := by
    generalize hd' : (write stamp p content).on d = wrote
    obtain ⟨result, d'⟩ := wrote
    cases result with
    | ok => exact (wrote_of_write hd').1.receives hp
    | error e => exact (furnishes_of_write_error hd').receives
  rw [on_writeIfChanged]
  rcases right_or_callsFor_or_error (d.entry p) (· = .file content) with
    ⟨e, h, he⟩ | h | ⟨e, h, he⟩
  · rw [on_unlessThere_of_right h he]
    exact .refl P d
  · rw [on_unlessThere_of_callsFor h]
    exact hwrite
  · rw [on_unlessThere_of_error h he]
    exact .refl P d

end Disk

/-! ### Tasks -/

/-- The paths of what was put out. -/
def Output.paths (outputs : List Output) : List Path :=
  outputs.map (·.path)

namespace SessionM

open WorkM

variable {ε ε' α β : Type}

/-- Whatever comes of a task, the disk of the session receives files at paths of one kind alone. If
the task succeeds, such are the paths that its result names, and there are files at them; so it was
with the paths that are known from the start. -/
def Places (P : Path → Prop) (known : List Path) (work : SessionM ε α) (named : α → List Path) :
    Prop :=
  ∀ s : Session, s.disk.Proper → (∀ p ∈ known, P p ∧ s.disk.isFile p = true) →
    s.disk.Receives P (work.on s).2.disk ∧
      ∀ a s', work.on s = (.ok a, s') → ∀ p ∈ named a, P p ∧ s'.disk.isFile p = true

/-- The paths that the outcome of a task names; an error names none. -/
def namedBy (named : α → List Path) : Except ε α → List Path
  | .ok a => named a
  | .error _ => []

namespace Places

variable {P : Path → Prop} {known : List Path} {work : SessionM ε α} {named : α → List Path}
  {named' : β → List Path}

lemma of_proper (h : Places P [] work named) {s : Session} (hd : s.disk.Proper) :
    s.disk.Receives P (work.on s).2.disk ∧
      ∀ a s', work.on s = (.ok a, s') → ∀ p ∈ named a, P p ∧ s'.disk.isFile p = true :=
  h s hd fun _ hp => nomatch hp

lemma of_ok (h : Places P [] work named) {s s' : Session} (hd : s.disk.Proper) {a : α}
    (hrun : work.on s = (.ok a, s')) :
    s.disk.Receives P s'.disk ∧ ∀ p ∈ named a, P p ∧ s'.disk.isFile p = true := by
  obtain ⟨hreceives, hnamed⟩ := h.of_proper hd
  rw [hrun] at hreceives
  exact ⟨hreceives, hnamed a s' hrun⟩

lemma subset {fewer : α → List Path} (h : Places P known work named)
    (hsub : ∀ a, fewer a ⊆ named a) : Places P known work fewer := by
  intro s hd hknown
  obtain ⟨hreceives, hnamed⟩ := h s hd hknown
  exact ⟨hreceives, fun a s' hrun p hp => hnamed a s' hrun p (hsub a hp)⟩

lemma weaken {fewer : List Path} (h : Places P fewer work named) (hsub : fewer ⊆ known) :
    Places P known work named :=
  fun s hd hknown => h s hd fun p hp => hknown p (hsub hp)

lemma pure {a : α} (h : named a ⊆ known) : Places P known (pure a : SessionM ε α) named := by
  intro s _ hknown
  refine ⟨.refl P s.disk, fun a' s' hrun p hp => ?_⟩
  rw [on_pure] at hrun
  obtain ⟨ha, rfl⟩ := Prod.mk.inj hrun
  obtain rfl := Except.ok.inj ha
  exact hknown p (h hp)

/-- What a task has put down is there for the tasks that come after it. -/
lemma bind {f : α → SessionM ε β} (hwork : Places P known work named)
    (hf : ∀ a, Places P (known ++ named a) (f a) named') :
    Places P known (work >>= f) named' := by
  intro s hd hknown
  obtain ⟨hreceives, hnamed⟩ := hwork s hd hknown
  rw [on_bind]
  generalize work.on s = outcome at hreceives hnamed
  obtain ⟨result, s₁⟩ := outcome
  cases result with
  | error e => exact ⟨hreceives, fun _ _ hrun => by cases (Prod.mk.inj hrun).1⟩
  | ok a =>
    have hall : ∀ p ∈ known ++ named a, P p ∧ s₁.disk.isFile p = true := by
      intro p hp
      rcases List.mem_append.mp hp with hp | hp
      · exact (hknown p hp).imp_right hreceives.grows.isFile
      · exact hnamed a s₁ rfl p hp
    obtain ⟨hreceives', hnamed'⟩ := hf a s₁ (hreceives.proper hd) hall
    exact ⟨hreceives.trans hreceives', hnamed'⟩

lemma ask {question : Disk → α} {f : α → SessionM ε β}
    (h : ∀ d : Disk, d.Proper → Places P known (f (question d)) named') :
    Places P known (SessionM.ask question >>= f) named' := by
  intro s hd hknown
  rw [SessionM.on_ask_bind]
  exact h s.disk hd s hd hknown

lemma consult {question : Disk → Except ε α} {f : α → SessionM ε β}
    (h : ∀ a (d : Disk), d.Proper → question d = .ok a → Places P known (f a) named') :
    Places P known (SessionM.consult question >>= f) named' := by
  intro s hd hknown
  rw [on_bind, SessionM.on_consult]
  cases hanswer : question s.disk with
  | error e => exact ⟨.refl P s.disk, fun _ _ hrun => by cases (Prod.mk.inj hrun).1⟩
  | ok a => exact h a s.disk hd hanswer s hd hknown

lemma ofExcept {result : Except ε α} {f : α → SessionM ε β}
    (h : ∀ a, result = .ok a → Places P known (f a) named') :
    Places P known (MonadExcept.ofExcept result >>= f) named' := by
  intro s hd hknown
  rw [on_bind, on_ofExcept]
  cases result with
  | error e => exact ⟨.refl P s.disk, fun _ _ hrun => by cases (Prod.mk.inj hrun).1⟩
  | ok a => exact h a rfl s hd hknown

lemma attempt {f : Except ε α → SessionM ε' β} (hwork : Places P known work named)
    (hf : ∀ result : Except ε α,
      Places P (known ++ namedBy named result) (f result) named') :
    Places P known (WorkM.attempt work >>= f) named' := by
  refine bind (fun s hd hknown => ?_) hf
  obtain ⟨hreceives, hnamed⟩ := hwork s hd hknown
  rw [on_attempt]
  refine ⟨hreceives, fun result s' hrun p hp => ?_⟩
  obtain ⟨hresult, rfl⟩ := Prod.mk.inj hrun
  obtain rfl := Except.ok.inj hresult
  cases hok : (work.on s).1 with
  | error e =>
    rw [hok] at hp
    cases hp
  | ok a =>
    rw [hok] at hp
    exact hnamed a _ (Prod.ext hok rfl) p hp

lemma mapM (named' : β → List Path) {l : List α} {f : α → SessionM ε β}
    (h : ∀ a ∈ l, Places P known (f a) named') :
    Places P known (l.mapM f) fun bs => bs.flatMap named' := by
  induction l generalizing known with
  | nil =>
    rw [List.mapM_nil]
    exact pure (List.nil_subset _)
  | cons a l ih =>
    rw [List.mapM_cons]
    obtain ⟨hfirst, hrest⟩ := List.forall_mem_cons.mp h
    refine bind hfirst fun b => ?_
    refine bind (ih fun c hc => (hrest c hc).weaken (List.subset_append_left _ _)) fun bs => ?_
    refine pure ?_
    rw [List.flatMap_cons, List.append_assoc]
    exact List.subset_append_right _ _

lemma emit {p : Path} (hp : P p) (content : ByteArray) :
    Places P known (Output.emit p content) fun o => [o.path] := by
  intro s _ _
  constructor
  · rw [Output.disk_of_emit]
    exact Disk.receives_writeIfChanged hp s.stamp s.disk
  · intro o s' hrun q hq
    obtain ⟨fresh, d', hwrite, rfl, rfl⟩ := Output.on_emit_eq_ok.mp hrun
    rw [List.mem_singleton.mp hq]
    exact ⟨hp, Disk.isFile_iff.mpr ⟨content, (Disk.wrote_of_writeIfChanged hwrite).1.entry⟩⟩

lemma mapM_emit {l : List α} (path : α → Path) (content : α → ByteArray) :
    Places (fun q => ∃ a ∈ l, q = path a) known
      (l.mapM fun a => Output.emit (path a) (content a)) Output.paths :=
  (mapM (fun o => [o.path]) fun a ha => emit ⟨a, ha, rfl⟩ _).subset fun outputs => by
    rw [Output.paths, List.map_eq_flatMap]
    exact List.Subset.refl _

end Places

end SessionM

end AddonBuild
