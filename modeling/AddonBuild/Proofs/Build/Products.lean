import AddonBuild.Proofs.Build.Manifests

/-!
# Products on their way to a disk

Files are made and put out one after the other, each on the disk that the ones before it have left.
If no two of them go to one place, every place is at any time as it was before all of them or as it
is after all of them, and nothing that was put out is lost. Whatever makes the same files again
finds them up to date.
-/

namespace AddonBuild

open AddonBuild.Path WorkM

namespace Disk

variable {P Q : Path → Prop} {d d' e : Disk}

/-- Whether a disk comes up on the way from one disk to another: files are not taken away, and every
place is as it was in the beginning or as it is in the end. -/
structure Midway (d d' e : Disk) : Prop where
  before : d.Grows e
  after : e.Grows d'
  place : ∀ k, e.get? k = d.get? k ∨ e.get? k = d'.get? k

lemma Midway.start (h : d.Grows d') : d.Midway d' d :=
  ⟨.refl d, h, fun _ => .inl rfl⟩

lemma Midway.trans {d₁ : Disk} (h : d.Midway d' d₁) (h' : d₁.Midway d' e) : d.Midway d' e where
  before := h.before.trans h'.before
  after := h'.after
  place k := by
    rcases h'.place k with hk | hk
    · rw [hk]
      exact h.place k
    · exact .inr hk

/-- What is received first is not disturbed by what is received elsewhere later. -/
lemma Receives.midway (h : d.Receives P e) (h' : e.Receives Q d')
    (hapart : ∀ p q, P p → Q q → p.location ≠ q.location) : d.Midway d' e where
  before := h.grows
  after := h'.grows
  place k := by
    rcases h k with hk | ⟨-, hk, -⟩ | ⟨p, content, hp, hplace, -, hk⟩
    · exact .inl hk
    · exact .inr (hk.trans (h'.grows.directory hk).symm)
    · refine .inr ?_
      rcases h' k with hk' | ⟨hnone, -⟩ | ⟨q, -, hq, hplace', -⟩
      · exact hk'.symm
      · rw [hk] at hnone
        cases hnone
      · exact absurd (hplace.symm.trans hplace') (hapart p q hp hq)

/-- A file that is the same in the beginning and in the end was never another on the way. -/
lemma Midway.entry_eq {p : Path} {content : ByteArray} (h : d.Midway d' e)
    (hfile : d.entry p = .ok (.file content))
    (hend : d'.get? p.location = some (.file content)) : e.entry p = .ok (.file content) := by
  obtain ⟨l, hl, hget⟩ := entry_eq_ok.mp hfile
  refine entry_eq_ok.mpr ⟨l, h.before.locate_eq_ok hl, ?_⟩
  obtain rfl := (of_locate_eq_ok hl).2.1
  rcases h.place p.location with hk | hk
  · rw [hk, hget]
  · rw [hk, hend]

end Disk

namespace Output

/-- An output as it is reported when it was up to date. -/
def settled (o : Output) : Output :=
  { o with fresh := false }

lemma paths_map_settled (outputs : List Output) : paths (outputs.map settled) = paths outputs := by
  simp [paths, settled, Function.comp_def]

end Output

namespace Build

/-- Find out which file is to be made, if any, and put it out. -/
def putOut (make : Disk → Except Fault (Option Product)) : SessionM Fault (Option Output) := do
  let product ← SessionM.consult make
  product.mapM Product.emit

/-- Whether a file was made on the way from one disk to another, and is there in the end as it was
made. -/
def Made (d d' : Disk) (make : Disk → Except Fault (Option Product)) (output : Option Output) :
    Prop :=
  ∃ (e : Disk) (product : Option Product), d.Midway d' e ∧ make e = .ok product ∧
    output.map Output.path = product.map Product.path ∧
    ∀ made ∈ product, d'.entry made.path = .ok (.file made.content)

variable {make : Disk → Except Fault (Option Product)}
  {makes : List (Disk → Except Fault (Option Product))} {d d' e : Disk} {s s' : Session}
  {output : Option Output} {outputs : List (Option Output)}

lemma on_putOut_eq_ok_some {o : Output} :
    (putOut make).on s = (.ok (some o), s') ↔
      ∃ product, make s.disk = .ok (some product) ∧ product.emit.on s = (.ok o, s') := by
  rw [putOut, SessionM.on_consult_bind_eq_ok]
  constructor
  · rintro ⟨product, hmake, h⟩
    cases product with
    | none => cases (Prod.mk.inj h).1
    | some product =>
      obtain ⟨o', s₂, hemit, h⟩ := on_bind_eq_ok.mp h
      obtain ⟨ho, rfl⟩ := Prod.mk.inj h
      obtain rfl := Option.some.inj (Except.ok.inj ho)
      exact ⟨product, hmake, hemit⟩
  · rintro ⟨product, hmake, hemit⟩
    exact ⟨some product, hmake, on_bind_eq_ok.mpr ⟨o, s', hemit, rfl⟩⟩

/-- What is put out is written as it was made. -/
lemma of_putOut (h : (putOut make).on s = (.ok output, s')) :
    ∃ product, make s.disk = .ok product ∧ output.map Output.path = product.map Product.path ∧
      s.disk.Receives (fun q => ∃ o ∈ output, q = o.path) s'.disk ∧
      ∀ made ∈ product, s'.disk.entry made.path = .ok (.file made.content) := by
  obtain ⟨product, hmake, h⟩ := SessionM.on_consult_bind_eq_ok.mp h
  refine ⟨product, hmake, ?_⟩
  cases product with
  | none =>
    obtain ⟨houtput, rfl⟩ := Prod.mk.inj h
    obtain rfl := Except.ok.inj houtput
    exact ⟨rfl, .refl _ _, fun _ hmade => by cases hmade⟩
  | some product =>
    obtain ⟨o, s₂, hemit, h⟩ := on_bind_eq_ok.mp h
    obtain ⟨houtput, rfl⟩ := Prod.mk.inj h
    obtain rfl := Except.ok.inj houtput
    obtain ⟨fresh, d₂, hwrite, rfl, rfl⟩ := Output.on_emit_eq_ok.mp hemit
    have hwrote := (Disk.wrote_of_writeIfChanged hwrite).1
    refine ⟨rfl, hwrote.receives ⟨_, rfl, rfl⟩, ?_⟩
    rintro made ⟨⟩
    exact hwrote.entry

/-- One after the other, files are put at the places that are reported. -/
lemma receives_of_mapM_putOut (h : (makes.mapM putOut).on s = (.ok outputs, s')) :
    s.disk.Receives (fun q => ∃ o ∈ outputs.filterMap id, q = o.path) s'.disk := by
  induction makes generalizing s outputs with
  | nil =>
    rw [List.mapM_nil, on_pure] at h
    rw [(Prod.mk.inj h).2]
    exact .refl _ _
  | cons make makes ih =>
    obtain ⟨output, rest, s₁, hfirst, hrest, rfl⟩ := on_mapM_cons_eq_ok.mp h
    obtain ⟨product, -, -, hreceives, -⟩ := of_putOut hfirst
    refine (hreceives.mono ?_).trans ((ih hrest).mono ?_)
    · rintro q ⟨o, rfl, rfl⟩
      exact ⟨o, List.mem_filterMap.mpr ⟨some o, List.mem_cons_self, rfl⟩, rfl⟩
    · rintro q ⟨o, ho, rfl⟩
      obtain ⟨output', hmem, houtput'⟩ := List.mem_filterMap.mp ho
      exact ⟨o, List.mem_filterMap.mpr ⟨output', List.mem_cons_of_mem _ hmem, houtput'⟩, rfl⟩

/-- What is made one after the other is there in the end if no two places are one. -/
lemma made_of_mapM_putOut (h : (makes.mapM putOut).on s = (.ok outputs, s'))
    (hapart : (outputs.filterMap id).Pairwise fun a b => a.path.location ≠ b.path.location) :
    List.Forall₂ (Made s.disk s'.disk) makes outputs := by
  induction makes generalizing s outputs with
  | nil =>
    rw [List.mapM_nil, on_pure] at h
    rw [← Except.ok.inj (Prod.mk.inj h).1]
    exact .nil
  | cons make makes ih =>
    obtain ⟨output, rest, s₁, hfirst, hrest, rfl⟩ := on_mapM_cons_eq_ok.mp h
    obtain ⟨product, hmake, hpath, hreceives, hwrote⟩ := of_putOut hfirst
    have hlater := receives_of_mapM_putOut hrest
    have hother : ∀ o ∈ output, ∀ o' ∈ rest.filterMap id, o.path.location ≠ o'.path.location := by
      rintro o rfl o' ho'
      exact (List.pairwise_cons.mp hapart).1 o' ho'
    have hmidway : s.disk.Midway s'.disk s₁.disk := by
      refine hreceives.midway hlater ?_
      rintro p q ⟨o, ho, rfl⟩ ⟨o', ho', rfl⟩
      exact hother o ho o' ho'
    refine .cons ⟨s.disk, product, .start (hreceives.grows.trans hlater.grows), hmake, hpath, ?_⟩
      ?_
    -- no later output takes the place of the first
    · rintro made rfl
      refine hlater.entry_eq (hwrote made rfl) ?_
      rintro q ⟨o', ho', rfl⟩
      obtain ⟨o, rfl, ho⟩ := Option.map_eq_some_iff.mp hpath
      have hne := hother o rfl o' ho'
      rw [ho] at hne
      exact hne.symm
    · refine (ih hrest (hapart.sublist ?_)).imp ?_
      · cases output with
        | none => exact List.Sublist.refl _
        | some o => exact List.sublist_cons_self _ _
      -- the later makers were asked on disks on the way from that of `s₁`, itself on the way
      · rintro make output ⟨e, product, he, hmade⟩
        exact ⟨e, product, hmidway.trans he, hmade⟩

/-- Every maker was asked on some disk, and its output is named after its answer. -/
lemma exists_of_mapM_putOut (h : (makes.mapM putOut).on s = (.ok outputs, s')) :
    List.Forall₂ (fun make output => ∃ e product, make e = .ok product ∧
      output.map Output.path = product.map Product.path) makes outputs := by
  induction makes generalizing s outputs with
  | nil =>
    rw [List.mapM_nil, on_pure] at h
    rw [← Except.ok.inj (Prod.mk.inj h).1]
    exact .nil
  | cons make makes ih =>
    obtain ⟨output, rest, s₁, hfirst, hrest, rfl⟩ := on_mapM_cons_eq_ok.mp h
    obtain ⟨product, hmake, hpath, -⟩ := of_putOut hfirst
    exact .cons ⟨s.disk, product, hmake, hpath⟩ (ih hrest)

/-! ### Making the same again -/

/-- Whether what a maker would make on a disk is there, where it has been reported. -/
def UpToDate (e : Disk) (make : Disk → Except Fault (Option Product)) (output : Option Output) :
    Prop :=
  ∃ product, make e = .ok product ∧ output.map Output.path = product.map Product.path ∧
    ∀ made ∈ product, e.entry made.path = .ok (.file made.content)

lemma on_putOut_of_upToDate (h : UpToDate s.disk make output) :
    (putOut make).on s = (.ok (output.map Output.settled), s) := by
  obtain ⟨product, hmake, hpath, hthere⟩ := h
  refine SessionM.on_consult_bind_eq_ok.mpr ⟨product, hmake, ?_⟩
  cases product with
  | none =>
    rw [Option.map_eq_none_iff.mp hpath]
    rfl
  | some made =>
    obtain ⟨o, rfl, ho⟩ := Option.map_eq_some_iff.mp hpath
    refine on_bind_eq_ok.mpr ⟨_, s, Output.on_emit_of_entry (hthere made rfl), ?_⟩
    rw [Option.map_some, Output.settled, ho]
    rfl

/-- Where everything is up to date, nothing is written and all is reported as before. -/
lemma on_mapM_putOut_of_upToDate (h : List.Forall₂ (UpToDate s.disk) makes outputs) :
    (makes.mapM putOut).on s = (.ok (outputs.map (Option.map Output.settled)), s) := by
  induction h with
  | nil => rfl
  | cons hfirst _ ih =>
    exact on_mapM_cons_eq_ok.mpr ⟨_, _, s, on_putOut_of_upToDate hfirst, ih, rfl⟩

/-- A file that was made is there, and as it was made. -/
lemma Made.isFile {o : Output} (h : Made d d' make (some o)) : d'.isFile o.path = true := by
  obtain ⟨s, product, -, -, hpath, hthere⟩ := h
  obtain ⟨made, rfl, hmade⟩ := Option.map_eq_some_iff.mp hpath.symm
  rw [← hmade]
  exact Disk.isFile_iff.mpr ⟨made.content, hthere made rfl⟩

lemma Made.upToDate (h : Made d d' make output)
    (hagain : ∀ s product, d.Midway d' s → make s = .ok product → make e = .ok product)
    (hkeeps : ∀ o ∈ output, e.entry o.path = d'.entry o.path) : UpToDate e make output := by
  obtain ⟨s, product, hs, hmake, hpath, hthere⟩ := h
  refine ⟨product, hagain s product hs hmake, hpath, ?_⟩
  rintro made rfl
  obtain ⟨o, rfl, ho⟩ := Option.map_eq_some_iff.mp hpath
  have hentry := hkeeps o rfl
  rw [ho] at hentry
  exact hentry.trans (hthere made rfl)

end Build

end AddonBuild
