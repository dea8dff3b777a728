import AddonBuild.Proofs.Vendor.Visiting
import Mathlib.Data.List.Infix
import Mathlib.Data.Set.Card

/-!
# Calls of a walk

A walk as calls that wait for one another. A call follows one request. If that records a package,
the call makes a call for every request of the package before the next one is made behind it, and
otherwise it makes none. Whatever the disk holds, the calls come to an end: those that make others
have each recorded a name that was not recorded before, and only as many names are listed on the
disk.
-/

namespace AddonBuild

namespace Vendor

variable {d : Disk} {own : Path} {exclude : List String} {known packages : List Package}
  {pending : List Request}

/-! ### Calls -/

/-- A request to follow, and the packages that are recorded when the call for it is made. -/
structure Call where
  request : Request
  known : List Package

/-- The package that a call records, if it records one. Only then it makes calls of its own. -/
def Call.recorded? (d : Disk) (exclude : List String) (c : Call) : Option Package :=
  match follow d exclude c.known c.request with
  | .ok (.recorded p _) => some p
  | _ => none

/-- The packages that are recorded when a call has recorded its own. -/
def Call.after (d : Disk) (exclude : List String) (c : Call) : List Package :=
  c.known ++ (c.recorded? d exclude).toList

/-- The calls that are made for some requests, in the order in which they are made, and what they
come to. There is a rule for each way in which the call for the first request can end. -/
inductive Runs (d : Disk) (exclude : List String) :
    List Package → List Request → List Call → Except Fault (List Package) → Prop where
  | nil {known : List Package} : Runs d exclude known [] [] (.ok known)
  | fails {known : List Package} {r : Request} {rest : List Request} {fault : Fault}
      (hr : follow d exclude known r = .error fault) :
      Runs d exclude known (r :: rest) [⟨r, known⟩] (.error fault)
  | settled {known : List Package} {r : Request} {rest : List Request} {calls : List Call}
      {result : Except Fault (List Package)} (hr : follow d exclude known r = .ok .settled)
      (hrest : Runs d exclude known rest calls result) :
      Runs d exclude known (r :: rest) (⟨r, known⟩ :: calls) result
  | breaks {known : List Package} {r : Request} {p : Package} {more rest : List Request}
      {inner : List Call} {fault : Fault} (hr : follow d exclude known r = .ok (.recorded p more))
      (hinner : Runs d exclude (known ++ [p]) more inner (.error fault)) :
      Runs d exclude known (r :: rest) (⟨r, known⟩ :: inner) (.error fault)
  | recorded {known between : List Package} {r : Request} {p : Package}
      {more rest : List Request} {inner outer : List Call}
      {result : Except Fault (List Package)}
      (hr : follow d exclude known r = .ok (.recorded p more))
      (hinner : Runs d exclude (known ++ [p]) more inner (.ok between))
      (houter : Runs d exclude between rest outer result) :
      Runs d exclude known (r :: rest) (⟨r, known⟩ :: (inner ++ outer)) result

variable {calls : List Call} {result : Except Fault (List Package)}

lemma Call.recorded?_eq_some {c : Call} {p : Package} :
    c.recorded? d exclude = some p ↔
      ∃ more, follow d exclude c.known c.request = .ok (.recorded p more) := by
  unfold Call.recorded?
  generalize follow d exclude c.known c.request = answer
  constructor
  · intro h
    split at h
    next q more =>
      obtain rfl := Option.some.inj h
      exact ⟨more, rfl⟩
    next => cases h
  · rintro ⟨more, rfl⟩
    rfl

lemma Call.recorded?_of_settled {r : Request} (h : follow d exclude known r = .ok .settled) :
    Call.recorded? d exclude ⟨r, known⟩ = none := by
  unfold Call.recorded?
  dsimp only
  rw [h]

lemma Call.recorded?_of_recorded {r : Request} {p : Package} {more : List Request}
    (h : follow d exclude known r = .ok (.recorded p more)) :
    Call.recorded? d exclude ⟨r, known⟩ = some p :=
  Call.recorded?_eq_some.mpr ⟨more, h⟩

lemma Call.after_of_settled {r : Request} (h : follow d exclude known r = .ok .settled) :
    Call.after d exclude ⟨r, known⟩ = known := by
  rw [Call.after, Call.recorded?_of_settled h]
  exact List.append_nil known

lemma Call.after_of_recorded {r : Request} {p : Package} {more : List Request}
    (h : follow d exclude known r = .ok (.recorded p more)) :
    Call.after d exclude ⟨r, known⟩ = known ++ [p] := by
  rw [Call.after, Call.recorded?_of_recorded h]
  rfl

/-! ### What calls leave -/

/-- Calls that succeed have visited their requests. -/
lemma Runs.visits (h : Runs d exclude known pending calls (.ok packages)) :
    ∃ new, packages = known ++ new ∧ Visits d exclude known pending new := by
  generalize hresult : (.ok packages : Except Fault (List Package)) = result at h
  induction h generalizing packages with
  | nil =>
    obtain rfl := Except.ok.inj hresult
    exact ⟨[], (List.append_nil _).symm, .nil⟩
  | fails => cases hresult
  | settled hr hrest ih =>
    obtain ⟨new, rfl, hvisits⟩ := ih hresult
    exact ⟨new, rfl, .settled (follow_eq_ok.mp hr) hvisits⟩
  | breaks => cases hresult
  | @recorded known between r p more rest inner outer result hr hinner houter ihinner ihouter =>
    obtain ⟨within, rfl, hwithin⟩ := ihinner rfl
    obtain ⟨new, rfl, hnew⟩ := ihouter hresult
    refine ⟨p :: (within ++ new), by simp, .recorded (follow_eq_ok.mp hr) hwithin ?_⟩
    simpa using hnew

/-- What is recorded stays. -/
lemma Runs.isPrefix_known (h : Runs d exclude known pending calls (.ok packages)) :
    known <+: packages := by
  obtain ⟨new, rfl, -⟩ := h.visits
  exact List.prefix_append known new

/-- A call finds all that was recorded before it. -/
lemma Runs.isPrefix_known_of_mem (h : Runs d exclude known pending calls result) :
    ∀ c ∈ calls, known <+: c.known := by
  induction h with
  | nil => exact List.forall_mem_nil _
  | fails => exact List.forall_mem_singleton.mpr (List.prefix_refl _)
  | settled _ _ ih => exact List.forall_mem_cons.mpr ⟨List.prefix_refl _, ih⟩
  | breaks _ _ ih =>
    refine List.forall_mem_cons.mpr ⟨List.prefix_refl _, fun c hc => ?_⟩
    exact (List.prefix_append _ _).trans (ih c hc)
  | recorded _ hinner _ ihinner ihouter =>
    refine List.forall_mem_cons.mpr ⟨List.prefix_refl _, fun c hc => ?_⟩
    rcases List.mem_append.mp hc with hc | hc
    · exact (List.prefix_append _ _).trans (ihinner c hc)
    · exact ((List.prefix_append _ _).trans hinner.isPrefix_known).trans (ihouter c hc)

/-- What a call has recorded is among the packages in the end. -/
lemma Runs.isPrefix_after (h : Runs d exclude known pending calls (.ok packages)) :
    ∀ c ∈ calls, c.after d exclude <+: packages := by
  generalize hresult : (.ok packages : Except Fault (List Package)) = result at h
  induction h generalizing packages with
  | nil => exact List.forall_mem_nil _
  | fails => cases hresult
  | settled hr hrest ih =>
    refine List.forall_mem_cons.mpr ⟨?_, ih hresult⟩
    rw [Call.after_of_settled hr]
    exact (hresult ▸ hrest).isPrefix_known
  | breaks => cases hresult
  | recorded hr hinner houter ihinner ihouter =>
    have hlast := (hresult ▸ houter).isPrefix_known
    refine List.forall_mem_cons.mpr ⟨?_, fun c hc => ?_⟩
    · rw [Call.after_of_recorded hr]
      exact hinner.isPrefix_known.trans hlast
    · rcases List.mem_append.mp hc with hc | hc
      · exact (ihinner rfl c hc).trans hlast
      · exact ihouter hresult c hc

/-- What a call has recorded is there at every later call. -/
lemma Runs.pairwise (h : Runs d exclude known pending calls result) :
    calls.Pairwise fun first second => first.after d exclude <+: second.known := by
  induction h with
  | nil => exact .nil
  | fails => exact List.pairwise_singleton _ _
  | settled hr hrest ih =>
    refine List.pairwise_cons.mpr ⟨fun c hc => ?_, ih⟩
    rw [Call.after_of_settled hr]
    exact hrest.isPrefix_known_of_mem c hc
  | breaks hr hinner ih =>
    refine List.pairwise_cons.mpr ⟨fun c hc => ?_, ih⟩
    rw [Call.after_of_recorded hr]
    exact hinner.isPrefix_known_of_mem c hc
  | recorded hr hinner houter ihinner ihouter =>
    refine List.pairwise_cons.mpr ⟨fun c hc => ?_, ?_⟩
    · rw [Call.after_of_recorded hr]
      rcases List.mem_append.mp hc with hc | hc
      · exact hinner.isPrefix_known_of_mem c hc
      · exact hinner.isPrefix_known.trans (houter.isPrefix_known_of_mem c hc)
    · refine List.pairwise_append.mpr ⟨ihinner, ihouter, fun b hb c hc => ?_⟩
      exact (hinner.isPrefix_after b hb).trans (houter.isPrefix_known_of_mem c hc)

/-- The packages in the end are those that the calls have recorded, in their order. -/
lemma Runs.packages_eq (h : Runs d exclude known pending calls (.ok packages)) :
    packages = known ++ calls.filterMap (Call.recorded? d exclude) := by
  generalize hresult : (.ok packages : Except Fault (List Package)) = result at h
  induction h generalizing packages with
  | nil => exact (Except.ok.inj hresult).trans (List.append_nil _).symm
  | fails => cases hresult
  | settled hr _ ih => rw [ih hresult, List.filterMap_cons_none (Call.recorded?_of_settled hr)]
  | breaks => cases hresult
  | recorded hr _ _ ihinner ihouter =>
    rw [ihouter hresult, ihinner rfl, List.filterMap_cons_some (Call.recorded?_of_recorded hr),
      List.filterMap_append]
    simp

/-! ### Names -/

/-- Whether a file describes the project, or a package that is installed for it or for another. -/
def IsManifest (own file : Path) : Prop :=
  file = own ∨ ∃ package directory, file = installed package directory

/-- Whether a name is among the dependencies that some description on the disk lists. -/
def IsListed (d : Disk) (own : Path) (name : String) : Prop :=
  ∃ file description, IsManifest own file ∧ Document.read d file = .ok description ∧
    name ∈ Document.dependencyNames description

lemma IsListed.mem_namesOn {name : String} (h : IsListed d own name) : name ∈ namesOn d := by
  obtain ⟨file, description, -, hread, hname⟩ := h
  exact mem_namesOn_of_read hread hname

lemma finite_isListed (d : Disk) (own : Path) : {name | IsListed d own name}.Finite :=
  (namesOn d).finite_toSet.subset fun _ => IsListed.mem_namesOn

lemma isListed_of_mem_requests {file start : Path} {description : Json}
    (hfile : IsManifest own file) (hread : Document.read d file = .ok description) :
    ∀ r ∈ requests exclude description start, IsListed d own r.name := by
  intro r hr
  obtain ⟨name, hname, rfl⟩ := List.mem_map.mp hr
  exact ⟨file, description, hfile, hread, (List.mem_filter.mp hname).1⟩

lemma isListed_of_recorded {r : Request} {p : Package} {more : List Request}
    (h : follow d exclude known r = .ok (.recorded p more)) :
    ∀ q ∈ more, IsListed d own q.name := by
  cases follow_eq_ok.mp h with
  | first hfind _ hread _ =>
    obtain ⟨directory, -, hfile⟩ := List.mem_map.mp (List.mem_of_find?_eq_some hfind)
    exact isListed_of_mem_requests (.inr ⟨_, directory, hfile.symm⟩) hread

/-- Every name that a call looks for is listed on the disk. -/
lemma Runs.isListed (h : Runs d exclude known pending calls result)
    (hpending : ∀ r ∈ pending, IsListed d own r.name) :
    ∀ c ∈ calls, IsListed d own c.request.name := by
  induction h with
  | nil => exact List.forall_mem_nil _
  | fails => exact List.forall_mem_singleton.mpr (hpending _ List.mem_cons_self)
  | settled _ _ ih =>
    obtain ⟨hr, hrest⟩ := List.forall_mem_cons.mp hpending
    exact List.forall_mem_cons.mpr ⟨hr, ih hrest⟩
  | breaks hr _ ih =>
    obtain ⟨hfirst, -⟩ := List.forall_mem_cons.mp hpending
    exact List.forall_mem_cons.mpr ⟨hfirst, ih (isListed_of_recorded hr)⟩
  | recorded hr _ _ ihinner ihouter =>
    obtain ⟨hfirst, hrest⟩ := List.forall_mem_cons.mp hpending
    refine List.forall_mem_cons.mpr ⟨hfirst, fun c hc => ?_⟩
    rcases List.mem_append.mp hc with hc | hc
    · exact ihinner (isListed_of_recorded hr) c hc
    · exact ihouter hrest c hc

/-- A call records a package under the name that it looks for, which is not recorded before. -/
lemma Call.fresh {c : Call} {p : Package} (h : c.recorded? d exclude = some p) :
    p.name = c.request.name ∧ ∀ q ∈ c.known, q.name ≠ p.name := by
  obtain ⟨more, hstep⟩ := Call.recorded?_eq_some.mp h
  obtain ⟨hname, hnew, -⟩ := of_follow_eq_recorded hstep
  exact ⟨hname, hname ▸ hnew⟩

/-- No two calls record the same name. -/
lemma Runs.nodup_names (h : Runs d exclude known pending calls result) :
    ((calls.filterMap (Call.recorded? d exclude)).map Package.name).Nodup := by
  refine List.pairwise_map.mpr (List.pairwise_filterMap.mpr ?_)
  refine h.pairwise.imp ?_
  intro first second hprefix p hp q hq
  -- the first package is recorded when the second call is made
  have hknown : p ∈ second.known := by
    refine hprefix.subset ?_
    rw [Call.after, hp]
    exact List.mem_append_right _ (List.mem_singleton_self p)
  exact (Call.fresh hq).2 p hknown

/-- At most as many calls record a package as there are different names that are listed. -/
lemma Runs.length_recorded_le (h : Runs d exclude known pending calls result)
    (hpending : ∀ r ∈ pending, IsListed d own r.name) :
    (calls.filterMap (Call.recorded? d exclude)).length ≤ {name | IsListed d own name}.ncard := by
  have hsub : ∀ name ∈ (calls.filterMap (Call.recorded? d exclude)).map Package.name,
      IsListed d own name := by
    intro name hname
    obtain ⟨p, hp, rfl⟩ := List.mem_map.mp hname
    obtain ⟨c, hc, hrecorded⟩ := List.mem_filterMap.mp hp
    rw [(Call.fresh hrecorded).1]
    exact h.isListed hpending c hc
  calc (calls.filterMap (Call.recorded? d exclude)).length
      = ((calls.filterMap (Call.recorded? d exclude)).map Package.name).toFinset.card := by
        rw [List.toFinset_card_of_nodup h.nodup_names, List.length_map]
    _ = Set.ncard {name |
          name ∈ (calls.filterMap (Call.recorded? d exclude)).map Package.name} := by
        rw [← Set.ncard_coe_finset, List.coe_toFinset]
    _ ≤ {name | IsListed d own name}.ncard := Set.ncard_le_ncard hsub (finite_isListed d own)

/-! ### All runs end, and alike -/

lemma length_unrecorded_le {first second : List Package} (h : first <+: second) :
    (unrecorded d second).length ≤ (unrecorded d first).length := by
  refine (List.monotone_filter_right (namesOn d) fun name hname => ?_).length_le
  rw [List.all_eq_true] at hname ⊢
  exact fun p hp => hname p (h.subset hp)

/-- There are calls that come to an end. The induction is on the names that are not recorded yet,
and inside of it on the requests. -/
lemma exists_runs (hpending : ∀ r ∈ pending, IsListed d own r.name) :
    ∃ calls result, Runs d exclude known pending calls result := by
  induction hn : (unrecorded d known).length using Nat.strong_induction_on
    generalizing known pending with
  | _ n ih =>
    induction pending with
    | nil => exact ⟨[], .ok known, .nil⟩
    | cons r rest ihrest =>
      obtain ⟨hfirst, hrest⟩ := List.forall_mem_cons.mp hpending
      cases hstep : follow d exclude known r with
      | error fault => exact ⟨[⟨r, known⟩], .error fault, .fails hstep⟩
      | ok step =>
        cases step with
        | settled =>
          obtain ⟨calls, result, hcalls⟩ := ihrest hrest
          exact ⟨_, result, .settled hstep hcalls⟩
        | recorded p more =>
          obtain ⟨hname, hnew, -⟩ := of_follow_eq_recorded hstep
          have hlt : (unrecorded d (known ++ [p])).length < n := by
            rw [← hn]
            exact length_unrecorded_lt (hname ▸ hfirst.mem_namesOn) (hname ▸ hnew)
          obtain ⟨inner, found, hinner⟩ := ih _ hlt (isListed_of_recorded hstep) rfl
          cases found with
          | error fault => exact ⟨_, .error fault, .breaks hstep hinner⟩
          | ok between =>
            have hle := length_unrecorded_le (d := d) hinner.isPrefix_known
            obtain ⟨outer, result, houter⟩ := ih _ (Nat.lt_of_le_of_lt hle hlt) hrest rfl
            exact ⟨_, result, .recorded hstep hinner houter⟩

/-- Calls are made in one way only. -/
lemma Runs.unique (h : Runs d exclude known pending calls result) {calls' : List Call}
    {result' : Except Fault (List Package)} (h' : Runs d exclude known pending calls' result') :
    calls' = calls ∧ result' = result := by
  -- the step that is next decides how the calls go on, and it is a function of the disk
  induction h generalizing calls' result' with
  | nil =>
    cases h'
    exact ⟨rfl, rfl⟩
  | fails hr =>
    cases h' with
    | fails hr' =>
      cases hr.symm.trans hr'
      exact ⟨rfl, rfl⟩
    | settled hr' | breaks hr' | recorded hr' => cases hr.symm.trans hr'
  | settled hr _ ih =>
    cases h' with
    | settled _ hrest' =>
      obtain ⟨rfl, rfl⟩ := ih hrest'
      exact ⟨rfl, rfl⟩
    | fails hr' | breaks hr' | recorded hr' => cases hr.symm.trans hr'
  | breaks hr _ ih =>
    cases h' with
    | breaks hr' hinner' =>
      cases hr.symm.trans hr'
      obtain ⟨rfl, hfault⟩ := ih hinner'
      exact ⟨rfl, hfault⟩
    | recorded hr' hinner' _ =>
      cases hr.symm.trans hr'
      cases (ih hinner').2
    | fails hr' | settled hr' => cases hr.symm.trans hr'
  | recorded hr _ _ ihinner ihouter =>
    cases h' with
    | recorded hr' hinner' houter' =>
      cases hr.symm.trans hr'
      obtain ⟨rfl, hbetween⟩ := ihinner hinner'
      obtain rfl := Except.ok.inj hbetween
      obtain ⟨rfl, rfl⟩ := ihouter houter'
      exact ⟨rfl, rfl⟩
    | breaks hr' hinner' =>
      cases hr.symm.trans hr'
      cases (ihinner hinner').2
    | fails hr' | settled hr' => cases hr.symm.trans hr'

/-! ### The walk -/

lemma walk_of_error {r : Request} {rest : List Request} {fault : Fault}
    (h : follow d exclude known r = .error fault) (hp : ∀ q ∈ r :: rest, q.name ∈ namesOn d) :
    walk d exclude known (r :: rest) hp = .error fault := by
  unfold walk
  split
  case h_1 _ hfault => rw [Except.error.inj (hfault.symm.trans h)]
  case h_2 hsettled => cases h.symm.trans hsettled
  case h_3 _ _ hrecorded => cases h.symm.trans hrecorded

/-- Where a call fails, the walk fails, whatever is pending behind it. -/
lemma Runs.walk_append_eq_error {fault : Fault} {first : List Request}
    (h : Runs d exclude known first calls (.error fault)) (rest : List Request)
    (hp : ∀ q ∈ first ++ rest, q.name ∈ namesOn d) :
    walk d exclude known (first ++ rest) hp = .error fault := by
  generalize hresult : (.error fault : Except Fault (List Package)) = result at h
  induction h generalizing rest with
  | nil => cases hresult
  | fails hr =>
    obtain rfl := Except.error.inj hresult
    exact walk_of_error hr hp
  | settled hr _ ih =>
    simp only [List.cons_append] at hp ⊢
    rw [walk_of_settled hr, ih rest _ hresult]
  | breaks hr _ ih =>
    simp only [List.cons_append] at hp ⊢
    rw [walk_of_recorded hr, ih _ _ hresult]
  | recorded hr hinner _ _ ihouter =>
    obtain ⟨new, rfl, hvisits⟩ := hinner.visits
    simp only [List.cons_append] at hp ⊢
    rw [walk_of_recorded hr, walk_append_of_visits hvisits, ihouter rest _ hresult]

/-- A walk comes to what its calls come to. -/
lemma Runs.walk_eq (h : Runs d exclude known pending calls result)
    (hp : ∀ q ∈ pending, q.name ∈ namesOn d) : walk d exclude known pending hp = result := by
  have hp' : ∀ q ∈ pending ++ [], q.name ∈ namesOn d := by simpa using hp
  have hnil : walk d exclude known pending hp = walk d exclude known (pending ++ []) hp' := by
    simp only [List.append_nil]
  rw [hnil]
  cases result with
  | error fault => exact h.walk_append_eq_error [] hp'
  | ok packages =>
    obtain ⟨new, rfl, hvisits⟩ := h.visits
    rw [walk_append_of_visits hvisits]
    unfold walk
    rfl

/-- What calls do on the way to a result: each looks for a name that is listed on the disk; what one
records has a new name, is never lost and never changed; and no more calls record a package than
there are names listed. -/
structure IsOrderly (d : Disk) (own : Path) (exclude : List String) (calls : List Call)
    (result : Except Fault (List Package)) : Prop where
  listed : ∀ c ∈ calls, IsListed d own c.request.name
  fresh : ∀ c ∈ calls, ∀ p, c.recorded? d exclude = some p →
    p.name = c.request.name ∧ ∀ q ∈ c.known, q.name ≠ p.name
  kept : calls.Pairwise fun first second => first.after d exclude <+: second.known
  left : ∀ packages, result = .ok packages →
    packages = calls.filterMap (Call.recorded? d exclude) ∧
      ∀ c ∈ calls, c.after d exclude <+: packages
  bound : (calls.filterMap (Call.recorded? d exclude)).length ≤ {name | IsListed d own name}.ncard

lemma Runs.isOrderly (h : Runs d exclude [] pending calls result)
    (hpending : ∀ r ∈ pending, IsListed d own r.name) :
    IsOrderly d own exclude calls result where
  listed := h.isListed hpending
  fresh _ _ _ := Call.fresh
  kept := h.pairwise
  left packages hresult := by
    subst hresult
    exact ⟨h.packages_eq, h.isPrefix_after⟩
  bound := h.length_recorded_le hpending

/-- Finding the packages that a project needs comes to an end on every disk: if the project has a
description, there are calls for its dependencies that end, one way only, in what `load` answers. -/
theorem load_eq_of_runs (d : Disk) (file : Path) (exclude : List String) :
    (∃ fault, Document.read d ((⟨"/"⟩ : Path).absolutize file) = .error fault ∧
      load d file exclude = .error fault) ∨
    ∃ description calls result,
      Document.read d ((⟨"/"⟩ : Path).absolutize file) = .ok description ∧
      Runs d (defaultExclude ++ exclude) []
        (requests (defaultExclude ++ exclude) description
          ((⟨"/"⟩ : Path).absolutize file).directory) calls result ∧
      (∀ calls' result', Runs d (defaultExclude ++ exclude) []
        (requests (defaultExclude ++ exclude) description
          ((⟨"/"⟩ : Path).absolutize file).directory) calls' result' →
            calls' = calls ∧ result' = result) ∧
      load d file exclude = result.map Vendor.mk ∧
      IsOrderly d ((⟨"/"⟩ : Path).absolutize file) (defaultExclude ++ exclude) calls
        result := by
  unfold load
  dsimp only
  split
  case h_1 fault hread => exact .inl ⟨fault, hread, rfl⟩
  case h_2 description hread =>
    have hpending : ∀ r ∈ requests (defaultExclude ++ exclude) description
        ((⟨"/"⟩ : Path).absolutize file).directory,
        IsListed d ((⟨"/"⟩ : Path).absolutize file) r.name :=
      isListed_of_mem_requests (.inl rfl) hread
    obtain ⟨calls, result, hruns⟩ : ∃ calls result, Runs d (defaultExclude ++ exclude) []
        (requests (defaultExclude ++ exclude) description
          ((⟨"/"⟩ : Path).absolutize file).directory) calls result :=
      exists_runs hpending
    refine .inr ⟨description, calls, result, hread, hruns, fun _ _ => hruns.unique, ?_,
      hruns.isOrderly hpending⟩
    rw [hruns.walk_eq]

end Vendor

end AddonBuild
