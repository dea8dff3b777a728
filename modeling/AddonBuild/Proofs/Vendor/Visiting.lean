import AddonBuild.Proofs.Disk.Locating
import AddonBuild.Proofs.Steps
import AddonBuild.Vendor.Closure

/-!
# A walk as depth-first visits

`Follows` says what a request comes to, with one constructor for each outcome. `Visits` is the
depth-first order itself: the requests of a package that is recorded for the first time are
visited before the ones behind its own. A walk that comes to an end has visited its requests in
this order.
-/

namespace AddonBuild

namespace Vendor

variable {d : Disk} {exclude : List String}

/-! ### Following a request -/

/-- What a request comes to when some packages are recorded already. -/
inductive Follows (d : Disk) (exclude : List String) (known : List Package) (r : Request) :
    Step → Prop where
  | again {file : Path} {p : Package} (hfile : find? d r.name r.start = some file)
      (hknown : known.find? (·.name = r.name) = some p)
      (hsame : p.directory.same file.directory = true) : Follows d exclude known r .settled
  | absent {file : Path} {description : Json} (hfile : find? d r.name r.start = some file)
      (hnew : ∀ p ∈ known, p.name ≠ r.name) (hread : Document.read d file = .ok description)
      (hexports : Package.exports? r.name description = .ok none) :
      Follows d exclude known r .settled
  | first {file : Path} {description : Json} {exports : List (String × String)}
      (hfile : find? d r.name r.start = some file) (hnew : ∀ p ∈ known, p.name ≠ r.name)
      (hread : Document.read d file = .ok description)
      (hexports : Package.exports? r.name description = .ok (some exports)) :
      Follows d exclude known r
        (.recorded ⟨r.name, file.directory, Package.treeGlobs exports, exports⟩
          (requests exclude description file.directory))

lemma follow_eq_ok {known : List Package} {r : Request} {step : Step} :
    follow d exclude known r = .ok step ↔ Follows d exclude known r step := by
  constructor
  · intro h
    unfold follow at h
    split at h
    case h_1 file hfile =>
      simp only at h
      split at h
      case h_1 p hknown =>
        split_ifs at h with hsame
        · cases h
          exact .again hfile hknown hsame
      case h_2 hnone =>
        -- the name is new, so the description decides whether there is anything to record
        have hnew : ∀ p ∈ known, p.name ≠ r.name := by simpa using hnone
        obtain ⟨description, hread, h⟩ := bind_eq_ok.mp h
        obtain ⟨found, hexports, h⟩ := bind_eq_ok.mp h
        cases found with
        | none =>
          cases h
          exact .absent hfile hnew hread hexports
        | some exports =>
          cases h
          exact .first hfile hnew hread hexports
    case h_2 => cases h
  · intro h
    cases h with
    | again hfile hknown hsame =>
      unfold follow
      rw [hfile]
      simp only [hknown]
      rw [if_pos hsame]
      rfl
    | absent hfile hnew hread hexports =>
      have hnone : known.find? (·.name = r.name) = none := by simpa using hnew
      unfold follow
      rw [hfile]
      simp only [hnone]
      exact bind_eq_ok.mpr ⟨_, hread, bind_eq_ok.mpr ⟨_, hexports, rfl⟩⟩
    | first hfile hnew hread hexports =>
      have hnone : known.find? (·.name = r.name) = none := by simpa using hnew
      unfold follow
      rw [hfile]
      simp only [hnone]
      exact bind_eq_ok.mpr ⟨_, hread, bind_eq_ok.mpr ⟨_, hexports, rfl⟩⟩

/-! ### Visiting requests -/

/-- The packages that requests record for the first time, depth first, when some are recorded
already. -/
inductive Visits (d : Disk) (exclude : List String) :
    List Package → List Request → List Package → Prop where
  | nil {known : List Package} : Visits d exclude known [] []
  | settled {known new : List Package} {r : Request} {rest : List Request}
      (hr : Follows d exclude known r .settled) (hrest : Visits d exclude known rest new) :
      Visits d exclude known (r :: rest) new
  | recorded {known inner outer : List Package} {r : Request} {p : Package}
      {more rest : List Request} (hr : Follows d exclude known r (.recorded p more))
      (hinner : Visits d exclude (known ++ [p]) more inner)
      (houter : Visits d exclude (known ++ p :: inner) rest outer) :
      Visits d exclude known (r :: rest) (p :: (inner ++ outer))

/-- Visiting two lists of requests is visiting the one and then the other. -/
lemma Visits.of_append {first second : List Request} {known new : List Package}
    (h : Visits d exclude known (first ++ second) new) :
    ∃ inner outer, new = inner ++ outer ∧ Visits d exclude known first inner ∧
      Visits d exclude (known ++ inner) second outer := by
  induction first generalizing known new with
  | nil => exact ⟨[], new, rfl, .nil, by simpa using h⟩
  | cons r first ih =>
    cases h with
    | settled hr hrest =>
      obtain ⟨inner, outer, rfl, hfirst, hsecond⟩ := ih hrest
      exact ⟨inner, outer, rfl, .settled hr hfirst, hsecond⟩
    | @recorded _ within _ _ p _ _ hr hinner houter =>
      obtain ⟨inner, outer, rfl, hfirst, hsecond⟩ := ih houter
      refine ⟨p :: (within ++ inner), outer, by simp, .recorded hr hinner hfirst, ?_⟩
      simpa using hsecond

/-- A walk that ends has visited its requests. -/
lemma exists_visits_of_walk {known pending packages hp}
    (h : walk d exclude known pending hp = .ok packages) :
    ∃ new, packages = known ++ new ∧ Visits d exclude known pending new := by
  fun_induction walk d exclude known pending hp with
  | case1 known =>
    cases h
    exact ⟨[], (List.append_nil _).symm, .nil⟩
  | case2 => cases h
  | case3 known r rest hp hrest hstep _ ih =>
    obtain ⟨new, rfl, hvisits⟩ := ih h
    exact ⟨new, rfl, .settled (follow_eq_ok.mp hstep) hvisits⟩
  | case4 known r rest hp hrest p more hstep _ _ _ ih =>
    obtain ⟨new, rfl, hvisits⟩ := ih h
    obtain ⟨inner, outer, rfl, hinner, houter⟩ := hvisits.of_append
    refine ⟨p :: (inner ++ outer), by simp, .recorded (follow_eq_ok.mp hstep) hinner ?_⟩
    simpa using houter

lemma walk_of_settled {known : List Package} {r : Request} {rest : List Request}
    (h : follow d exclude known r = .ok .settled) (hp : ∀ q ∈ r :: rest, q.name ∈ namesOn d) :
    walk d exclude known (r :: rest) hp =
      walk d exclude known rest fun q hq => hp q (List.mem_cons_of_mem _ hq) := by
  conv_lhs => unfold walk
  split
  case h_1 _ hfault => cases h.symm.trans hfault
  case h_2 => rfl
  case h_3 _ _ hrecorded => cases h.symm.trans hrecorded

lemma walk_of_recorded {known : List Package} {r : Request} {rest more : List Request} {p : Package}
    (h : follow d exclude known r = .ok (.recorded p more))
    (hp : ∀ q ∈ r :: rest, q.name ∈ namesOn d) :
    walk d exclude known (r :: rest) hp =
      walk d exclude (known ++ [p]) (more ++ rest) fun q hq =>
        (List.mem_append.mp hq).elim ((of_follow_eq_recorded h).2.2 q)
          fun hq => hp q (List.mem_cons_of_mem _ hq) := by
  conv_lhs => unfold walk
  split
  case h_1 _ hfault => cases h.symm.trans hfault
  case h_2 hsettled => cases h.symm.trans hsettled
  case h_3 _ _ hrecorded =>
    obtain ⟨rfl, rfl⟩ := Step.recorded.inj (Except.ok.inj (h.symm.trans hrecorded))
    rfl

/-- Requests that can be visited are visited by a walk, whatever is pending behind them. -/
lemma walk_append_of_visits {known new : List Package} {first : List Request}
    (h : Visits d exclude known first new) (rest : List Request)
    (hp : ∀ q ∈ first ++ rest, q.name ∈ namesOn d) :
    walk d exclude known (first ++ rest) hp =
      walk d exclude (known ++ new) rest fun q hq => hp q (List.mem_append_right _ hq) := by
  induction h generalizing rest with
  | nil => simp
  | settled hr hrest ih =>
    simp only [List.cons_append] at hp ⊢
    rw [walk_of_settled (follow_eq_ok.mpr hr), ih]
  | recorded hr hinner houter ihinner ihouter =>
    simp only [List.cons_append] at hp ⊢
    rw [walk_of_recorded (follow_eq_ok.mpr hr), ihinner]
    simp only [List.append_assoc, List.singleton_append]
    rw [ihouter]
    simp only [List.append_assoc, List.cons_append]

/-- The packages that a project needs are those that the dependencies it describes record, visited
from nothing. -/
lemma load_eq_ok {file : Path} {v : Vendor} :
    load d file exclude = .ok v ↔
      ∃ description, Document.read d ((⟨"/"⟩ : Path).absolutize file) = .ok description ∧
        Visits d (defaultExclude ++ exclude) []
          (requests (defaultExclude ++ exclude) description
            ((⟨"/"⟩ : Path).absolutize file).directory) v.packages := by
  constructor
  · intro h
    unfold load at h
    dsimp only at h
    split at h
    case h_1 => cases h
    case h_2 description hread =>
      obtain ⟨packages, hwalk, rfl⟩ := map_eq_ok.mp h
      obtain ⟨new, rfl, hvisits⟩ := exists_visits_of_walk hwalk
      exact ⟨description, hread, hvisits⟩
  · rintro ⟨description, hread, hvisits⟩
    unfold load
    dsimp only
    split
    case h_1 _ hfault => cases hread.symm.trans hfault
    case h_2 again hagain =>
      obtain rfl := Except.ok.inj (hread.symm.trans hagain)
      have hwalk := walk_append_of_visits hvisits []
        (by simpa using mem_namesOn_of_requests hread)
      simp only [List.append_nil, List.nil_append] at hwalk
      rw [hwalk]
      unfold walk
      rfl

end Vendor

end AddonBuild
