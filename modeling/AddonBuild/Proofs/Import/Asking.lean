import AddonBuild.Proofs.Import.Route
import AddonBuild.Proofs.Path.Straight

/-!
# What is asked about a place

Which specifier a script gets depends on which files there are, and only on those that are asked
for. The paths asked for are straight.
-/

namespace AddonBuild

/-! ### One place -/

namespace Import

/-- The paths that are asked for, one after the other, until one of them is present. -/
def asked (present : Path → Bool) (place : Path) : List Path :=
  if present place then [place]
  else if present (place.withSuffix declarationSuffix) then
    [place, place.withSuffix declarationSuffix]
  else if present (place.withSuffix sourceSuffix) then
    [place, place.withSuffix declarationSuffix, place.withSuffix sourceSuffix]
  else
    [place, place.withSuffix declarationSuffix, place.withSuffix sourceSuffix,
      place.withSuffix compiledSuffix]

variable {present present' : Path → Bool} {place : Path}

/-- How a resolution comes out is decided by what is asked. -/
lemma outcome?_congr (h : ∀ p ∈ asked present place, present' p = present p) :
    outcome? present' place = outcome? present place := by
  rw [asked] at h
  rw [outcome?, outcome?]
  split_ifs at h with hplace hdeclaration hsource <;>
    simp only [List.forall_mem_cons] at h <;>
    simp [*]

lemma straight_of_mem_asked (hplace : place.Straight) {p : Path}
    (hp : p ∈ asked present place) : p.Straight := by
  have hp : p ∈ [place, place.withSuffix declarationSuffix, place.withSuffix sourceSuffix,
      place.withSuffix compiledSuffix] := by
    rw [asked] at hp
    split_ifs at hp <;> simp only [List.mem_cons] at hp ⊢ <;> tauto
  simp only [List.mem_cons, List.not_mem_nil, or_false] at hp
  obtain rfl | rfl | rfl | rfl := hp
  · exact hplace
  all_goals exact hplace.withSuffix (by decide) (by decide)

end Import

/-! ### One specifier -/

namespace Relocator

variable {present present' : Path → Bool} {specifier : String}

/-- What is asked for to find the first candidate that resolves. -/
def askedForCandidates (present : Path → Bool) (base : Path) (key : Pattern)
    (found : Pattern.Match) : List Candidate → List Path
  | [] => []
  | c :: rest =>
    match candidateText key found c with
    | .error _ => []
    | .ok text =>
      let place := base.absolutize ⟨text⟩
      Import.asked present place ++
        if (Import.outcome? present place).isSome then []
        else askedForCandidates present base key found rest

/-- What is asked for to relocate a specifier. -/
def asked (r : Relocator) (present : Path → Bool) (source : Path) (specifier : String) :
    List Path :=
  if isRelative specifier then Import.asked present (source.directory.absolutize ⟨specifier⟩)
  else if r.isReserved specifier then []
  else
    match firstMatch specifier r.aliases.entries with
    | none => []
    | some (key, found, candidates) =>
      askedForCandidates present r.aliases.base key found candidates

lemma firstRoute_congr {base : Path} {key : Pattern} {found : Pattern.Match}
    {candidates : List Candidate}
    (h : ∀ p ∈ askedForCandidates present base key found candidates, present' p = present p) :
    firstRoute present' base key found candidates =
      firstRoute present base key found candidates := by
  induction candidates with
  | nil => rfl
  | cons c rest ih =>
    rw [askedForCandidates] at h
    rw [firstRoute, firstRoute]
    cases htext : candidateText key found c with
    | error fault => rfl
    | ok text =>
      rw [htext] at h
      simp only [List.forall_mem_append] at h
      obtain ⟨hplace, hrest⟩ := h
      simp only [bind, Except.bind, Import.outcome?_congr hplace]
      cases houtcome : Import.outcome? present (base.absolutize ⟨text⟩) with
      | some outcome => rfl
      | none =>
        rw [houtcome] at hrest
        exact ih hrest

/-- The route of a specifier is decided by what is asked. -/
lemma route_congr {r : Relocator} {source : Path}
    (h : ∀ p ∈ r.asked present source specifier, present' p = present p) :
    r.route present' source specifier = r.route present source specifier := by
  rw [asked] at h
  rw [route, route]
  split_ifs at h ⊢ with hrelative hreserved
  · rw [Import.outcome?_congr h]
  · rfl
  · rw [symbolicRoute, symbolicRoute]
    cases hmatch : firstMatch specifier r.aliases.entries with
    | none => rfl
    | some entry =>
      obtain ⟨key, found, candidates⟩ := entry
      rw [hmatch] at h
      simp only [firstRoute_congr h]

lemma straight_of_mem_askedForCandidates {base : Path} {key : Pattern} {found : Pattern.Match}
    {candidates : List Candidate} {p : Path}
    (hp : p ∈ askedForCandidates present base key found candidates) : p.Straight := by
  induction candidates with
  | nil => cases hp
  | cons c rest ih =>
    rw [askedForCandidates] at hp
    split at hp
    · cases hp
    · rcases List.mem_append.mp hp with hp | hp
      · exact Import.straight_of_mem_asked (Path.straight_clean _) hp
      · split_ifs at hp
        · cases hp
        · exact ih hp

/-- Whatever is asked for is asked for by a straight path. -/
lemma straight_of_mem_asked {r : Relocator} {source p : Path}
    (hp : p ∈ r.asked present source specifier) : p.Straight := by
  rw [asked] at hp
  split_ifs at hp
  · exact Import.straight_of_mem_asked (Path.straight_clean _) hp
  · cases hp
  · split at hp
    · cases hp
    · exact straight_of_mem_askedForCandidates hp

/-! ### Whole scripts -/

/-- What is asked for to relocate a script. -/
def askedForScript (r : Relocator) (present : Path → Bool) (source : Path) (contents : String) :
    List Path :=
  (Script.scan contents).flatMap fun span => r.asked present source span.specifier.text

lemma splice_congr {contents : String} {relocated relocated' : Script.Span → Except Fault String}
    {spans : List Script.Span} (h : ∀ span ∈ spans, relocated' span = relocated span)
    (copied : Nat) :
    splice contents relocated' copied spans = splice contents relocated copied spans := by
  induction spans generalizing copied with
  | nil => rfl
  | cons span rest ih =>
    obtain ⟨hspan, hrest⟩ := List.forall_mem_cons.mp h
    rw [splice, splice, hspan, ih hrest]

lemma relocateContents_congr {r : Relocator} {source : Path} {contents : String}
    (h : ∀ p ∈ r.askedForScript present source contents, present' p = present p)
    (destination : Path) :
    r.relocateContents present' source destination contents =
      r.relocateContents present source destination contents := by
  refine splice_congr (fun span hspan => ?_) 0
  have hroute := route_congr fun p hp => h p (List.mem_flatMap.mpr ⟨span, hspan, hp⟩)
  rw [relocateSpan, relocateSpan, relocateSpecifier_eq, relocateSpecifier_eq, hroute]

end Relocator

end AddonBuild
