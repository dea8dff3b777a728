import AddonBuild.Import.Relocator
import Mathlib.Tactic.Lemma
import Mathlib.Tactic.SplitIfs

/-!
# The route of a specifier

Relocating a specifier is a choice before it is a text: either the specifier is kept, or it becomes
the way to a file, read from the source or from the destination. A route is that choice, and the
relocated specifier is its text.
-/

namespace AddonBuild

namespace Import

/-- How a resolution comes out: the specifier is kept, or it becomes the way to a file. -/
inductive Outcome where
  | kept
  | toward (target : Path)
deriving DecidableEq, Repr

/-- The specifier to be written in the file `anchor` after an outcome. -/
def Outcome.text (specifier : String) (anchor : Path) : Outcome → String
  | .kept => specifier
  | .toward target => anchor.directory.moduleSpecifier target

/-- The outcome for the module at a place, if there is one. -/
def outcome? (present : Path → Bool) (place : Path) : Option Outcome :=
  if present place then some (.toward place)
  else if present (place.withSuffix declarationSuffix) then some .kept
  else if present (place.withSuffix sourceSuffix) || present (place.withSuffix compiledSuffix) then
    some (.toward (place.withSuffix compiledSuffix))
  else none

lemma resolve?_eq (present : Path → Bool) (specifier : String) (anchor place : Path) :
    resolve? present specifier anchor place =
      (outcome? present place).map (Outcome.text specifier anchor) := by
  rw [resolve?, outcome?]
  split_ifs <;> rfl

/-- A file is led to if it is there; without it, declarations keep the specifier; and without these,
a source or a compiled file leads to the compiled one. -/
lemma outcome?_eq_some {present : Path → Bool} {place : Path} {outcome : Outcome}
    (h : outcome? present place = some outcome) :
    (outcome = .toward place ∧ present place = true) ∨
    (outcome = .kept ∧ present place = false ∧
      present (place.withSuffix declarationSuffix) = true) ∨
    (outcome = .toward (place.withSuffix compiledSuffix) ∧ present place = false ∧
      present (place.withSuffix declarationSuffix) = false ∧
      (present (place.withSuffix sourceSuffix) = true ∨
        present (place.withSuffix compiledSuffix) = true)) := by
  rw [outcome?] at h
  split_ifs at h with hplace hdeclaration hsource
  · exact Or.inl ⟨(Option.some.inj h).symm, hplace⟩
  · exact Or.inr (Or.inl ⟨(Option.some.inj h).symm, by simpa using hplace, hdeclaration⟩)
  · refine Or.inr (Or.inr ⟨(Option.some.inj h).symm, by simpa using hplace,
      by simpa using hdeclaration, ?_⟩)
    simpa using hsource

end Import

/-- The file of a script that lies in a tree: what it is read from, or what it is written to. -/
def Candidate.Tree.anchor (source destination : Path) : Candidate.Tree → Path
  | .source => source
  | .destination => destination

namespace Relocator

open Import

/-- The tree from which a specifier is read after it was relocated, and how that came out. -/
structure Route where
  tree : Candidate.Tree
  outcome : Outcome

/-- The specifier that a route leads to. -/
def Route.text (specifier : String) (source destination : Path) (route : Route) : String :=
  route.outcome.text specifier (route.tree.anchor source destination)

/-- The route of the first candidate that resolves. -/
def firstRoute (present : Path → Bool) (base : Path) (key : Pattern) (found : Pattern.Match) :
    List Candidate → Except SettingFault (Option Route)
  | [] => .ok none
  | c :: rest => do
    let place := base.absolutize ⟨← candidateText key found c⟩
    match outcome? present place with
    | some outcome => return some ⟨c.tree, outcome⟩
    | none => firstRoute present base key found rest

/-- The route of a specifier without a leading dot or a reserved prefix. -/
def symbolicRoute (present : Path → Bool) (aliases : AliasTable) (specifier : String)
    (source : Path) : Except Fault Route :=
  match firstMatch specifier aliases.entries with
  | none => .error (.unresolvedImport source specifier [])
  | some (key, found, candidates) =>
    match firstRoute present aliases.base key found candidates with
    | .error fault => .error (.setting fault)
    | .ok (some route) => .ok route
    | .ok none => .error (.unresolvedImport source specifier (candidates.map Candidate.text))

/-- The route of a specifier of a script. -/
def route (r : Relocator) (present : Path → Bool) (source : Path) (specifier : String) :
    Except Fault Route :=
  if isRelative specifier then
    .ok ⟨.source, (outcome? present (source.directory.absolutize ⟨specifier⟩)).getD .kept⟩
  else if r.isReserved specifier then .ok ⟨.source, .kept⟩
  else symbolicRoute present r.aliases specifier source

lemma firstResolved_eq (present : Path → Bool) (base : Path) (key : Pattern)
    (found : Pattern.Match) (specifier : String) (source destination : Path)
    (candidates : List Candidate) :
    firstResolved present base key found specifier source destination candidates =
      (firstRoute present base key found candidates).map
        (Option.map (Route.text specifier source destination)) := by
  induction candidates with
  | nil => rfl
  | cons c rest ih =>
    rw [firstResolved, firstRoute]
    cases candidateText key found c with
    | error fault => rfl
    | ok path =>
      simp only [bind, Except.bind, resolve?_eq]
      cases outcome? present (base.absolutize ⟨path⟩) with
      | none => exact ih
      | some outcome =>
        cases hc : c.tree with
        | source => rfl
        | destination => rfl

/-- Relocating a specifier is taking its route. -/
lemma relocateSpecifier_eq (r : Relocator) (present : Path → Bool) (source destination : Path)
    (specifier : String) :
    r.relocateSpecifier present source destination specifier =
      (r.route present source specifier).map (Route.text specifier source destination) := by
  rw [relocateSpecifier, route]
  split_ifs
  · rw [relocateRelative, resolve?_eq]
    cases outcome? present (source.directory.absolutize ⟨specifier⟩) with
    | none => rfl
    | some outcome => rfl
  · rfl
  · rw [relocateSymbolic, symbolicRoute]
    cases firstMatch specifier r.aliases.entries with
    | none => rfl
    | some entry =>
      obtain ⟨key, found, candidates⟩ := entry
      simp only [firstResolved_eq]
      cases firstRoute present r.aliases.base key found candidates with
      | error fault => rfl
      | ok route =>
        cases route with
        | none => rfl
        | some route => rfl

/-! ### What a route says -/

/-- The first key that matches comes behind keys that do not. -/
lemma firstMatch_eq_some {specifier : String} {entries : List (Pattern × List Candidate)}
    {key : Pattern} {found : Pattern.Match} {candidates : List Candidate}
    (h : firstMatch specifier entries = some (key, found, candidates)) :
    ∃ before after, entries = before ++ (key, candidates) :: after ∧
      (∀ entry ∈ before, entry.1.match? specifier = none) ∧ key.match? specifier = some found := by
  induction entries with
  | nil => cases h
  | cons entry rest ih =>
    obtain ⟨k, cs⟩ := entry
    rw [firstMatch] at h
    cases hk : k.match? specifier with
    | some f =>
      rw [hk] at h
      cases h
      exact ⟨[], rest, rfl, by simp, hk⟩
    | none =>
      rw [hk] at h
      obtain ⟨before, after, rfl, hbefore, hkey⟩ := ih h
      refine ⟨(k, cs) :: before, after, rfl, ?_, hkey⟩
      intro entry hentry
      rcases List.mem_cons.mp hentry with rfl | hentry
      · exact hk
      · exact hbefore entry hentry

lemma firstRoute_eq_ok {present : Path → Bool} {base : Path} {key : Pattern}
    {found : Pattern.Match} {candidates : List Candidate} {route : Route}
    (h : firstRoute present base key found candidates = .ok (some route)) :
    ∃ c ∈ candidates, ∃ path, candidateText key found c = .ok path ∧ route.tree = c.tree ∧
      outcome? present (base.absolutize ⟨path⟩) = some route.outcome := by
  induction candidates with
  | nil => cases h
  | cons c rest ih =>
    rw [firstRoute] at h
    cases hpath : candidateText key found c with
    | error fault => rw [hpath] at h; cases h
    | ok path =>
      rw [hpath] at h
      simp only [bind, Except.bind] at h
      cases houtcome : outcome? present (base.absolutize ⟨path⟩) with
      | none =>
        rw [houtcome] at h
        obtain ⟨d, hd, hroute⟩ := ih h
        exact ⟨d, List.mem_cons_of_mem c hd, hroute⟩
      | some outcome =>
        rw [houtcome] at h
        cases h
        exact ⟨c, List.mem_cons_self, path, hpath, rfl, houtcome⟩

/-- The route of a specifier that matches a key is that of a candidate of the first one. -/
lemma symbolicRoute_eq_ok {present : Path → Bool} {aliases : AliasTable} {specifier : String}
    {source : Path} {route : Route}
    (h : symbolicRoute present aliases specifier source = .ok route) :
    ∃ before key candidates after found, aliases.entries = before ++ (key, candidates) :: after ∧
      (∀ entry ∈ before, entry.1.match? specifier = none) ∧ key.match? specifier = some found ∧
      ∃ c ∈ candidates, ∃ path, candidateText key found c = .ok path ∧ route.tree = c.tree ∧
        outcome? present (aliases.base.absolutize ⟨path⟩) = some route.outcome := by
  rw [symbolicRoute] at h
  cases hmatch : firstMatch specifier aliases.entries with
  | none => rw [hmatch] at h; cases h
  | some entry =>
    obtain ⟨key, found, candidates⟩ := entry
    rw [hmatch] at h
    obtain ⟨before, after, hentries, hbefore, hkey⟩ := firstMatch_eq_some hmatch
    cases hroute : firstRoute present aliases.base key found candidates with
    | error fault => simp only [hroute] at h; cases h
    | ok first =>
      simp only [hroute] at h
      cases first with
      | none => cases h
      | some first =>
        cases h
        exact ⟨before, key, candidates, after, found, hentries, hbefore, hkey,
          firstRoute_eq_ok hroute⟩

end Relocator

end AddonBuild
