import AddonBuild.Proofs.Import.Route
import AddonBuild.Proofs.Pattern.Filling

/-!
# Looking up in a table that grows

Adding aliases to a table leaves the first key that matches a specifier where it is. Its candidates
may grow, but only behind the ones that it has.
-/

namespace AddonBuild

open Relocator (firstMatch)

namespace Pattern

lemma parse_eq_ok {source : String} {p : Pattern} :
    parse source = .ok p ↔ parse? source = some p := by
  rw [parse]
  cases parse? source <;> simp

end Pattern

namespace AliasTable

variable {specifier : String}

/-- The first entry that matches keeps its place when a table is extended, and has its candidates
appended if they are for its key. -/
lemma firstMatch_extend_of_some {entries : List (Pattern × List Candidate)} {k : Pattern}
    {found : Pattern.Match} {cs : List Candidate}
    (h : firstMatch specifier entries = some (k, found, cs)) (key : Pattern)
    (candidates : List Candidate) :
    firstMatch specifier (extend key candidates entries) =
      some (k, found, cs ++ if k = key then candidates else []) := by
  induction entries with
  | nil => cases h
  | cons entry rest ih =>
    obtain ⟨first, firstCandidates⟩ := entry
    rw [firstMatch] at h
    rw [extend]
    cases hfirst : first.match? specifier with
    | some f =>
      rw [hfirst] at h
      cases h
      split_ifs
      · simp only [firstMatch, hfirst]
      · simp only [firstMatch, hfirst, List.append_nil]
    | none =>
      rw [hfirst] at h
      by_cases hextended : first = key
      · -- the key that matches is no other than one that does not
        have hne : k ≠ key := by
          rintro rfl
          obtain ⟨-, -, -, -, hmatch⟩ := Relocator.firstMatch_eq_some h
          rw [← hextended, hfirst] at hmatch
          cases hmatch
        simp only [if_pos hextended, if_neg hne, firstMatch, hfirst, List.append_nil]
        exact h
      · simp only [if_neg hextended, firstMatch, hfirst]
        exact ih h

/-- A key that is added to entries without a match is the first to match, if it does. -/
lemma firstMatch_extend_of_none {entries : List (Pattern × List Candidate)}
    (h : firstMatch specifier entries = none) (key : Pattern) (candidates : List Candidate) :
    firstMatch specifier (extend key candidates entries) =
      (key.match? specifier).map fun found => (key, found, candidates) := by
  induction entries with
  | nil =>
    rw [extend, firstMatch]
    cases key.match? specifier <;> rfl
  | cons entry rest ih =>
    obtain ⟨first, firstCandidates⟩ := entry
    rw [firstMatch] at h
    rw [extend]
    cases hfirst : first.match? specifier with
    | some f =>
      rw [hfirst] at h
      cases h
    | none =>
      rw [hfirst] at h
      split_ifs with hkey
      · rw [← hkey, hfirst]
        simp only [firstMatch, hfirst]
        exact h
      · simp only [firstMatch, hfirst]
        exact ih h

lemma firstMatch_addAliases_of_some {t : AliasTable} {k : Pattern} {found : Pattern.Match}
    {cs : List Candidate} (h : firstMatch specifier t.entries = some (k, found, cs))
    (aliases : Aliases) :
    ∃ more,
      firstMatch specifier (t.addAliases aliases).1.entries = some (k, found, cs ++ more) := by
  induction aliases generalizing t cs with
  | nil => exact ⟨[], by rw [List.append_nil]; exact h⟩
  | cons item rest ih =>
    obtain ⟨key, candidates⟩ := item
    rw [addAliases, add]
    cases hkey : Pattern.parse key with
    | error fault => exact ⟨[], by rw [List.append_nil]; exact h⟩
    | ok p =>
      obtain ⟨further, hfurther⟩ :=
        ih (t := t.insert p candidates) (firstMatch_extend_of_some h p candidates)
      exact ⟨_, by rw [← List.append_assoc]; exact hfurther⟩

/-- The first of added aliases that matches is found, if the table had none that does. -/
lemma firstMatch_addAliases {t : AliasTable} (h : firstMatch specifier t.entries = none)
    {before after : Aliases} {key : String} {candidates : List Candidate}
    (hvalid : (t.addAliases (before ++ (key, candidates) :: after)).2 = none)
    (hbefore : ∀ item ∈ before, ∀ p, Pattern.parse? item.1 = some p → p.match? specifier = none)
    {p : Pattern} {found : Pattern.Match} (hkey : Pattern.parse? key = some p)
    (hfound : p.match? specifier = some found) :
    ∃ more, firstMatch specifier
      (t.addAliases (before ++ (key, candidates) :: after)).1.entries =
        some (p, found, candidates ++ more) := by
  induction before generalizing t with
  | nil =>
    -- a later alias of the same key adds candidates behind these
    have hp := Pattern.parse_eq_ok.mpr hkey
    have hfirst : firstMatch specifier (t.insert p candidates).entries =
        some (p, found, candidates) := by
      rw [insert, firstMatch_extend_of_none h, hfound, Option.map_some]
    obtain ⟨more, hmore⟩ := firstMatch_addAliases_of_some hfirst after
    refine ⟨more, ?_⟩
    rw [List.nil_append, addAliases, add, hp]
    exact hmore
  | cons item before ih =>
    obtain ⟨k, cs⟩ := item
    rw [List.cons_append, addAliases, add] at hvalid ⊢
    cases hk : Pattern.parse k with
    | error fault =>
      rw [hk] at hvalid
      cases hvalid
    | ok q =>
      rw [hk] at hvalid
      have hq := hbefore _ List.mem_cons_self q (Pattern.parse_eq_ok.mp hk)
      have hnone : firstMatch specifier (t.insert q cs).entries = none := by
        rw [insert, firstMatch_extend_of_none h, hq, Option.map_none]
      exact ih hnone hvalid fun item hitem => hbefore item (List.mem_cons_of_mem _ hitem)

end AliasTable

end AddonBuild
