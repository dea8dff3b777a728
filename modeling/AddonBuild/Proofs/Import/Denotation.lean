import AddonBuild.Proofs.Import.Route
import AddonBuild.Proofs.Path.Specifier
import AddonBuild.Proofs.Steps

/-!
# What a relocated specifier denotes

A relocated specifier, read from the file that it was anchored at, denotes the place that the
original stands for, or the compiled file that will lie there.
-/

namespace AddonBuild

namespace Import

lemma withSuffix_ne (p : Path) {suffix : String} (h : suffix ≠ "") : p.withSuffix suffix ≠ p := by
  intro heq
  have hlength := congrArg (fun q : Path => q.text.length) heq
  simp only [Path.withSuffix, String.length_append] at hlength
  exact h (String.length_eq_zero_iff.mp (Nat.add_eq_left.mp hlength))

section Outcome

variable {anchor base : Path} (hanchor : anchor.isAbsolute = true)
  (hbase : base.isAbsolute = true) (q : Path) (specifier : String)
include hanchor hbase

/-- The way from a file to the place of a module leads to that place. -/
lemma absolutize_toward_place :
    anchor.directory.absolutize ⟨(Outcome.toward (base.absolutize q)).text specifier anchor⟩ =
      base.absolutize q := by
  have hdirectory := (Path.directory_of_isAbsolute hanchor).1
  have hplace := Path.absolutize_isAbsolute hbase q
  exact (Path.absolutize_moduleSpecifier hdirectory hplace).trans (Path.clean_absolutize hbase q)

/-- The way from a file to a compiled file leads to that file. -/
lemma absolutize_toward_compiled :
    anchor.directory.absolutize
        ⟨(Outcome.toward ((base.absolutize q).withSuffix ".js")).text specifier anchor⟩ =
      (base.absolutize q).withSuffix ".js" := by
  have hdirectory := (Path.directory_of_isAbsolute hanchor).1
  have hcompiled := Path.isAbsolute_withSuffix (Path.absolutize_isAbsolute hbase q) ".js"
  have hclean := Path.clean_withSuffix_js (Path.isAbsolute_join hbase q)
  exact (Path.absolutize_moduleSpecifier hdirectory hcompiled).trans hclean

end Outcome

end Import

namespace Relocator

open Import

/-- A relocated specifier with a leading dot denotes what the original does, or the compiled file
if there is only that or its source. -/
structure DenotesPlace (present : Path → Bool) (source : Path) (specifier relocated : String) :
    Prop where
  place_or_compiled :
    source.directory.absolutize ⟨relocated⟩ = source.directory.absolutize ⟨specifier⟩ ∨
    source.directory.absolutize ⟨relocated⟩ =
      (source.directory.absolutize ⟨specifier⟩).withSuffix ".js"
  compiled :
    source.directory.absolutize ⟨relocated⟩ =
        (source.directory.absolutize ⟨specifier⟩).withSuffix ".js" →
      present (source.directory.absolutize ⟨specifier⟩) = false ∧
      (present ((source.directory.absolutize ⟨specifier⟩).withSuffix ".ts") = true ∨
        present ((source.directory.absolutize ⟨specifier⟩).withSuffix ".js") = true)

/-- A specifier that is relocated by an alias is kept for the sake of declarations at `place`, or it
is the way from `anchor` to the file that is there or will be compiled. -/
def DenotesAlias (present : Path → Bool) (anchor place : Path) (specifier relocated : String) :
    Prop :=
  (relocated = specifier ∧ present (place.withSuffix ".d.ts") = true ∧ present place = false) ∨
  (isRelative relocated = true ∧
    ((anchor.directory.absolutize ⟨relocated⟩ = place ∧ present place = true) ∨
    (anchor.directory.absolutize ⟨relocated⟩ = place.withSuffix ".js" ∧ present place = false ∧
      present (place.withSuffix ".d.ts") = false ∧
      (present (place.withSuffix ".ts") = true ∨ present (place.withSuffix ".js") = true))))

section Outcome

variable {present : Path → Bool} {source anchor base q : Path} {specifier : String}
  {outcome : Outcome}

lemma isRelative_toward (specifier : String) (anchor target : Path) :
    isRelative ((Outcome.toward target).text specifier anchor) = true := by
  rw [isRelative, Outcome.text]
  exact Path.startsWith_moduleSpecifier _ target

lemma denotesPlace_kept : DenotesPlace present source specifier specifier where
  place_or_compiled := Or.inl rfl
  compiled h := absurd h.symm (withSuffix_ne _ (by decide))

lemma denotesPlace_of_outcome (hsource : source.isAbsolute = true)
    (h : outcome? present (source.directory.absolutize ⟨specifier⟩) = some outcome) :
    DenotesPlace present source specifier (outcome.text specifier source) := by
  have hdirectory := (Path.directory_of_isAbsolute hsource).1
  rcases outcome?_eq_some h with ⟨rfl, hplace⟩ | ⟨rfl, hplace, hdeclaration⟩ |
    ⟨rfl, hplace, hdeclaration, hcompiled⟩
  · have hdenoted := absolutize_toward_place hsource hdirectory ⟨specifier⟩ specifier
    refine ⟨Or.inl hdenoted, ?_⟩
    intro hjs
    rw [hdenoted] at hjs
    exact absurd hjs.symm (withSuffix_ne _ (by decide))
  · exact denotesPlace_kept
  · have hdenoted := absolutize_toward_compiled hsource hdirectory ⟨specifier⟩ specifier
    exact ⟨Or.inr hdenoted, fun _ => ⟨hplace, hcompiled⟩⟩

lemma denotesAlias_of_outcome (hanchor : anchor.isAbsolute = true)
    (hbase : base.isAbsolute = true)
    (h : outcome? present (base.absolutize q) = some outcome) :
    DenotesAlias present anchor (base.absolutize q) specifier (outcome.text specifier anchor) := by
  have hdot := isRelative_toward specifier anchor
  rcases outcome?_eq_some h with ⟨rfl, hplace⟩ | ⟨rfl, hplace, hdeclaration⟩ |
    ⟨rfl, hplace, hdeclaration, hcompiled⟩
  · have hdenoted := absolutize_toward_place hanchor hbase q specifier
    exact Or.inr ⟨hdot _, Or.inl ⟨hdenoted, hplace⟩⟩
  · exact Or.inl ⟨rfl, hdeclaration, hplace⟩
  · have hdenoted := absolutize_toward_compiled hanchor hbase q specifier
    exact Or.inr ⟨hdot _, Or.inr ⟨hdenoted, hplace, hdeclaration, hcompiled⟩⟩

end Outcome

/-- A relocated specifier denotes what was resolved: the place that a leading dot leads to from the
source, nothing new for the host, or the place of a candidate of the first key that matches. -/
theorem relocateSpecifier_denotes {r : Relocator} {present : Path → Bool}
    {source destination : Path} {specifier relocated : String}
    (hbase : r.aliases.base.isAbsolute = true) (hsource : source.isAbsolute = true)
    (hdestination : destination.isAbsolute = true)
    (h : r.relocateSpecifier present source destination specifier = .ok relocated) :
    if isRelative specifier then DenotesPlace present source specifier relocated
    else if r.isReserved specifier then relocated = specifier
    else
      ∃ before key candidates after found,
        r.aliases.entries = before ++ (key, candidates) :: after ∧
        (∀ entry ∈ before, entry.1.match? specifier = none) ∧ key.match? specifier = some found ∧
        ∃ c ∈ candidates, ∃ path, candidateText key found c = .ok path ∧
          DenotesAlias present (c.tree.anchor source destination)
            (r.aliases.base.absolutize ⟨path⟩) specifier relocated := by
  rw [relocateSpecifier_eq] at h
  obtain ⟨route, hroute, rfl⟩ : ∃ route, r.route present source specifier = .ok route ∧
      route.text specifier source destination = relocated := by
    cases hroute : r.route present source specifier with
    | error fault => rw [hroute] at h; cases h
    | ok route =>
      rw [hroute] at h
      exact ⟨route, rfl, Except.ok.inj h⟩
  -- the route is the one of three ways that the specifier calls for
  rw [Relocator.route] at hroute
  split_ifs at hroute ⊢
  · cases hroute
    cases houtcome : outcome? present (source.directory.absolutize ⟨specifier⟩) with
    | none => exact denotesPlace_kept
    | some outcome => exact denotesPlace_of_outcome hsource houtcome
  · cases hroute
    rfl
  · obtain ⟨before, key, candidates, after, found, hentries, hbefore, hkey, c, hc, path, hpath,
      htree, houtcome⟩ := symbolicRoute_eq_ok hroute
    refine ⟨before, key, candidates, after, found, hentries, hbefore, hkey, c, hc, path, hpath, ?_⟩
    have hanchor : (c.tree.anchor source destination).isAbsolute = true := by
      cases c.tree with
      | source => exact hsource
      | destination => exact hdestination
    rw [Route.text, htree]
    exact denotesAlias_of_outcome hanchor hbase houtcome

/-- A relocator for which `lib` stands for the sources of a project. -/
def compiledRelocator : Relocator :=
  ofAliases ⟨⟨"/p"⟩, [(.wildcard "lib/" "", [⟨.wildcard "src/" "", .source⟩])]⟩

/-- A source that an alias stands for, or a leading dot leads to, is led to as the compiled
file. -/
theorem relocateSpecifier_denotes_compiled :
    (compiledRelocator.relocateSpecifier (fun p => p.text = "/p/src/x.ts") ⟨"/p/src/a/b.ts"⟩
        ⟨"/p/out/a/b.js"⟩ "lib/x" = .ok "../x.js" ∧
      ∃ (c : Candidate) (path : String),
        DenotesAlias (fun p => p.text = "/p/src/x.ts")
          (c.tree.anchor ⟨"/p/src/a/b.ts"⟩ ⟨"/p/out/a/b.js"⟩) (Path.absolutize ⟨"/p"⟩ ⟨path⟩)
          "lib/x" "../x.js") ∧
    compiledRelocator.relocateSpecifier (fun p => p.text = "/p/src/x.ts") ⟨"/p/src/a/b.ts"⟩
        ⟨"/p/out/a/b.js"⟩ "../x" = .ok "../x.js" ∧
      DenotesPlace (fun p => p.text = "/p/src/x.ts") ⟨"/p/src/a/b.ts"⟩ "../x" "../x.js" := by
  have halias : compiledRelocator.relocateSpecifier (fun p => p.text = "/p/src/x.ts")
      ⟨"/p/src/a/b.ts"⟩ ⟨"/p/out/a/b.js"⟩ "lib/x" = .ok "../x.js" :=
    toOption_eq_some.mp (by decide +kernel)
  have hdot : compiledRelocator.relocateSpecifier (fun p => p.text = "/p/src/x.ts")
      ⟨"/p/src/a/b.ts"⟩ ⟨"/p/out/a/b.js"⟩ "../x" = .ok "../x.js" :=
    toOption_eq_some.mp (by decide +kernel)
  refine ⟨⟨halias, ?_⟩, hdot, ?_⟩
  · have hdenotes := relocateSpecifier_denotes (by rfl) (by rfl) (by rfl) halias
    rw [if_neg (by decide), if_neg (by decide)] at hdenotes
    obtain ⟨-, -, -, -, -, -, -, -, c, -, path, -, hplace⟩ := hdenotes
    exact ⟨c, path, hplace⟩
  · have hdenotes := relocateSpecifier_denotes (by rfl) (by rfl) (by rfl) hdot
    rwa [if_pos (by decide)] at hdenotes

end Relocator

end AddonBuild
