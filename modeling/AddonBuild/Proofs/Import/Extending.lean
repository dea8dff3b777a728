import AddonBuild.Build.Contents
import AddonBuild.Proofs.Import.Lookup
import AddonBuild.Proofs.Steps

/-!
# Tables with more aliases

Adding aliases to a table is conservative. A specifier for which the table has a candidate keeps it;
one for which it has a key, but no candidate that resolves, can only gain by candidates for that
key; and for one without a key the table is as good as the aliases with keys of their own.
-/

namespace AddonBuild

open Relocator (firstMatch firstResolved relocateSymbolic)

namespace AliasTable

/-! ### What aliases add -/

/-- Whether a table has an entry for the key that a text denotes. -/
def holds (t : AliasTable) (key : String) : Bool :=
  t.entries.any fun entry => Pattern.parse? key = some entry.1

/-- The aliases with keys that a table does not have. -/
def newAliases (t : AliasTable) (aliases : Aliases) : Aliases :=
  aliases.filter fun item => !t.holds item.1

/-- The candidates that aliases list for a key, in order. -/
def candidatesFor (key : Pattern) (aliases : Aliases) : List Candidate :=
  aliases.flatMap fun item => if Pattern.parse? item.1 = some key then item.2 else []

variable {t t' : AliasTable} {aliases : Aliases} {key : String} {candidates : List Candidate}
  {specifier : String}

lemma addAll_eq_ok : t.addAll aliases = .ok t' ↔ t.addAliases aliases = (t', none) := by
  rw [addAll]
  generalize t.addAliases aliases = result
  obtain ⟨t₁, _ | fault⟩ := result <;> simp

/-- Aliases are added if every key is a pattern, one after the other. -/
lemma addAll_cons_eq_ok {rest : Aliases} :
    t.addAll ((key, candidates) :: rest) = .ok t' ↔
      ∃ p, Pattern.parse? key = some p ∧ (t.insert p candidates).addAll rest = .ok t' := by
  simp only [addAll_eq_ok, addAliases, add, ← Pattern.parse_eq_ok]
  cases Pattern.parse key with
  | error fault => simp [Except.map]
  | ok p => simp [Except.map]

lemma addAll_append {more : Aliases} (h : t.addAll aliases = .ok t') :
    t.addAll (aliases ++ more) = t'.addAll more := by
  induction aliases generalizing t with
  | nil =>
    cases h
    rfl
  | cons item rest ih =>
    obtain ⟨key, candidates⟩ := item
    obtain ⟨p, hp, h⟩ := addAll_cons_eq_ok.mp h
    rw [← ih h, List.cons_append, addAll, addAll, addAliases, add, Pattern.parse_eq_ok.mpr hp]
    rfl

lemma addAll_base (h : t.addAll aliases = .ok t') : t'.base = t.base := by
  induction aliases generalizing t with
  | nil =>
    cases h
    rfl
  | cons item rest ih =>
    obtain ⟨p, -, h⟩ := addAll_cons_eq_ok.mp h
    exact (ih h).trans rfl

/-! ### The first key that matches -/

/-- A key that matches gets just the candidates that are listed for it. -/
lemma firstMatch_addAll_of_some {k : Pattern} {found : Pattern.Match} {cs : List Candidate}
    (h : t.addAll aliases = .ok t')
    (hmatch : firstMatch specifier t.entries = some (k, found, cs)) :
    firstMatch specifier t'.entries = some (k, found, cs ++ candidatesFor k aliases) := by
  induction aliases generalizing t cs with
  | nil =>
    cases h
    rw [hmatch, candidatesFor, List.flatMap_nil, List.append_nil]
  | cons item rest ih =>
    obtain ⟨key, candidates⟩ := item
    obtain ⟨p, hp, h⟩ := addAll_cons_eq_ok.mp h
    rw [ih h (firstMatch_extend_of_some hmatch p candidates), candidatesFor, candidatesFor,
      List.flatMap_cons, List.append_assoc, hp]
    simp only [Option.some.injEq, eq_comm (a := k)]

lemma firstMatch_append (entries more : List (Pattern × List Candidate)) :
    firstMatch specifier (entries ++ more) =
      (firstMatch specifier entries).or (firstMatch specifier more) := by
  induction entries with
  | nil => rfl
  | cons entry rest ih =>
    obtain ⟨first, cs⟩ := entry
    rw [List.cons_append, firstMatch, firstMatch]
    cases first.match? specifier with
    | some found => rfl
    | none => exact ih

/-- Whether any key matches does not depend on the candidates. -/
lemma firstMatch_eq_none {entries : List (Pattern × List Candidate)} :
    firstMatch specifier entries = none ↔
      ∀ k ∈ entries.map Prod.fst, k.match? specifier = none := by
  induction entries with
  | nil => simp [firstMatch]
  | cons entry rest ih =>
    obtain ⟨first, cs⟩ := entry
    rw [firstMatch, List.map_cons, List.forall_mem_cons, ← ih]
    cases first.match? specifier <;> simp

/-! ### Entries before and behind -/

lemma map_fst_extend {p : Pattern} {entries : List (Pattern × List Candidate)}
    (h : p ∈ entries.map Prod.fst) : (extend p candidates entries).map Prod.fst =
      entries.map Prod.fst := by
  induction entries with
  | nil => cases h
  | cons entry rest ih =>
    obtain ⟨first, cs⟩ := entry
    rw [extend]
    split_ifs with hfirst
    · rfl
    · rw [List.map_cons, List.map_cons, ih]
      exact (List.mem_cons.mp h).resolve_left fun heq => hfirst heq.symm

/-- Candidates go to the front entries if these have the key, and else behind them. -/
lemma extend_append (p : Pattern) (candidates : List Candidate)
    (entries more : List (Pattern × List Candidate)) :
    extend p candidates (entries ++ more) =
      if p ∈ entries.map Prod.fst then extend p candidates entries ++ more
      else entries ++ extend p candidates more := by
  induction entries with
  | nil => rfl
  | cons entry rest ih =>
    obtain ⟨first, cs⟩ := entry
    rw [List.cons_append, extend, extend, ih]
    by_cases hfirst : first = p
    · simp [hfirst]
    · have hother : p ≠ first := fun heq => hfirst heq.symm
      simp only [if_neg hfirst, List.map_cons, List.mem_cons, hother, false_or]
      split_ifs <;> rfl

lemma holds_iff {p : Pattern} (hp : Pattern.parse? key = some p) :
    t.holds key = true ↔ p ∈ t.entries.map Prod.fst := by
  simp only [holds, hp, List.any_eq_true, decide_eq_true_eq, Option.some.injEq, List.mem_map,
    eq_comm (a := p)]

/-- A table with more aliases has its old keys in front, and behind them what the new keys alone
amount to. -/
lemma exists_entries_of_addAll {start : AliasTable} (front behind : AliasTable)
    (hfront : front.entries.map Prod.fst = start.entries.map Prod.fst)
    (ht : t.entries = front.entries ++ behind.entries) (h : t.addAll aliases = .ok t') :
    ∃ front' behind' : AliasTable, front'.entries.map Prod.fst = start.entries.map Prod.fst ∧
      behind.addAll (start.newAliases aliases) = .ok behind' ∧
      t'.entries = front'.entries ++ behind'.entries := by
  induction aliases generalizing t front behind with
  | nil =>
    cases h
    exact ⟨front, behind, hfront, rfl, ht⟩
  | cons item rest ih =>
    obtain ⟨key, candidates⟩ := item
    obtain ⟨p, hp, h⟩ := addAll_cons_eq_ok.mp h
    by_cases hheld : start.holds key = true
    · have hmem : p ∈ front.entries.map Prod.fst := hfront ▸ (holds_iff hp).mp hheld
      rw [newAliases, List.filter_cons_of_neg (by simp [hheld])]
      refine ih (front.insert p candidates) behind ?_ ?_ h
      · rw [insert, map_fst_extend hmem, hfront]
      · rw [insert, ht, extend_append, if_pos hmem]
        rfl
    · have hmem : p ∉ front.entries.map Prod.fst := fun hmem =>
        hheld ((holds_iff hp).mpr (hfront ▸ hmem))
      rw [newAliases, List.filter_cons_of_pos (by simp [hheld])]
      have hinsert : (t.insert p candidates).entries =
          front.entries ++ (behind.insert p candidates).entries := by
        rw [insert, ht, extend_append, if_neg hmem]
        rfl
      obtain ⟨front', behind', hkeys, hbehind, hentries⟩ :=
        ih front (behind.insert p candidates) hfront hinsert h
      exact ⟨front', behind', hkeys, addAll_cons_eq_ok.mpr ⟨p, hp, hbehind⟩, hentries⟩

/-- A specifier that matches no key of a table finds in the larger one what it finds among the
aliases with new keys. -/
lemma exists_firstMatch_addAll_of_none (h : t.addAll aliases = .ok t')
    (hmatch : firstMatch specifier t.entries = none) :
    ∃ new, (empty t.base).addAll (t.newAliases aliases) = .ok new ∧
      firstMatch specifier t'.entries = firstMatch specifier new.entries := by
  obtain ⟨front, new, hfront, hnew, hentries⟩ :=
    exists_entries_of_addAll t (empty t.base) rfl (List.append_nil _).symm h
  refine ⟨new, hnew, ?_⟩
  rw [firstMatch_eq_none, ← hfront, ← firstMatch_eq_none] at hmatch
  rw [hentries, firstMatch_append, hmatch, Option.none_or]

/-! ### Relocating under the larger table -/

section

variable (present : Path → Bool) (source destination : Path)

/-- Candidates behind others are tried if none of those resolves. -/
lemma firstResolved_append (base : Path) (k : Pattern) (found : Pattern.Match)
    (specifier : String) (cs more : List Candidate) :
    firstResolved present base k found specifier source destination (cs ++ more) =
      match firstResolved present base k found specifier source destination cs with
      | .ok none => firstResolved present base k found specifier source destination more
      | decided => decided := by
  induction cs with
  | nil => rfl
  | cons c rest ih =>
    rw [List.cons_append, firstResolved, firstResolved]
    cases Relocator.candidateText k found c with
    | error fault => rfl
    | ok text =>
      simp only [bind, Except.bind]
      generalize Import.resolve? present specifier _ (base.absolutize ⟨text⟩) = resolved?
      cases resolved? with
      | some resolved => rfl
      | none => exact ih

/-- What a specifier that matches a key becomes when its candidates come to an answer. -/
def answer (source : Path) (specifier : String) (candidates : List Candidate) :
    Except SettingFault (Option String) → Except Fault String
  | .error fault => .error (.setting fault)
  | .ok (some resolved) => .ok resolved
  | .ok none => .error (.unresolvedImport source specifier (candidates.map Candidate.text))

lemma relocateSymbolic_of_some {k : Pattern} {found : Pattern.Match} {cs : List Candidate}
    (hmatch : firstMatch specifier t.entries = some (k, found, cs)) :
    relocateSymbolic present t specifier source destination =
      answer source specifier cs
        (firstResolved present t.base k found specifier source destination cs) := by
  rw [relocateSymbolic, hmatch]
  dsimp only
  cases firstResolved present t.base k found specifier source destination cs with
  | error fault => rfl
  | ok resolved => cases resolved <;> rfl

lemma relocateSymbolic_congr (hbase : t'.base = t.base)
    (hmatch : firstMatch specifier t'.entries = firstMatch specifier t.entries) :
    relocateSymbolic present t' specifier source destination =
      relocateSymbolic present t specifier source destination := by
  rw [relocateSymbolic, relocateSymbolic, hmatch, hbase]

end

/-- How a table that has got more aliases relates to the table that they were added to. -/
structure Extends (t : AliasTable) (aliases : Aliases) (t' : AliasTable) : Prop where
  /-- What is resolved stays resolved in the same way. -/
  resolved : ∀ {present specifier source destination r},
    relocateSymbolic present t specifier source destination = .ok r →
      relocateSymbolic present t' specifier source destination = .ok r
  /-- What is refused because of the settings stays refused for the same reason. -/
  refused : ∀ {present specifier source destination fault},
    relocateSymbolic present t specifier source destination = .error (.setting fault) →
      relocateSymbolic present t' specifier source destination = .error (.setting fault)
  /-- What matches no key is left to the new keys. -/
  unmatched : ∀ {specifier}, firstMatch specifier t.entries = none →
    ∃ new, (empty t.base).addAll (t.newAliases aliases) = .ok new ∧
      ∀ present source destination,
        relocateSymbolic present t' specifier source destination =
          relocateSymbolic present new specifier source destination
  /-- What matches a key without a candidate that resolves is left to the candidates that the key
  has got. -/
  unresolved : ∀ {present specifier source destination key found candidates},
    firstMatch specifier t.entries = some (key, found, candidates) →
    relocateSymbolic present t specifier source destination =
      .error (.unresolvedImport source specifier (candidates.map Candidate.text)) →
    relocateSymbolic present t' specifier source destination =
      answer source specifier (candidates ++ candidatesFor key aliases)
        (firstResolved present t.base key found specifier source destination
          (candidatesFor key aliases))

/-- What a specifier with a key becomes in the larger table: its old candidates come first, and if
none of them resolves, those that the key has got. -/
lemma relocateSymbolic_addAll_of_some {present : Path → Bool} {source destination : Path}
    {k : Pattern} {found : Pattern.Match} {cs : List Candidate} (h : t.addAll aliases = .ok t')
    (hmatch : firstMatch specifier t.entries = some (k, found, cs)) :
    relocateSymbolic present t' specifier source destination =
      answer source specifier (cs ++ candidatesFor k aliases)
        (match firstResolved present t.base k found specifier source destination cs with
        | .ok none => firstResolved present t.base k found specifier source destination
            (candidatesFor k aliases)
        | decided => decided) := by
  rw [relocateSymbolic_of_some present source destination (firstMatch_addAll_of_some h hmatch),
    addAll_base h, firstResolved_append]

/-- What a table decides about a specifier stands, whatever is added. -/
lemma relocateSymbolic_addAll {present : Path → Bool} {source destination : Path}
    (h : t.addAll aliases = .ok t') (specifier : String) :
    relocateSymbolic present t' specifier source destination =
        relocateSymbolic present t specifier source destination ∨
      ∃ candidates, relocateSymbolic present t specifier source destination =
        .error (.unresolvedImport source specifier candidates) := by
  cases hmatch : firstMatch specifier t.entries with
  | none =>
    right
    exact ⟨[], by rw [relocateSymbolic, hmatch]⟩
  | some entry =>
    obtain ⟨key, found, candidates⟩ := entry
    rw [relocateSymbolic_addAll_of_some h hmatch,
      relocateSymbolic_of_some present source destination hmatch]
    rcases firstResolved present t.base key found specifier source destination candidates with
      fault | _ | resolved
    · exact .inl rfl
    · exact .inr ⟨_, rfl⟩
    · exact .inl rfl

lemma extends_of_addAll (h : t.addAll aliases = .ok t') : t.Extends aliases t' := by
  constructor
  case resolved =>
    intro present specifier source destination r hr
    rcases relocateSymbolic_addAll h specifier with hsame | ⟨candidates, hnone⟩
    · exact hsame.trans hr
    · rw [hnone] at hr
      cases hr
  case refused =>
    intro present specifier source destination fault hfault
    rcases relocateSymbolic_addAll h specifier with hsame | ⟨candidates, hnone⟩
    · exact hsame.trans hfault
    · rw [hnone] at hfault
      cases hfault
  case unmatched =>
    intro specifier hmatch
    obtain ⟨new, hnew, hsame⟩ := exists_firstMatch_addAll_of_none h hmatch
    refine ⟨new, hnew, fun present source destination => ?_⟩
    exact relocateSymbolic_congr present source destination
      ((addAll_base h).trans (addAll_base hnew).symm) hsame
  case unresolved =>
    intro present specifier source destination key found candidates hmatch hnone
    rw [relocateSymbolic_of_some present source destination hmatch] at hnone
    rw [relocateSymbolic_addAll_of_some h hmatch]
    rcases hfirst : firstResolved present t.base key found specifier source destination candidates
      with fault | _ | resolved
    · rw [hfirst] at hnone
      cases hnone
    · rfl
    · rw [hfirst] at hnone
      cases hnone

/-! ### The aliases of scripts -/

/-- The aliases of scripts are those of the settings with the aliases of the packages and of the
description added. -/
lemma scriptAliases_eq_ok {c : Config} {vendor : Vendor} {root : Path} {d : Disk}
    (h : Build.scriptAliases c vendor root d = .ok t') :
    ∃ mapped staged pattern, AliasTable.load d c.compilerSettingsPath = .ok mapped ∧
      vendor.aliases root = .ok staged ∧
      Pattern.parse (Build.packageScript root).slashed = .ok pattern ∧
      mapped.addAll (staged ++ [(Build.packageAlias, [⟨pattern, .destination⟩])]) = .ok t' := by
  obtain ⟨mapped, hmapped, h⟩ := bind_eq_ok.mp h
  obtain ⟨staged, hstaged, h⟩ := bind_eq_ok.mp h
  obtain ⟨t₁, ht₁, h⟩ := bind_eq_ok.mp h
  obtain ⟨pattern, hpattern, h⟩ := bind_eq_ok.mp h
  obtain ⟨p, hp, rfl⟩ := map_eq_ok.mp (mapError_eq_ok.mp h)
  refine ⟨mapped, staged, pattern, hmapped, hstaged, mapError_eq_ok.mp hpattern, ?_⟩
  rw [addAll_append ht₁]
  exact addAll_cons_eq_ok.mpr ⟨p, Pattern.parse_eq_ok.mp hp, rfl⟩

/-- Aliases that are added never change what a table resolves or refuses: they matter for
specifiers alone that match none of its keys, or a key of which no candidate resolves. So it is
with the aliases that scripts get besides those of the settings. -/
theorem relocateSymbolic_of_addAll (h : t.addAll aliases = .ok t') :
    t.Extends aliases t' ∧
    ∀ (c : Config) (vendor : Vendor) (root : Path) (d : Disk) (table : AliasTable),
      Build.scriptAliases c vendor root d = .ok table →
        ∃ mapped staged pattern, AliasTable.load d c.compilerSettingsPath = .ok mapped ∧
          vendor.aliases root = .ok staged ∧
          mapped.Extends (staged ++ [(Build.packageAlias, [⟨pattern, .destination⟩])]) table := by
  refine ⟨extends_of_addAll h, ?_⟩
  intro c vendor root d table htable
  obtain ⟨mapped, staged, pattern, hmapped, hstaged, -, hadd⟩ := scriptAliases_eq_ok htable
  exact ⟨mapped, staged, pattern, hmapped, hstaged, extends_of_addAll hadd⟩

/-- A table with one key, for a file in the source tree. -/
def libTable : AliasTable :=
  ⟨⟨"/p"⟩, [(.wildcard "lib/" "", [⟨.wildcard "src/" "", .source⟩])]⟩

/-- One file in the source tree and one in the build. -/
def libPresent (p : Path) : Bool :=
  p.text = "/p/src/a.ts" || p.text = "/d/lib/b.js"

/-- A key with a candidate in the source tree gets another one in the build, which is taken for what
is missing in the source tree and for nothing else. -/
theorem relocateSymbolic_of_addAll_lib :
    ∃ table, libTable.addAll [("lib/*", [⟨.wildcard "/d/lib/" "", .destination⟩])] = .ok table ∧
      relocateSymbolic libPresent table "lib/a" ⟨"/p/x.ts"⟩ ⟨"/d/x.js"⟩ = .ok "./src/a.js" ∧
      relocateSymbolic libPresent table "lib/b" ⟨"/p/x.ts"⟩ ⟨"/d/x.js"⟩ = .ok "./lib/b.js" := by
  have hadd : libTable.addAll [("lib/*", [⟨.wildcard "/d/lib/" "", .destination⟩])] =
      .ok ⟨⟨"/p"⟩, [(.wildcard "lib/" "", [⟨.wildcard "src/" "", .source⟩,
        ⟨.wildcard "/d/lib/" "", .destination⟩])]⟩ := by
    rfl
  obtain ⟨hextends, -⟩ := relocateSymbolic_of_addAll hadd
  have hfound : relocateSymbolic libPresent libTable "lib/a" ⟨"/p/x.ts"⟩ ⟨"/d/x.js"⟩ =
      .ok "./src/a.js" := by
    with_unfolding_all rfl
  have hmatch : firstMatch "lib/b" libTable.entries =
      some (.wildcard "lib/" "", .captured "b", [⟨.wildcard "src/" "", .source⟩]) := by
    with_unfolding_all rfl
  have hmissing : relocateSymbolic libPresent libTable "lib/b" ⟨"/p/x.ts"⟩ ⟨"/d/x.js"⟩ =
      .error (.unresolvedImport ⟨"/p/x.ts"⟩ "lib/b" ["src/* (src)"]) := by
    with_unfolding_all rfl
  refine ⟨_, hadd, hextends.resolved hfound, ?_⟩
  rw [hextends.unresolved hmatch hmissing]
  with_unfolding_all rfl

end AliasTable

end AddonBuild
