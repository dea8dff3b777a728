import AddonBuild.Proofs.Import.Extending

/-!
# What decides about a specifier

The first key that matches a specifier decides about it, and among the candidates of that key the
first one that resolves or does not fit. Nothing behind these two is looked at, so a key that never
comes first might as well be missing.
-/

namespace AddonBuild

open Import (resolve?)

/-- The text that a match puts in the place of a wildcard. -/
def Pattern.Match.value : Pattern.Match → String
  | .exact => ""
  | .captured text => text

/-- A pattern that matches whatever another one does. -/
def Pattern.Covers (p q : Pattern) : Prop :=
  ∀ text, q.match? text ≠ none → p.match? text ≠ none

namespace Relocator

/-! ### Candidates -/

/-- A candidate that does not fit the match of its key: it has a wildcard although nothing was
captured, or none although something was. -/
inductive Misfits (key : Pattern) (c : Candidate) : Pattern.Match → SettingFault → Prop where
  | exact (h : c.path.hasWildcard = true) : Misfits key c .exact (.exactAlias key c.path)
  | captured {value : String} (h : c.path.hasWildcard = false) :
      Misfits key c (.captured value) (.wildcardAlias key c.path)

/-- A specifier of a script that is read at one place and written to another, and the files that
count as present. -/
structure Query where
  present : Path → Bool
  source : Path
  destination : Path
  specifier : String

namespace Query

variable (q : Query)

/-- What a specifier becomes by a candidate, if the place of the candidate resolves. -/
def resolution? (base : Path) (found : Pattern.Match) (c : Candidate) : Option String :=
  resolve? q.present q.specifier (c.tree.anchor q.source q.destination)
    (base.absolutize ⟨c.path.substitute found.value⟩)

/-- A candidate that ends the search: it does not fit, or it resolves. -/
def Decides (base : Path) (key : Pattern) (found : Pattern.Match) (c : Candidate) : Prop :=
  (∃ fault, Misfits key c found fault) ∨ q.resolution? base found c ≠ none

end Query

section Candidates

variable {q : Query} {base : Path} {key : Pattern} {found : Pattern.Match} {c : Candidate}
  {fault : SettingFault}

lemma candidateText_of_misfits (h : Misfits key c found fault) :
    candidateText key found c = .error fault := by
  cases h with
  | exact h => rw [candidateText, if_pos h]
  | captured h => simp only [candidateText, h, Bool.false_eq_true, if_false]

lemma candidateText_of_fits (h : ∀ fault, ¬ Misfits key c found fault) :
    candidateText key found c = .ok (c.path.substitute found.value) := by
  obtain ⟨pattern, tree⟩ := c
  cases pattern with
  | exact text =>
    cases found with
    | exact => rfl
    | captured value => exact absurd (.captured rfl) (h _)
  | wildcard left right =>
    cases found with
    | exact => exact absurd (.exact rfl) (h _)
    | captured value => rfl

/-- The candidates for a query, tried one after the other. -/
def Query.firstResolved (q : Query) (base : Path) (key : Pattern) (found : Pattern.Match)
    (candidates : List Candidate) : Except SettingFault (Option String) :=
  Relocator.firstResolved q.present base key found q.specifier q.source q.destination candidates

lemma Query.firstResolved_append (q : Query) (base : Path) (key : Pattern) (found : Pattern.Match)
    (first rest : List Candidate) :
    q.firstResolved base key found (first ++ rest) =
      match q.firstResolved base key found first with
      | .ok none => q.firstResolved base key found rest
      | decided => decided :=
  AliasTable.firstResolved_append q.present q.source q.destination base key found q.specifier first
    rest

lemma firstResolved_of_misfits (h : Misfits key c found fault) (rest : List Candidate) :
    q.firstResolved base key found (c :: rest) = .error fault := by
  rw [Query.firstResolved, firstResolved, candidateText_of_misfits h]
  rfl

/-- A candidate that fits is taken if it resolves and passed over if not. -/
lemma firstResolved_of_fits (h : ∀ fault, ¬ Misfits key c found fault) (rest : List Candidate) :
    q.firstResolved base key found (c :: rest) =
      match q.resolution? base found c with
      | some resolved => .ok (some resolved)
      | none => q.firstResolved base key found rest := by
  rw [Query.firstResolved, firstResolved, candidateText_of_fits h, Query.resolution?]
  cases c.tree <;> rfl

lemma firstResolved_of_not_decides {candidates : List Candidate}
    (h : ∀ c ∈ candidates, ¬ q.Decides base key found c) :
    q.firstResolved base key found candidates = .ok none := by
  induction candidates with
  | nil => rfl
  | cons c rest ih =>
    obtain ⟨hc, hrest⟩ := List.forall_mem_cons.mp h
    obtain ⟨hfits, hnone⟩ := not_or.mp hc
    rw [firstResolved_of_fits (not_exists.mp hfits), not_not.mp hnone]
    exact ih hrest

/-- Candidates that do not decide leave it to those behind them. -/
lemma firstResolved_append_of_not_decides {first : List Candidate}
    (h : ∀ c ∈ first, ¬ q.Decides base key found c) (rest : List Candidate) :
    q.firstResolved base key found (first ++ rest) = q.firstResolved base key found rest := by
  rw [q.firstResolved_append, firstResolved_of_not_decides h]

lemma exists_firstResolved_cons (h : q.Decides base key found c) :
    ∃ decided, decided ≠ .ok none ∧
      ∀ rest, q.firstResolved base key found (c :: rest) = decided := by
  by_cases hfits : ∃ fault, Misfits key c found fault
  · obtain ⟨fault, hfault⟩ := hfits
    exact ⟨.error fault, nofun, firstResolved_of_misfits hfault⟩
  · obtain ⟨resolved, hresolved⟩ := Option.ne_none_iff_exists'.mp (h.resolve_left hfits)
    refine ⟨.ok (some resolved), nofun, fun rest => ?_⟩
    rw [firstResolved_of_fits (not_exists.mp hfits), hresolved]

/-- With a candidate that decides, those behind it do not matter for the answer. -/
lemma exists_firstResolved_append (h : q.Decides base key found c) (first : List Candidate) :
    ∃ decided, decided ≠ .ok none ∧
      ∀ rest, q.firstResolved base key found (first ++ c :: rest) = decided := by
  obtain ⟨decided, hne, hdecided⟩ := exists_firstResolved_cons h
  simp only [q.firstResolved_append, hdecided]
  rcases q.firstResolved base key found first with fault | _ | resolved
  · exact ⟨.error fault, nofun, fun _ => rfl⟩
  · exact ⟨decided, hne, fun _ => rfl⟩
  · exact ⟨.ok (some resolved), nofun, fun _ => rfl⟩

end Candidates

/-! ### Keys -/

/-- The first key of a table that matches a specifier, how it does, and its candidates. -/
def IsFirstKey (t : AliasTable) (specifier : String) (key : Pattern) (found : Pattern.Match)
    (candidates : List Candidate) : Prop :=
  ∃ before after, t.entries = before ++ (key, candidates) :: after ∧
    (∀ entry ∈ before, entry.1.match? specifier = none) ∧ key.match? specifier = some found

section Keys

variable {specifier : String} {key : Pattern} {candidates : List Candidate}
  {before after : List (Pattern × List Candidate)}

lemma firstMatch_eq_none_iff {entries : List (Pattern × List Candidate)} :
    firstMatch specifier entries = none ↔ ∀ entry ∈ entries, entry.1.match? specifier = none := by
  rw [AliasTable.firstMatch_eq_none, List.forall_mem_map]

lemma firstMatch_cons_of_some {found : Pattern.Match} (h : key.match? specifier = some found) :
    firstMatch specifier ((key, candidates) :: after) = some (key, found, candidates) := by
  rw [firstMatch, h]

lemma firstMatch_cons_of_none (h : key.match? specifier = none) :
    firstMatch specifier ((key, candidates) :: after) = firstMatch specifier after := by
  rw [firstMatch, h]

lemma isFirstKey_iff {t : AliasTable} {found : Pattern.Match} :
    IsFirstKey t specifier key found candidates ↔
      firstMatch specifier t.entries = some (key, found, candidates) := by
  constructor
  · rintro ⟨before, after, hentries, hbefore, hkey⟩
    rw [hentries, AliasTable.firstMatch_append, firstMatch_eq_none_iff.mpr hbefore, Option.none_or,
      firstMatch_cons_of_some hkey]
  · exact firstMatch_eq_some

/-- Keys behind one that matches are not looked at. -/
lemma firstMatch_of_match (h : key.match? specifier ≠ none)
    (after' : List (Pattern × List Candidate)) :
    firstMatch specifier (before ++ (key, candidates) :: after') =
      firstMatch specifier (before ++ (key, candidates) :: after) := by
  obtain ⟨found, hfound⟩ := Option.ne_none_iff_exists'.mp h
  rw [AliasTable.firstMatch_append, AliasTable.firstMatch_append, firstMatch_cons_of_some hfound,
    firstMatch_cons_of_some hfound]

/-- A key behind one that covers it is never the first to match. -/
lemma firstMatch_of_covers (h : ∃ entry ∈ before, entry.1 = key ∨ entry.1.Covers key) :
    firstMatch specifier (before ++ after) =
      firstMatch specifier (before ++ (key, candidates) :: after) := by
  rw [AliasTable.firstMatch_append, AliasTable.firstMatch_append]
  cases hkey : key.match? specifier with
  | none => rw [firstMatch_cons_of_none hkey]
  | some found =>
    obtain ⟨entry, hentry, hcovers⟩ := h
    have hmatch : entry.1.match? specifier ≠ none := by
      rcases hcovers with rfl | hcovers
      · simp [hkey]
      · exact hcovers specifier (by simp [hkey])
    cases hbefore : firstMatch specifier before with
    | none => exact absurd (firstMatch_eq_none_iff.mp hbefore entry hentry) hmatch
    | some first => rw [Option.some_or, Option.some_or]

end Keys

/-! ### Specifiers -/

namespace Query

/-- What becomes of a specifier that neither starts with a dot nor belongs to the host. -/
inductive Settles (q : Query) (t : AliasTable) : Except Fault String → Prop where
  | unmatched (h : ∀ entry ∈ t.entries, entry.1.match? q.specifier = none) :
      Settles q t (.error (.unresolvedImport q.source q.specifier []))
  | unresolved {key : Pattern} {found : Pattern.Match} {candidates : List Candidate}
      (hkey : IsFirstKey t q.specifier key found candidates)
      (h : ∀ c ∈ candidates, ¬ q.Decides t.base key found c) :
      Settles q t (.error (.unresolvedImport q.source q.specifier (candidates.map Candidate.text)))
  | refused {key : Pattern} {found : Pattern.Match} {first rest : List Candidate} {c : Candidate}
      {fault : SettingFault} (hkey : IsFirstKey t q.specifier key found (first ++ c :: rest))
      (hfirst : ∀ d ∈ first, ¬ q.Decides t.base key found d) (h : Misfits key c found fault) :
      Settles q t (.error (.setting fault))
  | resolved {key : Pattern} {found : Pattern.Match} {first rest : List Candidate} {c : Candidate}
      {relocated : String} (hkey : IsFirstKey t q.specifier key found (first ++ c :: rest))
      (hfirst : ∀ d ∈ first, ¬ q.Decides t.base key found d)
      (hfits : ∀ fault, ¬ Misfits key c found fault)
      (h : q.resolution? t.base found c = some relocated) :
      Settles q t (.ok relocated)

variable {q : Query} {t : AliasTable}

/-- What the aliases of a table make of a query. -/
def byAliases (q : Query) (t : AliasTable) : Except Fault String :=
  relocateSymbolic q.present t q.specifier q.source q.destination

lemma byAliases_of_isFirstKey {key : Pattern} {found : Pattern.Match}
    {candidates : List Candidate} (h : IsFirstKey t q.specifier key found candidates) :
    q.byAliases t = AliasTable.answer q.source q.specifier candidates
      (q.firstResolved t.base key found candidates) :=
  AliasTable.relocateSymbolic_of_some q.present q.source q.destination (isFirstKey_iff.mp h)

lemma Settles.byAliases_eq {result : Except Fault String} (h : q.Settles t result) :
    q.byAliases t = result := by
  cases h with
  | unmatched h => rw [byAliases, relocateSymbolic, firstMatch_eq_none_iff.mpr h]
  | unresolved hkey h =>
    rw [byAliases_of_isFirstKey hkey, firstResolved_of_not_decides h]
    rfl
  | refused hkey hfirst h =>
    rw [byAliases_of_isFirstKey hkey, firstResolved_append_of_not_decides hfirst,
      firstResolved_of_misfits h]
    rfl
  | resolved hkey hfirst hfits h =>
    rw [byAliases_of_isFirstKey hkey, firstResolved_append_of_not_decides hfirst,
      firstResolved_of_fits hfits, h]
    rfl

/-- There is a first candidate that decides, unless none does. -/
lemma exists_first_decides (q : Query) (base : Path) (key : Pattern) (found : Pattern.Match)
    (candidates : List Candidate) :
    (∀ c ∈ candidates, ¬ q.Decides base key found c) ∨
    ∃ first c rest, candidates = first ++ c :: rest ∧
      (∀ d ∈ first, ¬ q.Decides base key found d) ∧ q.Decides base key found c := by
  induction candidates with
  | nil => exact .inl nofun
  | cons c candidates ih =>
    by_cases hc : q.Decides base key found c
    · exact .inr ⟨[], c, candidates, rfl, nofun, hc⟩
    · rcases ih with hnone | ⟨first, d, rest, rfl, hfirst, hd⟩
      · exact .inl (List.forall_mem_cons.mpr ⟨hc, hnone⟩)
      · exact .inr ⟨c :: first, d, rest, rfl, List.forall_mem_cons.mpr ⟨hc, hfirst⟩, hd⟩

lemma exists_settles (q : Query) (t : AliasTable) : ∃ result, q.Settles t result := by
  cases hmatch : firstMatch q.specifier t.entries with
  | none => exact ⟨_, .unmatched (firstMatch_eq_none_iff.mp hmatch)⟩
  | some entry =>
    obtain ⟨key, found, candidates⟩ := entry
    have hkey := isFirstKey_iff.mpr hmatch
    rcases q.exists_first_decides t.base key found candidates with
      hnone | ⟨first, c, rest, rfl, hfirst, hc⟩
    · exact ⟨_, .unresolved hkey hnone⟩
    · by_cases hfits : ∃ fault, Misfits key c found fault
      · obtain ⟨fault, hfault⟩ := hfits
        exact ⟨_, .refused hkey hfirst hfault⟩
      · obtain ⟨relocated, hrelocated⟩ := Option.ne_none_iff_exists'.mp (hc.resolve_left hfits)
        exact ⟨_, .resolved hkey hfirst (not_exists.mp hfits) hrelocated⟩

lemma settles_iff {result : Except Fault String} : q.Settles t result ↔ q.byAliases t = result := by
  constructor
  · exact Settles.byAliases_eq
  · rintro rfl
    obtain ⟨result, h⟩ := q.exists_settles t
    rw [h.byAliases_eq]
    exact h

lemma byAliases_congr {t' : AliasTable} (hbase : t'.base = t.base)
    (h : firstMatch q.specifier t'.entries = firstMatch q.specifier t.entries) :
    q.byAliases t' = q.byAliases t :=
  AliasTable.relocateSymbolic_congr q.present q.source q.destination hbase h

/-- Candidates behind one that decides are not looked at. -/
lemma byAliases_of_decides {before after : List (Pattern × List Candidate)} {key : Pattern}
    {found : Pattern.Match} {first rest : List Candidate} {c : Candidate}
    (hentries : t.entries = before ++ (key, first ++ c :: rest) :: after)
    (hfound : key.match? q.specifier = some found) (h : q.Decides t.base key found c)
    (rest' : List Candidate) :
    q.byAliases ⟨t.base, before ++ (key, first ++ c :: rest') :: after⟩ = q.byAliases t := by
  cases hbefore : firstMatch q.specifier before with
  | some entry =>
    refine byAliases_congr rfl ?_
    rw [hentries, AliasTable.firstMatch_append, AliasTable.firstMatch_append, hbefore,
      Option.some_or, Option.some_or]
  | none =>
    have hnone := firstMatch_eq_none_iff.mp hbefore
    have hkey : IsFirstKey t q.specifier key found (first ++ c :: rest) :=
      ⟨before, after, hentries, hnone, hfound⟩
    have hkey' : IsFirstKey ⟨t.base, before ++ (key, first ++ c :: rest') :: after⟩ q.specifier key
        found (first ++ c :: rest') :=
      ⟨before, after, rfl, hnone, hfound⟩
    obtain ⟨decided, hne, hdecided⟩ := exists_firstResolved_append h first
    rw [byAliases_of_isFirstKey hkey, byAliases_of_isFirstKey hkey', hdecided, hdecided]
    cases decided with
    | error fault => rfl
    | ok resolved =>
      cases resolved with
      | none => exact absurd rfl hne
      | some resolved => rfl

/-- What a relocator makes of a query. -/
def answer (q : Query) (r : Relocator) : Except Fault String :=
  r.relocateSpecifier q.present q.source q.destination q.specifier

end Query

/-- The relocator with other entries in its table. -/
def withEntries (r : Relocator) (entries : List (Pattern × List Candidate)) : Relocator :=
  { r with aliases := { r.aliases with entries } }

lemma answer_eq_byAliases {r : Relocator} {q : Query} (hrelative : isRelative q.specifier = false)
    (hreserved : r.isReserved q.specifier = false) : q.answer r = q.byAliases r.aliases := by
  rw [Query.answer, relocateSpecifier, if_neg (by simp [hrelative]), if_neg (by simp [hreserved])]
  rfl

/-- A specifier that neither starts with a dot nor belongs to the host is settled by the first key
that matches, and there by the first candidate that does not fit or resolves. What is behind the two
does not matter, nor does a key behind one that is the same or covers it. -/
theorem settles_iff_answer {r : Relocator} {q : Query} (hrelative : isRelative q.specifier = false)
    (hreserved : r.isReserved q.specifier = false) :
    (∀ result, q.Settles r.aliases result ↔ q.answer r = result) ∧
    ∀ before key candidates after, r.aliases.entries = before ++ (key, candidates) :: after →
      (key.match? q.specifier ≠ none → ∀ after',
        q.answer (r.withEntries (before ++ (key, candidates) :: after')) = q.answer r) ∧
      (∀ found first c rest, key.match? q.specifier = some found →
        candidates = first ++ c :: rest → q.Decides r.aliases.base key found c → ∀ rest',
        q.answer (r.withEntries (before ++ (key, first ++ c :: rest') :: after)) = q.answer r) ∧
      ((∃ entry ∈ before, entry.1 = key ∨ entry.1.Covers key) →
        q.answer (r.withEntries (before ++ after)) = q.answer r) := by
  have hanswer := answer_eq_byAliases hrelative hreserved
  have hwith (entries : List (Pattern × List Candidate)) :
      q.answer (r.withEntries entries) = q.byAliases ⟨r.aliases.base, entries⟩ :=
    answer_eq_byAliases hrelative hreserved
  simp only [hanswer, hwith]
  refine ⟨fun _ => Query.settles_iff, ?_⟩
  intro before key candidates after hentries
  refine ⟨?_, ?_, ?_⟩
  · intro hmatch after'
    refine Query.byAliases_congr rfl ?_
    rw [hentries]
    exact firstMatch_of_match hmatch after'
  · rintro found first c rest hfound rfl hdecides rest'
    exact Query.byAliases_of_decides hentries hfound hdecides rest'
  · intro hcovers
    refine Query.byAliases_congr rfl ?_
    rw [hentries]
    exact firstMatch_of_covers hcovers

/-- A query for `lib/b`, which is there as a source only. -/
def libQuery : Query :=
  ⟨fun p => p.text = "/p/src/b.ts", ⟨"/p/x.ts"⟩, ⟨"/d/x.js"⟩, "lib/b"⟩

/-- A key with a wildcard. -/
def libKey : Pattern := .wildcard "lib/" ""

/-- A candidate that fits the key, in the directory of a name. -/
def libIn (directory : String) : Candidate :=
  ⟨.wildcard directory "", .source⟩

/-- A candidate that does not fit the key. -/
def libUnfit : Candidate := ⟨.exact "src", .source⟩

/-- A relocator whose second key is covered by the first one. -/
def libRelocator : Relocator :=
  ofAliases ⟨⟨"/p"⟩, [(libKey, [libIn "gen/", libIn "src/", libUnfit]), (.exact "lib/b", [])]⟩

/-- The second candidate is taken. The one behind it, which does not fit, and the covered key might
as well be missing. -/
theorem settles_iff_answer_lib :
    libQuery.answer libRelocator = .ok "./src/b.js" ∧
    libQuery.answer (libRelocator.withEntries
      [(libKey, [libIn "gen/", libIn "src/"]), (.exact "lib/b", [])]) = .ok "./src/b.js" ∧
    libQuery.answer (libRelocator.withEntries
      [(libKey, [libIn "gen/", libIn "src/", libUnfit])]) = .ok "./src/b.js" := by
  obtain ⟨hsettles, hbehind⟩ :=
    settles_iff_answer (r := libRelocator) (q := libQuery) (by rfl) (by rfl)
  have hkey : libKey.match? libQuery.specifier = some (.captured "b") := by
    rfl
  have hfits (directory : String) (fault : SettingFault) :
      ¬ Misfits libKey (libIn directory) (.captured "b") fault := by
    intro hmisfit
    cases hmisfit with
    | captured h => exact Bool.noConfusion h
  have hnone : libQuery.resolution? ⟨"/p"⟩ (.captured "b") (libIn "gen/") = none := by
    with_unfolding_all rfl
  have hsome : libQuery.resolution? ⟨"/p"⟩ (.captured "b") (libIn "src/") = some "./src/b.js" := by
    with_unfolding_all rfl
  have hfirst : ∀ d ∈ [libIn "gen/"],
      ¬ libQuery.Decides libRelocator.aliases.base libKey (.captured "b") d := by
    intro d hd
    rw [List.mem_singleton.mp hd]
    rintro (⟨fault, hmisfit⟩ | hresolved)
    · exact hfits "gen/" fault hmisfit
    · exact hresolved hnone
  have hfirstKey : IsFirstKey libRelocator.aliases libQuery.specifier libKey (.captured "b")
      ([libIn "gen/"] ++ libIn "src/" :: [libUnfit]) :=
    ⟨[], _, rfl, nofun, hkey⟩
  have hanswer : libQuery.answer libRelocator = .ok "./src/b.js" :=
    (hsettles _).mp (.resolved hfirstKey hfirst (hfits "src/") hsome)
  obtain ⟨-, hcandidates, -⟩ :=
    hbehind [] libKey [libIn "gen/", libIn "src/", libUnfit] [(.exact "lib/b", [])] rfl
  obtain ⟨-, -, hcovered⟩ :=
    hbehind [(libKey, [libIn "gen/", libIn "src/", libUnfit])] (.exact "lib/b") [] [] rfl
  refine ⟨hanswer, ?_, ?_⟩
  · have hdecides : libQuery.Decides libRelocator.aliases.base libKey (.captured "b")
        (libIn "src/") := by
      exact .inr (hsome.trans_ne (Option.some_ne_none _))
    exact (hcandidates (.captured "b") [libIn "gen/"] (libIn "src/") [libUnfit] hkey rfl hdecides
      []).trans hanswer
  · refine (hcovered ⟨_, List.mem_cons_self, .inr ?_⟩).trans hanswer
    intro text htext
    obtain rfl : text = "lib/b" := by
      by_contra hne
      exact htext (if_neg hne)
    exact hkey.trans_ne (Option.some_ne_none _)

end Relocator

end AddonBuild
