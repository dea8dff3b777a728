import AddonBuild.Proofs.Import.Extending
import AddonBuild.Proofs.Pattern.Matching
import Mathlib.Data.List.Induction
import Mathlib.Data.List.Nodup

/-!
# What an alias table records

Calls add to an alias table, and some of them fail. A table that was empty at first has recorded the
aliases that each call lists up to its first key with two wildcards: the keys in the order in which
they first came, each with all candidates that were ever listed for it, in order.
-/

namespace AddonBuild

namespace AliasTable

/-! ### Calls -/

/-- A call that adds to a table: candidates for one key, or a list of aliases. -/
inductive Call where
  | add (key : String) (candidates : List Candidate)
  | addAliases (aliases : Aliases)

/-- What a call leaves of a table, and the fault that it reports. A table is not changed by a single
key that is refused. -/
def call (t : AliasTable) : Call → AliasTable × Option SettingFault
  | .add key candidates =>
    match t.add key candidates with
    | .ok t' => (t', none)
    | .error fault => (t, some fault)
  | .addAliases aliases => t.addAliases aliases

/-- The table after calls, one after the other, whatever they report. -/
def run (t : AliasTable) (calls : List Call) : AliasTable :=
  calls.foldl (fun t c => (t.call c).1) t

/-- Whether a text is a key: it has at most one wildcard. -/
def isKey (text : String) : Bool :=
  text.toList.count Pattern.mark ≤ 1

/-- The aliases before the first one that is refused for its key. -/
def accepted (aliases : Aliases) : Aliases :=
  aliases.takeWhile fun item => isKey item.1

/-- The aliases that a call gives to a table. -/
def Call.given : Call → Aliases
  | .add key candidates => accepted [(key, candidates)]
  | .addAliases aliases => accepted aliases

/-- All candidates that aliases list for a key, in order. -/
def listedFor (key : String) (given : Aliases) : List Candidate :=
  (given.filter fun item => item.1 = key).flatMap (·.2)

/-- What a table has recorded of the aliases that were given to it. -/
structure Records (t : AliasTable) (base : Path) (given : Aliases) : Prop where
  /-- The base is that of the table without entries. -/
  base : t.base = base
  /-- The keys are the distinct ones, in the order in which they first came. -/
  keys : (t.entries.map fun entry => entry.1.render) = (given.map Prod.fst).eraseDups
  /-- A key is stored as the pattern that its text denotes. -/
  parsed : ∀ entry ∈ t.entries, Pattern.parse? entry.1.render = some entry.1
  /-- A key has all of its candidates. -/
  candidates : ∀ entry ∈ t.entries, entry.2 = listedFor entry.1.render given

variable {t : AliasTable} {base : Path} {given : Aliases} {key : String} {p : Pattern}
  {candidates : List Candidate}

/-! ### One key -/

lemma isKey_iff : isKey key = true ↔ ∃ p, Pattern.parse? key = some p := by
  rw [isKey, decide_eq_true_iff, Pattern.exists_parse?_iff]

lemma parse?_eq_none (h : isKey key = false) : Pattern.parse? key = none := by
  rw [Option.eq_none_iff_forall_ne_some]
  intro p hp
  rw [isKey_iff.mpr ⟨p, hp⟩] at h
  cases h

lemma add_of_parse? (h : Pattern.parse? key = some p) :
    t.add key candidates = .ok (t.insert p candidates) := by
  rw [add, Pattern.parse_eq_ok.mpr h]
  rfl

lemma add_of_not_isKey (h : isKey key = false) :
    t.add key candidates = .error (.twoWildcards key) := by
  rw [add, Pattern.parse, parse?_eq_none h]
  rfl

/-! ### Distinct keys -/

/-- A text behind others is a new one unless it is among them. -/
lemma eraseDups_concat (keys : List String) (key : String) :
    (keys ++ [key]).eraseDups =
      if key ∈ keys then keys.eraseDups else keys.eraseDups ++ [key] := by
  rw [List.eraseDups_append]
  split_ifs with h
  · simp [List.removeAll, h]
  · simp [List.removeAll, h, List.eraseDups_cons]

lemma nodup_eraseDups (keys : List String) : keys.eraseDups.Nodup := by
  induction keys using List.reverseRecOn with
  | nil => exact List.nodup_nil
  | append_singleton keys key ih =>
    rw [eraseDups_concat]
    split_ifs with h
    · exact ih
    · rw [← List.concat_eq_append]
      exact List.Nodup.concat (mt List.mem_eraseDups.mp h) ih

/-! ### One entry more -/

/-- An entry of an extended list is an old one under another key, or it is the one for the key. -/
lemma mem_extend {entries : List (Pattern × List Candidate)} {entry : Pattern × List Candidate}
    (hdistinct : (entries.map Prod.fst).Nodup) (h : entry ∈ extend p candidates entries) :
    entry ∈ entries ∧ entry.1 ≠ p ∨
      (∃ old, (p, old) ∈ entries ∧ entry = (p, old ++ candidates)) ∨
      p ∉ entries.map Prod.fst ∧ entry = (p, candidates) := by
  induction entries with
  | nil =>
    rw [extend, List.mem_singleton] at h
    exact .inr (.inr ⟨List.not_mem_nil, h⟩)
  | cons first rest ih =>
    obtain ⟨k, cs⟩ := first
    rw [List.map_cons, List.nodup_cons] at hdistinct
    rw [extend] at h
    split_ifs at h with hk
    · rcases List.mem_cons.mp h with rfl | hrest
      · exact .inr (.inl ⟨cs, hk ▸ List.mem_cons_self, by rw [hk]⟩)
      · refine .inl ⟨List.mem_cons_of_mem _ hrest, ?_⟩
        intro heq
        exact hdistinct.1 (List.mem_map.mpr ⟨entry, hrest, heq.trans hk.symm⟩)
    · rcases List.mem_cons.mp h with rfl | hrest
      · exact .inl ⟨List.mem_cons_self, hk⟩
      · rcases ih hdistinct.2 hrest with ⟨hold, hne⟩ | ⟨old, hold, hentry⟩ | ⟨hnew, hentry⟩
        · exact .inl ⟨List.mem_cons_of_mem _ hold, hne⟩
        · exact .inr (.inl ⟨old, List.mem_cons_of_mem _ hold, hentry⟩)
        · refine .inr (.inr ⟨?_, hentry⟩)
          rw [List.map_cons, List.mem_cons, not_or]
          exact ⟨Ne.symm hk, hnew⟩

lemma map_fst_extend_of_not_mem {entries : List (Pattern × List Candidate)}
    (h : p ∉ entries.map Prod.fst) :
    (extend p candidates entries).map Prod.fst = entries.map Prod.fst ++ [p] := by
  have happend := extend_append p candidates entries []
  rw [List.append_nil, if_neg h] at happend
  rw [happend, List.map_append]
  rfl

lemma listedFor_concat (key key' : String) (given : Aliases) (candidates : List Candidate) :
    listedFor key' (given ++ [(key, candidates)]) =
      listedFor key' given ++ if key = key' then candidates else [] := by
  rw [listedFor, listedFor, List.filter_append, List.flatMap_append]
  by_cases h : key = key' <;> simp [h]

lemma listedFor_of_not_mem (h : key ∉ given.map Prod.fst) : listedFor key given = [] := by
  rw [listedFor, List.filter_eq_nil_iff.mpr, List.flatMap_nil]
  intro item hitem hkey
  exact h (List.mem_map.mpr ⟨item, hitem, of_decide_eq_true hkey⟩)

/-! ### Steps -/

lemma records_empty (base : Path) : (empty base).Records base [] where
  base := rfl
  keys := rfl
  parsed := List.forall_mem_nil _
  candidates := List.forall_mem_nil _

namespace Records

variable (h : t.Records base given)
include h

lemma nodup : (t.entries.map Prod.fst).Nodup := by
  have hkeys := nodup_eraseDups (given.map Prod.fst)
  rw [← h.keys] at hkeys
  refine List.Nodup.of_map Pattern.render ?_
  rwa [List.map_map]

/-- A table has an entry for a pattern if the text of the pattern was given to it. -/
lemma mem_iff (hp : Pattern.parse? key = some p) :
    p ∈ t.entries.map Prod.fst ↔ key ∈ given.map Prod.fst := by
  rw [← List.mem_eraseDups (l := given.map _), ← h.keys, List.mem_map, List.mem_map]
  refine exists_congr fun entry => and_congr_right fun hentry => ⟨?_, ?_⟩
  · rintro rfl
    exact Pattern.render_of_parse? hp
  · intro hrender
    have hparsed := h.parsed entry hentry
    rw [hrender, hp] at hparsed
    exact (Option.some.inj hparsed).symm

/-- A table that has candidates added to a key has recorded one alias more. -/
lemma insert (hp : Pattern.parse? key = some p) (candidates : List Candidate) :
    (t.insert p candidates).Records base (given ++ [(key, candidates)]) := by
  have hrender := Pattern.render_of_parse? hp
  have hmem {entry} (hentry : entry ∈ extend p candidates t.entries) :=
    mem_extend h.nodup hentry
  constructor
  case base => exact h.base
  case keys =>
    rw [List.map_append, List.map_singleton, eraseDups_concat, ← h.keys]
    have hentries := h.mem_iff hp
    simp only [AliasTable.insert, ← Function.comp_def Pattern.render, ← List.map_map]
    split_ifs with hgiven
    · rw [map_fst_extend (hentries.mpr hgiven)]
    · rw [map_fst_extend_of_not_mem (mt hentries.mp hgiven), List.map_append, List.map_singleton,
        hrender]
  case parsed =>
    intro entry hentry
    rcases hmem hentry with ⟨hold, -⟩ | ⟨old, -, rfl⟩ | ⟨-, rfl⟩
    · exact h.parsed entry hold
    · rw [hrender, hp]
    · rw [hrender, hp]
  case candidates =>
    intro entry hentry
    rw [listedFor_concat]
    rcases hmem hentry with ⟨hold, hne⟩ | ⟨old, hold, rfl⟩ | ⟨hnew, rfl⟩
    · have hother : key ≠ entry.1.render := by
        rintro rfl
        exact hne (Option.some.inj ((h.parsed entry hold).symm.trans hp))
      rw [if_neg hother, List.append_nil, h.candidates entry hold]
    · rw [if_pos hrender.symm, ← h.candidates _ hold]
    · rw [if_pos hrender.symm, hrender, listedFor_of_not_mem (mt (h.mem_iff hp).mpr hnew),
        List.nil_append]

/-- A look-up finds all that was listed for a key, if anything was. -/
lemma get?_eq (key : String) :
    t.get? key = if key ∈ given.map Prod.fst then some (listedFor key given) else none := by
  rw [get?]
  cases hfind : t.entries.find? fun entry => entry.1.render = key with
  | some entry =>
    have hrender : entry.1.render = key := by simpa using List.find?_some hfind
    have hentry := List.mem_of_find?_eq_some hfind
    have hgiven : key ∈ given.map Prod.fst := by
      rw [← List.mem_eraseDups, ← h.keys, ← hrender]
      exact List.mem_map_of_mem hentry
    rw [if_pos hgiven, Option.map_some, h.candidates entry hentry, hrender]
  | none =>
    have hnone := List.find?_eq_none.mp hfind
    rw [if_neg, Option.map_none]
    rw [← List.mem_eraseDups, ← h.keys, List.mem_map]
    rintro ⟨entry, hentry, hrender⟩
    exact hnone entry hentry (decide_eq_true hrender)

/-- A list of aliases is recorded up to the first of them that is refused. -/
lemma addAliases (aliases : Aliases) :
    (t.addAliases aliases).1.Records base (given ++ accepted aliases) := by
  induction aliases generalizing t given with
  | nil => simpa [AliasTable.addAliases, accepted] using h
  | cons item rest ih =>
    obtain ⟨key, candidates⟩ := item
    rw [AliasTable.addAliases, accepted, List.takeWhile_cons]
    cases hkey : isKey key with
    | false =>
      rw [add_of_not_isKey hkey]
      simpa using h
    | true =>
      obtain ⟨p, hp⟩ := isKey_iff.mp hkey
      rw [add_of_parse? hp, if_pos rfl, ← List.singleton_append, ← List.append_assoc]
      exact ih (h.insert hp candidates)

/-- What a call leaves has recorded what the call gave. -/
lemma call (c : Call) : (t.call c).1.Records base (given ++ c.given) := by
  cases c with
  | addAliases aliases => exact h.addAliases aliases
  | add key candidates =>
    rw [AliasTable.call, Call.given, accepted, List.takeWhile_cons]
    cases hkey : isKey key with
    | false =>
      rw [add_of_not_isKey hkey]
      simpa using h
    | true =>
      obtain ⟨p, hp⟩ := isKey_iff.mp hkey
      rw [add_of_parse? hp]
      exact h.insert hp candidates

/-- So what calls leave has recorded what all of them gave. -/
lemma run (calls : List Call) : (t.run calls).Records base (given ++ calls.flatMap Call.given) := by
  induction calls generalizing t given with
  | nil => simpa [AliasTable.run] using h
  | cons c calls ih =>
    rw [List.flatMap_cons, ← List.append_assoc]
    exact ih (h.call c)

end Records

/-! ### What calls report -/

lemma call_add (t : AliasTable) (key : String) (candidates : List Candidate) :
    ((t.call (.add key candidates)).2 = none ↔ isKey key = true) ∧
      ((t.call (.add key candidates)).2 ≠ none → (t.call (.add key candidates)).1 = t) := by
  rw [call]
  cases hkey : isKey key with
  | false => simp [add_of_not_isKey hkey]
  | true =>
    obtain ⟨p, hp⟩ := isKey_iff.mp hkey
    simp [add_of_parse? hp]

/-- How a table takes a list of aliases. -/
structure Takes (t : AliasTable) (aliases : Aliases) : Prop where
  /-- The list is refused if there is a text in it that is no key. -/
  refused : (t.addAliases aliases).2 ≠ none ↔ ∃ item ∈ aliases, isKey item.1 = false
  /-- What is left is what the aliases before that one do, added one by one. -/
  left : (t.addAliases aliases).1 =
    t.run ((accepted aliases).map fun item => .add item.1 item.2)
  /-- A list that is not refused may have more behind it. -/
  append : (t.addAliases aliases).2 = none → ∀ more : Aliases,
    t.addAliases (aliases ++ more) = (t.addAliases aliases).1.addAliases more

lemma takes (t : AliasTable) (aliases : Aliases) : t.Takes aliases := by
  induction aliases generalizing t with
  | nil =>
    constructor
    case refused => simp [addAliases]
    case left => rfl
    case append => exact fun _ _ => rfl
  | cons item rest ih =>
    obtain ⟨key, candidates⟩ := item
    cases hkey : isKey key with
    | false =>
      have hadd : t.addAliases ((key, candidates) :: rest) = (t, some (.twoWildcards key)) := by
        rw [addAliases, add_of_not_isKey hkey]
      constructor
      case refused => simp [hadd, hkey]
      case left =>
        rw [hadd, accepted, List.takeWhile_cons_of_neg (by simp [hkey])]
        rfl
      case append => simp [hadd]
    | true =>
      obtain ⟨p, hp⟩ := isKey_iff.mp hkey
      have hadd (more : Aliases) : t.addAliases ((key, candidates) :: more) =
          (t.insert p candidates).addAliases more := by
        rw [addAliases, add_of_parse? hp]
      -- what is recorded first does not change which keys are refused after it
      have hrest := ih (t.insert p candidates)
      constructor
      case refused =>
        rw [hadd, hrest.refused]
        simp [hkey]
      case left =>
        have hcall : (t.call (.add key candidates)).1 = t.insert p candidates := by
          rw [call, add_of_parse? hp]
        have htake : accepted ((key, candidates) :: rest) = (key, candidates) :: accepted rest :=
          List.takeWhile_cons_of_pos hkey
        rw [hadd, hrest.left, htake, List.map_cons, run, run, List.foldl_cons, hcall]
      case append =>
        intro hnone more
        rw [hadd] at hnone
        rw [List.cons_append, hadd, hadd, hrest.append hnone more]

/-- Whatever calls are made on an empty table, and whichever of them fail, the table has recorded
what they gave and reads its places from the base that it was made with. A call that adds one key
does so unless the key is refused, and then changes nothing; one that adds a list goes up to the
first key that is refused. -/
theorem records_run_empty (base : Path) (calls : List Call) :
    ((empty base).run calls).Records base (calls.flatMap Call.given) ∧
    (∀ key, ((empty base).run calls).get? key =
      if key ∈ (calls.flatMap Call.given).map Prod.fst then
        some (listedFor key (calls.flatMap Call.given))
      else none) ∧
    (∀ (t : AliasTable) (key : String) (candidates : List Candidate),
      ((t.call (.add key candidates)).2 = none ↔ isKey key = true) ∧
      ((t.call (.add key candidates)).2 ≠ none → (t.call (.add key candidates)).1 = t)) ∧
    ∀ (t : AliasTable) (aliases : Aliases), t.Takes aliases := by
  have hrun := (records_empty base).run calls
  rw [List.nil_append] at hrun
  exact ⟨hrun, hrun.get?_eq, call_add, takes⟩

/-- A list that is refused half-way, between two calls that add to one key. -/
theorem records_run_empty_refused :
    let source : Candidate := ⟨.wildcard "lib/" "", .source⟩
    let destination : Candidate := ⟨.wildcard "vendor/" "", .destination⟩
    let t := (empty ⟨"/p"⟩).run [.add "@lib/*" [source],
      .addAliases [("m", []), ("*/*", [source]), ("z", [])], .add "@lib/*" [destination]]
    t.base = ⟨"/p"⟩ ∧ (t.entries.map fun entry => entry.1.render) = ["@lib/*", "m"] ∧
      t.get? "@lib/*" = some [source, destination] ∧ t.get? "z" = none := by
  intro source destination t
  obtain ⟨hrecords, hget, -, -⟩ := records_run_empty ⟨"/p"⟩ [.add "@lib/*" [source],
      .addAliases [("m", []), ("*/*", [source]), ("z", [])], .add "@lib/*" [destination]]
  exact ⟨hrecords.base, hrecords.keys.trans (by decide), (hget _).trans (by decide),
    (hget _).trans (by decide)⟩

end AliasTable

end AddonBuild
