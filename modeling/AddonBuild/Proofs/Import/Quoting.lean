import AddonBuild.Proofs.Import.Patching
import AddonBuild.Proofs.Import.Route
import AddonBuild.Proofs.Path.Ahead
import AddonBuild.Proofs.Pattern.Matching
import AddonBuild.Proofs.Script.Quoting
import Mathlib

/-!
# Relocated specifiers between their quotes

A specifier that was relocated is put between the quotes of the one that it replaces, as it is. So
it is a string again just if the names that lie ahead of its script can stand between these quotes.
Those are names of the specifier itself if it starts with a dot, unless it leads to a file that is
named after a directory above the script. Other specifiers get their names from the aliases.
-/

namespace AddonBuild

open Import AddonBuild.Path Script

namespace Relocator

variable {r : Relocator} {present : Path → Bool} {source destination target : Path}
  {span : Span} {text specifier contents : String} {quote : Char}

lemma newText_of_route {route : Route}
    (h : r.route present source span.specifier.text = .ok route) :
    r.newText present source destination span =
      route.text span.specifier.text source destination := by
  rw [newText, relocateSpecifier_eq, h]
  rfl

/-- A specifier is changed only on the way to a file. -/
lemma exists_toward_of_ne (h : r.relocateSpan present source destination span = .ok text)
    (hne : text ≠ span.specifier.text) : ∃ tree target,
      r.route present source span.specifier.text = .ok ⟨tree, .toward target⟩ ∧
      text = (tree.anchor source destination).directory.moduleSpecifier target := by
  rw [relocateSpan_eq] at h
  cases hfatal : r.fatal? present source destination span with
  | some fault => rw [hfatal] at h; cases h
  | none =>
    rw [hfatal] at h
    obtain rfl := Except.ok.inj h
    cases hroute : r.route present source span.specifier.text with
    | error fault =>
      rw [newText, relocateSpecifier_eq, hroute] at hne
      exact absurd rfl hne
    | ok route =>
      rw [newText_of_route hroute] at hne ⊢
      obtain ⟨tree, outcome⟩ := route
      cases outcome with
      | kept => exact absurd rfl hne
      | toward target => exact ⟨tree, target, rfl, rfl⟩

/-- A specifier can be quoted just if the names that it was given can. -/
lemma quotable_moduleSpecifier (hq : isQuote quote = true) (start target : Path) :
    Quotable quote (start.moduleSpecifier target).toList ↔
      QuotableParts quote ((start.ahead target).map String.toList) := by
  obtain ⟨dots, hdots, htext⟩ := exists_toList_moduleSpecifier start target
  rw [htext, quotable_intercalate hq, quotableParts_append hq hdots]

lemma fits_compiledSuffix (hq : isQuote quote = true) : Fits quote compiledSuffix.toList :=
  fits_of_added hq (by simp [compiledSuffix])

/-! ### Relative specifiers -/

/-- What lies ahead on the way that a relative specifier takes is written in the specifier. -/
lemma fits_ahead_of_relative (hq : isQuote quote = true)
    (hspecifier : Fits quote specifier.toList) (hrelative : isRelative specifier = true)
    (hat : present (source.directory.absolutize ⟨specifier⟩) = true ∨
      ¬ (source.directory.absolutize ⟨specifier⟩).steps <+: source.directory.steps)
    (h : outcome? present (source.directory.absolutize ⟨specifier⟩) = some (.toward target)) :
    ∀ name ∈ source.directory.ahead target, Fits quote name.toList := by
  have habsolute : isAbsolute ⟨specifier⟩ = false := isAbsolute_of_startsWith_dot hrelative
  obtain ⟨kept, new, back, hplace, hdirectory, hnew⟩ :=
    exists_steps_absolutize source.directory habsolute
  have hown : ∀ name, .name name ∈ new → Fits quote name.toList := fun name hname c hc =>
    hspecifier c (mem_text_of_mem_way (hnew _ hname) hc)
  intro name hname
  rcases outcome?_eq_some h with ⟨htarget, -⟩ | ⟨htarget, -⟩ | ⟨htarget, habsent, -⟩
  · obtain rfl := Outcome.toward.inj htarget
    exact hown name (mem_of_mem_ahead hdirectory hplace hname)
  · cases htarget
  · obtain rfl := Outcome.toward.inj htarget
    -- the place is no directory above, so that its last step is one of the specifier
    have hne : new ≠ [] := by
      rintro rfl
      refine hat.elim (fun hpresent => ?_) fun hoff => hoff ?_
      · rw [hpresent] at habsent
        cases habsent
      · rw [hplace, hdirectory, List.append_nil]
        exact List.prefix_append _ _
    obtain ⟨init, last, rfl⟩ := (List.eq_nil_or_concat new).resolve_left hne
    rw [List.concat_eq_append] at hplace hnew hown
    have hlast : last.IsStep :=
      isStep_of_mem_way (hnew last (List.mem_append_right _ List.mem_cons_self))
    have hroot : last ≠ .root := by
      rintro rfl
      exact hlast
    rw [absolutize, steps_clean, ← List.append_assoc] at hplace
    have hcompiled := steps_withSuffix_js hplace hroot
    rw [List.append_assoc] at hcompiled
    rcases List.mem_append.mp (mem_of_mem_ahead hdirectory hcompiled hname) with hmem | hmem
    · exact hown name (List.mem_append_left _ hmem)
    · rw [Component.name.inj (List.mem_singleton.mp hmem), String.toList_append]
      refine fits_append.mpr ⟨?_, fits_compiledSuffix hq⟩
      cases last with
      | root | here => exact hlast.elim
      | up => exact fits_of_added hq (by simp [Component.text])
      | name text => exact hown text (List.mem_append_right _ List.mem_cons_self)

/-! ### Aliases -/

/-- Whether nothing in a table of aliases has to do with the given quotes. -/
def PlainAliases (quote : Char) (aliases : AliasTable) : Prop :=
  Fits quote aliases.base.text.toList ∧
    ∀ entry ∈ aliases.entries, ∀ c ∈ entry.2, Fits quote c.path.render.toList

lemma fits_candidateText {key : Pattern} {found : Pattern.Match} {c : Candidate} {path : String}
    (hspecifier : Fits quote specifier.toList) (hc : Fits quote c.path.render.toList)
    (hfound : key.match? specifier = some found) (h : candidateText key found c = .ok path) :
    Fits quote path.toList := by
  obtain ⟨pattern, tree⟩ := c
  cases pattern with
  | exact expected =>
    cases found with
    | exact => exact Except.ok.inj h ▸ hc
    | captured value => cases h
  | wildcard left right =>
    cases found with
    | exact => cases h
    | captured value =>
      obtain rfl := Except.ok.inj h
      have hvalue : Fits quote value.toList := by
        cases key with
        | exact expected => exact absurd hfound Pattern.match?_exact_ne_captured
        | wildcard left right =>
          have hfilled := Pattern.match?_wildcard_eq_captured.mp hfound
          rw [hfilled, Pattern.substitute, String.toList_append, String.toList_append] at hspecifier
          exact (fits_append.mp (fits_append.mp hspecifier).1).2
      rw [Pattern.render, String.toList_append, String.toList_append] at hc
      obtain ⟨hfront, hright⟩ := fits_append.mp hc
      rw [Pattern.substitute, String.toList_append, String.toList_append]
      exact fits_append.mpr ⟨fits_append.mpr ⟨(fits_append.mp hfront).1, hvalue⟩, hright⟩

lemma fits_ahead_of_symbolic (hq : isQuote quote = true)
    (hspecifier : Fits quote specifier.toList) {aliases : AliasTable}
    (haliases : PlainAliases quote aliases) {tree : Candidate.Tree}
    (h : symbolicRoute present aliases specifier source = .ok ⟨tree, .toward target⟩)
    (start : Path) : ∀ name ∈ start.ahead target, Fits quote name.toList := by
  obtain ⟨before, key, candidates, after, found, hentries, -, hfound, c, hc, path, hpath, -,
    houtcome⟩ := symbolicRoute_eq_ok h
  obtain ⟨hbase, hcandidates⟩ := haliases
  have hentry : (key, candidates) ∈ aliases.entries := by
    rw [hentries]
    exact List.mem_append_right _ List.mem_cons_self
  have hpathFits := fits_candidateText hspecifier (hcandidates _ hentry c hc) hfound hpath
  have hplace : Fits quote (aliases.base.absolutize ⟨path⟩).text.toList := by
    intro c hc
    rcases mem_text_of_mem_clean hc with hc | hc | hc
    · exact fits_of_added hq (s := [c]) (by simp [hc]) c List.mem_cons_self
    · exact fits_of_added hq (s := [c]) (by simp [hc]) c List.mem_cons_self
    · rcases mem_text_join hc with hc | hc | hc
      · exact hbase c hc
      · exact fits_of_added hq (s := [c]) (by simp [hc]) c List.mem_cons_self
      · exact hpathFits c hc
  have htarget : Fits quote target.text.toList := by
    rcases outcome?_eq_some houtcome with ⟨htarget, -⟩ | ⟨htarget, -⟩ | ⟨htarget, -⟩
    · rw [Outcome.toward.inj htarget]
      exact hplace
    · cases htarget
    · rw [Outcome.toward.inj htarget, withSuffix, String.toList_append]
      exact fits_append.mpr ⟨hplace, fits_compiledSuffix hq⟩
  exact fun name hname c hc => htarget c (mem_text_of_mem_ahead hname hc)

/-! ### Any specifier -/

lemma toward_of_relative {tree : Candidate.Tree}
    (hrelative : isRelative specifier = true)
    (h : r.route present source specifier = .ok ⟨tree, .toward target⟩) :
    tree = .source ∧
      outcome? present (source.directory.absolutize ⟨specifier⟩) = some (.toward target) := by
  rw [Relocator.route, if_pos hrelative, Except.ok.injEq, Route.mk.injEq] at h
  obtain ⟨rfl, houtcome⟩ := h
  refine ⟨rfl, ?_⟩
  cases hfound : outcome? present (source.directory.absolutize ⟨specifier⟩) with
  | none => rw [hfound] at houtcome; cases houtcome
  | some outcome => rw [hfound] at houtcome; exact congrArg some houtcome

lemma symbolicRoute_of_toward {tree : Candidate.Tree} (hrelative : isRelative specifier = false)
    (h : r.route present source specifier = .ok ⟨tree, .toward target⟩) :
    symbolicRoute present r.aliases specifier source = .ok ⟨tree, .toward target⟩ := by
  rw [Relocator.route, hrelative, if_neg Bool.false_ne_true] at h
  split_ifs at h
  · cases h
  · exact h

/-- The names that lie ahead of a script have nothing to do with the quotes of a specifier that has
no backslash if it leads to what is there, or behind another directory than those above the script,
or if the aliases have nothing to do with them. -/
lemma fits_ahead_of_route (hq : isQuote quote = true) {tree : Candidate.Tree}
    (hroute : r.route present source specifier = .ok ⟨tree, .toward target⟩)
    (hspecifier : Fits quote specifier.toList)
    (hat : isRelative specifier = true →
      present (source.directory.absolutize ⟨specifier⟩) = true ∨
      ¬ (source.directory.absolutize ⟨specifier⟩).steps <+: source.directory.steps)
    (haliases : isRelative specifier = false → PlainAliases quote r.aliases) :
    ∀ name ∈ (tree.anchor source destination).directory.ahead target, Fits quote name.toList := by
  cases hrelative : isRelative specifier with
  | true =>
    obtain ⟨rfl, houtcome⟩ := toward_of_relative hrelative hroute
    exact fits_ahead_of_relative hq hspecifier hrelative (hat hrelative) houtcome
  | false =>
    exact fits_ahead_of_symbolic hq hspecifier (haliases hrelative)
      (symbolicRoute_of_toward hrelative hroute) _

/-- A specifier of a script that is changed can stand between its quotes just if the names that lie
ahead of its script can, and just then it is read back as it was written. That is so if it starts
with a dot, has no backslash and leads to what is there, or behind another directory than those
above the script; and if it is an alias, has no backslash and neither it nor the aliases have to do
with its quotes. -/
theorem relocateSpan_quotable (hspan : span ∈ scan contents)
    (h : r.relocateSpan present source destination span = .ok text)
    (hne : text ≠ span.specifier.text) : ∃ tree target,
      r.route present source span.specifier.text = .ok ⟨tree, .toward target⟩ ∧
      text = (tree.anchor source destination).directory.moduleSpecifier target ∧
      (Quotable span.specifier.quote text.toList ↔ QuotableParts span.specifier.quote
        (((tree.anchor source destination).directory.ahead target).map String.toList)) ∧
      (Quotable span.specifier.quote text.toList ↔
        ReadsBack span.specifier.quote text.toList) ∧
      ('\\' ∉ span.specifier.text.toList →
        (isRelative span.specifier.text = true →
          present (source.directory.absolutize ⟨span.specifier.text⟩) = true ∨
          ¬ (source.directory.absolutize ⟨span.specifier.text⟩).steps <+:
            source.directory.steps) →
        (isRelative span.specifier.text = false →
          PlainAliases span.specifier.quote r.aliases) →
        Quotable span.specifier.quote text.toList) := by
  obtain ⟨tree, target, hroute, htext⟩ := exists_toward_of_ne h hne
  have hq : isQuote span.specifier.quote = true := (isEnclosed_of_mem_scan hspan).isQuote
  have hnames : Quotable span.specifier.quote text.toList ↔ QuotableParts span.specifier.quote
      (((tree.anchor source destination).directory.ahead target).map String.toList) := by
    rw [htext]
    exact quotable_moduleSpecifier hq _ target
  refine ⟨tree, target, hroute, htext, hnames, quotable_iff_readsBack hq, ?_⟩
  intro hplain hat haliases
  rw [hnames]
  apply quotableParts_of_fits hq
  rw [List.forall_mem_map]
  exact fits_ahead_of_route hq hroute (fits_of_mem_scan hspan hplain) hat haliases

/-- In a directory with a quote in its name, a file beside the script is named by a string, but the
file that is named after the directory is not. -/
theorem relocateSpan_quotable_dot : ∃ beside after,
    scan "import './b'; import '.';" = [beside, after] ∧
      (ofAliases default).relocateSpan (fun p => p.text ∈ ["/p'q/b.js", "/p'q.ts"])
        ⟨"/p'q/m.js"⟩ ⟨"/d/m.js"⟩ beside = .ok "./b.js" ∧ ReadsBack '\'' "./b.js".toList ∧
      (ofAliases default).relocateSpan (fun p => p.text ∈ ["/p'q/b.js", "/p'q.ts"])
        ⟨"/p'q/m.js"⟩ ⟨"/d/m.js"⟩ after = .ok "../p'q.js" ∧
      ¬ ReadsBack '\'' "../p'q.js".toList := by
  have hscan : scan "import './b'; import '.';" =
      [⟨8, 11, .sideEffect, '\'', "./b"⟩, ⟨22, 23, .sideEffect, '\'', "."⟩] := by
    rw [scan_eq_spansFrom]
    cbv
  have hbeside : (ofAliases default).relocateSpan (fun p => p.text ∈ ["/p'q/b.js", "/p'q.ts"])
      ⟨"/p'q/m.js"⟩ ⟨"/d/m.js"⟩ ⟨8, 11, .sideEffect, '\'', "./b"⟩ = .ok "./b.js" := by
    rfl
  have hafter : (ofAliases default).relocateSpan (fun p => p.text ∈ ["/p'q/b.js", "/p'q.ts"])
      ⟨"/p'q/m.js"⟩ ⟨"/d/m.js"⟩ ⟨22, 23, .sideEffect, '\'', "."⟩ = .ok "../p'q.js" := by
    rfl
  refine ⟨_, _, hscan, hbeside, ?_, hafter, ?_⟩
  · obtain ⟨tree, target, -, -, -, hreads, hquotable⟩ :=
      relocateSpan_quotable (hscan ▸ List.mem_cons_self) hbeside (by decide)
    refine hreads.mp (hquotable (by decide) (fun _ => .inr ?_) fun h => absurd h (by decide))
    decide
  · obtain ⟨tree, target, -, -, -, hreads, -⟩ :=
      relocateSpan_quotable (hscan ▸ List.mem_cons_of_mem _ List.mem_cons_self) hafter (by decide)
    exact mt hreads.mpr (by simp [Quotable])

end Relocator

end AddonBuild
