import AddonBuild.Import.Relocator
import AddonBuild.Proofs.Script.Replacing
import Mathlib

/-!
# Scanning a relocated script

A relocated script is made of the pieces of the script with other texts for its specifiers. As long
as these fit their quotes, a scan finds the same specifiers again, each as much later as the texts
before it have grown.
-/

namespace AddonBuild

namespace Relocator

open Script

/-- A specifier is spliced in if it is relocated and what comes behind it is spliced. -/
lemma splice_cons_eq_ok {contents output : String} {relocated : Span → Except Fault String}
    {copied : Nat} {span : Span} {rest : List Span} :
    splice contents relocated copied (span :: rest) = .ok output ↔
      ∃ text behind, relocated span = .ok text ∧
        splice contents relocated span.stop rest = .ok behind ∧
        output = slice contents copied span.start ++ text ++ behind := by
  rw [splice]
  constructor
  · intro h
    cases htext : relocated span with
    | error fault => rw [htext] at h; cases h
    | ok text =>
      cases hbehind : splice contents relocated span.stop rest with
      | error fault => rw [htext, hbehind] at h; cases h
      | ok behind =>
        rw [htext, hbehind] at h
        cases h
        exact ⟨text, behind, rfl, rfl, rfl⟩
  · rintro ⟨text, behind, htext, hbehind, rfl⟩
    rw [htext, hbehind]
    rfl

/-- A script is only spliced if every specifier is relocated. -/
lemma exists_of_splice_eq_ok {contents output : String} {relocated : Span → Except Fault String}
    {copied : Nat} {spans : List Span} (h : splice contents relocated copied spans = .ok output)
    {span : Span} (hspan : span ∈ spans) : ∃ text, relocated span = .ok text := by
  induction spans generalizing copied output with
  | nil => cases hspan
  | cons first rest ih =>
    obtain ⟨text, behind, htext, hbehind, -⟩ := splice_cons_eq_ok.mp h
    rcases List.mem_cons.mp hspan with rfl | hspan
    · exact ⟨text, htext⟩
    · exact ih hbehind hspan

/-- What is spliced is made of the pieces with the texts that are put in. Of what comes before them,
the part that is not copied yet is kept, too. -/
lemma splice_spansFrom {contents : String} {relocated : Span → Except Fault String}
    {text : Specifier → String} {start : Nat} (kept pending : List Char) {ps : List Piece}
    (hcontents : contents.toList = kept ++ pending ++ spelling (ps.map Piece.lexeme))
    (hstart : start = byteLength kept + byteLength pending)
    (h : ∀ span ∈ spansFrom start ps, relocated span = .ok (text span.specifier)) :
    splice contents relocated (byteLength kept) (spansFrom start ps) =
      .ok (String.ofList
        (pending ++ spelling ((ps.map (Piece.replace text)).map Piece.lexeme))) := by
  induction ps generalizing kept pending start with
  | nil =>
    have hsize : contents.utf8ByteSize = byteLength kept + byteLength pending := by
      rw [utf8ByteSize_eq, hcontents, List.map_nil, spelling_nil, List.append_nil,
        byteLength_append]
    rw [spansFrom, splice, hsize, slice_eq kept pending [] hcontents, List.map_nil, List.map_nil,
      spelling_nil, List.append_nil]
  | cons p ps ih =>
    cases p with
    | plain l =>
      -- not copied yet: it waits for the next specifier or the end
      have hnext : start + byteLength l.chars =
          byteLength kept + byteLength (pending ++ l.chars) := by
        rw [hstart, byteLength_append, Nat.add_assoc]
      have hplain := ih kept (pending ++ l.chars) (by simp [hcontents, Piece.lexeme]) hnext h
      rw [spansFrom, hplain]
      simp [Piece.replace, Piece.lexeme]
    | specifier s =>
      -- copied up to the opening quote; the closing one is the first that waits
      obtain ⟨hspan, hrest⟩ := List.forall_mem_cons.mp h
      have hquote : byteLength [s.quote] = s.quote.utf8Size := rfl
      have hfirst : start + s.quote.utf8Size =
          byteLength kept + byteLength (pending ++ [s.quote]) := by
        rw [hstart, byteLength_append, hquote, Nat.add_assoc]
      have hstop : start + s.quote.utf8Size + byteLength s.text.toList =
          byteLength (kept ++ (pending ++ [s.quote]) ++ s.text.toList) := by
        rw [hfirst, byteLength_append _ s.text.toList, byteLength_append kept]
      have hnext : start + s.quote.utf8Size + byteLength s.text.toList + s.quote.utf8Size =
          byteLength (kept ++ (pending ++ [s.quote]) ++ s.text.toList) + byteLength [s.quote] := by
        rw [hstop, hquote]
      have hbehind := ih (kept ++ (pending ++ [s.quote]) ++ s.text.toList) [s.quote]
        (by simp [hcontents, Piece.lexeme, Specifier.lexeme, Lexeme.chars]) hnext hrest
      have hpending : contents.toList = kept ++ (pending ++ [s.quote]) ++
          (s.text.toList ++ s.quote :: spelling (ps.map Piece.lexeme)) := by
        simp [hcontents, Piece.lexeme, Specifier.lexeme, Lexeme.chars]
      have hslice := slice_eq _ _ _ hpending
      rw [← hstop] at hbehind
      rw [← hfirst] at hslice
      refine splice_cons_eq_ok.mpr ⟨_, _, hspan, hbehind, ?_⟩
      rw [hslice, ← String.toList_inj]
      simp [Piece.replace, Specifier.replace, Piece.lexeme, Specifier.lexeme, Lexeme.chars]

/-- The text that a specifier gets wherever it stands, which is its own if it is not relocated. -/
def textFor (r : Relocator) (present : Path → Bool) (source destination : Path) (s : Specifier) :
    String :=
  (r.relocateSpan present source destination ⟨0, 0, s⟩).toOption.getD s.text

section

variable {r : Relocator} {present : Path → Bool} {source destination : Path}
  {contents output : String}

/-- Where a specifier stands does not matter for its text. -/
lemma relocateSpan_eq_textFor
    (h : r.relocateContents present source destination contents = .ok output) {span : Span}
    (hspan : span ∈ scan contents) :
    r.relocateSpan present source destination span =
      .ok (r.textFor present source destination span.specifier) := by
  obtain ⟨text, htext⟩ := exists_of_splice_eq_ok h hspan
  have hplace : r.relocateSpan present source destination ⟨0, 0, span.specifier⟩ =
      r.relocateSpan present source destination span := rfl
  rw [textFor, hplace, htext]
  rfl

/-- A relocated script is made of the pieces of the script with the texts that they get. -/
lemma relocateContents_eq_textOf
    (h : r.relocateContents present source destination contents = .ok output) :
    output = textOf ((pieces contents).map
      (Piece.replace (r.textFor present source destination))) := by
  have hspans : ∀ span ∈ spansFrom 0 (pieces contents),
      r.relocateSpan present source destination span =
        .ok (r.textFor present source destination span.specifier) := by
    rw [← scan_eq_spansFrom]
    intro span hspan
    exact relocateSpan_eq_textFor h hspan
  have hcontents : contents.toList = [] ++ [] ++ spelling ((pieces contents).map Piece.lexeme) := by
    rw [pieces, map_lexeme_piecesFrom, lexemes, spelling_lexemesOf]
    rfl
  have hsplice := splice_spansFrom [] [] hcontents rfl hspans
  rw [relocateContents, scan_eq_spansFrom] at h
  rw [textOf_eq_ofList]
  exact Except.ok.inj (h.symm.trans hsplice)

/-- A scan of a relocated script finds what a scan of the script finds, with the texts that were
put in. -/
theorem scan_relocateContents
    (h : r.relocateContents present source destination contents = .ok output)
    (hfits : ∀ span ∈ scan contents, ∀ text,
      r.relocateSpan present source destination span = .ok text →
        text = span.specifier.text ∨ Fits span.specifier.quote text.toList) :
    (scan output).length = (scan contents).length ∧
    ∀ k old new, (scan contents)[k]? = some old → (scan output)[k]? = some new →
      new.specifier.kind = old.specifier.kind ∧ new.specifier.quote = old.specifier.quote ∧
      r.relocateSpan present source destination old = .ok new.specifier.text ∧
      (new.start : Int) =
        old.start + ((List.zipWith Span.growth (scan contents) (scan output)).take k).sum := by
  have htext : Replaces (r.textFor present source destination) (pieces contents) := by
    intro s hs
    obtain ⟨span, hspan, rfl⟩ := exists_mem_spansFrom 0 hs
    rw [← scan_eq_spansFrom] at hspan
    exact hfits span hspan _ (relocateSpan_eq_textFor h hspan)
  have houtput : scan output = spansFrom 0 ((pieces contents).map
      (Piece.replace (r.textFor present source destination))) := by
    rw [scan_eq_spansFrom, relocateContents_eq_textOf h, pieces_textOf_replace htext]
  have hspecifiers :=
    map_specifier_spansFrom_replace (r.textFor present source destination) 0 0 (pieces contents)
  rw [← houtput, ← scan_eq_spansFrom] at hspecifiers
  constructor
  · simpa using congrArg List.length hspecifiers
  · intro k old new hold hnew
    have hspecifier : new.specifier =
        old.specifier.replace (r.textFor present source destination) := by
      have hk := congrArg (·[k]?) hspecifiers
      simpa [hold, hnew] using hk
    have hstart : (new.start : Int) =
        old.start + ((List.zipWith Span.growth (scan contents) (scan output)).take k).sum := by
      rw [scan_eq_spansFrom contents] at hold ⊢
      rw [houtput] at hnew ⊢
      simpa using start_spansFrom_replace hold hnew
    rw [hspecifier]
    exact ⟨rfl, rfl, relocateSpan_eq_textFor h (List.mem_of_getElem? hold), hstart⟩

/-- A call stays as it is when its module is not found, and starts later when a specifier before it
gets longer. -/
theorem scan_relocateContents_call :
    relocateContents (ofAliases default) (fun p => p.text = "/s/y.ts") ⟨"/s/x.ts"⟩ ⟨"/d/x.ts"⟩
        "import './y'; import('z')" = .ok "import './y.js'; import('z')" ∧
      ∀ old new, (scan "import './y'; import('z')")[1]? = some old →
        (scan "import './y.js'; import('z')")[1]? = some new →
          (new.start : Int) = old.start + 3 := by
  have hold : scan "import './y'; import('z')" =
      [⟨8, 11, .sideEffect, '\'', "./y"⟩, ⟨22, 23, .dynamic, '\'', "z"⟩] := by
    rw [scan_eq_spansFrom]
    cbv
  have hnew : scan "import './y.js'; import('z')" =
      [⟨8, 14, .sideEffect, '\'', "./y.js"⟩, ⟨25, 26, .dynamic, '\'', "z"⟩] := by
    rw [scan_eq_spansFrom]
    cbv
  have hsource : (ofAliases default).relocateSpan (fun p => p.text = "/s/y.ts") ⟨"/s/x.ts"⟩
      ⟨"/d/x.ts"⟩ ⟨8, 11, .sideEffect, '\'', "./y"⟩ = .ok "./y.js" := by
    rfl
  have hcall : (ofAliases default).relocateSpan (fun p => p.text = "/s/y.ts") ⟨"/s/x.ts"⟩
      ⟨"/d/x.ts"⟩ ⟨22, 23, .dynamic, '\'', "z"⟩ = .ok "z" := by
    rfl
  have h : relocateContents (ofAliases default) (fun p => p.text = "/s/y.ts") ⟨"/s/x.ts"⟩
      ⟨"/d/x.ts"⟩ "import './y'; import('z')" = .ok "import './y.js'; import('z')" := by
    have hfirst : slice "import './y'; import('z')" 0 8 = "import '" :=
      slice_eq [] "import '".toList "./y'; import('z')".toList (by rfl)
    have hbetween : slice "import './y'; import('z')" 11 22 = "'; import('" :=
      slice_eq "import './y".toList "'; import('".toList "z')".toList (by rfl)
    have hlast : ∀ relocated, splice "import './y'; import('z')" relocated 23 [] = .ok "')" := by
      intro relocated
      exact congrArg Except.ok (slice_eq "import './y'; import('z".toList "')".toList [] (by rfl))
    rw [relocateContents, hold, splice_cons_eq_ok]
    refine ⟨_, _, hsource, splice_cons_eq_ok.mpr ⟨_, _, hcall, hlast _, rfl⟩, ?_⟩
    rw [hfirst, hbetween]
    rfl
  refine ⟨h, ?_⟩
  intro old new hk hk'
  have hfits : ∀ span ∈ scan "import './y'; import('z')", ∀ text,
      (ofAliases default).relocateSpan (fun p => p.text = "/s/y.ts") ⟨"/s/x.ts"⟩ ⟨"/d/x.ts"⟩ span =
        .ok text → text = span.specifier.text ∨ Fits span.specifier.quote text.toList := by
    rw [hold]
    intro span hspan text htext
    rw [List.mem_cons, List.mem_singleton] at hspan
    rcases hspan with rfl | rfl
    · obtain rfl := Except.ok.inj (hsource.symm.trans htext)
      exact Or.inr (by decide)
    · obtain rfl := Except.ok.inj (hcall.symm.trans htext)
      exact Or.inl rfl
  obtain ⟨-, hspans⟩ := scan_relocateContents h hfits
  obtain ⟨-, -, -, hstart⟩ := hspans 1 old new hk hk'
  rw [hstart, hold, hnew]
  rfl

end

end Relocator

end AddonBuild
