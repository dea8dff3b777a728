import AddonBuild.Import.Relocator
import AddonBuild.Proofs.Script.Enclosing

/-!
# What relocating does to the bytes of a script

A script is relocated as a whole or not at all. If a specifier fails that the script cannot do
without, the first such failure is the answer. Else the bytes of every specifier give way to its new
text, and all others are copied.
-/

namespace AddonBuild

open Script (Span bytes scan slice)

namespace Script

lemma bytes_append (s t : String) : bytes (s ++ t) = bytes s ++ bytes t := by
  simp [bytes_eq_encode]

/-- A part of a script that lies between boundaries of characters is cut out byte by byte. -/
lemma bytes_slice {contents : String} {start stop : Nat} (hle : start ≤ stop)
    (hstart : (⟨start⟩ : String.Pos.Raw).IsValid contents)
    (hstop : (⟨stop⟩ : String.Pos.Raw).IsValid contents) :
    bytes (slice contents start stop) = ((bytes contents).take stop).drop start := by
  have hvalid : (contents.toUTF8.extract start stop).IsValidUTF8 :=
    (String.Pos.Raw.isValidUTF8_extract_iff ⟨start⟩ ⟨stop⟩ hle hstop.le_rawEndPos).mpr
      (.inr ⟨hstart, hstop⟩)
  rw [slice, String.fromUTF8?, dif_pos hvalid, Option.getD_some]
  show (contents.toUTF8.extract start stop).data.toList = _
  rw [ByteArray.data_extract, Array.toList_extract, List.extract_eq_take_drop, List.drop_take]
  rfl

end Script

namespace Relocator

/-- The failure of a specifier that ends the work on its script. That no module is found for a call
does not. -/
def fatal? (r : Relocator) (present : Path → Bool) (source destination : Path) (span : Span) :
    Option Fault :=
  match r.relocateSpecifier present source destination span.specifier.text with
  | .ok _ => none
  | .error (.unresolvedImport importer specifier candidates) =>
    if span.specifier.kind = .dynamic then none
    else some (.unresolvedImport importer specifier candidates)
  | .error fault => some fault

/-- What a specifier becomes, which is what it was if it is not relocated. -/
def newText (r : Relocator) (present : Path → Bool) (source destination : Path) (span : Span) :
    String :=
  (r.relocateSpecifier present source destination span.specifier.text).toOption.getD
    span.specifier.text

/-- The bytes of a script from `copied` on, with other texts in place of the given specifiers. -/
def patched (script : Script.Bytes) (text : Span → String) (copied : Nat) :
    List Span → Script.Bytes
  | [] => script.drop copied
  | span :: rest =>
    (script.take span.start).drop copied ++ bytes (text span) ++ patched script text span.stop rest

/-- A specifier fails for good or gets its new text. -/
lemma relocateSpan_eq (r : Relocator) (present : Path → Bool) (source destination : Path)
    (span : Span) : r.relocateSpan present source destination span =
      match r.fatal? present source destination span with
      | some fault => .error fault
      | none => .ok (r.newText present source destination span) := by
  rw [relocateSpan, fatal?, newText]
  cases r.relocateSpecifier present source destination span.specifier.text with
  | ok text => cases span.specifier.kind <;> rfl
  | error fault => cases fault <;> cases span.specifier.kind <;> rfl

section

variable {contents : String} {relocated : Span → Except Fault String}
  {fatal : Span → Option Fault} {text : Span → String}

/-- Splicing fails like the first specifier that fails, and else patches the bytes. -/
lemma splice_eq
    (hrelocated : ∀ span, relocated span =
      match fatal span with
      | some fault => .error fault
      | none => .ok (text span))
    {copied : Nat} {spans : List Span} (hcopied : (⟨copied⟩ : String.Pos.Raw).IsValid contents)
    (hfrom : ∀ span ∈ spans, copied ≤ span.start)
    (hspans : ∀ span ∈ spans, span.IsEnclosed contents)
    (hordered : spans.Pairwise fun first second => first.stop < second.start) :
    match spans.findSome? fatal with
    | some fault => splice contents relocated copied spans = .error fault
    | none => ∃ output, splice contents relocated copied spans = .ok output ∧
        bytes output = patched (bytes contents) text copied spans := by
  induction spans generalizing copied with
  | nil =>
    have hslice : bytes (slice contents copied contents.utf8ByteSize) = _ :=
      Script.bytes_slice hcopied.le_rawEndPos hcopied String.Pos.Raw.isValid_rawEndPos
    refine ⟨_, rfl, ?_⟩
    rw [hslice, ← Script.length_bytes, List.take_length, patched]
  | cons span rest ih =>
    obtain ⟨hspan, hrest⟩ := List.forall_mem_cons.mp hspans
    obtain ⟨hnext, hordered⟩ := List.pairwise_cons.mp hordered
    have hfirst := hrelocated span
    rw [List.findSome?_cons, splice]
    cases hfatal : fatal span with
    | some fault =>
      rw [hfatal] at hfirst
      rw [hfirst]
      rfl
    | none =>
      rw [hfatal] at hfirst
      rw [hfirst]
      -- a fault further behind wins over what is relocated here
      have hbehind := ih hspan.stop_isValid (fun later hlater => Nat.le_of_lt (hnext later hlater))
        hrest hordered
      dsimp only
      cases hfound : rest.findSome? fatal with
      | some fault =>
        rw [hfound] at hbehind
        dsimp only at hbehind ⊢
        rw [hbehind]
        rfl
      | none =>
        rw [hfound] at hbehind
        obtain ⟨behind, hbehind, hbytes⟩ := hbehind
        dsimp only
        rw [hbehind]
        refine ⟨_, rfl, ?_⟩
        rw [Script.bytes_append, Script.bytes_append, hbytes, patched,
          Script.bytes_slice (hfrom span List.mem_cons_self) hcopied hspan.start_isValid]

end

/-- The specifiers of a script are enclosed by their quotes, one behind the other. If one of them
fails for good, relocating the script fails like the first that does; else it gives the script with
every specifier patched. -/
theorem relocateContents_eq (r : Relocator) (present : Path → Bool) (source destination : Path)
    (contents : String) :
    (scan contents).Pairwise (fun first second => first.stop < second.start) ∧
    (∀ span ∈ scan contents, span.IsEnclosed contents) ∧
    match (scan contents).findSome? (r.fatal? present source destination) with
    | some fault => r.relocateContents present source destination contents = .error fault
    | none => ∃ output, r.relocateContents present source destination contents = .ok output ∧
        bytes output =
          patched (bytes contents) (r.newText present source destination) 0 (scan contents) := by
  have henclosed : ∀ span ∈ scan contents, span.IsEnclosed contents := by
    intro span hspan
    exact Script.isEnclosed_of_mem_scan hspan
  have hordered := Script.pairwise_scan contents
  refine ⟨hordered, henclosed, ?_⟩
  refine splice_eq (r.relocateSpan_eq present source destination) ?_ ?_ henclosed hordered
  · exact String.Pos.Raw.isValid_zero
  · intro span _
    exact Nat.zero_le _

end Relocator

end AddonBuild
