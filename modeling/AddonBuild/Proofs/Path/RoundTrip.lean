import AddonBuild.Proofs.Import.Route
import AddonBuild.Proofs.Path.Below

/-!
# There and back again

The way from a directory to a target leads from the one to the other, written as a path or as a
module specifier. A module specifier is written in one form only, up before down behind a dot, so
that a specifier which has been relocated already stays as it is.
-/

namespace AddonBuild

namespace Path

/-! ### The way as a path -/

lemma isAbsolute_ofComponents {l : List Component} (hl : ∀ c ∈ l, c.IsStep) :
    (ofComponents l).isAbsolute = false := by
  cases h : (ofComponents l).isAbsolute with
  | false => rfl
  | true =>
    have hcomponents := components_of_isAbsolute h
    rw [components_ofComponents hl] at hcomponents
    have hroot : Component.root ∈ l := by
      rw [hcomponents]
      exact List.mem_cons_self
    exact (hl _ hroot).elim

/-- Read from the directory that it was made for, a relative path leads to its target. -/
lemma absolutize_relative {start target : Path} (hstart : start.isAbsolute = true)
    (htarget : target.isAbsolute = true) :
    start.absolutize (start.relative target) = target.clean := by
  have hway := isStep_of_mem_wayBetween_steps hstart htarget
  rw [relative_eq]
  exact absolutize_of_way hstart htarget (isAbsolute_ofComponents hway) (way_ofComponents hway)

/-- A way goes up before it goes down. -/
lemma exists_wayBetween_eq {start target : Path} (hstart : start.isAbsolute = true)
    (htarget : target.isAbsolute = true) :
    ∃ (n : Nat) (names : List String),
      wayBetween start.steps target.steps = List.replicate n .up ++ names.map .name := by
  obtain ⟨back, hback, -⟩ := exists_steps hstart
  obtain ⟨ahead, hahead, -⟩ := exists_steps htarget
  obtain ⟨common, up, down, -, -, hdrop⟩ := exists_dropCommon back ahead
  refine ⟨up.length, down, ?_⟩
  rw [hback, hahead, wayBetween_cons, wayBetween, hdrop, List.map_const', List.length_map]

/-! ### The form of a module specifier -/

/-- Two module specifiers are the same if they are made for the same places. -/
lemma moduleSpecifier_congr {start target start' target' : Path}
    (hstart : start'.clean = start.clean) (htarget : target'.clean = target.clean) :
    start'.moduleSpecifier target' = start.moduleSpecifier target := by
  apply moduleSpecifier_eq_of_wayBetween
  rw [steps, steps, hstart, htarget, steps, steps]

/-- A module specifier starts with the directory or with the one above, or it is no more than one of
them. -/
lemma moduleSpecifier_cases (start target : Path) :
    Text.startsWith "./" (start.moduleSpecifier target) = true ∨
    Text.startsWith "../" (start.moduleSpecifier target) = true ∨
    start.moduleSpecifier target = "." ∨ start.moduleSpecifier target = ".." := by
  rw [moduleSpecifier]
  split_ifs with hup hempty
  · rcases Bool.or_eq_true _ _ ▸ hup with h | h
    · exact .inr (.inl h)
    · exact .inr (.inr (.inr (of_decide_eq_true h)))
  · exact .inr (.inr (.inl rfl))
  · refine .inl (startsWith_iff.mpr ⟨(start.relative target).slashed.toList, ?_⟩)
    rw [String.toList_append]

lemma lead_of_not_isAbsolute {p : Path} (h : p.isAbsolute = false) :
    p.lead = [] ∨ p.lead = [.here] := by
  rw [lead, split, if_neg (by simp [h])]
  split_ifs
  · exact .inr rfl
  · exact .inl rfl

/-- No step of a module specifier goes up behind a name. -/
lemma pairwise_moduleSpecifier {start target : Path} (hstart : start.isAbsolute = true)
    (htarget : target.isAbsolute = true) :
    (components ⟨start.moduleSpecifier target⟩).Pairwise fun a b =>
      ∀ name, a = .name name → b ≠ .up := by
  have hrelative := isAbsolute_of_startsWith_dot (startsWith_moduleSpecifier start target)
  obtain ⟨n, names, hway⟩ := exists_wayBetween_eq hstart htarget
  rw [components_eq, way_moduleSpecifier hstart htarget, hway]
  have hlead : ∀ c ∈ lead ⟨start.moduleSpecifier target⟩ ++ List.replicate n .up,
      ∀ name, c ≠ .name name := by
    intro c hc name
    rcases List.mem_append.mp hc with hc | hc
    · rcases lead_of_not_isAbsolute hrelative with h | h
      · rw [h] at hc
        cases hc
      · rw [h, List.mem_singleton] at hc
        simp [hc]
    · simp [List.eq_of_mem_replicate hc]
  rw [← List.append_assoc, List.pairwise_append]
  refine ⟨?_, ?_, ?_⟩
  · apply List.pairwise_of_forall_mem_list
    intro a ha b _ name hname
    exact absurd hname (hlead a ha name)
  · apply List.pairwise_of_forall_mem_list
    intro a _ b hb _ _
    obtain ⟨_, -, rfl⟩ := List.mem_map.mp hb
    exact nofun
  · intro a ha b _ name hname
    exact absurd hname (hlead a ha name)

/-- A module specifier for the place that a module specifier leads to is that module specifier. -/
lemma moduleSpecifier_absolutize {start target : Path} (hstart : start.isAbsolute = true)
    (htarget : target.isAbsolute = true) :
    start.moduleSpecifier (start.absolutize ⟨start.moduleSpecifier target⟩) =
      start.moduleSpecifier target := by
  rw [absolutize_moduleSpecifier hstart htarget, moduleSpecifier_clean start htarget]

end Path

namespace Relocator

open Import

/-- A specifier that was made for a script leads to its target and is kept if that is there. -/
lemma relocateSpecifier_moduleSpecifier (r : Relocator) {present : Path → Bool}
    {source target : Path} (destination : Path) (hsource : source.isAbsolute = true)
    (htarget : target.isAbsolute = true) (h : present target.clean = true) :
    r.relocateSpecifier present source destination (source.directory.moduleSpecifier target) =
      .ok (source.directory.moduleSpecifier target) := by
  have hstart := (Path.directory_of_isAbsolute hsource).1
  have hrelative : isRelative (source.directory.moduleSpecifier target) = true :=
    Path.startsWith_moduleSpecifier _ target
  have hplace := Path.absolutize_moduleSpecifier hstart htarget
  rw [relocateSpecifier, if_pos hrelative, relocateRelative, hplace, resolve?, if_pos h,
    Option.getD_some, Path.moduleSpecifier_clean _ htarget]

end Relocator

namespace Path

/-- What a relative path and a module specifier from one place to another are good for. -/
structure Returns (start target : Path) : Prop where
  /-- The relative path leads from the one place to the other. -/
  relative : start.absolutize (start.relative target) = target.clean
  /-- So does the module specifier. -/
  specifier : start.absolutize ⟨start.moduleSpecifier target⟩ = target.clean
  /-- How the places are written does not matter. -/
  places : ∀ start' target' : Path, start'.clean = start.clean → target'.clean = target.clean →
    start'.moduleSpecifier target' = start.moduleSpecifier target
  /-- The text says by its first dots that it is relative. -/
  dots : Text.startsWith "./" (start.moduleSpecifier target) = true ∨
    Text.startsWith "../" (start.moduleSpecifier target) = true ∨
    start.moduleSpecifier target = "." ∨ start.moduleSpecifier target = ".."
  /-- The way does not go down and up again. -/
  direct : (components ⟨start.moduleSpecifier target⟩).Pairwise fun a b =>
    ∀ name, a = .name name → b ≠ .up
  /-- The module specifier is that of the place that it leads to. -/
  fixed : start.moduleSpecifier (start.absolutize ⟨start.moduleSpecifier target⟩) =
    start.moduleSpecifier target
  /-- Relocating it for a script in that directory changes nothing if the target is there. -/
  kept : ∀ (r : Relocator) (present : Path → Bool) (source destination : Path),
    source.isAbsolute = true → source.directory = start →
    present (start.absolutize ⟨start.moduleSpecifier target⟩) = true →
    r.relocateSpecifier present source destination (start.moduleSpecifier target) =
      .ok (start.moduleSpecifier target)

/-- From any absolute place to any other, a relative path and a module specifier lead where they
were made to lead, and the module specifier is settled by the two places. -/
theorem returns_of_isAbsolute {start target : Path} (hstart : start.isAbsolute = true)
    (htarget : target.isAbsolute = true) : start.Returns target where
  relative := absolutize_relative hstart htarget
  specifier := absolutize_moduleSpecifier hstart htarget
  places _ _ := moduleSpecifier_congr
  dots := moduleSpecifier_cases start target
  direct := pairwise_moduleSpecifier hstart htarget
  fixed := moduleSpecifier_absolutize hstart htarget
  kept := by
    rintro r present source destination hsource rfl hpresent
    rw [absolutize_moduleSpecifier hstart htarget] at hpresent
    exact r.relocateSpecifier_moduleSpecifier destination hsource htarget hpresent

/-- A name that merely begins with dots is no way up, and how the directory is written does not
matter. -/
theorem returns_of_isAbsolute_dots :
    moduleSpecifier ⟨"/b"⟩ ⟨"/..d"⟩ = "../..d" ∧
    absolutize ⟨"/b"⟩ ⟨"../..d"⟩ = ⟨"/..d"⟩ ∧
    moduleSpecifier ⟨"/a/../b/."⟩ ⟨"/..d"⟩ = "../..d" := by
  have h : Returns ⟨"/b"⟩ ⟨"/..d"⟩ := returns_of_isAbsolute (by rfl) (by rfl)
  have htext : moduleSpecifier ⟨"/b"⟩ ⟨"/..d"⟩ = "../..d" := by
    rfl
  have hleads := h.specifier
  rw [htext] at hleads
  exact ⟨htext, hleads.trans (by rfl), (h.places _ _ (by rfl) (by rfl)).trans htext⟩

end Path

end AddonBuild
