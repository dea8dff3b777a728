import AddonBuild.Project.Loading
import AddonBuild.Proofs.Path.Siblings
import AddonBuild.Proofs.Steps

/-!
# Directories of packs

When a project has several packs, the names of their directories have the name of the project in
common and differ behind it, in their kinds or in their numbers. So no two packs share a directory,
and none lies in the directory of another, whatever the name of the project is.
-/

namespace AddonBuild

open AddonBuild.Path

namespace Pack

/-! ### Marks -/

/-- What tells the directory of a pack apart from those of the other packs. -/
def mark (packs : List Pack) (index : Nat) (p : Pack) : String :=
  if packs.countP (·.kind = p.kind) = 1 then p.kind.suffix
  else p.kind.suffix ++ "-" ++ ((packs.take index).countP (·.kind = p.kind)).repr

lemma directoryName_eq (project : String) (packs : List Pack) (index : Nat) (p : Pack) :
    directoryName project packs index p = project ++ ("-" ++ mark packs index p) := by
  apply String.toList_injective
  rw [directoryName, mark]
  split_ifs <;> simp [toString]

lemma suffix_not_slash (k : Kind) : '/' ∉ k.suffix.toList ∧ 1 < k.suffix.length := by
  cases k <;> decide

/-- The number of a pack is written in digits. -/
lemma repr_not_slash (n : Nat) : '/' ∉ n.repr.toList := by
  rw [Nat.toList_repr]
  intro hmem
  exact absurd (Nat.isDigit_of_mem_toDigits (by decide) (by decide) hmem) (by decide)

lemma mark_not_slash (packs : List Pack) (index : Nat) (p : Pack) :
    '/' ∉ ("-" ++ mark packs index p).toList ∧ 2 < ("-" ++ mark packs index p).length := by
  obtain ⟨hslash, hlength⟩ := suffix_not_slash p.kind
  have hone : "-".length = 1 := rfl
  rw [mark]
  split_ifs
  · refine ⟨by simp [hslash], ?_⟩
    rw [String.length_append]
    omega
  · refine ⟨?_, ?_⟩
    · simp only [String.toList_append, List.mem_append, not_or]
      exact ⟨by decide, ⟨hslash, by decide⟩, repr_not_slash _⟩
    rw [String.length_append, String.length_append, String.length_append]
    omega

/-- The kinds start with different letters. -/
lemma head?_mark (packs : List Pack) (index : Nat) (p : Pack) :
    (mark packs index p).toList.head? = p.kind.suffix.toList.head? := by
  rw [mark]
  split_ifs
  · rfl
  · cases p.kind <;> simp [Kind.suffix]

lemma suffix_head?_injective {k k' : Kind} (h : k.suffix.toList.head? = k'.suffix.toList.head?) :
    k = k' := by
  cases k <;> cases k' <;> first | rfl | exact absurd h (by decide)

/-- Packs of one kind are numbered in their order. -/
lemma countP_take_lt {packs : List Pack} {i j : Nat} (hij : i < j) (hi : i < packs.length)
    {kind : Kind} (hkind : packs[i].kind = kind) :
    (packs.take i).countP (·.kind = kind) < (packs.take j).countP (·.kind = kind) := by
  have hnext : (packs.take (i + 1)).countP (·.kind = kind) =
      (packs.take i).countP (·.kind = kind) + 1 := by
    rw [List.take_succ_eq_append_getElem hi, List.countP_append, List.countP_singleton]
    simp [hkind]
  have hlead : packs.take (i + 1) <+: packs.take j := List.take_prefix_take_left hij
  have hmore := hlead.sublist.countP_le (p := (·.kind = kind))
  omega

lemma mark_ne {packs : List Pack} {i j : Nat} (hij : i < j) (hj : j < packs.length) :
    mark packs i packs[i] ≠ mark packs j packs[j] := by
  intro heq
  have hkind : packs[i].kind = packs[j].kind := by
    apply suffix_head?_injective
    rw [← head?_mark packs i, heq, head?_mark]
  have hlt := countP_take_lt hij (hij.trans hj) hkind
  have hall : (packs.take j).countP (·.kind = packs[j].kind) <
      packs.countP (·.kind = packs[j].kind) := by
    have hlast := countP_take_lt (j := packs.length) hj hj rfl
    rwa [List.take_length] at hlast
  have hmany : packs.countP (·.kind = packs[j].kind) ≠ 1 := by omega
  rw [mark, mark, hkind, if_neg hmany, if_neg hmany] at heq
  have htext := congrArg String.toList heq
  rw [String.toList_append, String.toList_append (s := packs[j].kind.suffix ++ "-")] at htext
  have hnumbers := List.append_cancel_left htext
  rw [Nat.toList_repr, Nat.toList_repr] at hnumbers
  -- the digits of a number can be read back
  refine hlt.ne ?_
  rw [← Nat.ofDigitChars_ten_toDigits (n := (packs.take i).countP _), hnumbers,
    Nat.ofDigitChars_ten_toDigits]

/-! ### Directories -/

lemma place_eq {project : String} {packs : List Pack} (h : packs.length ≠ 1) :
    place project packs = packs.zipIdx.map fun (p, index) =>
      { toPack := p, subDirectory := some (directoryName project packs index p),
        installDirectory := directoryName project packs index p } := by
  cases packs with
  | nil => rfl
  | cons first rest =>
    cases rest with
    | nil => exact absurd rfl h
    | cons second rest => rfl

/-- The directories under one root have a text in common and differ behind it. -/
lemma child_eq_withSuffix (root : Path) (project suffix : String) :
    root.child (project ++ ("-" ++ suffix)) = (root.child project).withSuffix ("-" ++ suffix) := by
  have habsolute : isAbsolute ⟨project ++ ("-" ++ suffix)⟩ = isAbsolute ⟨project⟩ := by
    rw [isAbsolute, isAbsolute, String.toList_append]
    cases project.toList with
    | nil => simp
    | cons c cs => rfl
  by_cases hproject : isAbsolute ⟨project⟩ = true
  · rw [child, child, join, join, if_pos hproject, if_pos (habsolute.trans hproject)]
    rfl
  · rw [Bool.not_eq_true] at hproject
    exact (withSuffix_child root hproject (habsolute.trans hproject)).symm

/-- No two packs share a directory, and none lies in that of another. -/
lemma pairwise_place (project : String) (packs : List Pack) (root : Path) :
    (place project packs).Pairwise fun p q => (p.stagePath root).Apart (q.stagePath root) := by
  by_cases hone : packs.length = 1
  · obtain ⟨only, rfl⟩ := List.length_eq_one_iff.mp hone
    exact List.pairwise_singleton _ _
  · rw [place_eq hone, List.pairwise_map, List.pairwise_iff_getElem]
    intro i j hi hj hij
    rw [List.length_zipIdx] at hi hj
    simp only [List.getElem_zipIdx, Nat.zero_add, PlacedPack.stagePath, directoryName_eq,
      child_eq_withSuffix]
    have hfirst := mark_not_slash packs i packs[i]
    have hsecond := mark_not_slash packs j packs[j]
    refine apart_withSuffix _ hfirst.1 hsecond.1 hfirst.2 hsecond.2 fun heq => ?_
    have htext := congrArg String.toList heq
    rw [String.toList_append, String.toList_append] at htext
    exact mark_ne hij hj (String.toList_injective (List.append_cancel_left htext))

lemma isStep_directoryName {project : String} (hproject : '/' ∉ project.toList) (packs : List Pack)
    (index : Nat) (p : Pack) : (Component.name (directoryName project packs index p)).IsStep := by
  obtain ⟨hslash, hlength⟩ := mark_not_slash packs index p
  rw [directoryName_eq]
  have hlong : 2 < (project ++ ("-" ++ mark packs index p)).length := by
    rw [String.length_append]
    omega
  refine ⟨?_, ?_, ?_, ?_⟩
  case refine_1 =>
    rw [String.toList_append, List.mem_append, not_or]
    exact ⟨hproject, hslash⟩
  all_goals
    intro heq
    rw [heq] at hlong
    exact absurd hlong (by decide)

/-- A name of a project that has no slash makes no detours. -/
lemma straight_stagePath {root : Path} (hroot : root.Straight) {project : String}
    (hproject : '/' ∉ project.toList) {packs : List Pack} {pack : PlacedPack}
    (hpack : pack ∈ place project packs) : (pack.stagePath root).Straight := by
  by_cases hone : packs.length = 1
  · obtain ⟨only, rfl⟩ := List.length_eq_one_iff.mp hone
    rw [List.mem_singleton.mp hpack]
    exact hroot
  · rw [place_eq hone] at hpack
    obtain ⟨⟨p, index⟩, -, rfl⟩ := List.mem_map.mp hpack
    exact hroot.child (isStep_directoryName hproject packs index p)

end Pack

namespace Project

/-- All that a description of a project says of it. -/
lemma of_ofJson {directory : Path} {package manifests : Json} {p : Project}
    (h : ofJson directory package manifests = .ok p) : ∃ text descriptions packs,
      package.getString? "name" = some p.name ∧ package.getString? "version" = some text ∧
      Version.parse text = .ok p.version ∧
      (manifests.get? "packs").bind Json.array? = some descriptions ∧ descriptions ≠ [] ∧
      List.Forall₂ (fun description pack => Pack.load p.version directory
        ((defaults p.name text package).merge ((manifests.get? "common").getD (.object [])))
        description = .ok pack) descriptions packs ∧
      p.packs = Pack.place p.name packs := by
  rw [ofJson] at h
  cases hname : Json.getString? "name" package with
  | none => simp [hname, throw, throwThe, MonadExceptOf.throw] at h
  | some name =>
    cases htext : Json.getString? "version" package with
    | none => simp [hname, htext, throw, throwThe, MonadExceptOf.throw] at h
    | some text =>
      rw [hname, htext] at h
      obtain ⟨version, hversion, h⟩ := bind_eq_ok.mp h
      cases hlist : (Json.get? "packs" manifests).bind Json.array? with
      | none => simp [hlist, throw, throwThe, MonadExceptOf.throw] at h
      | some descriptions =>
        rw [hlist] at h
        dsimp only at h
        split_ifs at h with hempty
        · cases h
        · obtain ⟨packs, hpacks, h⟩ := bind_eq_ok.mp h
          obtain rfl := Except.ok.inj h
          exact ⟨text, descriptions, packs, rfl, rfl, mapError_eq_ok.mp hversion, rfl,
            by simpa using hempty, mapM_eq_ok.mp hpacks, rfl⟩

/-- The packs of a project that was loaded have been given their directories. -/
lemma exists_packs_eq_place {d : Disk} {packageJson manifestSource : Path} {p : Project}
    (h : load d packageJson manifestSource = .ok p) :
    ∃ packs, p.packs = Pack.place p.name packs := by
  obtain ⟨package, -, h⟩ := bind_eq_ok.mp h
  obtain ⟨manifests, -, h⟩ := bind_eq_ok.mp h
  obtain ⟨-, -, packs, -, -, -, -, -, -, hplace⟩ := of_ofJson (mapError_eq_ok.mp h)
  exact ⟨packs, hplace⟩

end Project

end AddonBuild
