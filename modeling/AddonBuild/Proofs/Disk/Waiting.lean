import AddonBuild.Disk.Change
import AddonBuild.Proofs.Disk.Place
import AddonBuild.Proofs.Path.FileNames
import AddonBuild.Proofs.Path.Straight

/-!
# Where new content waits

New content waits in the directory of its file, under a name that is longer than that of the file,
so that it is at no place that the path of the file leads through.
-/

namespace AddonBuild

open AddonBuild.Path

/-- A path that ends in a name, as the path of a file does. -/
def Path.EndsInName (p : Path) : Prop :=
  ∃ init last, p.segments = init ++ [last] ∧ isBlank last = false ∧ last ≠ ".."

lemma slash_not_mem_toString (n : Nat) : '/' ∉ (toString n).toList := by
  rw [Nat.toString_eq_repr, Nat.repr, String.toList_ofList]
  intro h
  exact absurd (Nat.isDigit_of_mem_toDigits (by decide) (by decide) h) (by decide)

namespace Disk

variable {p : Path} {stamp : Stamp}

lemma waitingName_eq (stamp : Stamp) (p : Path) :
    waitingName stamp p = "." ++ p.fileName?.getD "file" ++
      (".tmp." ++ (toString stamp.process.toNat ++ ("." ++ toString stamp.count.toNat))) := by
  simp only [waitingName, String.append_assoc]

lemma length_lt_waitingName (stamp : Stamp) (p : Path) :
    (p.fileName?.getD "file").length < (waitingName stamp p).length := by
  have hdot : ".".length = 1 := rfl
  rw [waitingName_eq, String.length_append, String.length_append, hdot]
  omega

lemma isStep_waitingName (stamp : Stamp) (p : Path) :
    (Component.name (waitingName stamp p)).IsStep := by
  rw [waitingName_eq]
  refine isStep_hidden p _ ?_ ?_
  · simp only [String.toList_append, List.mem_append, not_or]
    exact ⟨by decide, slash_not_mem_toString _, by decide, slash_not_mem_toString _⟩
  · have htmp : ".tmp.".length = 5 := rfl
    rw [String.length_append, htmp]
    omega

lemma way_waiting (stamp : Stamp) (p : Path) :
    (waiting stamp p).way = p.way.dropLast ++ [.name (waitingName stamp p)] := by
  rw [waiting, way_child (isStep_waitingName stamp p)]
  exact congrArg (· ++ _) (p.way_parent rfl)

/-- The temporary file stands beside its file. -/
lemma location_waiting (stamp : Stamp) (p : Path) :
    (waiting stamp p).location = Location.along [] p.way.dropLast ++ [waitingName stamp p] := by
  rw [location, way_waiting, Location.along_append]
  rfl

lemma passage_waiting (stamp : Stamp) (p : Path) : (waiting stamp p).passage = p.passage := by
  rw [passage, way_waiting, List.dropLast_concat, passage]

lemma endsInName_waiting (stamp : Stamp) (p : Path) : (waiting stamp p).EndsInName := by
  obtain ⟨hslash, hempty, hdot, hdots⟩ := isStep_waitingName stamp p
  obtain ⟨init, hsegments, -⟩ := (homeOf p).exists_segments_child hslash
  exact ⟨init, _, hsegments, by simp [isBlank, hempty, hdot], hdots⟩

/-- A path ends in a name that is shorter than that of its temporary file, or leads no further than
its directory. -/
lemma location_waiting_not_mem (h : (waiting stamp p).location ∉ p.passage) :
    (waiting stamp p).location ∉ p.trail := by
  rcases List.eq_nil_or_concat p.way with hway | ⟨init, last, hway⟩
  · rw [trail, hway]
    exact List.not_mem_nil
  · rw [List.concat_eq_append] at hway
    have htrail : p.trail = p.passage ++ Location.trail (Location.along [] init) [last] := by
      rw [trail, passage, hway, List.dropLast_concat, Location.trail_append]
    rw [htrail, List.mem_append, not_or]
    refine ⟨h, ?_⟩
    cases last with
    | root | here | up => exact List.not_mem_nil
    | name name =>
      rw [location_waiting, hway, List.dropLast_concat, Location.trail, Location.trail,
        List.mem_singleton]
      intro heq
      have hname : waitingName stamp p = name :=
        (List.cons.inj (List.append_cancel_left heq)).1
      have hlength := length_lt_waitingName stamp p
      rw [fileName?_of_way hway, hname, Option.getD_some] at hlength
      omega

end Disk

end AddonBuild
