import AddonBuild.Document
import AddonBuild.Proofs.Json.Merging
import AddonBuild.Proofs.Json.Stepping
import AddonBuild.Proofs.Steps

/-!
# Keys of objects that are read

A member whose key is there already replaces the one before it. So an object that is being read
takes every key once, and no object of a value that was read names a key twice.
-/

namespace AddonBuild

namespace Json

variable {reading : Reading} {phase : Phase} {stack : List Frame} {frame : Frame} {b : UInt8}
  {s rest : List UInt8} {outcome : Outcome} {value : Json} {members : Members} {key : String}

/-- Nothing in a frame names a key twice. -/
def Frame.IsDistinct : Frame → Prop
  | .list done => ∀ item ∈ done, Distinct item
  | .record done _ => Distinct (.object done)

/-- Nothing in an outcome names a key twice. -/
def Outcome.IsDistinct : Outcome → Prop
  | .done value => Distinct value
  | .more _ stack => ∀ frame ∈ stack, frame.IsDistinct

lemma Distinct.insert (h : Distinct (.object members)) (hvalue : Distinct value) :
    Distinct (.object (members.insert key value)) := by
  refine .object ?_ fun member hmember => ?_
  · have hkeys : (members.insert key value).keys.Nodup := by
      rw [Members.keys_insert]
      split_ifs with hmem
      · exact h.keys
      · exact List.concat_eq_append ▸ h.keys.concat hmem
    exact hkeys
  · rcases Members.mem_insert hmember with rfl | hmember
    · exact hvalue
    · exact h.of_mem hmember

/-! ### What a step keeps -/

lemma isDistinct_complete (hvalue : Distinct value) (hstack : ∀ frame ∈ stack, frame.IsDistinct) :
    (complete value stack).IsDistinct := by
  match stack with
  | [] => exact hvalue
  | .list done :: outer =>
    obtain ⟨hframe, houter⟩ := List.forall_mem_cons.mp hstack
    exact List.forall_mem_cons.mpr ⟨List.forall_mem_cons.mpr ⟨hvalue, hframe⟩, houter⟩
  | .record done key :: outer =>
    obtain ⟨hframe, houter⟩ := List.forall_mem_cons.mp hstack
    exact List.forall_mem_cons.mpr ⟨Distinct.insert hframe hvalue, houter⟩

lemma isDistinct_close (hstack : ∀ frame ∈ stack, frame.IsDistinct) :
    (close stack).IsDistinct := by
  match stack with
  | [] => exact .null
  | .list done :: outer =>
    obtain ⟨hframe, houter⟩ := List.forall_mem_cons.mp hstack
    exact isDistinct_complete (.array fun item hitem => hframe item (List.mem_reverse.mp hitem))
      houter
  | .record done key :: outer =>
    obtain ⟨hframe, houter⟩ := List.forall_mem_cons.mp hstack
    exact isDistinct_complete hframe houter

lemma isDistinct_withKey (hstack : ∀ frame ∈ stack, frame.IsDistinct) :
    ∀ frame ∈ withKey key stack, frame.IsDistinct := by
  match stack with
  | [] | .list done :: outer => exact hstack
  | .record done _ :: outer =>
    obtain ⟨hframe, houter⟩ := List.forall_mem_cons.mp hstack
    exact List.forall_mem_cons.mpr ⟨hframe, houter⟩

lemma Opens.isDistinct (h : Opens b frame phase) : frame.IsDistinct := by
  cases h with
  | list => exact List.forall_mem_nil _
  | record => exact Distinct.object List.nodup_nil nofun

lemma distinct_numberBy {negative : Bool}
    (h : numberBy reading negative s = .ok (value, rest)) : Distinct value := by
  unfold numberBy at h
  cases reading with
  | strict =>
    dsimp only at h
    split at h
    · cases h
    · obtain ⟨rfl, -⟩ := Prod.mk.inj (Except.ok.inj h)
      exact .number _
  | skim =>
    dsimp only at h
    split at h
    · cases h
    · obtain ⟨rfl, -⟩ := Prod.mk.inj (Except.ok.inj h)
      exact .null

lemma StartsValue.isDistinct (h : StartsValue reading stack b s outcome rest)
    (hstack : ∀ frame ∈ stack, frame.IsDistinct) : outcome.IsDistinct := by
  cases h with
  | literal hb _ =>
    refine isDistinct_complete ?_ hstack
    cases hb with
    | null => exact .null
    | yes | no => exact .bool _
  | string => exact isDistinct_complete (.string _) hstack
  | minus _ hread => exact isDistinct_complete (distinct_numberBy hread) hstack
  | digit _ hread => exact isDistinct_complete (distinct_numberBy hread) hstack
  | opening hb _ => exact List.forall_mem_cons.mpr ⟨hb.isDistinct, hstack⟩

lemma Steps.isDistinct (h : Steps reading phase stack b s outcome rest)
    (hstack : ∀ frame ∈ stack, frame.IsDistinct) : outcome.IsDistinct := by
  cases h with
  | value _ h => exact h.isDistinct hstack
  | key => exact isDistinct_withKey hstack
  | mark => exact hstack
  | closing => exact isDistinct_close hstack

/-! ### Whole values -/

lemma distinct_of_run (hstack : ∀ frame ∈ stack, frame.IsDistinct)
    (h : run reading phase stack s = .ok (value, rest)) : Distinct value := by
  fun_induction run reading phase stack s with
  | case1 => cases h
  | case2 => cases h
  | case3 phase stack s b behind hskip found rest' hstep =>
    obtain ⟨rfl, -⟩ := Prod.mk.inj (Except.ok.inj h)
    exact (steps_of_step hstep).isDistinct hstack
  | case4 phase stack s b behind hskip phase' stack' rest' hstep _ ih =>
    exact ih ((steps_of_step hstep).isDistinct hstack) h

/-- No object of a value that was read names a key twice. -/
theorem distinct_of_parse (h : parse s = .ok value) : Distinct value := by
  have hdocument : document .strict s = .ok value := mapError_eq_ok.mp h
  unfold document at hdocument
  split at hdocument
  · cases hdocument
  · next hrun =>
    split at hdocument
    · obtain rfl := Except.ok.inj hdocument
      exact distinct_of_run (List.forall_mem_nil _) hrun
    · cases hdocument

end Json

/-- No object of a document names a key twice. -/
lemma Document.distinct_of_read {d : Disk} {file : Path} {value : Json}
    (h : read d file = .ok value) : Json.Distinct value := by
  obtain ⟨_, -, hparse⟩ := of_read_eq_ok h
  exact Json.distinct_of_parse hparse

end AddonBuild
