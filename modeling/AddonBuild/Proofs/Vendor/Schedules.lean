import AddonBuild.Disk.Replace
import AddonBuild.Proofs.Disk.Sessions
import AddonBuild.Proofs.Steps
import AddonBuild.Vendor.Staging
import Mathlib.Logic.Relation

/-!
# Schedules of a staging

The packages of a plan are staged side by side. A staging is a system that takes steps: a module
that waits is read and relocated, or a script that has been relocated is written. Any module and any
script may be next, so that the steps of all packages are mixed in every way, and so are the numbers
that their writes get. A script is written by way of a temporary file unless it seems to be there
already. This is one step, because the temporary file has a name that no other write takes.

Staging the packages one after the other is one of these schedules, as long as what is replaced that
way is left as a write leaves it.
-/

namespace AddonBuild

open Relation

/-! ### Modules -/

/-- A module of a package that is to be staged. -/
structure StagingJob where
  task : StagingTask
  relative : Path

namespace StagingJob

/-- Where the module is read. -/
def source (j : StagingJob) : Path :=
  j.task.source.join j.relative

/-- Where the module is written. -/
def output (j : StagingJob) : Path :=
  j.task.destination.join j.relative

/-- The destination that counts as present before it is written. -/
def planned (j : StagingJob) : Path :=
  j.task.destination.absolutize j.relative

/-- The module as it is relocated on a disk. -/
def script (j : StagingJob) (r : Relocator) (d : Disk) : Except Fault ScriptText :=
  r.relocateFile d j.task.source j.relative j.task.destination

lemma script_eq_ok {j : StagingJob} {r : Relocator} {d : Disk} {script : ScriptText} :
    j.script r d = .ok script ↔
      ∃ text contents, d.readText j.source = .ok text ∧
        r.relocateContents (r.presence d) j.source j.output text = .ok contents ∧
        script = ⟨j.source, j.output, contents⟩ := by
  rw [StagingJob.script, Relocator.relocateFile, bind_eq_ok]
  refine exists_congr fun text => ?_
  rw [mapError_eq_ok, Relocator.relocate, bind_eq_ok, ← exists_and_left]
  refine exists_congr fun contents => and_congr_right fun _ => and_congr_right fun _ => ?_
  exact ⟨fun h => (Except.ok.inj h).symm, fun h => congrArg Except.ok h.symm⟩

end StagingJob

namespace StagingPlan

/-- The modules of all packages of a plan. -/
def listing (plan : StagingPlan) (d : Disk) : Except Fault (List (StagingTask × List Path)) :=
  plan.tasks.mapM fun task => do return (task, ← task.modules d)

/-- The modules of listed packages, one by one. -/
def jobs (work : List (StagingTask × List Path)) : List StagingJob :=
  work.flatMap fun (task, modules) => modules.map (StagingJob.mk task)

/-- The modules that a plan stages on a disk. -/
def jobsOn (plan : StagingPlan) (d : Disk) : List StagingJob :=
  match plan.listing d with
  | .ok work => jobs work
  | .error _ => []

/-- The relocator with which a plan stages what it lists on a disk, for which the destinations of
all modules count as present. -/
def relocatorOn (plan : StagingPlan) (d : Disk) : Relocator :=
  { plan.relocator with planned := (plan.jobsOn d).map StagingJob.planned }

lemma planned_eq (work : List (StagingTask × List Path)) :
    planned work = (jobs work).map StagingJob.planned := by
  rw [planned, jobs, List.map_flatMap]
  refine List.flatMap_congr fun item _ => ?_
  rw [List.map_map]
  rfl

end StagingPlan

/-! ### Steps -/

/-- Where a staging stands: the modules that have not been read yet, and the scripts that have been
relocated and not been written yet. -/
structure Staging where
  session : Session
  waiting : List StagingJob
  ready : List ScriptText

namespace Staging

/-- What may happen next. Only what is written takes a stamp. -/
inductive Step (r : Relocator) : Staging → Staging → Prop where
  | relocate {s : Session} (before : List StagingJob) {after : List StagingJob} {j : StagingJob}
      {ready : List ScriptText} {script : ScriptText} (h : j.script r s.disk = .ok script) :
      Step r ⟨s, before ++ j :: after, ready⟩ ⟨s, before ++ after, script :: ready⟩
  | emit {s : Session} {d : Disk} {waiting : List StagingJob} (before : List ScriptText)
      {after : List ScriptText} {script : ScriptText} {fresh : Bool}
      (h : (Disk.replaceIfChanged s.stamp script.destination script.contents.toUTF8).on s.disk =
        (.ok fresh, d)) :
      Step r ⟨s, waiting, before ++ script :: after⟩
        ⟨⟨d, if fresh then s.stamp.next else s.stamp⟩, waiting, before ++ after⟩

/-- What may go wrong next. -/
inductive Fails (r : Relocator) : Staging → Prop where
  | relocate {s : Session} {waiting : List StagingJob} {j : StagingJob} {ready : List ScriptText}
      {fault : Fault} (hj : j ∈ waiting) (h : j.script r s.disk = .error fault) :
      Fails r ⟨s, waiting, ready⟩
  | emit {s : Session} {d : Disk} {waiting : List StagingJob} {ready : List ScriptText}
      {script : ScriptText} {e : DiskError} (hscript : script ∈ ready)
      (h : (Disk.replaceIfChanged s.stamp script.destination script.contents.toUTF8).on s.disk =
        (.error e, d)) :
      Fails r ⟨s, waiting, ready⟩

/-- All modules are written. -/
def IsDone (st : Staging) : Prop :=
  st.waiting = [] ∧ st.ready = []

variable {r : Relocator} {st st' : Staging}

/-- How many steps are left. Every module is read and then written. -/
def left (st : Staging) : Nat :=
  2 * st.waiting.length + st.ready.length

lemma Step.left_lt (h : Step r st st') : st'.left < st.left := by
  cases h <;> simp only [left, List.length_append, List.length_cons] <;> omega

/-- No schedule goes on for ever. -/
lemma wellFounded_step (r : Relocator) : WellFounded fun st' st => Step r st st' :=
  Subrelation.wf Step.left_lt (measure left).wf

/-- A staging goes on until all modules are written or something goes wrong. -/
lemma exists_step_or_fails (r : Relocator) (h : ¬ st.IsDone) :
    (∃ st', Step r st st') ∨ st.Fails r := by
  obtain ⟨s, waiting, ready⟩ := st
  rcases not_and_or.mp h with h | h
  · obtain ⟨j, after, rfl⟩ := List.exists_cons_of_ne_nil h
    cases hscript : j.script r s.disk with
    | ok script => exact .inl ⟨_, .relocate [] hscript⟩
    | error fault => exact .inr (.relocate List.mem_cons_self hscript)
  · obtain ⟨script, after, rfl⟩ := List.exists_cons_of_ne_nil h
    cases hemit : (Disk.replaceIfChanged s.stamp script.destination
        script.contents.toUTF8).on s.disk with
    | mk result d =>
      cases result with
      | ok fresh => exact .inl ⟨_, .emit [] hemit⟩
      | error e => exact .inr (.emit List.mem_cons_self hemit)

/-- Whatever has happened, a staging can come to an end. -/
lemma exists_end (r : Relocator) (st : Staging) :
    ∃ st', ReflTransGen (Step r) st st' ∧ (st'.IsDone ∨ st'.Fails r) := by
  induction st using (wellFounded_step r).induction with
  | _ st ih =>
    by_cases hdone : st.IsDone
    · exact ⟨st, .refl, .inl hdone⟩
    · rcases exists_step_or_fails r hdone with ⟨st₁, hstep⟩ | hfails
      · obtain ⟨st', hrun, hend⟩ := ih st₁ hstep
        exact ⟨st', .head hstep hrun, hend⟩
      · exact ⟨st, .refl, .inr hfails⟩

end Staging

namespace StagingPlan

/-- A staging of a plan in a session may come to stand here. -/
def Reaches (plan : StagingPlan) (s : Session) (st : Staging) : Prop :=
  ReflTransGen (Staging.Step (plan.relocatorOn s.disk)) ⟨s, plan.jobsOn s.disk, []⟩ st

/-- How staging a plan in a session can end: with an error, or with all modules written. -/
inductive Ends (plan : StagingPlan) (s : Session) : Option Disk → Prop where
  | unlisted {fault : Fault} (h : plan.listing s.disk = .error fault) : Ends plan s none
  | failed {work : List (StagingTask × List Path)} {st : Staging}
      (h : plan.listing s.disk = .ok work) (hrun : plan.Reaches s st)
      (hfails : st.Fails (plan.relocatorOn s.disk)) : Ends plan s none
  | done {work : List (StagingTask × List Path)} {s' : Session}
      (h : plan.listing s.disk = .ok work) (hrun : plan.Reaches s ⟨s', [], []⟩) :
      Ends plan s (some s'.disk)

end StagingPlan

/-! ### One package after the other -/

/-- Wherever a staging may come to stand, replacing what is ready leaves the disk as writing it. -/
def Staging.IsFaithful (r : Relocator) (start : Staging) : Prop :=
  ∀ st, ReflTransGen (Step r) start st → ∀ t ∈ st.ready,
    (Disk.replaceIfChanged st.session.stamp t.destination t.contents.toUTF8).on st.session.disk =
      (Disk.writeIfChanged st.session.stamp t.destination t.contents.toUTF8).on st.session.disk

/-- Wherever it is taken up in a staging, the work stages the given modules or fails on the way. -/
def Performs {α : Type} (r : Relocator) (start : Staging) (work : SessionM Fault α)
    (jobs : List StagingJob) : Prop :=
  ∀ (s : Session) (rest : List StagingJob),
    ReflTransGen (Staging.Step r) start ⟨s, jobs ++ rest, []⟩ →
      match work.on s with
      | (.ok _, s') => ReflTransGen (Staging.Step r) start ⟨s', rest, []⟩
      | (.error _, _) => ∃ st, ReflTransGen (Staging.Step r) start st ∧ st.Fails r

namespace Performs

variable {α β : Type} {r : Relocator} {start : Staging}

lemma pure (a : α) : Performs r start (Pure.pure a) [] :=
  fun _ _ h => h

lemma bind {work : SessionM Fault α} {more : α → SessionM Fault β}
    {first second : List StagingJob} (h : Performs r start work first)
    (hmore : ∀ a, Performs r start (more a) second) :
    Performs r start (work >>= more) (first ++ second) := by
  intro s rest hstart
  rw [List.append_assoc] at hstart
  have hfirst := h s (second ++ rest) hstart
  rw [WorkM.on_bind]
  generalize work.on s = outcome at hfirst
  obtain ⟨result, s₁⟩ := outcome
  cases result with
  | error fault => exact hfirst
  | ok a => exact hmore a s₁ rest hfirst

lemma mapM {f : α → SessionM Fault β} {g : α → List StagingJob} {l : List α}
    (h : ∀ a ∈ l, Performs r start (f a) (g a)) : Performs r start (l.mapM f) (l.flatMap g) := by
  induction l with
  | nil =>
    rw [List.mapM_nil]
    exact .pure []
  | cons a l ih =>
    obtain ⟨ha, hl⟩ := List.forall_mem_cons.mp h
    rw [List.mapM_cons, List.flatMap_cons]
    refine ha.bind fun b => ?_
    have hcons (bs : List β) : Performs r start (Pure.pure (b :: bs)) [] := .pure _
    have hrest := (ih hl).bind hcons
    rwa [List.append_nil] at hrest

/-- A module that is staged at once is read and written. -/
lemma stage (hfaithful : start.IsFaithful r) (j : StagingJob) :
    Performs r start (do
      let script ← SessionM.consult fun d =>
        r.relocateFile d j.task.source j.relative j.task.destination
      Output.emit script.destination script.contents.toUTF8) [j] := by
  intro s rest hstart
  rw [WorkM.on_bind, SessionM.on_consult]
  cases hscript : r.relocateFile s.disk j.task.source j.relative j.task.destination with
  | error fault => exact ⟨_, hstart, .relocate List.mem_cons_self hscript⟩
  | ok script =>
    have hrelocate : ReflTransGen (Staging.Step r) start ⟨s, rest, [script]⟩ :=
      hstart.tail (.relocate [] hscript)
    have hreplace := hfaithful _ hrelocate script List.mem_cons_self
    dsimp only at hreplace ⊢
    generalize hemit : (Output.emit script.destination script.contents.toUTF8).on s = outcome
    obtain ⟨result, s'⟩ := outcome
    cases result with
    | ok output =>
      obtain ⟨fresh, d, hwrite, -, rfl⟩ := Output.on_emit_eq_ok.mp hemit
      exact hrelocate.tail (.emit [] (hreplace.trans hwrite))
    | error fault =>
      obtain ⟨e, d, hwrite⟩ := Output.exists_of_on_emit_eq_error hemit
      exact ⟨_, hrelocate, .emit List.mem_cons_self (hreplace.trans hwrite)⟩

end Performs

namespace StagingPlan

/-- The disk after staging a plan in a session, unless there was an error. -/
def outcome (plan : StagingPlan) (s : Session) : Option Disk :=
  match plan.execute.on s with
  | (.ok _, s') => some s'.disk
  | (.error _, _) => none

/-- Staging one package after the other is a schedule. -/
lemma ends_outcome {plan : StagingPlan} {s : Session}
    (hfaithful : Staging.IsFaithful (plan.relocatorOn s.disk) ⟨s, plan.jobsOn s.disk, []⟩) :
    plan.Ends s (plan.outcome s) := by
  rw [outcome, execute, WorkM.on_bind, stage, WorkM.on_bind, SessionM.on_consult]
  cases hlisting : plan.tasks.mapM (fun task => do
      return (task, ← task.modules s.disk) :
        StagingTask → Except Fault (StagingTask × List Path)) with
  | error fault => exact .unlisted hlisting
  | ok work =>
    have hjobs : plan.jobsOn s.disk = jobs work := by
      rw [jobsOn, listing, hlisting]
    have hrelocator : ({ plan.relocator with planned := planned work } : Relocator) =
        plan.relocatorOn s.disk := by
      rw [relocatorOn, hjobs, planned_eq]
    have hperforms : Performs (plan.relocatorOn s.disk) ⟨s, plan.jobsOn s.disk, []⟩
        (work.mapM fun (task, modules) => task.stage (plan.relocatorOn s.disk) modules)
        (jobs work) :=
      .mapM fun item _ => by
        have hmodules := Performs.mapM (l := item.2) fun relative _ =>
          Performs.stage hfaithful ⟨item.1, relative⟩
        rwa [← List.map_eq_flatMap] at hmodules
    have hrun := hperforms s [] (by rw [List.append_nil, hjobs])
    dsimp only
    rw [hrelocator]
    generalize WorkM.on (List.mapM _ work) s = staged at hrun ⊢
    obtain ⟨result, s'⟩ := staged
    cases result with
    | ok outputs => exact .done hlisting hrun
    | error fault =>
      obtain ⟨st, hsteps, hfails⟩ := hrun
      exact .failed hlisting hsteps hfails

end StagingPlan

end AddonBuild
