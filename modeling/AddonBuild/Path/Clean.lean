import AddonBuild.Path.Basic

/-!
# Cleaned and absolute paths

Cleaning removes `.` components and lets every `..` cancel the name before it, by the text alone.
What cannot be cancelled is kept: a `..` at the front of a relative path stays, and one at the
root goes nowhere.
-/

namespace AddonBuild

namespace Path

/-- Take one more step after the steps in `taken`, whose last one comes first. -/
def cleanStep (taken : List Component) (step : Component) : List Component :=
  match step, taken with
  | .here, _ => taken
  | .up, .root :: _ => taken
  | .up, .name _ :: before => before
  | step, _ => step :: taken

/-- The steps that remain after cleaning. -/
def cleanComponents (steps : List Component) : List Component :=
  (steps.foldl cleanStep []).reverse

/-- A path without `.` and without a `..` behind a name. -/
def clean (p : Path) : Path :=
  match cleanComponents p.components with
  | [] => ⟨"."⟩
  | steps => ofComponents steps

/-- The cleaned place that `p` names when it is read from the directory `base`. -/
def absolutize (base p : Path) : Path :=
  (base.join p).clean

end Path

end AddonBuild
