/-
Trials: a body of work that is run between a set-up and a clean-up.

The clean-up runs whenever the set-up has made a setting, however the body ends. A trial crashes with the first of its
steps that failed; a crash of the body itself goes through unchanged.
-/
import EventMatching.Error

namespace EventMatching
namespace Trial

inductive Step where
  | before
  | test
  | after
deriving DecidableEq

/-- how the body of a trial ends -/
inductive Ending where
  | completed
  | failed (error : Error)
  | crashed (message : String)
deriving DecidableEq

/-- the steps that were run, and the message of the crash if the trial crashed -/
structure Report where
  steps : List Step
  crash : Option String
deriving DecidableEq

/-- runs `test` in the setting that `before` makes, and then `after` -/
def run {C : Type} (before : Except Error C) (test : C → Ending) (after : C → Except Error Unit) : Report :=
  match before with
  | .error e => ⟨[.before], some ("Before run failed: " ++ e.report)⟩
  | .ok setting =>
    let crash :=
      match test setting, after setting with
      | .failed e, _ => some ("Test failed: " ++ e.report)
      | .crashed message, _ => some message
      | .completed, .error e => some ("After run failed: " ++ e.report)
      | .completed, .ok () => none
    ⟨[.before, .test, .after], crash⟩

end Trial
end EventMatching
