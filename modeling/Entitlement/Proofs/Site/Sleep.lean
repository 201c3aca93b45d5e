import Entitlement.Proofs.Key.Issue
import Entitlement.Proofs.Site.Runs

/-! # Spans of time

A task runs when it is due, so it makes no difference in how many spans the time passes: the runs of
a span are those of its parts, one part after the other. Nor does it matter where a span is cut, be
it between two runs or at the very time at which tasks are due.
-/

namespace Entitlement.Schedule

variable {earlier time : Nat} {arrival : Nat → Nat} {schedule rest : Schedule} {task : Task}

/-- A task that is taken out by some time is the one that is taken out by any later time. -/
theorem takeDue?_of_le (hle : earlier ≤ time)
    (htaken : takeDue? earlier schedule = some (task, rest)) :
    takeDue? time schedule = some (task, rest) := by
  obtain ⟨hfirst, hdue⟩ := takeDue?_eq_some_iff.mp htaken
  exact takeDue?_eq_some_iff.mpr ⟨hfirst, Nat.le_trans hdue hle⟩

/-- The runs until some time are those until an earlier time, and then those that the tasks still
have before them. -/
theorem runUntil_split (hle : earlier ≤ time) :
    schedule.runUntil time arrival =
      ((schedule.runUntil earlier arrival).1 ++
          ((schedule.runUntil earlier arrival).2.runUntil time arrival).1,
        ((schedule.runUntil earlier arrival).2.runUntil time arrival).2) := by
  induction schedule using runUntil.induct earlier arrival with
  | case1 schedule hdue =>
      rw [runUntil_of_none hdue]
      rfl
  | case2 schedule task rest hdue run _ _ _ ih =>
      rw [runUntil_of_some hdue, runUntil_of_some (takeDue?_of_le hle hdue), ih]
      rfl

theorem runUntil_eq_nil_iff :
    (schedule.runUntil time arrival).1 = [] ↔ ∀ task ∈ schedule, time < task.due := by
  constructor
  · intro hnone task htask
    exact Nat.lt_of_not_le fun hdue => runs_ne_nil_of_due htask hdue hnone
  · intro hlater
    rw [runUntil_of_lt hlater]

end Entitlement.Schedule

namespace Entitlement.Site

open Custody Grant Schedule Signature

variable {verdict : Verdict} {site : Site}

theorem recheck_append (verdict : Verdict) (runs more : List Run) (c : Custody) :
    recheck verdict (runs ++ more) c = recheck verdict more (recheck verdict runs c) :=
  List.foldl_append

/-- Two spans of sleep do what one span does that is as long as both. -/
theorem sleep_sleep (verdict : Verdict) (site : Site) (a b : Nat) :
    ((site.perform verdict (.sleep a)).1.perform verdict (.sleep b)).1 =
        (site.perform verdict (.sleep (a + b))).1 ∧
      site.runsIn (.sleep a) ++ (site.perform verdict (.sleep a)).1.runsIn (.sleep b) =
        site.runsIn (.sleep (a + b)) := by
  have hspan : site.schedule.sleep (site.time + (a + b)) = _ :=
    runUntil_split (Nat.add_le_add_left (Nat.le_add_right a b) site.time)
  have htime : site.time + a + b = site.time + (a + b) := Nat.add_assoc _ _ _
  constructor
  · simp only [perform, pass, htime, hspan, recheck_append]
    rfl
  · simp only [perform, pass, runsIn, htime, hspan]
    rfl

/-- However a span is cut into pieces, it does and runs the same. -/
theorem run_sleeps (verdict : Verdict) (site : Site) (first : Nat) (more : List Nat) :
    (site.run verdict ((first :: more).map .sleep)).1 =
        (site.perform verdict (.sleep (first :: more).sum)).1 ∧
      site.runsOver verdict ((first :: more).map .sleep) =
        site.runsIn (.sleep (first :: more).sum) := by
  induction more generalizing site first with
  | nil => exact ⟨rfl, List.append_nil _⟩
  | cons next more ih =>
      obtain ⟨hsite, hruns⟩ := ih (site.perform verdict (.sleep first)).1 next
      obtain ⟨hsame, hsameRuns⟩ := sleep_sleep verdict site first (next :: more).sum
      exact ⟨hsite.trans hsame,
        (congrArg (site.runsIn (.sleep first) ++ ·) hruns).trans hsameRuns⟩

/-- A span that ends before any task is due leaves all but the time as it was. -/
theorem sleep_of_lt {duration : Nat}
    (hquiet : ∀ task ∈ site.schedule, site.time + duration < task.due) :
    (site.perform verdict (.sleep duration)).1 = { site with time := site.time + duration } := by
  have hspan : site.schedule.sleep (site.time + duration) = ([], site.schedule) :=
    runUntil_of_lt hquiet
  simp only [perform, pass, hspan]
  rfl

/-! ## The result -/

/-- Two spans of sleep make the same tasks run at the same times and in the same order as one span
that is as long as both, so they leave the same site: the license in force, what each follower has
still to be given, the tasks and when they are due. All that is done then is answered alike. The
same holds of any number of spans. And a span in which no task comes due, and only such a span,
passes without a run; it moves the clock of the schedule and nothing else. -/
theorem sleeping_composes (verdict : Verdict) (site : Site) :
    (∀ a b more,
      let parted := site.run verdict (.sleep a :: .sleep b :: more)
      let whole := site.run verdict (.sleep (a + b) :: more)
      parted = (whole.1, .done :: whole.2) ∧
      site.runsOver verdict (.sleep a :: .sleep b :: more) =
        site.runsOver verdict (.sleep (a + b) :: more)) ∧
    (∀ first more,
      let spans : List Nat := first :: more
      (site.run verdict (spans.map .sleep)).1 = (site.perform verdict (.sleep spans.sum)).1 ∧
      site.runsOver verdict (spans.map .sleep) = site.runsIn (.sleep spans.sum)) ∧
    ∀ duration,
      (site.runsIn (.sleep duration) = [] ↔
        ∀ task ∈ site.schedule, site.time + duration < task.due) ∧
      ((∀ task ∈ site.schedule, site.time + duration < task.due) →
        (site.perform verdict (.sleep duration)).1 =
          { site with time := site.time + duration }) := by
  refine ⟨fun a b more => ?_, run_sleeps verdict site, fun duration =>
    ⟨runUntil_eq_nil_iff, sleep_of_lt⟩⟩
  obtain ⟨hsame, hruns⟩ := sleep_sleep verdict site a b
  constructor
  · rw [run_cons, run_cons, run_cons, hsame]
    rfl
  · rw [runsOver, runsOver, runsOver, hsame, ← List.append_assoc, hruns]

/-- Two tasks that are due at once, where the first span ends. They run in the first span and not
again in the second, and nothing has happened a moment before. -/
theorem sleeping_composes_sample :
    ∃ verdict site, verdict = Key.verify Ed25519.scheme Key.sampleTrusted ∧
      site = ((Site.start License.epoch).run verdict
        [.startTask "nightly" "key" 0, .startTask "hourly" "key" 1000]).1 ∧
      (site.run verdict [.sleep 1000, .sleep 500]).1 = (site.perform verdict (.sleep 1500)).1 ∧
      site.runsOver verdict [.sleep 1000, .sleep 500] =
        [⟨"nightly", "key", 1000⟩, ⟨"hourly", "key", 1000⟩] ∧
      (site.perform verdict (.sleep 999)).1 = { site with time := 999 } := by
  refine ⟨_, _, rfl, rfl, ?_⟩
  obtain ⟨-, hspans, hquiet⟩ := sleeping_composes (Key.verify Ed25519.scheme Key.sampleTrusted)
    ((Site.start License.epoch).run (Key.verify Ed25519.scheme Key.sampleTrusted)
      [.startTask "nightly" "key" 0, .startTask "hourly" "key" 1000]).1
  -- The argument needs only the tasks, and must not evaluate a verdict.
  generalize Key.verify Ed25519.scheme Key.sampleTrusted = verdict at *
  obtain ⟨hsame, hruns⟩ := hspans 1000 [500]
  have hlater : ∀ task ∈ [Task.start "nightly" "key" 0 0, Task.start "hourly" "key" 1000 0],
      999 < task.due := by decide
  refine ⟨hsame, hruns.trans ?_, (hquiet 999).2 hlater⟩
  change (runUntil 1500 (fun due => due)
    [Task.start "nightly" "key" 0 0, Task.start "hourly" "key" 1000 0]).1 = _
  rw [runUntil_of_some rfl, runUntil_of_some rfl, runUntil_of_none rfl]
  rfl

end Entitlement.Site
