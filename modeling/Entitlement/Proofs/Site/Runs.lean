import Entitlement.Proofs.Schedule.Spacing
import Entitlement.Proofs.Site.Step

/-! # The runs of tasks on a site

Tasks run while time passes, and what they do to the custody is to check their keys, one run after
the other. Which of them run, and when, is settled by the schedule and its clock alone: neither the
license in force nor the verdicts on keys have a part in it. And the runs under some names are
settled by the tasks under these names.
-/

namespace Entitlement.Site

open Custody Schedule

/-- The task that an operation starts or stops. -/
def Operation.task? : Operation → Option String
  | .startTask task _ _ | .stopTask task => some task
  | _ => none

/-- Whether an operation lets time pass. -/
def Operation.passes : Operation → Bool
  | .sleep _ | .jump _ => true
  | _ => false

def Operation.isJump : Operation → Bool
  | .jump _ => true
  | _ => false

/-- The runs of tasks in an operation. -/
def runsIn (site : Site) : Operation → List Run
  | .sleep duration => (site.schedule.sleep (site.time + duration)).1
  | .jump duration => (site.schedule.jump (site.time + duration)).1
  | _ => []

/-- The runs of tasks in operations that are carried out one after the other. -/
def runsOver (verdict : Verdict) (site : Site) : List Operation → List Run
  | [] => []
  | operation :: more =>
    site.runsIn operation ++ (site.perform verdict operation).1.runsOver verdict more

variable {verdict : Verdict} {site other : Site} {operation : Operation}

/-- While time passes nothing happens to the custody but the checks of the tasks that run. -/
theorem custody_of_passes (hpasses : operation.passes = true) :
    (site.perform verdict operation).1.custody =
      recheck verdict (site.runsIn operation) site.custody := by
  cases operation with
  | sleep _ | jump _ => rfl
  | _ => cases hpasses

theorem runsIn_of_not_passes (hpasses : operation.passes = false) : site.runsIn operation = [] := by
  cases operation with
  | sleep _ | jump _ => cases hpasses
  | _ => rfl

/-- When a run takes place in an operation that ends at some time: in a jump at its end, and
otherwise when it is due. -/
def Operation.arrival (operation : Operation) (time due : Nat) : Nat :=
  if operation.isJump then time else due

theorem Operation.arrival_le {due time : Nat} (hdue : due ≤ time) (operation : Operation) :
    operation.arrival time due ≤ time := by
  unfold arrival
  split
  next => exact Nat.le_refl _
  next => exact hdue

/-- While time passes the tasks run until the operation ends. -/
theorem runUntil_of_passes (hpasses : operation.passes = true) (site : Site) :
    site.schedule.runUntil (site.timeAfter operation)
        (operation.arrival (site.timeAfter operation)) =
      (site.runsIn operation, site.scheduleAfter operation) := by
  cases operation with
  | sleep _ | jump _ => rfl
  | _ => cases hpasses

theorem timeAfter_of_not_passes (hpasses : operation.passes = false) :
    site.timeAfter operation = site.time := by
  cases operation with
  | sleep _ | jump _ => cases hpasses
  | _ => rfl

theorem le_timeAfter (site : Site) (operation : Operation) :
    site.time ≤ site.timeAfter operation := by
  cases operation with
  | sleep duration | jump duration => exact Nat.le_add_right _ _
  | _ => exact Nat.le_refl _

theorem timeAfter_congr (htime : site.time = other.time) (operation : Operation) :
    site.timeAfter operation = other.timeAfter operation := by
  cases operation <;> simp only [timeAfter, htime]

theorem time_perform_congr (htime : site.time = other.time) (operation : Operation) :
    (site.perform verdict operation).1.time = (other.perform verdict operation).1.time := by
  rw [time_perform, time_perform]
  exact timeAfter_congr htime operation

theorem time_run_congr (htime : site.time = other.time) (operations : List Operation) :
    (site.run verdict operations).1.time = (other.run verdict operations).1.time := by
  induction operations generalizing site other with
  | nil => exact htime
  | cons operation more ih => exact ih (time_perform_congr htime operation)

theorem run_append_snd (verdict : Verdict) (site : Site) (operations more : List Operation) :
    (site.run verdict (operations ++ more)).2 =
      (site.run verdict operations).2 ++ ((site.run verdict operations).1.run verdict more).2 := by
  induction operations generalizing site with
  | nil => rfl
  | cons operation operations ih => exact congrArg (_ :: ·) (ih _)

/-! ## Some of the names -/

section Names

variable {keep : String → Bool}

/-- What becomes of the tasks under some names is settled by these tasks. -/
theorem only_scheduleAfter (htime : site.time = other.time)
    (honly : site.schedule.only keep = other.schedule.only keep) (operation : Operation) :
    (site.scheduleAfter operation).only keep = (other.scheduleAfter operation).only keep ∧
      runsOf keep (site.runsIn operation) = runsOf keep (other.runsIn operation) := by
  cases hpasses : operation.passes with
  | true =>
      have hspan (site : Site) := runUntil_only keep (site.timeAfter operation)
        (operation.arrival (site.timeAfter operation)) site.schedule
      simp only [runUntil_of_passes hpasses] at hspan
      have hsame := hspan site
      rw [honly, timeAfter_congr htime, hspan other, Prod.mk.injEq] at hsame
      exact ⟨hsame.2.symm, hsame.1.symm⟩
  | false =>
      cases operation with
      | startTask name key interval =>
          refine ⟨?_, rfl⟩
          change (Schedule.start _ _ _ _ _).only keep = (Schedule.start _ _ _ _ _).only keep
          rw [Schedule.start, Schedule.start, only_append, only_append, only_stop, only_stop, honly,
            htime]
      | stopTask name =>
          refine ⟨?_, rfl⟩
          change (stop _ _).only keep = (stop _ _).only keep
          rw [only_stop, only_stop, honly]
      | sleep _ | jump _ => cases hpasses
      | _ => exact ⟨honly, rfl⟩

/-- The runs under some names are settled by the tasks under these names. -/
theorem runsOver_congr (htime : site.time = other.time)
    (honly : site.schedule.only keep = other.schedule.only keep) (operations : List Operation) :
    runsOf keep (site.runsOver verdict operations) =
      runsOf keep (other.runsOver verdict operations) := by
  induction operations generalizing site other with
  | nil => rfl
  | cons operation more ih =>
      obtain ⟨hschedule, hruns⟩ := only_scheduleAfter htime honly operation
      rw [runsOver, runsOver, runsOf_append, runsOf_append, hruns]
      refine congrArg (_ ++ ·) (ih (time_perform_congr htime operation) ?_)
      rw [schedule_perform, schedule_perform, hschedule]

end Names

/-! ## One name -/

section Name

variable {task : Task} {name : String}

theorem only_scheduleAfter_of_not_passes (hpasses : operation.passes = false)
    (hother : operation.task? ≠ some name) :
    (site.scheduleAfter operation).only (· = name) = site.schedule.only (· = name) := by
  cases operation with
  | startTask started key interval =>
      exact only_start_of_ne (fun heq => hother (congrArg some heq)) _ _ _ _
  | stopTask stopped => exact only_stop_of_ne (fun heq => hother (congrArg some heq)) _
  | sleep _ | jump _ => cases hpasses
  | _ => rfl

/-- How late the runs in an operation may be: as late as the jump ends, and otherwise not at all. -/
def Operation.allows (operation : Operation) (due time : Nat) : Prop :=
  if operation.isJump then due ≤ time else due = time

theorem Operation.allows_arrival {due time : Nat} (hdue : due ≤ time) (operation : Operation) :
    operation.allows due (operation.arrival time due) := by
  unfold allows arrival
  split
  next => exact hdue
  next => rfl

/-- The only task under its name, which is due within an interval. -/
structure Tracks (site : Site) (task : Task) : Prop where
  only_eq : site.schedule.only (· = task.name) = [task]
  lt_due : site.time < task.due
  due_le : task.due ≤ site.time + task.interval

/-- A task that has just been started is the only one under its name. -/
theorem tracks_start (verdict : Verdict) (site : Site) (name key : String) (interval : Nat) :
    (site.perform verdict (.startTask name key interval)).1.Tracks
      (Task.start name key interval site.time) where
  only_eq := only_start_self name key interval site.time site.schedule
  lt_due := by
    have hinterval : 1000 ≤ max shortestInterval interval := Nat.le_max_left _ _
    change site.time < site.time + max shortestInterval interval
    omega
  due_le := Nat.le_refl _

/-- An operation that neither starts nor stops the only task under its name gets it on by its
runs. -/
theorem Tracks.perform (htracks : site.Tracks task) (hother : operation.task? ≠ some task.name)
    (verdict : Verdict) :
    ∃ times last, runsOf (· = task.name) (site.runsIn operation) = times.map task.runAt ∧
      task.Reaches operation.allows times last ∧
        (site.perform verdict operation).1.Tracks last := by
  cases hpasses : operation.passes with
  | false =>
      refine ⟨[], task, ?_, .nil task, ?_, ?_, ?_⟩
      · rw [runsIn_of_not_passes hpasses]
        rfl
      · rw [schedule_perform, only_scheduleAfter_of_not_passes hpasses hother]
        exact htracks.only_eq
      · rw [time_perform, timeAfter_of_not_passes hpasses]
        exact htracks.lt_due
      · rw [time_perform, timeAfter_of_not_passes hpasses]
        exact htracks.due_le
  | true =>
      -- The runs under the name are those of the task alone.
      obtain ⟨times, last, hruns, hreaches⟩ := runUntil_single_reaches
        (fun _ hdue => operation.allows_arrival hdue) task
      have honly := runUntil_only (· = task.name) (site.timeAfter operation)
        (operation.arrival (site.timeAfter operation)) site.schedule
      rw [runUntil_of_passes hpasses, htracks.only_eq, hruns, Prod.mk.injEq] at honly
      have hlater : ∀ other ∈ (runUntil (site.timeAfter operation)
          (operation.arrival (site.timeAfter operation)) [task]).2,
          site.timeAfter operation < other.due := lt_due_runUntil
      have hsoon := due_le_runUntil (le_timeAfter site operation)
        (fun _ hdue => operation.arrival_le hdue) (List.forall_mem_singleton.mpr htracks.due_le)
      rw [hruns, List.forall_mem_singleton] at hlater hsoon
      refine ⟨times, last, honly.1.symm, hreaches, ?_, ?_, ?_⟩
      · rw [schedule_perform, hreaches.same.1]
        exact honly.2.symm
      · rw [time_perform]
        exact hlater
      · rw [time_perform]
        exact hsoon

/-- From operation to operation the only task under its name gets on by its runs. -/
theorem Tracks.run {r : Nat → Nat → Prop} {operations : List Operation}
    (htracks : site.Tracks task)
    (hothers : ∀ operation ∈ operations, operation.task? ≠ some task.name)
    (hallows : ∀ operation ∈ operations, ∀ due time, operation.allows due time → r due time)
    (verdict : Verdict) :
    ∃ times last, runsOf (· = task.name) (site.runsOver verdict operations) =
        times.map task.runAt ∧
      task.Reaches r times last ∧ (site.run verdict operations).1.Tracks last := by
  induction operations generalizing site task with
  | nil => exact ⟨[], task, rfl, .nil task, htracks⟩
  | cons operation more ih =>
      obtain ⟨hother, hothers⟩ := List.forall_mem_cons.mp hothers
      obtain ⟨hallow, hallows⟩ := List.forall_mem_cons.mp hallows
      obtain ⟨times, middle, hruns, hreaches, hmiddle⟩ := htracks.perform hother verdict
      obtain ⟨hname, hkey, -⟩ := hreaches.same
      rw [← hname] at hothers
      obtain ⟨times', last, hruns', hreaches', hlast⟩ := ih hmiddle hothers hallows
      have hrunAt : middle.runAt = task.runAt := by
        funext time
        rw [Task.runAt, Task.runAt, hname, hkey]
      refine ⟨times ++ times', last, ?_, (hreaches.mono hallow).append hreaches', hlast⟩
      rw [runsOver, runsOf_append, List.map_append, hruns, ← hrunAt, ← hruns', hname]

end Name

end Entitlement.Site
