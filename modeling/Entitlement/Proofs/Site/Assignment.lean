import Entitlement.Proofs.Schedule
import Entitlement.Site.Basic

/-! # Keys under names

Keys are handed to the verdict and are not looked at otherwise. A site that is given keys does the
same as a site that is given names of these keys, with a verdict that looks up the key of each name.
-/

namespace Entitlement

open Custody

/-- A verdict on names, each of which stands for a key. -/
def Verdict.assigned (verdict : Verdict) (keys : String → String) : Verdict :=
  fun name now => verdict (keys name) now

/-! ## Schedules -/

namespace Schedule

variable {keys : String → String}

def Task.withKeys (keys : String → String) (task : Task) : Task :=
  { task with key := keys task.key }

def Run.withKeys (keys : String → String) (run : Run) : Run :=
  { run with key := keys run.key }

theorem takeFirst?_withKeys (schedule : Schedule) :
    takeFirst? (schedule.map (Task.withKeys keys)) =
      (takeFirst? schedule).map fun taken =>
        (taken.1.withKeys keys, taken.2.map (Task.withKeys keys)) := by
  induction schedule with
  | nil => rfl
  | cons task rest ih =>
      rw [List.map_cons, takeFirst?, takeFirst?, ih]
      cases takeFirst? rest with
      | none => rfl
      | some taken =>
          change (if taken.1.due < task.due then _ else _) =
            Option.map _ (if taken.1.due < task.due then _ else _)
          split <;> rfl

theorem takeDue?_withKeys (time : Nat) (schedule : Schedule) :
    takeDue? time (schedule.map (Task.withKeys keys)) =
      (takeDue? time schedule).map fun taken =>
        (taken.1.withKeys keys, taken.2.map (Task.withKeys keys)) := by
  rw [takeDue?, takeDue?, takeFirst?_withKeys]
  cases takeFirst? schedule with
  | none => rfl
  | some taken =>
      change (if taken.1.due ≤ time then _ else _) =
        Option.map _ (if taken.1.due ≤ time then _ else _)
      split <;> rfl

/-- When tasks run does not depend on their keys. -/
theorem runUntil_withKeys (time : Nat) (arrival : Nat → Nat) (schedule : Schedule) :
    runUntil time arrival (schedule.map (Task.withKeys keys)) =
      ((schedule.runUntil time arrival).1.map (Run.withKeys keys),
        (schedule.runUntil time arrival).2.map (Task.withKeys keys)) := by
  induction schedule using runUntil.induct time arrival with
  | case1 schedule hdue =>
      rw [runUntil_of_none hdue]
      apply runUntil_of_none
      rw [takeDue?_withKeys, hdue]
      rfl
  | case2 schedule task rest hdue run _ _ _ ih =>
      have htaken : takeDue? time (schedule.map (Task.withKeys keys)) =
          some (task.withKeys keys, rest.map (Task.withKeys keys)) := by
        rw [takeDue?_withKeys, hdue]
        rfl
      have hnext : rest.map (Task.withKeys keys) ++
          [(task.withKeys keys).next (arrival (task.withKeys keys).due)] =
          (rest ++ [task.next (arrival task.due)]).map (Task.withKeys keys) := by
        rw [List.map_append]
        rfl
      have hagain : runUntil time arrival
          ((rest ++ [task.next (arrival task.due)]).map (Task.withKeys keys)) = _ := ih
      rw [runUntil_of_some hdue, runUntil_of_some htaken, hnext, hagain]
      rfl

theorem stop_withKeys (name : String) (schedule : Schedule) :
    stop name (schedule.map (Task.withKeys keys)) =
      (schedule.stop name).map (Task.withKeys keys) := by
  rw [stop, stop, List.filter_map]
  rfl

theorem has_withKeys (name : String) (schedule : Schedule) :
    has name (schedule.map (Task.withKeys keys)) = schedule.has name := by
  rw [has, has, List.any_map]
  rfl

theorem start_withKeys (name key : String) (interval time : Nat) (schedule : Schedule) :
    start name (keys key) interval time (schedule.map (Task.withKeys keys)) =
      (schedule.start name key interval time).map (Task.withKeys keys) := by
  rw [start, start, stop_withKeys, List.map_append]
  rfl

end Schedule

/-! ## Custody -/

namespace Custody

variable {verdict : Verdict} {keys : String → String}

def Command.withKeys (keys : String → String) : Command → Command
  | .load key => .load (keys key)
  | command => command

theorem execute_withKeys (command : Command) (c : Custody) :
    c.execute verdict (command.withKeys keys) = c.execute (verdict.assigned keys) command := by
  cases command <;> rfl

theorem executeAll_withKeys (commands : List Command) (c : Custody) :
    c.executeAll verdict (commands.map (Command.withKeys keys)) =
      c.executeAll (verdict.assigned keys) commands := by
  induction commands generalizing c with
  | nil => rfl
  | cons command commands ih =>
      rw [List.map_cons, executeAll, executeAll, execute_withKeys]
      dsimp only
      rw [ih]

theorem revalidateDuring_withKeys (key : String) (commands : List Command) (c : Custody) :
    c.revalidateDuring verdict (keys key) (commands.map (Command.withKeys keys)) =
      c.revalidateDuring (verdict.assigned keys) key commands := by
  rw [revalidateDuring, revalidateDuring, executeAll_withKeys]
  rfl

end Custody

/-! ## Sites -/

namespace Site

variable {verdict : Verdict} {keys : String → String}

def Operation.withKeys (keys : String → String) : Operation → Operation
  | .command asked => .command (asked.withKeys keys)
  | .revalidate key commands => .revalidate (keys key) (commands.map (Command.withKeys keys))
  | .startTask task key interval => .startTask task (keys key) interval
  | operation => operation

def withKeys (keys : String → String) (site : Site) : Site :=
  { site with schedule := site.schedule.map (Schedule.Task.withKeys keys) }

theorem recheck_withKeys (runs : List Schedule.Run) (c : Custody) :
    recheck verdict (runs.map (Schedule.Run.withKeys keys)) c =
      recheck (verdict.assigned keys) runs c := by
  rw [recheck, recheck, List.foldl_map]
  rfl

theorem pass_withKeys (time : Nat) (arrival : Nat → Nat) (site : Site) :
    (site.withKeys keys).pass verdict time ((site.withKeys keys).schedule.runUntil time arrival) =
      (site.pass (verdict.assigned keys) time
        (site.schedule.runUntil time arrival)).withKeys keys := by
  unfold pass
  rw [withKeys, Schedule.runUntil_withKeys, recheck_withKeys]
  rfl

theorem perform_withKeys (operation : Operation) (site : Site) :
    (site.withKeys keys).perform verdict (operation.withKeys keys) =
      ((site.perform (verdict.assigned keys) operation).1.withKeys keys,
        (site.perform (verdict.assigned keys) operation).2) := by
  cases operation with
  | command command =>
      unfold perform Operation.withKeys
      dsimp only
      rw [execute_withKeys]
      rfl
  | revalidate key commands =>
      unfold perform Operation.withKeys
      dsimp only
      rw [revalidateDuring_withKeys]
      rfl
  | startTask name key interval =>
      unfold perform Operation.withKeys
      dsimp only
      rw [withKeys, Schedule.start_withKeys]
      rfl
  | stopTask name =>
      unfold perform Operation.withKeys
      dsimp only
      rw [withKeys, Schedule.stop_withKeys, Schedule.has_withKeys]
      dsimp only
      split <;> rfl
  | sleep duration =>
      exact congrArg (·, Outcome.done) (pass_withKeys (site.time + duration) (fun due => due) site)
  | jump duration =>
      exact congrArg (·, Outcome.done)
        (pass_withKeys (site.time + duration) (fun _ => site.time + duration) site)
  | drain _ | request _ _ | readFeed _ | metered _ _ =>
      unfold perform Operation.withKeys
      dsimp only [withKeys]
      split <;> rfl
  | _ => rfl

/-- A site that is given keys does what it does with their names, and keeps keys where it would keep
names. -/
theorem run_withKeys (operations : List Operation) (site : Site) :
    (site.withKeys keys).run verdict (operations.map (Operation.withKeys keys)) =
      ((site.run (verdict.assigned keys) operations).1.withKeys keys,
        (site.run (verdict.assigned keys) operations).2) := by
  induction operations generalizing site with
  | nil => rfl
  | cons operation operations ih =>
      rw [List.map_cons, run, run, perform_withKeys]
      dsimp only
      rw [ih]

end Site

end Entitlement
