import Entitlement.Proofs.Key.Issue
import Entitlement.Proofs.Site.Runs

/-! # Runs keep to their interval

However the clock of the schedule moves, a task that has been started runs for the first time after
a full interval and then never much sooner than an interval after the run before. Nothing is lost
for good: at every moment the task is due within an interval. The interval is the one asked for,
raised to a second.
-/

namespace Entitlement.Site

open Custody Grant Schedule Signature

variable {verdict : Verdict} {site : Site}

/-- A jump makes the only task under its name run once at most, at its end. -/
theorem Tracks.runsIn_jump {task : Task} (htracks : site.Tracks task) (duration : Nat) :
    runsOf (· = task.name) (site.runsIn (.jump duration)) =
      if task.due ≤ site.time + duration then [task.runAt (site.time + duration)] else [] := by
  have honly := runUntil_only (· = task.name) (site.time + duration)
    (fun _ => site.time + duration) site.schedule
  rw [htracks.only_eq] at honly
  rw [← jump_single]
  exact (congrArg Prod.fst honly).symm

theorem runAt_injective (task : Task) : Function.Injective task.runAt :=
  fun _ _ heq => congrArg Run.time heq

/-- Without jumps the only task under its name has run at each multiple of its interval. -/
theorem Tracks.run_without_jumps {task : Task} {operations : List Operation}
    (htracks : site.Tracks task)
    (hothers : ∀ operation ∈ operations, operation.task? ≠ some task.name)
    (hjumps : ∀ operation ∈ operations, operation.isJump = false) (verdict : Verdict)
    {start : Nat} (hstart : task.due = start + task.interval) :
    runsOf (· = task.name) (site.runsOver verdict operations) =
      ((List.range (((site.run verdict operations).1.time - start) / task.interval)).map fun j =>
        start + (j + 1) * task.interval).map task.runAt := by
  have hallows : ∀ operation ∈ operations, ∀ due time, operation.allows due time → due = time := by
    intro operation hoperation due time hallowed
    rwa [Operation.allows, hjumps operation hoperation, if_neg Bool.false_ne_true] at hallowed
  obtain ⟨times, last, hruns, hreaches, hlast⟩ := htracks.run hothers hallows verdict
  obtain ⟨htimes, hdue⟩ := hreaches.eq_range
  have hlater := hlast.lt_due
  have hsoon := hlast.due_le
  rw [hreaches.same.2.2, hdue, hstart] at hsoon
  rw [hdue, hstart] at hlater
  -- The number of runs is settled by the moment that lies before the next one.
  have hcount : ((site.run verdict operations).1.time - start) / task.interval = times.length := by
    apply Nat.div_eq_of_lt_le
    · omega
    · rw [Nat.succ_mul]
      omega
  rw [hruns, hcount]
  conv_lhs => rw [htimes, hstart]
  congr 1
  apply List.map_congr_left
  intro j _
  rw [Nat.succ_mul]
  omega

/-- The runs of a task from when it is started to some later moment, whatever is done in between but
to start or stop a task of that name: however the clock of the schedule moves, with the license
clock, other tasks and all else. The first run is no sooner than an interval after the start, and no
two runs are closer than an interval less the tolerance. Without jumps the task runs at each
multiple of the interval. At the moment, whenever that is, the task is due later, but within an
interval; when it is due depends on nothing but the times of its runs, each of which has put it off
by one interval; and a jump from there makes it run once if it comes due, however often it would
have been due on the way. While time passes the runs are all that happens to the license. -/
theorem runs_keep_interval (verdict : Verdict) (site : Site) (name key : String) (interval : Nat)
    (more : List Operation) (hmore : ∀ operation ∈ more, operation.task? ≠ some name) :
    let pause := max 1000 interval
    let started := (site.perform verdict (.startTask name key interval)).1
    let now := (started.run verdict more).1
    ∃ times : List Nat,
      runsOf (· = name) (started.runsOver verdict more) =
        times.map (fun time => ⟨name, key, time⟩) ∧
      (∀ time ∈ times, site.time + pause ≤ time) ∧
      (times.Pairwise fun earlier later => earlier + pause ≤ later + 5) ∧
      ((∀ operation ∈ more, operation.isJump = false) →
        times = (List.range ((now.time - site.time) / pause)).map fun j =>
          site.time + (j + 1) * pause) ∧
      ∃ task, now.schedule.only (· = name) = [task] ∧ task.key = key ∧ task.interval = pause ∧
        now.time < task.due ∧ task.due ≤ now.time + pause ∧
        task.due = times.foldl
          (fun due time => if due + 5 < time then time + pause else due + pause)
          (site.time + pause) ∧
        (∀ duration, runsOf (· = name) (now.runsIn (.jump duration)) =
          if task.due ≤ now.time + duration then [⟨name, key, now.time + duration⟩] else []) ∧
        ∀ operation : Operation, operation.passes = true →
          (now.perform verdict operation).1.custody =
            recheck verdict (now.runsIn operation) now.custody := by
  intro pause started now
  have htracks : started.Tracks (Task.start name key interval site.time) :=
    tracks_start verdict site name key interval
  have hallows : ∀ operation ∈ more, ∀ due time, operation.allows due time → due ≤ time := by
    intro operation _ due time hallowed
    unfold Operation.allows at hallowed
    split at hallowed
    next => exact hallowed
    next => exact Nat.le_of_eq hallowed
  obtain ⟨times, last, hruns, hreaches, hlast⟩ := htracks.run hmore hallows verdict
  obtain ⟨hname, hkey, hinterval⟩ := hreaches.same
  have honly : now.schedule.only (· = name) = [last] := by
    have honly := hlast.only_eq
    rwa [hname] at honly
  refine ⟨times, hruns, hreaches.due_le_of_mem, hreaches.pairwise, fun hjumps => ?_, last, honly,
    hkey, hinterval, hlast.lt_due, ?_, hreaches.due_eq_foldl, fun duration => ?_,
    fun _ hpasses => custody_of_passes hpasses⟩
  · have hsleeps := htracks.run_without_jumps hmore hjumps verdict rfl
    exact (runAt_injective _).list_map (hruns.symm.trans hsleeps)
  · have hsoon := hlast.due_le
    rwa [hinterval] at hsoon
  · have hjump := hlast.runsIn_jump duration
    rwa [hname, Task.runAt, hname, hkey] at hjump

/-- A task that is started with no interval at all runs every second, and a jump of a hundred
seconds makes it run once. -/
theorem runs_keep_interval_sample :
    ∃ verdict started more, verdict = Key.verify Ed25519.scheme Key.sampleTrusted ∧
      started = ((Site.start License.epoch).perform verdict (.startTask "nightly" "key" 0)).1 ∧
      more = [.sleep 2500, .startTask "hourly" "key" 3600000, .sleep 700] ∧
      runsOf (· = "nightly") (started.runsOver verdict more) =
        [⟨"nightly", "key", 1000⟩, ⟨"nightly", "key", 2000⟩, ⟨"nightly", "key", 3000⟩] ∧
      runsOf (· = "nightly") ((started.run verdict more).1.runsIn (.jump 100000)) =
        [⟨"nightly", "key", 103200⟩] := by
  refine ⟨_, _, _, rfl, rfl, rfl, ?_⟩
  let started := ((Site.start License.epoch).perform (Key.verify Ed25519.scheme Key.sampleTrusted)
    (.startTask "nightly" "key" 0)).1
  have htime : (started.run (Key.verify Ed25519.scheme Key.sampleTrusted)
      [.sleep 2500, .startTask "hourly" "key" 3600000, .sleep 700]).1.time = 3200 := rfl
  obtain ⟨times, hruns, -, -, hsleeps, task, -, -, -, -, -, hdue, hjump, -⟩ :=
    runs_keep_interval (Key.verify Ed25519.scheme Key.sampleTrusted) (Site.start License.epoch)
      "nightly" "key" 0 [.sleep 2500, .startTask "hourly" "key" 3600000, .sleep 700]
      (by decide)
  have htimes := hsleeps (by decide)
  rw [htime] at htimes hjump
  obtain rfl : times = [1000, 2000, 3000] := htimes.trans (by decide)
  have hnext : task.due = 4000 := by
    rw [hdue]
    decide
  exact ⟨hruns, (hjump 100000).trans (if_pos (hnext ▸ by decide))⟩

end Entitlement.Site
