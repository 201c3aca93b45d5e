import Entitlement.Proofs.Schedule.Independence

/-! # The times between runs

A task goes from run to run, and each run puts it off by an interval: from the time it was due, or
from the time it ran if that was too late. So two runs are never much closer than an interval,
however late they are, and runs that are never late follow each other at the interval exactly.
-/

namespace Entitlement.Schedule

namespace Task

variable {task last : Task} {times : List Nat} {time : Nat} {r : Nat → Nat → Prop}

@[simp] theorem interval_next (task : Task) (time : Nat) :
    (task.next time).interval = task.interval :=
  rfl

/-- A run puts the task off by an interval from when it ran, give or take the tolerance. -/
theorem add_interval_le_next (task : Task) (time : Nat) :
    time + task.interval ≤ (task.next time).due + tolerance := by
  unfold next
  dsimp only
  split <;> omega

theorem due_add_interval_le_next (task : Task) (time : Nat) :
    task.due + task.interval ≤ (task.next time).due := by
  unfold next
  dsimp only
  split <;> omega

theorem due_next_of_eq (task : Task) : (task.next task.due).due = task.due + task.interval :=
  if_neg (by omega)

/-! ## From run to run -/

/-- A task gets from one state to another by runs at some times. How late a run may be is left
open. -/
inductive Reaches (r : Nat → Nat → Prop) : Task → List Nat → Task → Prop where
  | nil (task : Task) : Reaches r task [] task
  | cons {task last : Task} {time : Nat} {times : List Nat} (hrun : r task.due time)
      (hmore : Reaches r (task.next time) times last) : Reaches r task (time :: times) last

namespace Reaches

theorem append {middle : Task} {more : List Nat} (hfirst : Reaches r task times middle)
    (hmore : Reaches r middle more last) : Reaches r task (times ++ more) last := by
  induction hfirst with
  | nil => exact hmore
  | cons hrun _ ih => exact .cons hrun (ih hmore)

theorem mono {r' : Nat → Nat → Prop} (hweaker : ∀ due time, r due time → r' due time)
    (hreaches : Reaches r task times last) : Reaches r' task times last := by
  induction hreaches with
  | nil => exact .nil _
  | cons hrun _ ih => exact .cons (hweaker _ _ hrun) ih

/-- When the task is due next depends on the times of its runs alone. -/
theorem due_eq_foldl (hreaches : Reaches r task times last) :
    last.due = times.foldl
      (fun due time =>
        if due + tolerance < time then time + task.interval else due + task.interval) task.due := by
  induction hreaches with
  | nil => rfl
  | cons _ _ ih => exact ih

theorem same (hreaches : Reaches r task times last) :
    last.name = task.name ∧ last.key = task.key ∧ last.interval = task.interval := by
  induction hreaches with
  | nil => exact ⟨rfl, rfl, rfl⟩
  | cons _ _ ih => exact ih

theorem due_le (hreaches : Reaches r task times last) : task.due ≤ last.due := by
  induction hreaches with
  | nil => exact Nat.le_refl _
  | cons _ _ ih => exact Nat.le_trans (Nat.le_of_lt (due_lt_next _ _)) ih

/-- A task that is due within an interval of when it was due before has not run in between. -/
theorem eq_nil_of_lt (hreaches : Reaches r task times last)
    (hsoon : last.due < task.due + task.interval) : times = [] := by
  cases hreaches with
  | nil => rfl
  | @cons _ _ time times _ hmore =>
      have hnext := due_add_interval_le_next task time
      exact absurd hmore.due_le (Nat.not_le_of_lt (Nat.lt_of_lt_of_le hsoon hnext))

/-- No run is before the first due time. -/
theorem due_le_of_mem (hreaches : Reaches (· ≤ ·) task times last) :
    ∀ time ∈ times, task.due ≤ time := by
  induction hreaches with
  | nil => exact fun time htime => absurd htime List.not_mem_nil
  | cons hrun _ ih =>
      refine List.forall_mem_cons.mpr ⟨hrun, fun time htime => ?_⟩
      exact Nat.le_trans (Nat.le_of_lt (due_lt_next _ _)) (ih time htime)

/-- Between any two runs there is an interval, give or take the tolerance. -/
theorem pairwise (hreaches : Reaches (· ≤ ·) task times last) :
    times.Pairwise fun earlier later => earlier + task.interval ≤ later + tolerance := by
  induction hreaches with
  | nil => exact .nil
  | @cons task last time times hrun hmore ih =>
      refine .cons (fun later hlater => ?_) ih
      exact Nat.le_trans (add_interval_le_next task time)
        (Nat.add_le_add_right (hmore.due_le_of_mem later hlater) _)

/-- Runs that are never late follow each other at the interval. -/
theorem eq_range (hreaches : Reaches (· = ·) task times last) :
    times = (List.range times.length).map (fun j => task.due + j * task.interval) ∧
      last.due = task.due + times.length * task.interval := by
  induction hreaches with
  | nil => simp
  | @cons task last time times hrun _ ih =>
      subst hrun
      obtain ⟨htimes, hdue⟩ := ih
      simp only [due_next_of_eq, interval_next] at htimes hdue
      have hshift : ∀ j, task.due + task.interval + j * task.interval =
          task.due + (j + 1) * task.interval := by
        intro j
        rw [Nat.succ_mul]
        omega
      simp only [hshift] at htimes hdue
      refine ⟨?_, hdue⟩
      rw [List.length_cons, List.range_succ_eq_map, List.map_cons, List.map_map, Nat.zero_mul]
      exact congrArg (task.due :: ·) htimes

end Reaches

end Task

/-! ## A single task -/

section Single

variable {time : Nat} {arrival : Nat → Nat} {r : Nat → Nat → Prop}

theorem takeDue?_single {task : Task} (hdue : task.due ≤ time) :
    takeDue? time [task] = some (task, []) :=
  takeDue?_eq_some_iff.mpr
    ⟨takeFirst?_cons_of_le fun _ hnil => absurd hnil List.not_mem_nil, hdue⟩

/-- The run of a task at some time. -/
def Task.runAt (task : Task) (time : Nat) : Run :=
  ⟨task.name, task.key, time⟩

/-- While time passes a single task gets on by its runs. -/
theorem runUntil_single_reaches (harrival : ∀ due ≤ time, r due (arrival due)) (task : Task) :
    ∃ times last, runUntil time arrival [task] = (times.map task.runAt, [last]) ∧
      task.Reaches r times last := by
  generalize hsingle : [task] = schedule
  induction schedule using runUntil.induct time arrival generalizing task with
  | case1 schedule hdue =>
      subst hsingle
      exact ⟨[], task, runUntil_of_none hdue, .nil task⟩
  | case2 schedule taken rest hdue run _ _ _ ih =>
      subst hsingle
      obtain ⟨rfl, rfl⟩ := List.cons.inj (List.perm_singleton.mp (takeDue?_perm hdue).symm)
      obtain ⟨times, last, hmore, hreaches⟩ := ih (taken.next (arrival taken.due)) rfl
      refine ⟨arrival taken.due :: times, last, ?_,
        .cons (harrival _ (due_le_of_takeDue? hdue)) hreaches⟩
      rw [runUntil_of_some hdue, hmore]
      rfl

/-- In a jump a task runs once at most, at its end. -/
theorem jump_single (time : Nat) (task : Task) :
    (jump time [task]).1 = if task.due ≤ time then [task.runAt time] else [] := by
  unfold jump
  split
  next hdue =>
    have hlater : time < (task.next time).due := by
      have hinterval : 1000 ≤ task.interval := task.interval_ge
      have htolerance : tolerance = 5 := rfl
      unfold Task.next
      dsimp only
      split <;> omega
    rw [runUntil_of_some (takeDue?_single hdue), List.nil_append,
      runUntil_of_lt (List.forall_mem_singleton.mpr hlater)]
    rfl
  next hdue =>
    rw [runUntil_of_lt (List.forall_mem_singleton.mpr (Nat.lt_of_not_le hdue))]

end Single

end Entitlement.Schedule
