/-! # Schedules

A schedule holds tasks that check a license key again and again, one interval after the other. Times
are milliseconds of a clock of their own, which has nothing to do with the clock that licenses are
judged by. When that clock moves through a span of time every task runs at each of its due times;
when it jumps over a span a task runs once, late. A task that runs late by more than the tolerance
is next due a full interval after it ran, so that runs never bunch up. The clock has no end, so
every interval has a next due time, also one near 2^63 seconds, with which clocks of machines
overflow.
-/

namespace Entitlement

namespace Schedule

/-- The shortest interval between two runs of a task; shorter ones are raised to it. -/
def shortestInterval : Nat := 1000

/-- How late a task may run without any change to its further due times. -/
def tolerance : Nat := 5

/-- A task that checks a key, and when it does so next. -/
structure Task where
  name : String
  key : String
  interval : Nat
  due : Nat
  interval_ge : shortestInterval ≤ interval

/-- A run of a task. -/
structure Run where
  name : String
  key : String
  time : Nat
  deriving DecidableEq

/-- A task that starts at some time. Its first run is one interval later. -/
def Task.start (name key : String) (interval time : Nat) : Task where
  name := name
  key := key
  interval := max shortestInterval interval
  due := time + max shortestInterval interval
  interval_ge := Nat.le_max_left _ _

/-- A task after it has run at some time. -/
def Task.next (task : Task) (time : Nat) : Task :=
  { task with
    due :=
      if task.due + tolerance < time then time + task.interval else task.due + task.interval }

theorem Task.due_lt_next (task : Task) (time : Nat) : task.due < (task.next time).due := by
  have hinterval : 1000 ≤ task.interval := task.interval_ge
  unfold Task.next
  dsimp only
  split <;> omega

end Schedule

/-- Tasks in the order in which their next runs were scheduled. -/
abbrev Schedule := List Schedule.Task

namespace Schedule

/-- Takes out the task that is due first; of several the one that was scheduled first. -/
def takeFirst? : Schedule → Option (Task × Schedule)
  | [] => none
  | task :: rest =>
    match takeFirst? rest with
    | none => some (task, [])
    | some (first, others) =>
      if first.due < task.due then some (first, task :: others) else some (task, rest)

theorem eq_nil_of_takeFirst? {schedule : Schedule} (hnone : takeFirst? schedule = none) :
    schedule = [] := by
  cases schedule with
  | nil => rfl
  | cons task rest =>
      unfold takeFirst? at hnone
      split at hnone
      next => cases hnone
      next => split at hnone <;> cases hnone

theorem takeFirst?_perm {schedule rest : Schedule} {first : Task}
    (h : takeFirst? schedule = some (first, rest)) : schedule.Perm (first :: rest) := by
  induction schedule generalizing first rest with
  | nil => simp [takeFirst?] at h
  | cons task more ih =>
    unfold takeFirst? at h
    split at h
    next hmore =>
      cases h
      rw [eq_nil_of_takeFirst? hmore]
    next first' others hmore =>
      split at h
      · simp only [Option.some.injEq, Prod.mk.injEq] at h
        obtain ⟨rfl, rfl⟩ := h
        exact ((ih hmore).cons task).trans (List.Perm.swap _ _ _)
      · simp only [Option.some.injEq, Prod.mk.injEq] at h
        obtain ⟨rfl, rfl⟩ := h
        exact List.Perm.refl _

/-- Takes out the task that is due first, if it is due by some time. -/
def takeDue? (time : Nat) (schedule : Schedule) : Option (Task × Schedule) :=
  match takeFirst? schedule with
  | none => none
  | some (first, rest) => if first.due ≤ time then some (first, rest) else none

/-- How far the due times of a schedule lie before the end of a span, all together. -/
def backlog (time : Nat) : Schedule → Nat
  | [] => 0
  | task :: rest => (time + 1 - task.due) + backlog time rest

theorem backlog_append (time : Nat) (a b : Schedule) :
    backlog time (a ++ b) = backlog time a + backlog time b := by
  induction a with
  | nil => simp [backlog]
  | cons task rest ih =>
    simp only [List.cons_append, backlog, ih]
    omega

theorem backlog_perm (time : Nat) {a b : Schedule} (h : a.Perm b) :
    backlog time a = backlog time b := by
  induction h with
  | nil => rfl
  | cons task _ ih => simp only [backlog, ih]
  | swap first second rest =>
    simp only [backlog]
    omega
  | trans _ _ ih₁ ih₂ => exact ih₁.trans ih₂

theorem backlog_lt {time : Nat} {schedule rest : Schedule} {first : Task}
    (h : takeDue? time schedule = some (first, rest)) (arrival : Nat) :
    backlog time (rest ++ [first.next arrival]) < backlog time schedule := by
  unfold takeDue? at h
  split at h
  · simp at h
  next first' rest' hfirst =>
    split at h
    next hdue =>
      simp only [Option.some.injEq, Prod.mk.injEq] at h
      obtain ⟨rfl, rfl⟩ := h
      have hsum := backlog_perm time (takeFirst?_perm hfirst)
      have hnext := first'.due_lt_next arrival
      simp only [backlog_append, backlog] at hsum ⊢
      omega
    · simp at h

/-- Runs every task that is due by some time, earliest first, where a run that is due at some time
takes place at its arrival. -/
def runUntil (time : Nat) (arrival : Nat → Nat) (schedule : Schedule) : List Run × Schedule :=
  match _h : takeDue? time schedule with
  | none => ([], schedule)
  | some (task, rest) =>
    let run : Run := ⟨task.name, task.key, arrival task.due⟩
    let (runs, last) := runUntil time arrival (rest ++ [task.next run.time])
    (run :: runs, last)
termination_by backlog time schedule
decreasing_by exact backlog_lt _h _

/-- Lets the time pass to the end of a span: every run takes place when it is due. -/
def sleep (time : Nat) (schedule : Schedule) : List Run × Schedule :=
  schedule.runUntil time fun due => due

/-- Moves the time to the end of a span at once: every run takes place at the end. -/
def jump (time : Nat) (schedule : Schedule) : List Run × Schedule :=
  schedule.runUntil time fun _ => time

/-- Takes out the task of some name. -/
def stop (name : String) (schedule : Schedule) : Schedule :=
  schedule.filter fun task => task.name ≠ name

/-- Whether there is a task of some name. -/
def has (name : String) (schedule : Schedule) : Bool :=
  schedule.any fun task => task.name == name

/-- Starts a task, in place of any task of the same name. -/
def start (name key : String) (interval time : Nat) (schedule : Schedule) : Schedule :=
  schedule.stop name ++ [Task.start name key interval time]

end Schedule

end Entitlement
