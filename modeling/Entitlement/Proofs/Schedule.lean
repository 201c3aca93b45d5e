import Entitlement.Schedule

/-! # The tasks of a schedule

Runs take the keys of their tasks as they are, and a task keeps its key from one run to the next.
What holds of the keys of all tasks at the start of a span therefore holds of every run within the
span and of the tasks at its end. A span ends when no task is due any longer, so a task that comes
due within the span has run by its end.
-/

namespace Entitlement.Schedule

theorem takeDue?_perm {time : Nat} {schedule rest : Schedule} {task : Task}
    (hdue : takeDue? time schedule = some (task, rest)) : schedule.Perm (task :: rest) := by
  unfold takeDue? at hdue
  split at hdue
  next => cases hdue
  next first others hfirst =>
    split at hdue
    next =>
      cases hdue
      exact takeFirst?_perm hfirst
    next => cases hdue

theorem due_le_of_takeDue? {time : Nat} {schedule rest : Schedule} {task : Task}
    (hdue : takeDue? time schedule = some (task, rest)) : task.due ≤ time := by
  unfold takeDue? at hdue
  split at hdue
  next => cases hdue
  next =>
    split at hdue
    next hle =>
      cases hdue
      exact hle
    next => cases hdue

/-- No task is due before the one that is taken out first. -/
theorem due_le_of_takeFirst? {schedule rest : Schedule} {first : Task}
    (hfirst : takeFirst? schedule = some (first, rest)) :
    ∀ task ∈ schedule, first.due ≤ task.due := by
  induction schedule generalizing first rest with
  | nil => cases hfirst
  | cons head more ih =>
      unfold takeFirst? at hfirst
      intro task htask
      split at hfirst
      next hnone =>
        cases hfirst
        rw [eq_nil_of_takeFirst? hnone] at htask
        cases List.mem_singleton.mp htask
        exact Nat.le_refl _
      next earliest others hmore =>
        have hearliest := ih hmore
        split at hfirst
        next hlt =>
          cases hfirst
          rcases List.mem_cons.mp htask with rfl | hin
          · exact Nat.le_of_lt hlt
          · exact hearliest task hin
        next hge =>
          cases hfirst
          rcases List.mem_cons.mp htask with rfl | hin
          · exact Nat.le_refl _
          · exact Nat.le_trans (Nat.le_of_not_lt hge) (hearliest task hin)

theorem lt_due_of_takeDue?_eq_none {time : Nat} {schedule : Schedule}
    (hnone : takeDue? time schedule = none) : ∀ task ∈ schedule, time < task.due := by
  intro task htask
  unfold takeDue? at hnone
  split at hnone
  next hempty =>
    rw [eq_nil_of_takeFirst? hempty] at htask
    exact absurd htask List.not_mem_nil
  next first rest hfirst =>
    split at hnone
    next => cases hnone
    next hlate =>
      exact Nat.lt_of_lt_of_le (Nat.lt_of_not_le hlate) (due_le_of_takeFirst? hfirst task htask)

theorem runUntil_of_none {time : Nat} {arrival : Nat → Nat} {schedule : Schedule}
    (hdue : takeDue? time schedule = none) :
    schedule.runUntil time arrival = ([], schedule) := by
  rw [runUntil]
  split
  next => rfl
  next hsome => cases hdue.symm.trans hsome

/-- The task that is due first runs first, and is scheduled again behind the others. -/
theorem runUntil_of_some {time : Nat} {arrival : Nat → Nat} {schedule rest : Schedule} {task : Task}
    (hdue : takeDue? time schedule = some (task, rest)) :
    schedule.runUntil time arrival =
      (⟨task.name, task.key, arrival task.due⟩ ::
          (runUntil time arrival (rest ++ [task.next (arrival task.due)])).1,
        (runUntil time arrival (rest ++ [task.next (arrival task.due)])).2) := by
  rw [runUntil]
  split
  next hnone => cases hdue.symm.trans hnone
  next hsome =>
    cases hdue.symm.trans hsome
    rfl

section Runs

variable {time : Nat} {arrival : Nat → Nat} {schedule : Schedule}

/-- What every run hands on to the next holds of all tasks in the end, and what every run brings
about holds of all runs. -/
theorem forall_runUntil {p : Task → Prop} {q : Run → Prop}
    (hrun : ∀ task, p task → task.due ≤ time →
      q ⟨task.name, task.key, arrival task.due⟩ ∧ p (task.next (arrival task.due)))
    (htasks : ∀ task ∈ schedule, p task) :
    (∀ run ∈ (schedule.runUntil time arrival).1, q run) ∧
      ∀ task ∈ (schedule.runUntil time arrival).2, p task := by
  induction schedule using runUntil.induct time arrival with
  | case1 schedule hdue =>
      rw [runUntil_of_none hdue]
      exact ⟨fun run hrun => absurd hrun List.not_mem_nil, htasks⟩
  | case2 schedule task rest hdue run _ _ _ ih =>
      rw [runUntil_of_some hdue]
      have hperm := takeDue?_perm hdue
      have htask : p task := htasks task (hperm.mem_iff.mpr List.mem_cons_self)
      obtain ⟨hnow, hnext⟩ := hrun task htask (due_le_of_takeDue? hdue)
      obtain ⟨hruns, hlast⟩ := ih (by
        intro other hother
        rcases List.mem_append.mp hother with hrest | hagain
        · exact htasks other (hperm.mem_iff.mpr (List.mem_cons_of_mem _ hrest))
        · rw [List.mem_singleton.mp hagain]
          exact hnext)
      exact ⟨List.forall_mem_cons.mpr ⟨hnow, hruns⟩, hlast⟩

/-- What holds of the key of every task holds of the key of every run and of every task that is
left. -/
theorem key_runUntil {p : String → Prop} (hkeys : ∀ task ∈ schedule, p task.key) :
    (∀ run ∈ (schedule.runUntil time arrival).1, p run.key) ∧
      ∀ task ∈ (schedule.runUntil time arrival).2, p task.key :=
  forall_runUntil (fun _ hkey _ => ⟨hkey, hkey⟩) hkeys

/-- At the end of a span no task is due. -/
theorem lt_due_runUntil : ∀ task ∈ (schedule.runUntil time arrival).2, time < task.due := by
  induction schedule using runUntil.induct time arrival with
  | case1 schedule hdue =>
      rw [runUntil_of_none hdue]
      exact lt_due_of_takeDue?_eq_none hdue
  | case2 schedule task rest hdue run _ _ _ ih =>
      rw [runUntil_of_some hdue]
      exact ih

theorem length_runUntil : (schedule.runUntil time arrival).2.length = schedule.length := by
  induction schedule using runUntil.induct time arrival with
  | case1 schedule hdue => rw [runUntil_of_none hdue]
  | case2 schedule task rest hdue run _ _ _ ih =>
      rw [runUntil_of_some hdue]
      refine ih.trans ?_
      rw [(takeDue?_perm hdue).length_eq, List.length_append]
      rfl

/-- Unless all tasks are due later, some task runs. -/
theorem runs_ne_nil_of_due {task : Task} (htask : task ∈ schedule) (hdue : task.due ≤ time) :
    (schedule.runUntil time arrival).1 ≠ [] := by
  cases htaken : takeDue? time schedule with
  | none => exact absurd hdue (Nat.not_le_of_lt (lt_due_of_takeDue?_eq_none htaken task htask))
  | some taken =>
      rw [runUntil_of_some htaken]
      exact List.cons_ne_nil _ _

/-- If all tasks are due later, nothing happens. -/
theorem runUntil_of_lt (hlater : ∀ task ∈ schedule, time < task.due) :
    schedule.runUntil time arrival = ([], schedule) := by
  cases htaken : takeDue? time schedule with
  | none => exact runUntil_of_none htaken
  | some taken =>
      have hin := (takeDue?_perm htaken).mem_iff.mpr List.mem_cons_self
      exact absurd (due_le_of_takeDue? htaken) (Nat.not_le_of_lt (hlater _ hin))

theorem runUntil_nil (time : Nat) (arrival : Nat → Nat) : runUntil time arrival [] = ([], []) :=
  runUntil_of_lt fun _ hnil => absurd hnil List.not_mem_nil

/-- A task that is due at most one interval after the start of a span is due at most one interval
after its end, if no run comes later than that. -/
theorem due_le_runUntil {start : Nat} (hstart : start ≤ time)
    (harrival : ∀ due, due ≤ time → arrival due ≤ time)
    (hdue : ∀ task ∈ schedule, task.due ≤ start + task.interval) :
    ∀ task ∈ (schedule.runUntil time arrival).2, task.due ≤ time + task.interval := by
  refine (forall_runUntil (q := fun _ => True) ?_ ?_).2
  · intro task _ hle
    have hcame := harrival task.due hle
    refine ⟨trivial, ?_⟩
    unfold Task.next
    dsimp only
    split <;> omega
  · intro task htask
    have hsoon := hdue task htask
    omega

/-- A single task stays the single one, with its name, key and interval. -/
theorem runUntil_single (task : Task) :
    ∃ last, (runUntil time arrival [task]).2 = [last] ∧
      last.name = task.name ∧ last.key = task.key ∧ last.interval = task.interval := by
  have hsame : ∀ other ∈ (runUntil time arrival [task]).2,
      other.name = task.name ∧ other.key = task.key ∧ other.interval = task.interval :=
    (forall_runUntil (q := fun _ => True) (fun _ hother _ => ⟨trivial, hother⟩)
      (List.forall_mem_singleton.mpr ⟨rfl, rfl, rfl⟩)).2
  have hlength : (runUntil time arrival [task]).2.length = 1 := length_runUntil
  obtain ⟨last, hlast⟩ := List.length_eq_one_iff.mp hlength
  rw [hlast] at hsame ⊢
  exact ⟨last, rfl, hsame last List.mem_cons_self⟩

end Runs

theorem stop_of_not_has {schedule : Schedule} {name : String}
    (hnone : ¬ schedule.has name = true) : schedule.stop name = schedule := by
  apply List.filter_eq_self.mpr
  intro task htask
  apply decide_eq_true
  intro hname
  exact hnone (List.any_eq_true.mpr ⟨task, htask, beq_iff_eq.mpr hname⟩)

end Entitlement.Schedule
