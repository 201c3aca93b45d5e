import Entitlement.Proofs.Schedule

/-! # Tasks do not wait for each other

The task that is due first stands between tasks that are due later, and taking it out leaves these
as they were. So the runs of some of the tasks are the same whether the others are there or not:
when a task runs is a matter of that task alone, and stopping it is a matter for nobody else.
-/

namespace Entitlement.Schedule

variable {time : Nat} {schedule rest : Schedule} {first task : Task}

/-! ## Taking out the first -/

/-- The task taken out is due before those in front of it, and no later than those behind it. -/
theorem exists_split_of_takeFirst? (hfirst : takeFirst? schedule = some (first, rest)) :
    ∃ front back, schedule = front ++ first :: back ∧ rest = front ++ back ∧
      (∀ task ∈ front, first.due < task.due) ∧ ∀ task ∈ back, first.due ≤ task.due := by
  induction schedule generalizing first rest with
  | nil => cases hfirst
  | cons head more ih =>
      have hleast := due_le_of_takeFirst? hfirst
      unfold takeFirst? at hfirst
      split at hfirst
      next hnone =>
        cases hfirst
        rw [eq_nil_of_takeFirst? hnone]
        exact ⟨[], [], rfl, rfl, fun _ hnil => absurd hnil List.not_mem_nil,
          fun _ hnil => absurd hnil List.not_mem_nil⟩
      next earliest others hmore =>
        split at hfirst
        next hlt =>
          cases hfirst
          obtain ⟨front, back, rfl, rfl, hfront, hback⟩ := ih hmore
          exact ⟨head :: front, back, rfl, rfl, List.forall_mem_cons.mpr ⟨hlt, hfront⟩, hback⟩
        next =>
          cases hfirst
          exact ⟨[], more, rfl, rfl, fun _ hnil => absurd hnil List.not_mem_nil,
            fun task htask => hleast task (List.mem_cons_of_mem _ htask)⟩

theorem takeFirst?_cons_of_le {more : Schedule} (hmore : ∀ task ∈ more, first.due ≤ task.due) :
    takeFirst? (first :: more) = some (first, more) := by
  unfold takeFirst?
  split
  next hnone => rw [eq_nil_of_takeFirst? hnone]
  next earliest others hsome =>
    have hin := (takeFirst?_perm hsome).mem_iff.mpr List.mem_cons_self
    rw [if_neg (Nat.not_lt.mpr (hmore earliest hin))]

theorem takeFirst?_append {front back : Schedule} (hfront : ∀ task ∈ front, first.due < task.due)
    (hback : ∀ task ∈ back, first.due ≤ task.due) :
    takeFirst? (front ++ first :: back) = some (first, front ++ back) := by
  induction front with
  | nil => exact takeFirst?_cons_of_le hback
  | cons head front ih =>
      obtain ⟨hhead, hrest⟩ := List.forall_mem_cons.mp hfront
      rw [List.cons_append, takeFirst?, ih hrest]
      exact if_pos hhead

theorem takeDue?_eq_some_iff :
    takeDue? time schedule = some (task, rest) ↔
      takeFirst? schedule = some (task, rest) ∧ task.due ≤ time := by
  unfold takeDue?
  cases takeFirst? schedule with
  | none => simp
  | some taken =>
      obtain ⟨first, others⟩ := taken
      by_cases hdue : first.due ≤ time
      · refine ⟨fun htaken => ?_, fun htaken => (if_pos hdue).trans htaken.1⟩
        cases (if_pos hdue).symm.trans htaken
        exact ⟨rfl, hdue⟩
      · refine ⟨fun htaken => ?_, fun htaken => ?_⟩
        · cases (if_neg hdue).symm.trans htaken
        · obtain ⟨hsame, hle⟩ := htaken
          cases hsame
          exact absurd hle hdue

/-! ## Some of the tasks -/

/-- The tasks with some names. -/
def only (keep : String → Bool) (schedule : Schedule) : Schedule :=
  schedule.filter fun task => keep task.name

/-- The runs of tasks with some names. -/
def runsOf (keep : String → Bool) (runs : List Run) : List Run :=
  runs.filter fun run => keep run.name

variable {keep : String → Bool} {run : Run}

@[simp] theorem only_append (a b : Schedule) : (a ++ b).only keep = a.only keep ++ b.only keep :=
  List.filter_append a b

@[simp] theorem runsOf_append (runs more : List Run) :
    runsOf keep (runs ++ more) = runsOf keep runs ++ runsOf keep more :=
  List.filter_append runs more

theorem only_cons_of_keep (hkeep : keep task.name = true) (rest : Schedule) :
    only keep (task :: rest) = task :: rest.only keep :=
  List.filter_cons_of_pos hkeep

theorem only_cons_of_not_keep (hkeep : ¬ keep task.name = true) (rest : Schedule) :
    only keep (task :: rest) = rest.only keep :=
  List.filter_cons_of_neg hkeep

theorem runsOf_cons_of_keep (hkeep : keep run.name = true) (runs : List Run) :
    runsOf keep (run :: runs) = run :: runsOf keep runs :=
  List.filter_cons_of_pos hkeep

theorem runsOf_cons_of_not_keep (hkeep : ¬ keep run.name = true) (runs : List Run) :
    runsOf keep (run :: runs) = runsOf keep runs :=
  List.filter_cons_of_neg hkeep

theorem takeDue?_only_of_keep (htaken : takeDue? time schedule = some (task, rest))
    (hkeep : keep task.name = true) :
    takeDue? time (schedule.only keep) = some (task, rest.only keep) := by
  obtain ⟨hfirst, hdue⟩ := takeDue?_eq_some_iff.mp htaken
  obtain ⟨front, back, rfl, rfl, hfront, hback⟩ := exists_split_of_takeFirst? hfirst
  refine takeDue?_eq_some_iff.mpr ⟨?_, hdue⟩
  rw [only_append, only_append, only_cons_of_keep hkeep]
  exact takeFirst?_append (fun other hother => hfront other (List.mem_filter.mp hother).1)
    fun other hother => hback other (List.mem_filter.mp hother).1

theorem only_of_not_keep (htaken : takeDue? time schedule = some (task, rest))
    (hkeep : ¬ keep task.name = true) : rest.only keep = schedule.only keep := by
  obtain ⟨hfirst, -⟩ := takeDue?_eq_some_iff.mp htaken
  obtain ⟨front, back, rfl, rfl, -, -⟩ := exists_split_of_takeFirst? hfirst
  rw [only_append, only_append, only_cons_of_not_keep hkeep]

/-- The runs of some of the tasks, and what becomes of these tasks, do not depend on the others. -/
theorem runUntil_only (keep : String → Bool) (time : Nat) (arrival : Nat → Nat)
    (schedule : Schedule) :
    (schedule.only keep).runUntil time arrival =
      (runsOf keep (schedule.runUntil time arrival).1,
        (schedule.runUntil time arrival).2.only keep) := by
  induction schedule using runUntil.induct time arrival with
  | case1 schedule hdue =>
      rw [runUntil_of_none hdue]
      apply runUntil_of_lt
      intro task htask
      exact lt_due_of_takeDue?_eq_none hdue task (List.mem_filter.mp htask).1
  | case2 schedule task rest hdue run _ _ _ ih =>
      rw [runUntil_of_some hdue]
      have hname : keep (task.next (arrival task.due)).name = keep task.name := rfl
      by_cases hkeep : keep task.name = true
      · have hagain : (rest ++ [task.next (arrival task.due)]).only keep =
            rest.only keep ++ [task.next (arrival task.due)] := by
          rw [only_append, only_cons_of_keep (hname.trans hkeep)]
          rfl
        rw [runUntil_of_some (takeDue?_only_of_keep hdue hkeep), ← hagain, ih,
          runsOf_cons_of_keep hkeep]
      · -- The schedule without the task is the same before and after its run.
        have hagain : (rest ++ [task.next (arrival task.due)]).only keep = schedule.only keep := by
          rw [only_append, only_cons_of_not_keep (hname ▸ hkeep), only_of_not_keep hdue hkeep]
          exact List.append_nil _
        rw [← hagain, ih, runsOf_cons_of_not_keep hkeep]

/-! ## Starting and stopping -/

section Name

variable {name : String}

theorem only_stop (name : String) (schedule : Schedule) :
    (schedule.stop name).only keep = (schedule.only keep).stop name := by
  unfold stop only
  rw [List.filter_filter, List.filter_filter]
  exact List.filter_congr fun task _ => Bool.and_comm _ _

theorem only_stop_self (name : String) (schedule : Schedule) :
    (schedule.stop name).only (· = name) = [] := by
  unfold stop only
  rw [List.filter_filter, List.filter_eq_nil_iff]
  simp

theorem only_stop_of_ne {stopped : String} (hne : stopped ≠ name) (schedule : Schedule) :
    (schedule.stop stopped).only (· = name) = schedule.only (· = name) := by
  unfold stop only
  rw [List.filter_filter]
  apply List.filter_congr
  intro task _
  by_cases htask : task.name = name <;> simp [htask, hne.symm]

theorem only_start_of_ne {started : String} (hne : started ≠ name) (key : String)
    (interval time : Nat) (schedule : Schedule) :
    (schedule.start started key interval time).only (· = name) = schedule.only (· = name) := by
  have hnew : ¬ (decide ((Task.start started key interval time).name = name)) = true := by
    rw [decide_eq_true_eq]
    exact hne
  rw [Schedule.start, only_append, only_stop_of_ne hne, only_cons_of_not_keep hnew]
  exact List.append_nil _

theorem only_start_self (name key : String) (interval time : Nat) (schedule : Schedule) :
    (schedule.start name key interval time).only (· = name) =
      [Task.start name key interval time] := by
  have hnew : decide ((Task.start name key interval time).name = name) = true :=
    decide_eq_true rfl
  rw [Schedule.start, only_append, only_stop_self, only_cons_of_keep hnew]
  rfl

theorem filter_ne_of_filter_eq {α : Type} {list : List α} {label : α → String}
    (hnone : list.filter (fun a => label a = name) = []) :
    list.filter (fun a => label a ≠ name) = list := by
  apply List.filter_eq_self.mpr
  intro a ha
  have hlabel := List.filter_eq_nil_iff.mp hnone a ha
  rw [decide_eq_true_eq] at hlabel ⊢
  exact hlabel

theorem stop_stop (name : String) (schedule : Schedule) :
    (schedule.stop name).stop name = schedule.stop name :=
  filter_ne_of_filter_eq (only_stop_self name schedule)

theorem stop_start (name key : String) (interval time : Nat) (schedule : Schedule) :
    (schedule.start name key interval time).stop name = schedule.stop name := by
  have hnew : ¬ decide ((Task.start name key interval time).name ≠ name) = true := by
    rw [decide_eq_true_eq]
    exact not_not_intro rfl
  change (schedule.start name key interval time).only (· ≠ name) = schedule.stop name
  rw [Schedule.start, only_append, only_cons_of_not_keep hnew]
  exact (List.append_nil _).trans (stop_stop name schedule)

theorem has_stop_of_ne {other : String} (hne : other ≠ name) (schedule : Schedule) :
    (schedule.stop name).has other = schedule.has other := by
  unfold stop has
  rw [List.any_filter]
  congr 1
  funext task
  by_cases htask : task.name = other <;> simp [htask, hne]

end Name

end Entitlement.Schedule
