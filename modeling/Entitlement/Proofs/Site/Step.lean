import Entitlement.Proofs.Custody.Account
import Entitlement.Proofs.Schedule
import Entitlement.Site.Basic

/-! # The steps of a site

Every operation on a site is a number of steps of its custody. A check that is overtaken by commands
is settled after them with a snapshot from before them, and when time passes each run of a task is
settled at once. The other operations leave the custody alone. The keys that are checked have all
been handed over before, with a command, a check or a task.
-/

namespace Entitlement

open Calendar Custody

namespace Site

/-- The keys that an operation hands over. -/
def Operation.keys : Operation → List String
  | .command asked => asked.key?.toList
  | .revalidate key commands => key :: commands.filterMap Command.key?
  | .startTask _ key _ => [key]
  | _ => []

/-! ## Steps -/

/-- The steps of runs of tasks. -/
def recheckSteps (verdict : Verdict) : List Schedule.Run → Custody → List Step
  | [], _ => []
  | run :: runs, c =>
    let step := Step.settle run.key c.snapshot
    step :: recheckSteps verdict runs (c.step verdict step)

/-- The steps of an operation. -/
def operationSteps (verdict : Verdict) (site : Site) : Operation → List Step
  | .command command => [.command command]
  | .revalidate key commands =>
    commands.map Step.command ++ [.settle key site.custody.snapshot]
  | .sleep duration =>
    recheckSteps verdict (site.schedule.sleep (site.time + duration)).1 site.custody
  | .jump duration =>
    recheckSteps verdict (site.schedule.jump (site.time + duration)).1 site.custody
  | _ => []

/-- The steps of operations. -/
def runSteps (verdict : Verdict) (site : Site) : List Operation → List Step
  | [] => []
  | operation :: more =>
    operationSteps verdict site operation ++
      runSteps verdict (site.perform verdict operation).1 more

theorem recheck_eq_steps (verdict : Verdict) (runs : List Schedule.Run) (c : Custody) :
    recheck verdict runs c = c.steps verdict (recheckSteps verdict runs c) := by
  induction runs generalizing c with
  | nil => rfl
  | cons run runs ih => exact ih _

/-- An operation does to the custody what its steps do. -/
theorem custody_perform (verdict : Verdict) (site : Site) (operation : Operation) :
    (site.perform verdict operation).1.custody =
      site.custody.steps verdict (operationSteps verdict site operation) := by
  cases operation with
  | revalidate key commands =>
      change ((site.custody.executeAll verdict commands).1.settle verdict key
        site.custody.snapshot).1 = _
      rw [executeAll_eq_steps, operationSteps, steps_append]
      rfl
  | sleep duration => exact recheck_eq_steps _ _ _
  | jump duration => exact recheck_eq_steps _ _ _
  | drain _ | stopTask _ | request _ _ | readFeed _ | metered _ _ =>
      unfold perform
      dsimp only
      split <;> rfl
  | _ => rfl

/-- A run does to the custody what its steps do. -/
theorem custody_run (verdict : Verdict) (site : Site) (operations : List Operation) :
    (site.run verdict operations).1.custody =
      site.custody.steps verdict (runSteps verdict site operations) := by
  induction operations generalizing site with
  | nil => rfl
  | cons operation more ih =>
      change ((site.perform verdict operation).1.run verdict more).1.custody = _
      rw [ih, custody_perform, runSteps, steps_append]

theorem run_cons (verdict : Verdict) (site : Site) (operation : Operation) (more : List Operation) :
    site.run verdict (operation :: more) =
      (((site.perform verdict operation).1.run verdict more).1,
        (site.perform verdict operation).2 ::
          ((site.perform verdict operation).1.run verdict more).2) :=
  rfl

theorem run_append (verdict : Verdict) (site : Site) (operations more : List Operation) :
    (site.run verdict (operations ++ more)).1 =
      ((site.run verdict operations).1.run verdict more).1 := by
  induction operations generalizing site with
  | nil => rfl
  | cons operation operations ih => exact ih _

/-- The account of a site after operations from the start. -/
def account (verdict : Verdict) (clock : Timestamp) (operations : List Operation) : Account :=
  (Account.start clock).steps verdict (runSteps verdict (.start clock) operations)

theorem custody_account (verdict : Verdict) (clock : Timestamp) (operations : List Operation) :
    (account verdict clock operations).custody =
      ((Site.start clock).run verdict operations).1.custody := by
  rw [custody_run, account, Account.custody_steps]
  rfl

theorem eq_community_of_isCommunity {verdict : Verdict} (hgrants : OnlyGrants verdict)
    (clock : Timestamp) (operations : List Operation)
    (hcommunity :
      ((Site.start clock).run verdict operations).1.custody.license.isCommunity = true) :
    ((Site.start clock).run verdict operations).1.custody.license = .community := by
  rw [← custody_account] at hcommunity ⊢
  have hright := (Account.isRight_start verdict clock).steps
    (runSteps verdict (.start clock) operations)
  exact hright.eq_community hgrants hcommunity

/-! ## Tasks -/

/-- The schedule after an operation. -/
def scheduleAfter (site : Site) : Operation → Schedule
  | .startTask name key interval => site.schedule.start name key interval site.time
  | .stopTask name => site.schedule.stop name
  | .sleep duration => (site.schedule.sleep (site.time + duration)).2
  | .jump duration => (site.schedule.jump (site.time + duration)).2
  | _ => site.schedule

/-- The clock of the schedule after an operation. -/
def timeAfter (site : Site) : Operation → Nat
  | .sleep duration | .jump duration => site.time + duration
  | _ => site.time

theorem schedule_perform (verdict : Verdict) (site : Site) (operation : Operation) :
    (site.perform verdict operation).1.schedule = site.scheduleAfter operation := by
  cases operation with
  | stopTask name =>
      unfold perform
      dsimp only
      split
      next => rfl
      next hnone => exact (Schedule.stop_of_not_has hnone).symm
  | drain _ | request _ _ | readFeed _ | metered _ _ =>
      unfold perform
      dsimp only
      split <;> rfl
  | _ => rfl

theorem time_perform (verdict : Verdict) (site : Site) (operation : Operation) :
    (site.perform verdict operation).1.time = site.timeAfter operation := by
  cases operation with
  | drain _ | stopTask _ | request _ _ | readFeed _ | metered _ _ =>
      unfold perform
      dsimp only
      split <;> rfl
  | _ => rfl

/-- What every task has at its start and keeps while time passes holds of all tasks after an
operation. -/
theorem forall_perform {p : Nat → Schedule.Task → Prop} {site : Site} {operation : Operation}
    (hold : ∀ task ∈ site.schedule, p site.time task)
    (hstart : ∀ name key interval, operation = .startTask name key interval →
      p site.time (.start name key interval site.time))
    (hspan : ∀ (time : Nat) (arrival : Nat → Nat), site.time ≤ time →
      (∀ due, due ≤ time → arrival due ≤ time) →
        ∀ task ∈ (site.schedule.runUntil time arrival).2, p time task) (verdict : Verdict) :
    ∀ task ∈ (site.perform verdict operation).1.schedule,
      p (site.perform verdict operation).1.time task := by
  rw [schedule_perform, time_perform]
  cases operation with
  | startTask name key interval =>
      intro task htask
      rcases List.mem_append.mp htask with hkept | hnew
      · exact hold task (List.mem_filter.mp hkept).1
      · rw [List.mem_singleton.mp hnew]
        exact hstart name key interval rfl
  | stopTask name => exact fun task htask => hold task (List.mem_filter.mp htask).1
  | sleep duration => exact hspan _ _ (Nat.le_add_right _ _) fun _ hdue => hdue
  | jump duration => exact hspan _ _ (Nat.le_add_right _ _) fun _ _ => Nat.le_refl _
  | _ => exact hold

/-! ## Loading a key -/

section Loading

/-- The operations that load a key at some instant. -/
def loading (now : Timestamp) (key : String) : List Operation :=
  [.command (.setClock now), .command (.load key)]

variable {verdict : Verdict} {now : Timestamp} {key : String} {license : Grant.License}

/-- A key that holds is in force once it has been loaded. -/
theorem custody_run_loading (clock : Timestamp) (hverdict : verdict key now = .ok license) :
    ((Site.start clock).run verdict (loading now key)).1.custody =
      ({ Custody.start clock with clock := now } : Custody).announce license := by
  rw [custody_run]
  change (({ Custody.start clock with clock := now } : Custody).execute verdict (.load key)).1 = _
  rw [execute_fst]
  dsimp only
  rw [load_of_ok hverdict]

theorem schedule_run_loading (verdict : Verdict) (clock now : Timestamp) (key : String) :
    ((Site.start clock).run verdict (loading now key)).1.schedule = [] :=
  (schedule_perform verdict _ (.command (.load key))).trans
    (schedule_perform verdict (.start clock) (.command (.setClock now)))

theorem source_account_loading (clock : Timestamp) (hverdict : verdict key now = .ok license) :
    (account verdict clock (loading now key)).source = .verified ⟨key, now⟩ := by
  change (replacement? verdict { Custody.start clock with clock := now }
    (.command (.load key))).getD _ = _
  rw [replacement?]
  dsimp only
  rw [hverdict]
  rfl

end Loading

/-! ## Where keys come from -/

/-- The tasks of a site check nothing but some given keys. -/
def ChecksOnly (site : Site) (keys : List String) : Prop :=
  ∀ task ∈ site.schedule, task.key ∈ keys

theorem ChecksOnly.perform {site : Site} {keys : List String} (hkeys : site.ChecksOnly keys)
    (verdict : Verdict) {operation : Operation} (hnew : operation.keys ⊆ keys) :
    (site.perform verdict operation).1.ChecksOnly keys := by
  refine forall_perform (p := fun _ task => task.key ∈ keys) hkeys ?_ ?_ verdict
  · rintro name key interval rfl
    exact hnew List.mem_cons_self
  · intro time arrival _ _
    exact (Schedule.key_runUntil hkeys).2

theorem key_recheckSteps {p : String → Prop} {verdict : Verdict} {runs : List Schedule.Run}
    (hruns : ∀ run ∈ runs, p run.key) (c : Custody) :
    ∀ step ∈ recheckSteps verdict runs c, ∀ key, step.key? = some key → p key := by
  induction runs generalizing c with
  | nil => exact fun step hstep => absurd hstep List.not_mem_nil
  | cons run runs ih =>
      obtain ⟨hrun, hmore⟩ := List.forall_mem_cons.mp hruns
      refine List.forall_mem_cons.mpr ⟨?_, ih hmore _⟩
      intro key hkey
      obtain rfl := Option.some.inj hkey
      exact hrun

/-- The steps of an operation check keys that the operation hands over or that tasks have. -/
theorem key_operationSteps {verdict : Verdict} {site : Site} {keys : List String}
    (hkeys : site.ChecksOnly keys) {operation : Operation} (hnew : operation.keys ⊆ keys) :
    ∀ step ∈ operationSteps verdict site operation, ∀ key, step.key? = some key → key ∈ keys := by
  cases operation with
  | command command =>
      intro step hstep key hkey
      rw [List.mem_singleton.mp hstep] at hkey
      exact hnew (Option.mem_toList.mpr hkey)
  | revalidate checked commands =>
      intro step hstep key hkey
      rcases List.mem_append.mp hstep with hovertaking | hsettle
      · obtain ⟨command, hcommand, rfl⟩ := List.mem_map.mp hovertaking
        exact hnew (List.mem_cons_of_mem _ (List.mem_filterMap.mpr ⟨command, hcommand, hkey⟩))
      · rw [List.mem_singleton.mp hsettle] at hkey
        obtain rfl := Option.some.inj hkey
        exact hnew List.mem_cons_self
  | sleep duration => exact key_recheckSteps (Schedule.key_runUntil hkeys).1 _
  | jump duration => exact key_recheckSteps (Schedule.key_runUntil hkeys).1 _
  | _ => exact fun step hstep => absurd hstep List.not_mem_nil

/-- The steps of a run check keys that its operations hand over. -/
theorem key_runSteps {verdict : Verdict} {site : Site} {keys : List String}
    (hkeys : site.ChecksOnly keys) {operations : List Operation}
    (hnew : ∀ operation ∈ operations, operation.keys ⊆ keys) :
    ∀ step ∈ runSteps verdict site operations, ∀ key, step.key? = some key → key ∈ keys := by
  induction operations generalizing site with
  | nil => exact fun step hstep => absurd hstep List.not_mem_nil
  | cons operation more ih =>
      obtain ⟨hfirst, hmore⟩ := List.forall_mem_cons.mp hnew
      intro step hstep
      -- A task that checks a key later has been started with it before.
      rcases List.mem_append.mp hstep with hnow | hlater
      · exact key_operationSteps hkeys hfirst step hnow
      · exact ih (hkeys.perform verdict hfirst) hmore step hlater

/-- At the start there are no tasks, so all keys that are checked are handed over. -/
theorem key_runSteps_start {verdict : Verdict} {clock : Timestamp} {operations : List Operation}
    {step : Step} (hstep : step ∈ runSteps verdict (Site.start clock) operations) {key : String}
    (hkey : step.key? = some key) : key ∈ operations.flatMap Operation.keys := by
  have hnone : (Site.start clock).ChecksOnly (operations.flatMap Operation.keys) :=
    fun task htask => absurd htask List.not_mem_nil
  refine key_runSteps hnone ?_ step hstep key hkey
  intro operation hoperation key hkey
  exact List.mem_flatMap.mpr ⟨operation, hoperation, hkey⟩

end Site

end Entitlement
