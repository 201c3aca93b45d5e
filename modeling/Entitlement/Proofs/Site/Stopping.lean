import Entitlement.Proofs.Key.Issue
import Entitlement.Proofs.Site.Runs

/-! # Stopping a task

A task that is stopped is gone, and nothing else is: a site goes on as one that never had the task.
That is so for the other tasks, whatever the task has done before, and for all that is ever
answered, if the task has not run at all. And where no task is left, waiting changes nothing, also
when the license in force has long ended.
-/

namespace Entitlement.Site

open Custody Grant Schedule Signature

variable {verdict : Verdict} {site : Site} {operation : Operation} {name : String}

/-- A site without any task of some name. -/
def without (name : String) (site : Site) : Site :=
  { site with schedule := site.schedule.stop name }

theorem without_of_not_has (hnone : ¬ site.schedule.has name = true) :
    site.without name = site := by
  rw [without, stop_of_not_has hnone]

theorem perform_stopTask_fst (verdict : Verdict) (site : Site) (name : String) :
    (site.perform verdict (.stopTask name)).1 = site.without name := by
  unfold perform
  dsimp only
  split
  next => rfl
  next hnone => exact (without_of_not_has hnone).symm

theorem perform_stopTask_of_has (hhas : site.schedule.has name = true) (verdict : Verdict) :
    site.perform verdict (.stopTask name) = (site.without name, .done) :=
  if_pos hhas

/-! ## The name of a stopped task -/

/-- Under a name without tasks nothing runs, and only a start under that name brings a task
there. -/
theorem only_scheduleAfter_of_nil (hnone : site.schedule.only (· = name) = [])
    (hstart : ∀ key interval, operation ≠ .startTask name key interval) :
    (site.scheduleAfter operation).only (· = name) = [] ∧
      runsOf (· = name) (site.runsIn operation) = [] := by
  cases hpasses : operation.passes with
  | true =>
      have honly := runUntil_only (· = name) (site.timeAfter operation)
        (operation.arrival (site.timeAfter operation)) site.schedule
      rw [hnone, runUntil_nil, runUntil_of_passes hpasses, Prod.mk.injEq] at honly
      exact ⟨honly.2.symm, honly.1.symm⟩
  | false =>
      cases operation with
      | startTask started key interval =>
          refine ⟨?_, rfl⟩
          have hne : started ≠ name := by
            rintro rfl
            exact hstart key interval rfl
          exact (only_start_of_ne hne key interval site.time site.schedule).trans hnone
      | stopTask stopped =>
          refine ⟨?_, rfl⟩
          rw [scheduleAfter, only_stop, hnone]
          rfl
      | sleep _ | jump _ => cases hpasses
      | _ => exact ⟨hnone, rfl⟩

/-- Under a name without tasks nothing runs until a task of that name is started. -/
theorem runsOver_of_nil {more : List Operation} (hnone : site.schedule.only (· = name) = [])
    (hstart : ∀ key interval, Operation.startTask name key interval ∉ more) :
    runsOf (· = name) (site.runsOver verdict more) = [] := by
  induction more generalizing site with
  | nil => rfl
  | cons operation more ih =>
      have hother : ∀ key interval, operation ≠ .startTask name key interval :=
        fun key interval heq => hstart key interval (heq ▸ List.mem_cons_self)
      obtain ⟨hschedule, hruns⟩ := only_scheduleAfter_of_nil hnone hother
      rw [runsOver, runsOf_append, hruns, List.nil_append]
      apply ih
      · rw [schedule_perform]
        exact hschedule
      · exact fun key interval hin => hstart key interval (List.mem_cons_of_mem _ hin)

/-! ## A site without the task -/

/-- But for what becomes of the tasks, an operation depends on the schedule by the runs in it
alone. -/
theorem perform_of_runsIn_eq {schedule : Schedule}
    (hruns : ({ site with schedule } : Site).runsIn operation = site.runsIn operation)
    (hhas : ∀ stopped, operation = .stopTask stopped →
      schedule.has stopped = site.schedule.has stopped) :
    ({ site with schedule } : Site).perform verdict operation =
      ({ (site.perform verdict operation).1 with
          schedule := ({ site with schedule } : Site).scheduleAfter operation },
        (site.perform verdict operation).2) := by
  cases operation with
  | sleep duration | jump duration =>
      simp only [runsIn] at hruns
      simp only [perform, pass, scheduleAfter, hruns]
  | stopTask stopped =>
      unfold perform
      dsimp only
      rw [← hhas stopped rfl]
      split
      next => rfl
      next hnone => rw [scheduleAfter, stop_of_not_has hnone]
  | drain _ | readFeed _ | request _ _ | metered _ _ =>
      unfold perform
      dsimp only
      split <;> rfl
  | _ => rfl

/-- A site without a task that does not run does and answers the same as with it. -/
theorem perform_without (hother : operation.task? ≠ some name)
    (hquiet : runsOf (· = name) (site.runsIn operation) = []) :
    (site.without name).perform verdict operation =
      ((site.perform verdict operation).1.without name, (site.perform verdict operation).2) := by
  have htime : (site.without name).time = site.time := rfl
  have hnone : (site.without name).schedule.only (· = name) = [] :=
    only_stop_self name site.schedule
  have hothers : (site.without name).schedule.only (· ≠ name) = site.schedule.only (· ≠ name) :=
    stop_stop name site.schedule
  have hstart : ∀ key interval, operation ≠ .startTask name key interval :=
    fun key interval heq => hother (congrArg Operation.task? heq)
  obtain ⟨hgone, hnoruns⟩ := only_scheduleAfter_of_nil hnone hstart
  obtain ⟨hschedule, hruns⟩ := only_scheduleAfter htime hothers operation
  have hsame : (site.without name).runsIn operation = site.runsIn operation :=
    (filter_ne_of_filter_eq hnoruns).symm.trans (hruns.trans (filter_ne_of_filter_eq hquiet))
  have hafter : (site.without name).scheduleAfter operation =
      ((site.perform verdict operation).1.schedule).stop name := by
    rw [schedule_perform]
    exact (filter_ne_of_filter_eq hgone).symm.trans hschedule
  have hhas : ∀ stopped, operation = .stopTask stopped →
      (site.schedule.stop name).has stopped = site.schedule.has stopped := by
    rintro stopped rfl
    exact has_stop_of_ne (fun heq => hother (congrArg some heq)) site.schedule
  rw [without, perform_of_runsIn_eq hsame hhas, without, ← hafter]
  rfl

/-- A site without a task that does not run goes on and answers the same as with it. -/
theorem run_without {operations : List Operation}
    (hothers : ∀ operation ∈ operations, operation.task? ≠ some name)
    (hquiet : runsOf (· = name) (site.runsOver verdict operations) = []) :
    (site.without name).run verdict operations =
      ((site.run verdict operations).1.without name, (site.run verdict operations).2) := by
  induction operations generalizing site with
  | nil => rfl
  | cons operation more ih =>
      obtain ⟨hother, hothers⟩ := List.forall_mem_cons.mp hothers
      rw [runsOver, runsOf_append, List.append_eq_nil_iff] at hquiet
      rw [run_cons, run_cons, perform_without hother hquiet.1, ih hothers hquiet.2]

theorem without_perform_startTask (verdict : Verdict) (site : Site) (name key : String)
    (interval : Nat) :
    ((site.perform verdict (.startTask name key interval)).1).without name = site.without name :=
  congrArg (fun schedule => ({ site with schedule } : Site))
    (stop_start name key interval site.time site.schedule)

/-- A task that is stopped before it comes due has not run, and the site is as if it had not been
started. -/
theorem run_start_stop {middle : List Operation} (key : String) (interval : Nat)
    (hothers : ∀ operation ∈ middle, operation.task? ≠ some name) (later : List Operation)
    (hsoon : ((site.without name).run verdict middle).1.time < site.time + max 1000 interval) :
    let before := (site.without name).run verdict middle
    let after := before.1.run verdict later
    site.run verdict (.startTask name key interval :: middle ++ .stopTask name :: later) =
      (after.1, .done :: before.2 ++ .done :: after.2) := by
  intro before after
  let started := (site.perform verdict (.startTask name key interval)).1
  have hnow : (site.without name).time = started.time := rfl
  have htime := @time_run_congr verdict _ _ hnow middle
  obtain ⟨times, last, hruns, hreaches, hlast⟩ :=
    (tracks_start verdict site name key interval).run (r := fun _ _ => True) hothers
      (fun _ _ _ _ _ => trivial) verdict
  -- The task is due within an interval, so it has not been put off by a run.
  have hdue : last.due < site.time + max 1000 interval + max 1000 interval := by
    have hwithin : last.due ≤ (started.run verdict middle).1.time + last.interval := hlast.due_le
    have hinterval : last.interval = max 1000 interval := hreaches.same.2.2
    omega
  rw [hreaches.eq_nil_of_lt hdue] at hruns
  have hhas : (started.run verdict middle).1.schedule.has name = true := by
    have hin : last ∈ (started.run verdict middle).1.schedule.only (· = last.name) :=
      hlast.only_eq ▸ List.mem_cons_self
    exact List.any_eq_true.mpr ⟨last, (List.mem_filter.mp hin).1, beq_iff_eq.mpr hreaches.same.1⟩
  have hsame : before =
      ((started.run verdict middle).1.without name, (started.run verdict middle).2) := by
    rw [← run_without hothers hruns, without_perform_startTask]
  have hafter : after = ((started.run verdict middle).1.without name).run verdict later :=
    congrArg (fun before => before.1.run verdict later) hsame
  rw [hafter, hsame]
  apply Prod.ext
  · rw [run_append, run_cons, run_cons, perform_stopTask_of_has hhas]
  · rw [run_append_snd, run_cons, run_cons, perform_stopTask_of_has hhas]
    rfl

/-! ## Waiting -/

/-- Whether an operation neither hands over a key nor gives up the license in force. -/
def Operation.isIdle : Operation → Bool
  | .command (.load _) | .command .useCommunity | .revalidate _ _ | .startTask _ _ _ => false
  | _ => true

/-- Where there are no tasks, an idle operation changes nothing in the custody but its clock. -/
theorem perform_of_isIdle (htasks : site.schedule = []) (hidle : operation.isIdle = true) :
    (site.perform verdict operation).1.schedule = [] ∧
      ∃ clock, (site.perform verdict operation).1.custody = { site.custody with clock } := by
  rw [schedule_perform]
  constructor
  · cases operation with
    | startTask _ _ _ => cases hidle
    | stopTask _ => rw [scheduleAfter, htasks, stop, List.filter_nil]
    | sleep _ | jump _ =>
        rw [scheduleAfter, htasks]
        exact congrArg Prod.snd (runUntil_nil _ _)
    | _ => exact htasks
  · cases operation with
    | command command =>
        rw [custody_perform]
        change ∃ clock, (site.custody.execute verdict command).1 = _
        rw [execute_fst]
        cases command with
        | load _ | useCommunity => cases hidle
        | _ => exact ⟨_, rfl⟩
    | revalidate _ _ | startTask _ _ _ => cases hidle
    | sleep _ | jump _ =>
        rw [custody_of_passes rfl, runsIn, htasks]
        exact ⟨_, congrArg (fun step => recheck verdict step.1 site.custody) (runUntil_nil _ _)⟩
    | _ =>
        rw [custody_perform]
        exact ⟨_, rfl⟩

theorem run_of_isIdle {more : List Operation} (htasks : site.schedule = [])
    (hidle : ∀ operation ∈ more, operation.isIdle = true) :
    ∃ clock, (site.run verdict more).1.custody = { site.custody with clock } := by
  induction more generalizing site with
  | nil => exact ⟨_, rfl⟩
  | cons operation more ih =>
      obtain ⟨hfirst, hmore⟩ := List.forall_mem_cons.mp hidle
      obtain ⟨hnext, clock, hcustody⟩ := @perform_of_isIdle verdict _ _ htasks hfirst
      obtain ⟨later, hrest⟩ := ih hnext hmore
      refine ⟨later, ?_⟩
      rw [run_cons, hrest, hcustody]

/-! ## The result -/

/-- Stopping a task takes it out of the schedule and does nothing else, and starting another in its
place begins with that. Whatever is done then, nothing runs under the name but tasks that are
started under it again, and all the other tasks run when they would have run anyway; the runs are
all that happens to the license while time passes. A task that is stopped before it comes due leaves
a site, and all that is ever answered there, as if it had not been started but for stopping an older
task of its name. And where no task is left, waiting, setting the clock of the license and asking
for things do nothing to the license and tell nobody anything, however long they go on. -/
theorem stopping_is_final (verdict : Verdict) (site : Site) (name : String) :
    let stopped := (site.perform verdict (.stopTask name)).1
    stopped = { site with schedule := site.schedule.stop name } ∧
    (site.schedule.has name = false → stopped = site) ∧
    (∀ more,
      ((∀ key interval, .startTask name key interval ∉ more) →
        runsOf (· = name) (stopped.runsOver verdict more) = []) ∧
      runsOf (· = name) (stopped.runsOver verdict more) =
        runsOf (· = name) (({ site with schedule := [] } : Site).runsOver verdict more) ∧
      runsOf (· ≠ name) (stopped.runsOver verdict more) =
        runsOf (· ≠ name) (site.runsOver verdict more)) ∧
    (∀ key interval,
      let task := Task.start name key interval site.time
      let replaced := (site.perform verdict (.startTask name key interval)).1
      replaced = { site with schedule := site.schedule.stop name ++ [task] } ∧
      (∀ more,
        runsOf (· = name) (replaced.runsOver verdict more) =
          runsOf (· = name) (({ site with schedule := [task] } : Site).runsOver verdict more) ∧
        runsOf (· ≠ name) (replaced.runsOver verdict more) =
          runsOf (· ≠ name) (site.runsOver verdict more)) ∧
      ∀ middle later, (∀ operation ∈ middle, operation.task? ≠ some name) →
        let before := stopped.run verdict middle
        let after := before.1.run verdict later
        before.1.time < site.time + max 1000 interval →
        site.run verdict (.startTask name key interval :: middle ++ .stopTask name :: later) =
          (after.1, .done :: before.2 ++ .done :: after.2)) ∧
    (∀ (now : Site) (operation : Operation), operation.passes = true →
      (now.perform verdict operation).1.custody =
        recheck verdict (now.runsIn operation) now.custody) ∧
    (site.schedule = [] → ∀ more, (∀ operation ∈ more, operation.isIdle = true) →
      ∃ clock, (site.run verdict more).1.custody = { site.custody with clock }) := by
  intro stopped
  have hstopped : stopped = site.without name := perform_stopTask_fst verdict site name
  refine ⟨hstopped, fun hnone => ?_, fun more => ⟨fun hstart => ?_, ?_, ?_⟩, fun key interval =>
    ⟨rfl, fun more => ⟨?_, ?_⟩, fun middle later hothers => ?_⟩,
    fun _ _ hpasses => custody_of_passes hpasses, fun htasks _ hidle => run_of_isIdle htasks hidle⟩
  · exact hstopped.trans (without_of_not_has (Bool.eq_false_iff.mp hnone))
  · rw [hstopped]
    exact runsOver_of_nil (only_stop_self name site.schedule) hstart
  · rw [hstopped]
    apply runsOver_congr
    · rfl
    · exact only_stop_self name site.schedule
  · rw [hstopped]
    apply runsOver_congr
    · rfl
    · exact stop_stop name site.schedule
  · apply runsOver_congr
    · rfl
    · change (site.schedule.start name key interval site.time).only (· = name) = _
      rw [only_start_self, only_cons_of_keep (decide_eq_true rfl)]
      rfl
  · apply runsOver_congr
    · rfl
    · exact stop_start name key interval site.time site.schedule
  · rw [hstopped]
    exact run_start_stop key interval hothers later

/-- A check each second that is stopped within a second is never made: a license that has been
loaded stays in force long after its end. -/
theorem stopping_is_final_sample :
    ∃ verdict key site, verdict = Key.verify Ed25519.scheme Key.sampleTrusted ∧
      key = Key.sampleEnvelope.encode ∧
      site = ((Site.start License.epoch).run verdict (loading Key.sampleClaims.issuedAt key)).1 ∧
      (site.perform verdict (.stopTask "nightly")).1 = site ∧
      runsOf (· = "nightly")
        ((site.perform verdict (.stopTask "nightly")).1.runsOver verdict
          [.startTask "hourly" key 3600000, .jump 100000]) = [] ∧
      (site.run verdict [.startTask "nightly" key 0, .sleep 999, .stopTask "nightly",
        .command (.setClock License.endOfTime), .jump 100000]).1.custody.license =
          ⟨Key.sampleClaims, .verified⟩ := by
  have htime (verdict : Verdict) (site : Site) :
      (site.run verdict [.sleep 999]).1.time = site.time + 999 :=
    time_perform verdict site (.sleep 999)
  have hclock (c : Custody) (clock : Calendar.Timestamp) :
      ({ c with clock } : Custody).license = c.license := rfl
  refine ⟨_, _, _, rfl, rfl, rfl, ?_⟩
  have hheld := custody_run_loading License.epoch Key.verify_sampleEnvelope_issuedAt
  have hspec := stopping_is_final (Key.verify Ed25519.scheme Key.sampleTrusted)
    ((Site.start License.epoch).run (Key.verify Ed25519.scheme Key.sampleTrusted)
      (loading Key.sampleClaims.issuedAt Key.sampleEnvelope.encode)).1 "nightly"
  -- The argument needs only that the key has been loaded, and must not evaluate it.
  generalize Key.verify Ed25519.scheme Key.sampleTrusted = verdict at *
  generalize Key.sampleEnvelope.encode = key at *
  generalize Key.sampleClaims = claims at *
  have htasks := schedule_run_loading verdict License.epoch claims.issuedAt key
  have hlicense : ((Site.start License.epoch).run verdict
      (loading claims.issuedAt key)).1.custody.license = ⟨claims, .verified⟩ := by
    rw [hheld]
    rfl
  generalize ((Site.start License.epoch).run verdict (loading claims.issuedAt key)).1 = site at *
  obtain ⟨-, hsame, hmore, hreplaced, -, hidle⟩ := hspec
  have hstopped := hsame (by rw [htasks]; rfl)
  obtain ⟨hquiet, -, -⟩ := hmore [.startTask "hourly" key 3600000, .jump 100000]
  obtain ⟨-, -, hunstarted⟩ := hreplaced key 0
  have hrun := hunstarted [.sleep 999] [.command (.setClock License.endOfTime), .jump 100000]
    (by decide)
  obtain ⟨clock, hcustody⟩ := hidle htasks
    ([.sleep 999] ++ [.command (.setClock License.endOfTime), .jump 100000]) (by decide)
  rw [hstopped] at hrun
  have hlast := hrun (htime verdict site ▸ Nat.add_lt_add_left (by decide) site.time)
  refine ⟨hstopped, hquiet (by simp), ?_⟩
  change (site.run verdict (.startTask "nightly" key 0 :: [.sleep 999] ++ _)).1.custody.license = _
  rw [hlast, ← run_append, hcustody, hclock, hlicense]

end Entitlement.Site
