import Entitlement.Proofs.Key.Issue
import Entitlement.Proofs.Site.Step

/-! # Tasks come to the verdict on their key

A task that is left alone is due within one interval from any moment on, no matter how late it has
run before. A run that nothing overtakes comes to the verdict on its key at once: the license of a
key that holds is in force after it, and Community is in force after it if the key does not hold.
-/

namespace Entitlement.Custody

open Calendar Grant

/-- The license that a verdict leads to. -/
def licenseAfter : Except Key.VerificationError License → License
  | .ok license => license
  | .error _ => .community

section Recheck

variable {verdict : Verdict} {key : String} {c : Custody}

theorem clock_settle (snapshot : Snapshot) : (c.settle verdict key snapshot).1.clock = c.clock := by
  cases hverdict : verdict key c.clock with
  | ok license =>
      rw [settle_of_ok hverdict]
      unfold renew
      dsimp only
      split <;> rfl
  | error cause =>
      by_cases hdrop : c.isDroppable snapshot = true
      · rw [settle_of_isDroppable hverdict hdrop]
        rfl
      · rw [settle_of_not_isDroppable hverdict (Bool.eq_false_iff.mpr hdrop)]
        rfl

theorem license_revalidate_of_ok {license : License}
    (hverdict : verdict key c.clock = .ok license) :
    (c.revalidate verdict key).1.license = license := by
  rw [revalidate, settle_of_ok hverdict]
  exact (c.renew_installs license).1

/-- A key that does not hold leaves nothing but Community in force if nothing overtakes its
check. -/
theorem license_revalidate_of_error {cause : Key.VerificationError}
    (hverdict : verdict key c.clock = .error cause)
    (hdefault : c.license.isCommunity = true → c.license = .community) :
    (c.revalidate verdict key).1.license = .community := by
  rw [revalidate]
  by_cases hcommunity : c.license.isCommunity = true
  · have hkept : c.isDroppable c.snapshot = false := by
      rw [isDroppable, hcommunity]
      rfl
    rw [settle_of_not_isDroppable hverdict hkept]
    exact hdefault hcommunity
  · have hdrop : c.isDroppable c.snapshot = true := by
      rw [isDroppable, Bool.eq_false_iff.mpr hcommunity, snapshot, beq_self_eq_true]
      rfl
    rw [settle_of_isDroppable hverdict hdrop]
    rfl

theorem license_revalidate (hdefault : c.license.isCommunity = true → c.license = .community) :
    (c.revalidate verdict key).1.license = licenseAfter (verdict key c.clock) := by
  cases hverdict : verdict key c.clock with
  | ok license => exact license_revalidate_of_ok hverdict
  | error cause => exact license_revalidate_of_error hverdict hdefault

/-- One more check of a key changes nothing at the same instant. -/
theorem license_revalidate_again (hheld : c.license = licenseAfter (verdict key c.clock)) :
    (c.revalidate verdict key).1.license = licenseAfter (verdict key c.clock) := by
  cases hverdict : verdict key c.clock with
  | ok license => exact license_revalidate_of_ok hverdict
  | error cause =>
      rw [hverdict] at hheld
      exact license_revalidate_of_error hverdict fun _ => hheld

end Recheck

end Entitlement.Custody

namespace Entitlement.Site

open Calendar Custody Grant Signature

variable {verdict : Verdict}

/-! ## Runs of one key -/

section Runs

variable {key : String} {runs : List Schedule.Run}

theorem license_recheck_again (hkeys : ∀ run ∈ runs, run.key = key) {c : Custody}
    (hheld : c.license = licenseAfter (verdict key c.clock)) :
    (recheck verdict runs c).license = licenseAfter (verdict key c.clock) := by
  induction runs generalizing c with
  | nil => exact hheld
  | cons run runs ih =>
      obtain ⟨rfl, hmore⟩ := List.forall_mem_cons.mp hkeys
      have hclock : (c.revalidate verdict run.key).1.clock = c.clock := clock_settle _
      have hagain := license_revalidate_again hheld
      rw [← hclock] at hagain ⊢
      exact ih hmore hagain

/-- Any number of runs come to the verdict on their key, if there is one at all. -/
theorem license_recheck (hkeys : ∀ run ∈ runs, run.key = key) (hsome : runs ≠ []) {c : Custody}
    (hdefault : c.license.isCommunity = true → c.license = .community) :
    (recheck verdict runs c).license = licenseAfter (verdict key c.clock) := by
  cases runs with
  | nil => exact absurd rfl hsome
  | cons run runs =>
      obtain ⟨rfl, hmore⟩ := List.forall_mem_cons.mp hkeys
      have hclock : (c.revalidate verdict run.key).1.clock = c.clock := clock_settle _
      have hfirst : (c.revalidate verdict run.key).1.license = _ := license_revalidate hdefault
      rw [← hclock] at hfirst ⊢
      exact license_recheck_again hmore hfirst

end Runs

/-! ## Due times -/

/-- Every task is due later than now, and at most one interval later. -/
def IsTimely (site : Site) : Prop :=
  ∀ task ∈ site.schedule, site.time < task.due ∧ task.due ≤ site.time + task.interval

theorem IsTimely.perform {site : Site} (htimely : site.IsTimely) (operation : Operation) :
    (site.perform verdict operation).1.IsTimely := by
  refine forall_perform (p := fun time task => time < task.due ∧ task.due ≤ time + task.interval)
    htimely ?_ ?_ verdict
  · intro name key interval _
    have hraised : 1000 ≤ max Schedule.shortestInterval interval := Nat.le_max_left _ _
    change site.time < site.time + _ ∧ site.time + _ ≤ site.time + _
    exact ⟨by omega, Nat.le_refl _⟩
  · intro time arrival hlater harrival task htask
    have hsoon := Schedule.due_le_runUntil hlater harrival fun task htask => (htimely task htask).2
    exact ⟨Schedule.lt_due_runUntil task htask, hsoon task htask⟩

/-- However late tasks have run, at any moment each is due within one interval. -/
theorem IsTimely.run {site : Site} (htimely : site.IsTimely) (operations : List Operation) :
    (site.run verdict operations).1.IsTimely := by
  induction operations generalizing site with
  | nil => exact htimely
  | cons operation operations ih => exact ih (htimely.perform operation)

theorem isTimely_start (clock : Timestamp) : (Site.start clock).IsTimely := by
  intro task htask
  exact absurd htask List.not_mem_nil

/-! ## Where tasks come from -/

/-- Every task has been started by one of some operations, and its interval is the one asked for or
the shortest one. -/
def HasStarted (operations : List Operation) (task : Schedule.Task) : Prop :=
  ∃ interval, .startTask task.name task.key interval ∈ operations ∧
    task.interval = max Schedule.shortestInterval interval

theorem hasStarted_perform {site : Site} {operations : List Operation}
    (hstarted : ∀ task ∈ site.schedule, HasStarted operations task) {operation : Operation}
    (hin : operation ∈ operations) :
    ∀ task ∈ (site.perform verdict operation).1.schedule, HasStarted operations task := by
  refine forall_perform (p := fun _ task => HasStarted operations task) hstarted ?_ ?_ verdict
  · rintro name key interval rfl
    exact ⟨interval, hin, rfl⟩
  · intro time arrival _ _
    exact (Schedule.forall_runUntil (q := fun _ => True) (fun _ htask _ => ⟨trivial, htask⟩)
      hstarted).2

theorem hasStarted_run {site : Site} {operations more : List Operation}
    (hstarted : ∀ task ∈ site.schedule, HasStarted operations task) (hin : more ⊆ operations) :
    ∀ task ∈ (site.run verdict more).1.schedule, HasStarted operations task := by
  induction more generalizing site with
  | nil => exact hstarted
  | cons operation more ih =>
      obtain ⟨hfirst, hmore⟩ := List.cons_subset.mp hin
      exact ih (hasStarted_perform hstarted hfirst) hmore

/-! ## Waiting -/

/-- The operations that let time pass, one span after the other, while the license clock stands
still at the reading of each span. -/
def waiting (spans : List (Timestamp × Nat)) : List Operation :=
  spans.flatMap fun span => [.command (.setClock span.1), .sleep span.2]

/-- A single task checks a key and is due within some time, unless an expected license is in force
already. -/
def Awaits (site : Site) (key : String) (expected : License) (within : Nat) : Prop :=
  ∃ task, site.schedule = [task] ∧ task.key = key ∧
    (site.custody.license = expected ∨
      (site.time < task.due ∧ task.due ≤ site.time + within ∧
        (site.custody.license.isCommunity = true → site.custody.license = .community)))

variable {site : Site} {key : String} {expected : License} {within : Nat}

theorem Awaits.license (hawaits : site.Awaits key expected 0) :
    site.custody.license = expected := by
  obtain ⟨task, -, -, hheld | ⟨hnow, hdue, -⟩⟩ := hawaits
  · exact hheld
  · exact absurd hdue (Nat.not_le_of_lt hnow)

/-- A span of waiting brings the task nearer, and if the task runs it brings the expected
license. -/
theorem Awaits.rest {reading : Timestamp} {duration : Nat}
    (hawaits : site.Awaits key expected (duration + within))
    (hexpected : licenseAfter (verdict key reading) = expected) :
    (site.run verdict (waiting [(reading, duration)])).1.Awaits key expected within := by
  obtain ⟨task, hsingle, rfl, hstate⟩ := hawaits
  have hkeys : ∀ run ∈ (site.schedule.sleep (site.time + duration)).1, run.key = task.key := by
    rw [hsingle]
    exact (Schedule.key_runUntil (p := (· = task.key)) (List.forall_mem_singleton.mpr rfl)).1
  have hlast : ∃ last, (Schedule.sleep (site.time + duration) [task]).2 = [last] ∧
      last.name = task.name ∧ last.key = task.key ∧ last.interval = task.interval :=
    Schedule.runUntil_single task
  obtain ⟨last, hlast, -, hkey, -⟩ := hlast
  rw [← hsingle] at hlast
  rcases hstate with hheld | ⟨hnow, hsoon, hdefault⟩
  · refine ⟨last, hlast, hkey, .inl ?_⟩
    rw [← hexpected] at hheld ⊢
    exact license_recheck_again hkeys hheld
  · by_cases hdue : task.due ≤ site.time + duration
    · have hruns : (site.schedule.sleep (site.time + duration)).1 ≠ [] := by
        apply Schedule.runs_ne_nil_of_due _ hdue
        rw [hsingle]
        exact List.mem_cons_self
      refine ⟨last, hlast, hkey, .inl ?_⟩
      rw [← hexpected]
      exact license_recheck hkeys hruns hdefault
    · -- The task does not run yet, and has that much less to wait for.
      have hidle : site.schedule.sleep (site.time + duration) = ([], [task]) := by
        rw [hsingle]
        exact Schedule.runUntil_of_lt (List.forall_mem_singleton.mpr (Nat.lt_of_not_le hdue))
      refine ⟨task, congrArg Prod.snd hidle, rfl, .inr ⟨Nat.lt_of_not_le hdue, ?_, ?_⟩⟩
      · rw [← Nat.add_assoc] at hsoon
        exact hsoon
      · change
          (recheck verdict (site.schedule.sleep (site.time + duration)).1 _).license.isCommunity =
              true →
            (recheck verdict (site.schedule.sleep (site.time + duration)).1 _).license = _
        rw [hidle]
        exact hdefault

theorem Awaits.run {spans : List (Timestamp × Nat)}
    (hawaits : site.Awaits key expected ((spans.map Prod.snd).sum + within))
    (hexpected : ∀ span ∈ spans, licenseAfter (verdict key span.1) = expected) :
    (site.run verdict (waiting spans)).1.Awaits key expected within := by
  induction spans generalizing site with
  | nil => rwa [List.map_nil, List.sum_nil, Nat.zero_add] at hawaits
  | cons span spans ih =>
      obtain ⟨hfirst, hmore⟩ := List.forall_mem_cons.mp hexpected
      rw [List.map_cons, List.sum_cons, Nat.add_assoc] at hawaits
      exact ih (hawaits.rest hfirst) hmore

/-- A single task comes to the verdict on its key within one interval, whatever has happened before.
At the end of a sleep that long the license of the key is in force, or Community if the key did not
hold during the sleep. If the clock was set in between, no license is in force any longer by then if
the key has failed all the time, and the license of a trusted key is in force if its window was open
all the time. -/
theorem sleep_converges (scheme : Scheme) (trusted : Key.TrustSet) (clock : Timestamp)
    (operations : List Operation) (task : Schedule.Task) :
    let verdict : Verdict := Key.verify scheme trusted
    let site := ((Site.start clock).run verdict operations).1
    site.schedule = [task] →
      HasStarted operations task ∧
      (∀ duration, task.interval ≤ duration →
        let rested := (site.perform verdict (.sleep duration)).1.custody
        (∀ license, verdict task.key site.custody.clock = .ok license → rested.license = license) ∧
        ∀ cause, verdict task.key site.custody.clock = .error cause →
          rested.license = .community) ∧
      ∀ spans : List (Timestamp × Nat), task.interval ≤ (spans.map Prod.snd).sum →
        let rested := (site.run verdict (waiting spans)).1.custody
        ((∀ span ∈ spans, ∃ cause, verdict task.key span.1 = .error cause) →
          rested.license = .community) ∧
        ∀ envelope claims, Key.Envelope.Reads task.key envelope →
          envelope.IsTrusted scheme trusted → Claims.ofBytes envelope.payload = .ok claims →
          (∀ span ∈ spans, claims.Covers span.1) → rested.license = ⟨claims, .verified⟩ := by
  intro verdict site hsingle
  have htask : task ∈ site.schedule := by
    rw [hsingle]
    exact List.mem_cons_self
  have hstarted : ∀ task ∈ site.schedule, HasStarted operations task :=
    hasStarted_run (fun task htask => absurd htask List.not_mem_nil) (fun _ hin => hin)
  obtain ⟨hnow, hsoon⟩ := (isTimely_start clock).run operations task htask
  have hdefault := eq_community_of_isCommunity (onlyGrants_verify scheme trusted) clock operations
  have hrested : ∀ spans : List (Timestamp × Nat), task.interval ≤ (spans.map Prod.snd).sum →
      ∀ expected, (∀ span ∈ spans, licenseAfter (verdict task.key span.1) = expected) →
        (site.run verdict (waiting spans)).1.custody.license = expected := by
    intro spans hlong expected hexpected
    have hawaits : site.Awaits task.key expected (spans.map Prod.snd).sum :=
      ⟨task, hsingle, rfl, .inr ⟨hnow, Nat.le_trans hsoon (Nat.add_le_add_left hlong _), hdefault⟩⟩
    exact (Awaits.run hawaits hexpected).license
  refine ⟨hstarted task htask, ?_, ?_⟩
  · intro duration hlong rested
    have hspan := hrested [(site.custody.clock, duration)] hlong _
      (List.forall_mem_singleton.mpr rfl)
    constructor
    · intro license hverdict
      rw [hverdict] at hspan
      exact hspan
    · intro cause hverdict
      rw [hverdict] at hspan
      exact hspan
  · intro spans hlong rested
    constructor
    · intro hfails
      apply hrested spans hlong
      intro span hspan
      obtain ⟨cause, hverdict⟩ := hfails span hspan
      rw [hverdict]
      rfl
    · intro envelope claims hreads htrusted hclaims hcovers
      apply hrested spans hlong
      intro span hspan
      have hverdict : verdict task.key span.1 = .ok ⟨claims, .verified⟩ :=
        Key.verify_eq_ok_iff.mpr
          ⟨envelope, claims, hreads, htrusted, hclaims, hcovers span hspan, rfl⟩
      rw [hverdict]
      rfl

/-- A site on which a key has been loaded and a task has been started with it. -/
theorem run_startTask (verdict : Verdict) (clock now : Timestamp) (key name : String)
    (interval : Nat) :
    let site := ((Site.start clock).run verdict
      (loading now key ++ [.startTask name key interval])).1
    site.schedule = [Schedule.Task.start name key interval 0] ∧
      site.custody = ((Site.start clock).run verdict (loading now key)).1.custody := by
  intro site
  have hsite : site = (((Site.start clock).run verdict (loading now key)).1.perform verdict
      (.startTask name key interval)).1 := run_append _ _ _ _
  have hschedule : ((Site.start clock).run verdict (loading now key)).1.schedule = [] :=
    schedule_perform verdict _ (.command (.load key))
  have htime : ((Site.start clock).run verdict (loading now key)).1.time = 0 :=
    time_perform verdict _ (.command (.load key))
  rw [hsite, schedule_perform, scheduleAfter, hschedule, htime]
  exact ⟨rfl, rfl⟩

/-- A task is started for the sample with no interval at all, which makes it one second. -/
theorem sleep_converges_sample :
    ∃ verdict key site, verdict = Key.verify Ed25519.scheme Key.sampleTrusted ∧
      key = Key.sampleEnvelope.encode ∧
      site = ((Site.start License.epoch).run verdict
        (loading Key.sampleClaims.issuedAt key ++ [.startTask "nightly" key 0])).1 ∧
      (site.perform verdict (.sleep 1000)).1.custody.license = ⟨Key.sampleClaims, .verified⟩ ∧
      (site.run verdict (waiting
        [(License.endOfTime, 400), (License.endOfTime, 600)])).1.custody.license = .community ∧
      (site.run verdict (waiting [(Key.sampleClaims.issuedAt, 1000)])).1.custody.license =
        ⟨Key.sampleClaims, .verified⟩ := by
  refine ⟨_, _, _, rfl, rfl, rfl, ?_⟩
  have hstart := Key.verify_sampleEnvelope_issuedAt
  have hend := Key.verify_sampleEnvelope_endOfTime
  have htrusted : Key.sampleEnvelope.IsTrusted Ed25519.scheme Key.sampleTrusted :=
    Key.signedEnvelope_isTrusted List.mem_cons_self Key.honors_sampleDocument
  obtain ⟨hschedule, hcustody⟩ := run_startTask (Key.verify Ed25519.scheme Key.sampleTrusted)
    License.epoch Key.sampleClaims.issuedAt Key.sampleEnvelope.encode "nightly" 0
  rw [custody_run_loading License.epoch hstart] at hcustody
  have hspec := sleep_converges Ed25519.scheme Key.sampleTrusted License.epoch
    (loading Key.sampleClaims.issuedAt Key.sampleEnvelope.encode ++
      [.startTask "nightly" Key.sampleEnvelope.encode 0])
    (Schedule.Task.start "nightly" Key.sampleEnvelope.encode 0 0)
  obtain ⟨-, hsleep, hwait⟩ := hspec hschedule
  rw [hcustody] at hsleep
  refine ⟨?_, ?_, ?_⟩
  · exact (hsleep 1000 (by decide)).1 _ hstart
  · apply (hwait [(License.endOfTime, 400), (License.endOfTime, 600)] (by decide)).1
    rintro span (_ | ⟨_, _ | ⟨_, ⟨⟩⟩⟩)
    · exact ⟨_, hend⟩
    · exact ⟨_, hend⟩
  · apply (hwait [(Key.sampleClaims.issuedAt, 1000)] (by decide)).2 _ _
      (Key.Envelope.reads_encode_self Key.sampleEnvelope rfl) htrusted
      (Key.ofBytes_canonicalPayload Key.canonicalPayload_sampleClaims)
    exact List.forall_mem_singleton.mpr (by decide)

end Entitlement.Site
