import Entitlement.Proofs.Ascending
import Entitlement.Proofs.Site.Step

/-! # Followers

Receivers and readers of the feed follow the events of a site, each from a place of its own in the
log. An operation brings at most one follower to the end of the log, and no answer but that of a
follower's own operation depends on its place. So a site on which only some of the followers are
kept does the same as before, and it gives the same answers to everything that is still asked of it.
-/

namespace Entitlement.Site

open Custody

/-- Someone who follows the events of a site. -/
inductive Follower where
  | receiver (name : String)
  /-- A reader of the feed. -/
  | feed (name : String)
  deriving DecidableEq

/-- How much of the log a follower has been given. -/
def place? (site : Site) : Follower → Option Nat
  | .receiver name => site.receivers.get? name
  | .feed name => site.feeds.get? name

/-- The follower that an operation is about. -/
def Operation.follower? : Operation → Option Follower
  | .subscribe name => some (.receiver name)
  | .drain name => some (.receiver name)
  | .request _ feed => feed.map .feed
  | .readFeed name => some (.feed name)
  | _ => none

/-- The follower that an operation brings to the end of the log. -/
def reached? (site : Site) : Operation → Option Follower
  | .subscribe name => some (.receiver name)
  | .drain name => (site.receivers.get? name).map fun _ => .receiver name
  | .request request feed =>
    if (Http.respond site.custody.license request).isOpen then feed.map .feed else none
  | .readFeed name => (site.feeds.get? name).map fun _ => .feed name
  | _ => none

/-- An operation leaves every follower in its place, but for one that it may bring to the end. -/
theorem place?_perform (verdict : Verdict) (site : Site) (operation : Operation)
    (follower : Follower) :
    (site.perform verdict operation).1.place? follower =
      if site.reached? operation = some follower then some site.endOfLog
      else site.place? follower := by
  cases operation with
  | subscribe name =>
      cases follower with
      | receiver other => simp [perform, place?, reached?, Table.get?_set]
      | feed other => simp [perform, place?, reached?]
  | drain name =>
      cases hplace : site.receivers.get? name with
      | none => simp [perform, reached?, hplace]
      | some place =>
          cases follower with
          | receiver other => simp [perform, place?, reached?, hplace, Table.get?_set]
          | feed other => simp [perform, place?, reached?, hplace]
  | readFeed name =>
      cases hplace : site.feeds.get? name with
      | none => simp [perform, reached?, hplace]
      | some place =>
          cases follower with
          | receiver other => simp [perform, place?, reached?, hplace]
          | feed other => simp [perform, place?, reached?, hplace, Table.get?_set]
  | request request feed =>
      cases hopen : (Http.respond site.custody.license request).isOpen with
      | false => cases feed <;> simp [perform, reached?, hopen]
      | true =>
          cases feed with
          | none => simp [perform, reached?, hopen]
          | some name =>
              cases follower with
              | receiver other => simp [perform, place?, reached?, hopen]
              | feed other => simp [perform, place?, reached?, hopen, Table.get?_set]
  | stopTask name =>
      unfold perform
      dsimp only
      split <;> cases follower <;> rfl
  | metered limit usage =>
      unfold perform
      dsimp only
      split <;> cases follower <;> rfl
  | _ => cases follower <;> rfl

/-! ## Sites that agree -/

variable {verdict : Verdict}

/-- Two sites that differ in nothing but in followers that are not kept. -/
structure AgreesOn (kept : Follower → Bool) (site other : Site) : Prop where
  custody : other.custody = site.custody
  time : other.time = site.time
  schedule : other.schedule = site.schedule
  place : ∀ follower, kept follower = true → other.place? follower = site.place? follower

variable {kept : Follower → Bool} {site other : Site}

theorem AgreesOn.refl (kept : Follower → Bool) (site : Site) : site.AgreesOn kept site :=
  ⟨rfl, rfl, rfl, fun _ _ => rfl⟩

/-- The operation is about nobody or about a follower that is kept. -/
def Operation.IsAmong (kept : Follower → Bool) (operation : Operation) : Prop :=
  ∀ follower, operation.follower? = some follower → kept follower = true

theorem AgreesOn.outcome (hagrees : site.AgreesOn kept other) {operation : Operation}
    (hamong : operation.IsAmong kept) :
    (other.perform verdict operation).2 = (site.perform verdict operation).2 := by
  obtain ⟨hcustody, htime, hschedule, hplace⟩ := hagrees
  cases operation with
  | drain name =>
      have hsame : other.receivers.get? name = site.receivers.get? name :=
        hplace (.receiver name) (hamong _ rfl)
      unfold perform
      dsimp only
      rw [hsame]
      cases site.receivers.get? name with
      | none => rfl
      | some place => simp only [pending, hcustody]
  | readFeed name =>
      have hsame : other.feeds.get? name = site.feeds.get? name :=
        hplace (.feed name) (hamong _ rfl)
      unfold perform
      dsimp only
      rw [hsame]
      cases site.feeds.get? name with
      | none => rfl
      | some place => simp only [pending, hcustody]
  | stopTask name =>
      unfold perform
      dsimp only
      rw [hschedule]
      split <;> rfl
  | request request feed =>
      unfold perform
      dsimp only
      rw [hcustody]
      split <;> rfl
  | metered limit usage =>
      unfold perform
      dsimp only
      rw [hcustody]
      split <;> rfl
  | command command => simp only [perform, hcustody]
  | revalidate key commands => simp only [perform, hcustody]
  | gated feature answer => simp only [perform, hcustody]
  | _ => rfl

theorem AgreesOn.symm (hagrees : site.AgreesOn kept other) : other.AgreesOn kept site :=
  ⟨hagrees.custody.symm, hagrees.time.symm, hagrees.schedule.symm,
    fun follower hkept => (hagrees.place follower hkept).symm⟩

theorem AgreesOn.trans {third : Site} (hfirst : site.AgreesOn kept other)
    (hsecond : other.AgreesOn kept third) : site.AgreesOn kept third :=
  ⟨hsecond.custody.trans hfirst.custody, hsecond.time.trans hfirst.time,
    hsecond.schedule.trans hfirst.schedule,
    fun follower hkept => (hsecond.place follower hkept).trans (hfirst.place follower hkept)⟩

theorem follower?_of_reached? {operation : Operation} {follower : Follower}
    (hreached : site.reached? operation = some follower) :
    operation.follower? = some follower := by
  cases operation with
  | subscribe name => exact hreached
  | drain name =>
      obtain ⟨_, -, hfollower⟩ := Option.map_eq_some_iff.mp hreached
      exact congrArg some hfollower
  | readFeed name =>
      obtain ⟨_, -, hfollower⟩ := Option.map_eq_some_iff.mp hreached
      exact congrArg some hfollower
  | request asked feed =>
      change (if _ then feed.map Follower.feed else none) = some follower at hreached
      split at hreached
      next => exact hreached
      next => cases hreached
  | _ => cases hreached

theorem AgreesOn.reached? (hagrees : site.AgreesOn kept other) {operation : Operation}
    (hamong : operation.IsAmong kept) : other.reached? operation = site.reached? operation := by
  cases operation with
  | drain name =>
      have hsame : other.receivers.get? name = site.receivers.get? name :=
        hagrees.place (.receiver name) (hamong _ rfl)
      rw [Site.reached?, Site.reached?, hsame]
  | readFeed name =>
      have hsame : other.feeds.get? name = site.feeds.get? name :=
        hagrees.place (.feed name) (hamong _ rfl)
      rw [Site.reached?, Site.reached?, hsame]
  | request request feed => rw [Site.reached?, Site.reached?, hagrees.custody]
  | _ => rfl

/-- Sites that agree do the same with what is about nobody or about a follower that is kept. -/
theorem AgreesOn.perform (hagrees : site.AgreesOn kept other) {operation : Operation}
    (hamong : operation.IsAmong kept) :
    (site.perform verdict operation).1.AgreesOn kept (other.perform verdict operation).1 := by
  have hsteps : operationSteps verdict other operation = operationSteps verdict site operation := by
    cases operation <;>
      simp only [operationSteps, hagrees.custody, hagrees.time, hagrees.schedule]
  refine ⟨?_, ?_, ?_, ?_⟩
  · rw [custody_perform, custody_perform, hsteps, hagrees.custody]
  · rw [time_perform, time_perform]
    cases operation <;> simp only [timeAfter, hagrees.time]
  · rw [schedule_perform, schedule_perform]
    cases operation <;> simp only [scheduleAfter, hagrees.time, hagrees.schedule]
  · intro follower hkept
    rw [place?_perform, place?_perform, hagrees.reached? hamong, hagrees.place follower hkept,
      endOfLog, endOfLog, hagrees.custody]

/-- Whether an operation leaves the license, its clock, the events and the tasks alone. -/
def Operation.isPassive : Operation → Bool
  | .subscribe _ | .drain _ | .request _ _ | .readFeed _ | .gated _ _ | .metered _ _ => true
  | _ => false

theorem isPassive_of_follower? {operation : Operation} {own : Follower}
    (hown : operation.follower? = some own) : operation.isPassive = true := by
  cases operation <;> first | rfl | cases hown

theorem custody_of_isPassive {operation : Operation} (hpassive : operation.isPassive = true) :
    (site.perform verdict operation).1.custody = site.custody := by
  rw [custody_perform]
  cases operation <;> first | rfl | cases hpassive

/-- A passive operation changes nothing but the place of the follower that it is about. -/
theorem agreesOn_perform {operation : Operation} (hpassive : operation.isPassive = true)
    (hleft : ∀ own, operation.follower? = some own → kept own = false) :
    site.AgreesOn kept (site.perform verdict operation).1 := by
  refine ⟨custody_of_isPassive hpassive, ?_, ?_, ?_⟩
  · rw [time_perform]
    cases operation <;> first | rfl | cases hpassive
  · rw [schedule_perform]
    cases operation <;> first | rfl | cases hpassive
  · intro follower hkept
    rw [place?_perform, if_neg]
    intro hreached
    rw [hleft follower (follower?_of_reached? hreached)] at hkept
    cases hkept

/-- Operations that are about nobody or about followers that are kept are answered alike by sites
that agree. -/
theorem AgreesOn.run (hagrees : site.AgreesOn kept other) {operations : List Operation}
    (hamong : ∀ operation ∈ operations, operation.IsAmong kept) :
    (site.run verdict operations).1.AgreesOn kept (other.run verdict operations).1 ∧
      (other.run verdict operations).2 = (site.run verdict operations).2 := by
  induction operations generalizing site other with
  | nil => exact ⟨hagrees, rfl⟩
  | cons operation operations ih =>
      obtain ⟨hfirst, hmore⟩ := List.forall_mem_cons.mp hamong
      obtain ⟨hlast, houtcomes⟩ := ih (hagrees.perform hfirst) hmore
      exact ⟨hlast, congrArg₂ List.cons (hagrees.outcome hfirst) houtcomes⟩

/-! ## Leaving followers out -/

/-- What is left of an operation that is about a follower without that follower. A request is still
to be answered. -/
def Operation.withoutFollower? : Operation → Option Operation
  | .request asked _ => some (.request asked none)
  | _ => none

/-- What is left of an operation where only some followers are kept. -/
def Operation.keeping (kept : Follower → Bool) (operation : Operation) : Option Operation :=
  if operation.follower?.all kept then some operation else operation.withoutFollower?

/-- The outcomes of the operations of which something is left. -/
def keptOutcomes (kept : Follower → Bool) (operations : List Operation) (outcomes : List Outcome) :
    List Outcome :=
  (operations.zip outcomes).filterMap fun (operation, outcome) =>
    (operation.keeping kept).map fun _ => outcome

theorem keeping_of_isAmong {operation : Operation} (hamong : operation.IsAmong kept) :
    operation.keeping kept = some operation :=
  if_pos ((Option.all_eq_true _ _).mpr hamong)

theorem keeping_of_not_isAmong {operation : Operation} (hamong : ¬ operation.IsAmong kept) :
    operation.keeping kept = operation.withoutFollower? :=
  if_neg (mt (Option.all_eq_true _ _).mp hamong)

theorem exists_of_not_isAmong {operation : Operation} (hamong : ¬ operation.IsAmong kept) :
    ∃ own, operation.follower? = some own ∧ kept own = false := by
  apply Classical.byContradiction
  intro hnone
  apply hamong
  intro own hown
  cases hkept : kept own with
  | true => rfl
  | false => exact absurd ⟨own, hown, hkept⟩ hnone

/-- What is left of an operation does as much to the followers that are kept, and is answered
alike. -/
theorem AgreesOn.keeping (hagrees : site.AgreesOn kept other) (operation : Operation) :
    (∀ left, operation.keeping kept = some left →
      (site.perform verdict operation).1.AgreesOn kept (other.perform verdict left).1 ∧
        (other.perform verdict left).2 = (site.perform verdict operation).2) ∧
    (operation.keeping kept = none →
      (site.perform verdict operation).1.AgreesOn kept other) := by
  by_cases hamong : operation.IsAmong kept
  · rw [keeping_of_isAmong hamong]
    refine ⟨?_, fun hnone => absurd hnone (Option.some_ne_none _)⟩
    rintro left ⟨⟩
    exact ⟨hagrees.perform hamong, hagrees.outcome hamong⟩
  · obtain ⟨own, hown, hleft⟩ := exists_of_not_isAmong hamong
    have hskip : (site.perform verdict operation).1.AgreesOn kept other :=
      (agreesOn_perform (isPassive_of_follower? hown) fun other hother =>
        Option.some.inj (hown.symm.trans hother) ▸ hleft).symm.trans hagrees
    rw [keeping_of_not_isAmong hamong]
    refine ⟨?_, fun _ => hskip⟩
    -- Only a request leaves anything to be done, and that is about nobody.
    cases operation with
    | request asked feed =>
        rintro left ⟨⟩
        refine ⟨hskip, ?_⟩
        have hcustody := hagrees.custody
        unfold Site.perform
        dsimp only
        rw [hcustody]
        split <;> rfl
    | _ => exact fun left hnone => absurd hnone (Option.some_ne_none left).symm

/-- A site on which only some followers are kept gives the same answers to what is left to be
done. -/
theorem AgreesOn.run_keeping (hagrees : site.AgreesOn kept other) (operations : List Operation) :
    (site.run verdict operations).1.AgreesOn kept
        (other.run verdict (operations.filterMap (·.keeping kept))).1 ∧
      (other.run verdict (operations.filterMap (·.keeping kept))).2 =
        keptOutcomes kept operations (site.run verdict operations).2 := by
  induction operations generalizing site other with
  | nil => exact ⟨hagrees, rfl⟩
  | cons operation operations ih =>
      obtain ⟨hsome, hnone⟩ := @AgreesOn.keeping verdict _ _ _ hagrees operation
      rw [run_cons]
      cases hleft : operation.keeping kept with
      | none =>
          obtain ⟨hlast, houtcomes⟩ := ih (hnone hleft)
          rw [List.filterMap_cons_none hleft]
          refine ⟨hlast, houtcomes.trans ?_⟩
          simp [keptOutcomes, hleft]
      | some left =>
          obtain ⟨hnext, houtcome⟩ := hsome left hleft
          obtain ⟨hlast, houtcomes⟩ := ih hnext
          rw [List.filterMap_cons_some hleft, run_cons]
          refine ⟨hlast, ?_⟩
          simp [keptOutcomes, hleft, houtcome, houtcomes]

end Entitlement.Site
