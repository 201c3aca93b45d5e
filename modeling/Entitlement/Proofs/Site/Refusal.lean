import Entitlement.Proofs.Calendar.Range
import Entitlement.Proofs.Custody.Overtaking
import Entitlement.Proofs.Site.Sleep

/-! # Refused commands

A key that does not hold is not loaded, and the clock is not moved to where the calendar does not
reach. Either command is refused with a reply that says why, and nothing else comes of it. So a
refused command may stand anywhere among the operations, or among the commands that overtake a
check, and it might as well not stand there: all the other answers are the same without it.
-/

namespace Entitlement.Custody

open Calendar

/-- The commands that a custody refuses, with the reply. -/
inductive Refuses (verdict : Verdict) (c : Custody) : Command → Reply → Prop where
  | load {key : String} {cause : Key.VerificationError}
      (hverdict : verdict key c.clock = .error cause) :
      Refuses verdict c (.load key) (.rejected cause)
  /-- The calendar has no timestamp that lies so much later and has the same offset. -/
  | advanceClock {nanos : Int}
      (hbeyond : ∀ moved : Timestamp,
        moved.offset = c.clock.offset → moved.instant ≠ c.clock.instant + nanos) :
      Refuses verdict c (.advanceClock nanos) .beyondCalendar

variable {verdict : Verdict} {c : Custody} {command : Command} {reply : Reply}

theorem Refuses.execute_eq (hrefused : Refuses verdict c command reply) :
    c.execute verdict command = (c, reply) := by
  cases hrefused with
  | load hverdict =>
      unfold execute
      dsimp only
      rw [load_of_error hverdict]
  | advanceClock hbeyond =>
      unfold execute
      dsimp only
      rw [Timestamp.addNanos?_eq_none_iff.mpr hbeyond]

theorem executeAll_cons (verdict : Verdict) (c : Custody) (command : Command)
    (more : List Command) :
    c.executeAll verdict (command :: more) =
      (((c.execute verdict command).1.executeAll verdict more).1,
        (c.execute verdict command).2 ::
          ((c.execute verdict command).1.executeAll verdict more).2) :=
  rfl

theorem executeAll_append (verdict : Verdict) (c : Custody) (commands more : List Command) :
    c.executeAll verdict (commands ++ more) =
      (((c.executeAll verdict commands).1.executeAll verdict more).1,
        (c.executeAll verdict commands).2 ++
          ((c.executeAll verdict commands).1.executeAll verdict more).2) := by
  induction commands generalizing c with
  | nil => rfl
  | cons command commands ih =>
      rw [List.cons_append, executeAll_cons, ih]
      rfl

theorem length_executeAll (verdict : Verdict) (c : Custody) (commands : List Command) :
    (c.executeAll verdict commands).2.length = commands.length := by
  induction commands generalizing c with
  | nil => rfl
  | cons command commands ih => exact congrArg (· + 1) (ih _)

/-- A command that is refused is answered, and makes no difference to the commands after it. -/
theorem executeAll_refused {earlier : List Command}
    (hrefused : Refuses verdict (c.executeAll verdict earlier).1 command reply)
    (later : List Command) :
    c.executeAll verdict (earlier ++ command :: later) =
      (((c.executeAll verdict earlier).1.executeAll verdict later).1,
        (c.executeAll verdict earlier).2 ++
          reply :: ((c.executeAll verdict earlier).1.executeAll verdict later).2) := by
  rw [executeAll_append, executeAll_cons, hrefused.execute_eq]

/-- A check is settled alike whether a command that is refused has overtaken it or not. -/
theorem revalidateDuring_refused {earlier : List Command}
    (hrefused : Refuses verdict (c.executeAll verdict earlier).1 command reply) (key : String)
    (later : List Command) :
    ∃ left replies more revalidation,
      replies.length = earlier.length ∧
      c.revalidateDuring verdict key (earlier ++ later) = (left, replies ++ more, revalidation) ∧
      c.revalidateDuring verdict key (earlier ++ command :: later) =
        (left, replies ++ reply :: more, revalidation) := by
  have hwithout := @revalidateDuring_eq verdict c key (earlier ++ later)
  have hwith := @revalidateDuring_eq verdict c key (earlier ++ command :: later)
  rw [executeAll_append] at hwithout
  rw [executeAll_refused hrefused] at hwith
  exact ⟨_, _, _, _, length_executeAll verdict c earlier, hwithout, hwith⟩

end Entitlement.Custody

namespace Entitlement.Site

open Calendar Custody Grant Signature

variable {verdict : Verdict} {site : Site} {command : Command} {reply : Reply}

theorem length_run (verdict : Verdict) (site : Site) (operations : List Operation) :
    (site.run verdict operations).2.length = operations.length := by
  induction operations generalizing site with
  | nil => rfl
  | cons operation more ih => exact congrArg (· + 1) (ih _)

theorem run_append_eq (verdict : Verdict) (site : Site) (operations more : List Operation) :
    site.run verdict (operations ++ more) =
      (((site.run verdict operations).1.run verdict more).1,
        (site.run verdict operations).2 ++ ((site.run verdict operations).1.run verdict more).2) :=
  Prod.ext (run_append verdict site operations more) (run_append_snd verdict site operations more)

theorem perform_refused (hrefused : Refuses verdict site.custody command reply) :
    site.perform verdict (.command command) = (site, .reply reply) := by
  unfold perform
  dsimp only
  rw [hrefused.execute_eq]

/-- A command that is refused is answered, and makes no difference to the operations after it. -/
theorem run_refused (hrefused : Refuses verdict site.custody command reply)
    (after : List Operation) :
    site.run verdict (.command command :: after) =
      ((site.run verdict after).1, .reply reply :: (site.run verdict after).2) := by
  rw [run_cons, perform_refused hrefused]

theorem perform_revalidate_refused {earlier : List Command}
    (hrefused : Refuses verdict (site.custody.executeAll verdict earlier).1 command reply)
    (key : String) (later : List Command) :
    ∃ left replies more revalidation,
      replies.length = earlier.length ∧
      site.perform verdict (.revalidate key (earlier ++ later)) =
        (left, .revalidated (replies ++ more) revalidation) ∧
      site.perform verdict (.revalidate key (earlier ++ command :: later)) =
        (left, .revalidated (replies ++ reply :: more) revalidation) := by
  obtain ⟨left, replies, more, revalidation, hlength, hwithout, hwith⟩ :=
    revalidateDuring_refused hrefused key later
  refine ⟨{ site with custody := left }, replies, more, revalidation, hlength, ?_, ?_⟩
  · unfold perform
    dsimp only
    rw [hwithout]
  · unfold perform
    dsimp only
    rw [hwith]

/-! ## The result -/

/-- A key that does not hold is refused by a load with the very cause that verification gives, and a
change of the clock is refused if the calendar does not reach that far. A refused command leaves the
site as it is. In any run it may be left out, wherever it stands: among the operations, among the
commands that overtake a check, or while time passes. The run ends in the same site, all the other
answers are the same, and the check comes to the same end. -/
theorem refusals_leave_no_trace (scheme : Scheme) (trusted : Key.TrustSet) (clock : Timestamp)
    (before after : List Operation) :
    let verdict : Verdict := Key.verify scheme trusted
    let origin := Site.start clock
    let site := (origin.run verdict before).1
    (∀ command reply, Refuses verdict site.custody command reply →
      site.perform verdict (.command command) = (site, .reply reply) ∧
      ∃ last answers further,
        answers.length = before.length ∧
        origin.run verdict (before ++ after) = (last, answers ++ further) ∧
        origin.run verdict (before ++ .command command :: after) =
          (last, answers ++ .reply reply :: further)) ∧
    (∀ key earlier later command reply,
      Refuses verdict (site.custody.executeAll verdict earlier).1 command reply →
      ∃ last answers replies more revalidation further,
        answers.length = before.length ∧ replies.length = earlier.length ∧
        origin.run verdict (before ++ .revalidate key (earlier ++ later) :: after) =
          (last, answers ++ .revalidated (replies ++ more) revalidation :: further) ∧
        origin.run verdict (before ++ .revalidate key (earlier ++ command :: later) :: after) =
          (last, answers ++ .revalidated (replies ++ reply :: more) revalidation :: further)) ∧
    ∀ a b command reply,
      Refuses verdict (site.perform verdict (.sleep a)).1.custody command reply →
      ∃ last answers further,
        answers.length = before.length ∧
        origin.run verdict (before ++ .sleep (a + b) :: after) =
          (last, answers ++ .done :: further) ∧
        origin.run verdict (before ++ .sleep a :: .command command :: .sleep b :: after) =
          (last, answers ++ .done :: .reply reply :: .done :: further) := by
  intro verdict origin site
  have hanswers := length_run verdict origin before
  refine ⟨fun command reply hrefused => ⟨perform_refused hrefused, ?_⟩,
    fun key earlier later command reply hrefused => ?_, fun a b command reply hrefused => ?_⟩
  · have hwithout := run_append_eq verdict origin before after
    have hwith := run_append_eq verdict origin before (.command command :: after)
    rw [run_refused hrefused] at hwith
    exact ⟨_, _, _, hanswers, hwithout, hwith⟩
  · obtain ⟨left, replies, more, revalidation, hreplies, hcheck, hovertaken⟩ :=
      perform_revalidate_refused hrefused key later
    have hwithout :=
      run_append_eq verdict origin before (.revalidate key (earlier ++ later) :: after)
    have hwith :=
      run_append_eq verdict origin before (.revalidate key (earlier ++ command :: later) :: after)
    rw [run_cons, hcheck] at hwithout
    rw [run_cons, hovertaken] at hwith
    exact ⟨_, _, _, _, _, _, hanswers, hreplies, hwithout, hwith⟩
  · have hwithout := run_append_eq verdict origin before (.sleep (a + b) :: after)
    have hwith :=
      run_append_eq verdict origin before (.sleep a :: .command command :: .sleep b :: after)
    rw [run_cons, ← (sleep_sleep verdict site a b).1] at hwithout
    rw [run_cons, run_refused hrefused, run_cons] at hwith
    exact ⟨_, _, _, hanswers, hwithout, hwith⟩

/-- The sample expires while it is checked. Loading it once more is refused then, and does not keep
the check from its end. And the clock cannot be moved by ten thousand years. -/
theorem refusals_leave_no_trace_sample :
    ∃ verdict key origin site, verdict = Key.verify Ed25519.scheme Key.sampleTrusted ∧
      key = Key.sampleEnvelope.encode ∧ origin = Site.start License.epoch ∧
      site = (origin.run verdict (loading Key.sampleClaims.issuedAt key)).1 ∧
      site.perform verdict (.command (.advanceClock (10000 * 31556952 * 1000000000))) =
        (site, .reply .beyondCalendar) ∧
      ∃ last answers replies more revalidation further,
        answers.length = 2 ∧ replies.length = 1 ∧
        origin.run verdict (loading Key.sampleClaims.issuedAt key ++
            [.revalidate key [.setClock License.endOfTime, .tier]]) =
          (last, answers ++ .revalidated (replies ++ more) revalidation :: further) ∧
        origin.run verdict (loading Key.sampleClaims.issuedAt key ++
            [.revalidate key [.setClock License.endOfTime, .load key, .tier]]) =
          (last, answers ++ .revalidated
            (replies ++ .rejected (.expired Key.sampleClaims.expiresAt) :: more) revalidation ::
              further) := by
  refine ⟨_, _, _, _, rfl, rfl, rfl, rfl, ?_⟩
  have hstart := Key.verify_sampleEnvelope_issuedAt
  have hend := Key.verify_sampleEnvelope_endOfTime
  have hheld := custody_run_loading License.epoch hstart
  have hbeyond : Key.sampleClaims.issuedAt.addNanos? (10000 * 31556952 * 1000000000) = none := by
    decide
  obtain ⟨hrefusals, hchecks, -⟩ := refusals_leave_no_trace Ed25519.scheme Key.sampleTrusted
    License.epoch (loading Key.sampleClaims.issuedAt Key.sampleEnvelope.encode) []
  -- The argument needs only what the verdicts are, and must not evaluate them.
  generalize Key.verify Ed25519.scheme Key.sampleTrusted = verdict at *
  generalize Key.sampleEnvelope.encode = key at *
  generalize Key.sampleClaims = claims at *
  generalize License.endOfTime = later at *
  constructor
  · apply (hrefusals _ _ (.advanceClock _)).1
    rw [hheld]
    exact Timestamp.addNanos?_eq_none_iff.mp hbeyond
  · apply hchecks key [.setClock later] [.tier] _ _ (.load _)
    rw [hheld]
    exact hend

end Entitlement.Site
