import Entitlement.Proofs.Custody.Overtaking
import Entitlement.Proofs.Custody.Replay
import Entitlement.Proofs.Key.Spelling
import Entitlement.Proofs.Site.Convergence
import Entitlement.Proofs.Site.Provenance

/-! # What a failed check takes away

A check remembers the license that was in force when it started, and not the key that the license
came from. If its own key fails, it takes that very license away, whichever key that had come from.
So a license is only safe from the failures of other keys where there are none.
-/

namespace Entitlement.Site

open Calendar Custody Grant Signature

variable {verdict : Verdict}

/-! ## Snapshots -/

theorem snapshot_of_recheckSteps {runs : List Schedule.Run} {c : Custody} {before after : List Step}
    {key : String} {snapshot : Snapshot}
    (hsteps : recheckSteps verdict runs c = before ++ .settle key snapshot :: after) :
    snapshot = (c.steps verdict before).snapshot := by
  induction runs generalizing c before with
  | nil =>
      rw [recheckSteps] at hsteps
      exact absurd hsteps.symm parts_ne_nil
  | cons run runs ih =>
      cases before with
      | nil =>
          cases hsteps
          rfl
      | cons step before =>
          obtain ⟨rfl, hmore⟩ := List.cons.inj hsteps
          have hrest := ih hmore
          exact hrest

/-- A check is settled with the snapshot of an earlier moment of its operation. -/
theorem snapshot_of_operationSteps {site : Site} {operation : Operation} {before after : List Step}
    {key : String} {snapshot : Snapshot}
    (hsteps : operationSteps verdict site operation = before ++ .settle key snapshot :: after) :
    ∃ early, early <+: before ∧ snapshot = (site.custody.steps verdict early).snapshot := by
  have hsettle : Step.settle key snapshot ∈ operationSteps verdict site operation := by
    rw [hsteps]
    exact List.mem_append_right _ List.mem_cons_self
  cases operation with
  | command command => cases List.mem_singleton.mp hsettle
  | revalidate checked commands =>
      rcases List.mem_append.mp hsettle with hcommand | hlast
      · obtain ⟨_, -, hcommand⟩ := List.mem_map.mp hcommand
        cases hcommand
      · cases List.mem_singleton.mp hlast
        exact ⟨[], List.nil_prefix, rfl⟩
  | sleep duration => exact ⟨before, List.prefix_rfl, snapshot_of_recheckSteps hsteps⟩
  | jump duration => exact ⟨before, List.prefix_rfl, snapshot_of_recheckSteps hsteps⟩
  | _ => exact absurd hsettle List.not_mem_nil

/-- A check is settled with the snapshot of an earlier moment of the run. -/
theorem snapshot_of_runSteps {site : Site} {operations : List Operation} {before after : List Step}
    {key : String} {snapshot : Snapshot}
    (hsteps : runSteps verdict site operations = before ++ .settle key snapshot :: after) :
    ∃ early, early <+: before ∧ snapshot = (site.custody.steps verdict early).snapshot := by
  induction operations generalizing site before with
  | nil =>
      rw [runSteps] at hsteps
      exact absurd hsteps.symm parts_ne_nil
  | cons operation operations ih =>
      rcases mem_parts hsteps with ⟨middle, hnow⟩ | ⟨middle, rfl, hlater⟩
      · exact snapshot_of_operationSteps hnow
      · obtain ⟨early, hearly, hsnapshot⟩ := ih hlater
        refine ⟨operationSteps verdict site operation ++ early,
          (List.prefix_append_right_inj _).mpr hearly, ?_⟩
        rw [steps_append, ← custody_perform]
        exact hsnapshot

/-- What can be taken away is the very license of the snapshot. -/
theorem license_of_isDroppable {c : Custody} {before : List Step} {snapshot : Snapshot}
    (hsnapshot : ∃ early, early <+: before ∧ snapshot = (c.steps verdict early).snapshot)
    (hdrop : (c.steps verdict before).isDroppable snapshot = true) :
    (c.steps verdict before).license = snapshot.license := by
  obtain ⟨early, ⟨since, rfl⟩, rfl⟩ := hsnapshot
  rw [steps_append] at hdrop ⊢
  rw [isDroppable_steps, Bool.and_eq_true, Bool.not_eq_true', Bool.not_eq_true'] at hdrop
  exact (steps_of_not_isReplacedBy hdrop.2).2

/-! ## Demotions -/

theorem settle_demoted_iff {c : Custody} {key : String} {snapshot : Snapshot}
    {cause : Key.VerificationError} :
    (c.settle verdict key snapshot).2 = .demoted cause ↔
      verdict key c.clock = .error cause ∧ c.isDroppable snapshot = true := by
  cases hverdict : verdict key c.clock with
  | ok license => simp [settle_of_ok hverdict]
  | error reason =>
      cases hdrop : c.isDroppable snapshot with
      | true => simp [settle_of_isDroppable hverdict hdrop]
      | false => simp [settle_of_not_isDroppable hverdict hdrop]

/-- What a failed check does at any moment of a run. It demotes exactly if a license other than
Community is in force and has not been replaced since the snapshot of the check. Then Community
comes in the place of that very license, which some check of some key that had been handed over
gave. That key need not be the one that has failed; it is if no other key has been handed over at
all. -/
theorem settle_demotes (scheme : Scheme) (trusted : Key.TrustSet) (clock : Timestamp)
    (operations : List Operation) {before after : List Step} {key : String} {snapshot : Snapshot}
    (hmoments : runSteps (Key.verify scheme trusted) (Site.start clock) operations =
      before ++ .settle key snapshot :: after) :
    let verdict : Verdict := Key.verify scheme trusted
    let books := (Account.start clock).steps verdict before
    let held := books.custody
    let result := held.settle verdict key snapshot
    (∀ cause, result.2 = .demoted cause ↔ verdict key held.clock = .error cause ∧
      held.license.isCommunity = false ∧ held.installation = snapshot.installation) ∧
    ∀ cause, result.2 = .demoted cause →
      result.1.license = .community ∧ held.license = snapshot.license ∧
      ∃ check ∈ books.checks, books.source = .verified check ∧
        check.key ∈ operations.flatMap Operation.keys ∧
        verdict check.key check.reading = .ok held.license ∧
        ((∀ other ∈ operations.flatMap Operation.keys, Text.trim other = Text.trim key) →
          Text.trim check.key = Text.trim key) := by
  intro verdict books held result
  refine ⟨fun cause => ?_, fun cause hdemoted => ?_⟩
  · rw [settle_demoted_iff]
    simp [isDroppable]
  · obtain ⟨hverdict, hdrop⟩ := settle_demoted_iff.mp hdemoted
    have hheld : held = (Custody.start clock).steps verdict before := Account.custody_steps _ _ _
    have hbefore : before <+: runSteps verdict (Site.start clock) operations :=
      ⟨_, hmoments.symm⟩
    refine ⟨?_, ?_, ?_⟩
    · change (held.settle verdict key snapshot).1.license = _
      rw [settle_of_isDroppable hverdict hdrop]
      rfl
    · rw [hheld] at hdrop ⊢
      exact license_of_isDroppable (snapshot_of_runSteps hmoments) hdrop
    · cases hsource : books.source with
      | community =>
          -- Community cannot be taken away.
          have hgives := ((Account.isRight_start verdict clock).steps before).gives
          change books.source.Gives verdict held.license at hgives
          rw [hsource] at hgives
          have hcommunity : held.license = .community := hgives
          rw [isDroppable, hcommunity] at hdrop
          cases hdrop
      | verified check =>
          obtain ⟨hmade, hkey, hgave⟩ := check_of_source hbefore hsource
          exact ⟨check, hmade, rfl, hkey, hgave, fun hsame => hsame _ hkey⟩

/-- The moment at which a check comes to its end during which time has gone on. -/
theorem moment_expiring {now : Timestamp} {key : String} {license : License}
    (clock later : Timestamp) (hstart : verdict key now = .ok license) :
    ∃ before snapshot, runSteps verdict (Site.start clock)
        (loading now key ++ [.revalidate key [.setClock later]]) =
          before ++ [.settle key snapshot] ∧
      snapshot.license = license ∧
      ((Account.start clock).steps verdict before).custody.clock = later ∧
      ((Account.start clock).steps verdict before).custody.license = license ∧
      ((Account.start clock).steps verdict before).custody.installation =
        snapshot.installation := by
  have hheld := custody_run_loading clock hstart
  refine ⟨[.command (.setClock now), .command (.load key), .command (.setClock later)],
    ((Site.start clock).run verdict (loading now key)).1.custody.snapshot, rfl, ?_⟩
  have hcustody : ((Account.start clock).steps verdict [.command (.setClock now),
      .command (.load key), .command (.setClock later)]).custody =
    { ((Site.start clock).run verdict (loading now key)).1.custody with clock := later } := rfl
  rw [hcustody, hheld]
  exact ⟨rfl, rfl, rfl, rfl⟩

/-- The sample is loaded and expires while it is checked, so it is the sample that is taken away. -/
theorem settle_demotes_sample :
    ∃ verdict key before snapshot, verdict = Key.verify Ed25519.scheme Key.sampleTrusted ∧
      key = Key.sampleEnvelope.encode ∧
      runSteps verdict (Site.start License.epoch) (loading Key.sampleClaims.issuedAt key ++
        [.revalidate key [.setClock License.endOfTime]]) = before ++ [.settle key snapshot] ∧
      snapshot.license = ⟨Key.sampleClaims, .verified⟩ ∧
      (((Account.start License.epoch).steps verdict before).custody.settle verdict key snapshot).2 =
        .demoted (.expired Key.sampleClaims.expiresAt) ∧
      (((Account.start License.epoch).steps verdict before).custody.settle
        verdict key snapshot).1.license = .community := by
  have hstart := Key.verify_sampleEnvelope_issuedAt
  have hend := Key.verify_sampleEnvelope_endOfTime
  obtain ⟨before, snapshot, hmoments, hsnapshot, hclock, hlicense, hinstallation⟩ :=
    moment_expiring License.epoch License.endOfTime hstart
  obtain ⟨hiff, hdropped⟩ := settle_demotes _ _ _ _ hmoments
  have hdemoted := (hiff (.expired Key.sampleClaims.expiresAt)).mpr
    ⟨by rw [hclock]; exact hend, by rw [hlicense]; rfl, hinstallation⟩
  exact ⟨_, _, before, snapshot, rfl, rfl, hmoments, hsnapshot, hdemoted, (hdropped _ hdemoted).1⟩

/-! ## Two keys -/

/-- Claims of the same customer under another id, which do not expire with the sample. -/
def lastingClaims : Claims :=
  { Key.sampleClaims with id := "b", expiresAt := License.endOfTime }

/-- The members of the lasting claims in the order of their canonical document. -/
def lastingMembers : List Json.Member :=
  [("customer_id", "\"c\""), ("customer_name", "\"é\""), ("email", "\"\""),
    ("expires_at", "\"9999-12-31T23:59:59Z\""), ("features", "[\"scim\"]"), ("id", "\"b\""),
    ("issued_at", "\"2026-02-01T09:30:15.123456789-05:30\""),
    ("limits", "\x7b\"seats\":9007199254740991\x7d"), ("metadata", "\x7b\"\\\"\":\"\\t\"\x7d"),
    ("tier", "\"pro\""), ("type", "\"trial\"")]

theorem canonicalPayload_lastingClaims :
    Key.canonicalPayload lastingClaims = .ok (Text.bytes (Json.object lastingMembers)) := by
  have hlimits : Claims.writeLimits Json.canonicalOrder lastingClaims.limits =
      "\x7b\"seats\":9007199254740991\x7d" := Key.writeLimits_sampleClaims
  have hmetadata : Claims.writeMetadata Json.canonicalOrder lastingClaims.metadata =
      "\x7b\"\\\"\":\"\\t\"\x7d" := Key.writeMetadata_sampleClaims
  refine Key.canonicalPayload_of_ordered "2026-02-01T09:30:15.123456789-05:30"
    "9999-12-31T23:59:59Z" lastingMembers (by decide) (by decide)
    (by decide) (by decide) ?_ (by decide) rfl
  rw [Claims.members, hlimits, hmetadata]
  decide

/-- The envelope of the lasting claims. -/
def lastingEnvelope : Key.Envelope :=
  Key.signedEnvelope Ed25519.scheme Key.sampleSecret (Text.bytes (Json.object lastingMembers))

theorem verify_lastingEnvelope (now : Timestamp) (hstarted : lastingClaims.issuedAt ≤ now)
    (hrunning : ¬ License.endOfTime ≤ now) :
    Key.verify Ed25519.scheme Key.sampleTrusted lastingEnvelope.encode now =
      .ok ⟨lastingClaims, .verified⟩ := by
  have hhonors : Ed25519.scheme.Honors Key.sampleSecret
      (Text.bytes (Json.object lastingMembers)) := by
    decide +kernel
  exact (Key.verify_signedEnvelope canonicalPayload_lastingClaims hhonors List.mem_cons_self
    hstarted).trans (if_neg hrunning)

section Stale

variable {old new : String} {now later : Timestamp} {first second : License}
  {cause : Key.VerificationError}

/-- A key is loaded, a task is started with it, and another key is loaded in its place. Time goes
on. -/
def superseding (now later : Timestamp) (old new : String) : List Operation :=
  loading now old ++
    [.startTask "nightly" old 60000, .command (.load new), .command (.setClock later)]

theorem custody_superseding (clock : Timestamp) (hold : verdict old now = .ok first)
    (hnew : verdict new now = .ok second) :
    ((Site.start clock).run verdict (superseding now later old new)).1.custody =
      { (({ Custody.start clock with clock := now } : Custody).announce first).announce second with
        clock := later } := by
  have hsteps : runSteps verdict (Site.start clock) (superseding now later old new) =
      [.command (.setClock now), .command (.load old), .command (.load new),
        .command (.setClock later)] := rfl
  rw [custody_run, hsteps]
  simp [steps, Custody.step, execute_fst, load, hold, hnew, announce, install, emit, Site.start]

theorem source_superseding (clock : Timestamp) (hold : verdict old now = .ok first)
    (hnew : verdict new now = .ok second) :
    (account verdict clock (superseding now later old new)).source = .verified ⟨new, now⟩ := by
  have hsteps : runSteps verdict (Site.start clock) (superseding now later old new) =
      [.command (.setClock now), .command (.load old), .command (.load new),
        .command (.setClock later)] := rfl
  rw [account, hsteps]
  simp [Account.steps, Account.step, Account.start, replacement?, Custody.step, execute_fst, load,
    hold, hnew, announce, install, emit]

/-- A check of the old key takes the new license away, be it asked for or made by the task. -/
theorem license_superseding (clock : Timestamp) (hold : verdict old now = .ok first)
    (hnew : verdict new now = .ok second) (hgrant : second.isCommunity = false)
    (hfails : verdict old later = .error cause) :
    let site := ((Site.start clock).run verdict (superseding now later old new)).1
    site.custody.license = second ∧ (site.custody.revalidate verdict old).2 = .demoted cause ∧
      (site.perform verdict (.sleep 60000)).1.custody.license = .community := by
  intro site
  have hcustody : site.custody = _ := custody_superseding clock hold hnew
  have hlicense : site.custody.license = second := by
    rw [hcustody]
    rfl
  have hclock : site.custody.clock = later := by rw [hcustody]
  have hawaits : site.Awaits old .community (60000 + 0) := by
    have htime : site.time = 0 := rfl
    have hdue : (Schedule.Task.start "nightly" old 60000 0).due = 60000 := rfl
    refine ⟨.start "nightly" old 60000 0, rfl, rfl, .inr ⟨?_, ?_, ?_⟩⟩
    · rw [htime, hdue]
      decide
    · rw [htime, hdue]
    · intro hcommunity
      rw [hlicense, hgrant] at hcommunity
      cases hcommunity
  have hrested : (site.run verdict (waiting [(site.custody.clock, 60000)])).1.Awaits old
      .community 0 := by
    apply hawaits.rest
    rw [hclock, hfails]
    rfl
  refine ⟨hlicense, ?_, hrested.license⟩
  rw [revalidate, settle_demoted_iff, hclock]
  refine ⟨hfails, ?_⟩
  rw [isDroppable, hlicense, hgrant]
  exact beq_self_eq_true _

end Stale

/-- Two keys of which the older one has expired and the newer one has not. The newer license is in
force, a check of its own key gave it, and its key still holds. All the same a check of the older
key takes it away. -/
theorem stale_check_takes_newer :
    ∃ verdict older newer later site, verdict = Key.verify Ed25519.scheme Key.sampleTrusted ∧
      older = Key.sampleEnvelope.encode ∧ newer = lastingEnvelope.encode ∧
      Text.trim older ≠ Text.trim newer ∧ later = Key.sampleClaims.expiresAt ∧
      site = ((Site.start License.epoch).run verdict
        (superseding Key.sampleClaims.issuedAt later older newer)).1 ∧
      (account verdict License.epoch
        (superseding Key.sampleClaims.issuedAt later older newer)).source =
          .verified ⟨newer, Key.sampleClaims.issuedAt⟩ ∧
      site.custody.license = ⟨lastingClaims, .verified⟩ ∧
      verdict newer later = .ok ⟨lastingClaims, .verified⟩ ∧
      (site.custody.revalidate verdict older).2 = .demoted (.expired later) ∧
      (site.perform verdict (.sleep 60000)).1.custody.license = .community := by
  have hold := Key.verify_sampleEnvelope_issuedAt
  have hstarted : Key.sampleClaims.issuedAt ≤ Key.sampleClaims.expiresAt := by decide
  have hexpired := (Key.verify_sampleEnvelope hstarted).trans (if_pos (by decide))
  have hloaded := verify_lastingEnvelope Key.sampleClaims.issuedAt (by decide)
    (by decide)
  have hvalid := verify_lastingEnvelope Key.sampleClaims.expiresAt (by decide)
    (by decide)
  refine ⟨_, _, _, _, _, rfl, rfl, rfl, ?_, rfl, rfl, source_superseding License.epoch hold hloaded,
    ?_⟩
  · -- The same key could not have expired and still hold.
    intro htrim
    have hsame := Key.verify_congr (Key.openEnvelope_of_trim_eq htrim) Ed25519.scheme
      Key.sampleTrusted Key.sampleClaims.expiresAt
    rw [hexpired, hvalid] at hsame
    cases hsame
  · obtain ⟨hlicense, hdemoted, hrested⟩ :=
      license_superseding License.epoch hold hloaded rfl hexpired
    exact ⟨hlicense, hvalid, hdemoted, hrested⟩

end Entitlement.Site
