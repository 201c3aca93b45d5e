import Entitlement.Custody.Command
import Entitlement.Proofs.Key.Verify

/-! # Steps

Whatever happens to a custody happens in steps that nothing comes between. A command is one step. A
check is none: it takes its snapshot at one moment and is settled at a later one, and other steps
may come in between.
-/

namespace Entitlement.Custody

open Calendar Grant

/-- What happens to a custody at one moment. -/
inductive Step where
  | command (command : Command)
  /-- A check that started with a snapshot comes to its end. -/
  | settle (key : String) (snapshot : Snapshot)

/-- A custody after a step. -/
def step (verdict : Verdict) (c : Custody) : Step → Custody
  | .command command => (c.execute verdict command).1
  | .settle key snapshot => (c.settle verdict key snapshot).1

/-- A custody after some steps, taken one after the other. -/
def steps (verdict : Verdict) (c : Custody) (list : List Step) : Custody :=
  list.foldl (step verdict) c

theorem steps_append (verdict : Verdict) (c : Custody) (list more : List Step) :
    c.steps verdict (list ++ more) = (c.steps verdict list).steps verdict more :=
  List.foldl_append

theorem executeAll_eq_steps (verdict : Verdict) (c : Custody) (commands : List Command) :
    (c.executeAll verdict commands).1 = c.steps verdict (commands.map .command) := by
  induction commands generalizing c with
  | nil => rfl
  | cons command commands ih => exact ih _

/-! ## Results -/

/-- A verdict that never yields a license that passes for the Community default. -/
def OnlyGrants (verdict : Verdict) : Prop :=
  ∀ key now license, verdict key now = .ok license → license.isCommunity = false

theorem onlyGrants_verify (scheme : Signature.Scheme) (trusted : Key.TrustSet) :
    OnlyGrants (Key.verify scheme trusted) := by
  intro key now license hverdict
  exact Key.isCommunity_of_verify hverdict

section Results

variable {verdict : Verdict} {key : String} {c : Custody}

theorem load_of_ok {license : License} (hverdict : verdict key c.clock = .ok license) :
    c.load verdict key = (c.announce license, .ok license) := by
  rw [load, hverdict]

theorem load_of_error {cause : Key.VerificationError}
    (hverdict : verdict key c.clock = .error cause) :
    c.load verdict key = (c, .error cause) := by
  rw [load, hverdict]

theorem renew_installs (license : License) :
    (c.renew license).license = license ∧ (c.renew license).installation = c.installation + 1 := by
  unfold renew
  dsimp only
  split <;> exact ⟨rfl, rfl⟩

theorem settle_of_ok {license : License} {snapshot : Snapshot}
    (hverdict : verdict key c.clock = .ok license) :
    c.settle verdict key snapshot = (c.renew license, .renewed license) := by
  rw [settle, hverdict]

theorem settle_of_isDroppable {cause : Key.VerificationError} {snapshot : Snapshot}
    (hverdict : verdict key c.clock = .error cause) (hdrop : c.isDroppable snapshot = true) :
    c.settle verdict key snapshot =
      ((c.install .community).emit (.revalidationFailed snapshot.license.id .free cause.kind)
        |>.emit (.licenseDemoted snapshot.license.id .free), .demoted cause) := by
  rw [settle, hverdict]
  exact if_pos hdrop

theorem settle_of_not_isDroppable {cause : Key.VerificationError} {snapshot : Snapshot}
    (hverdict : verdict key c.clock = .error cause) (hkept : c.isDroppable snapshot = false) :
    c.settle verdict key snapshot =
      (c.emit (.revalidationFailed snapshot.license.id c.license.tier cause.kind),
        .unchanged cause) := by
  rw [settle, hverdict]
  exact if_neg (Bool.eq_false_iff.mp hkept)

/-- What a command does to a custody; whatever is asked of it does nothing. -/
theorem execute_fst (command : Command) :
    (c.execute verdict command).1 =
      match command with
      | .load key => (c.load verdict key).1
      | .useCommunity => c.useCommunity
      | .setClock clock => { c with clock := clock }
      | .advanceClock nanos => { c with clock := (c.clock.addNanos? nanos).getD c.clock }
      | _ => c := by
  cases command with
  | load key =>
      unfold execute
      dsimp only
      split
      next hload => rw [hload]
      next hload => rw [hload]
  | advanceClock nanos =>
      unfold execute
      dsimp only
      split
      next hclock => rw [hclock, Option.getD_some]
      next hclock => rw [hclock, Option.getD_none]
  | ensureFeature feature =>
      unfold execute
      dsimp only
      split <;> rfl
  | ensureLimit limit usage =>
      unfold execute
      dsimp only
      split <;> rfl
  | _ => rfl

end Results

/-! ## Replacements -/

/-- A check of a key at a reading of the license clock. -/
structure Check where
  key : String
  reading : Timestamp
  deriving DecidableEq

/-- What a license in force is due to. -/
inductive Source where
  | community
  | verified (check : Check)
  deriving DecidableEq

/-- A source gives a license if the license is Community's own or the verdict of the check. -/
def Source.Gives (verdict : Verdict) (license : License) : Source → Prop
  | .community => license = .community
  | .verified check => verdict check.key check.reading = .ok license

/-- The key that a command checks. -/
def Command.key? : Command → Option String
  | .load key => some key
  | _ => none

/-- The key that a step checks. -/
def Step.key? : Step → Option String
  | .command asked => asked.key?
  | .settle key _ => some key

/-- The check that a step makes. -/
def Step.check? (c : Custody) (step : Step) : Option Check :=
  step.key?.map fun key => ⟨key, c.clock⟩

/-- What the license is due to that a step puts in force, if the step replaces the one there was. -/
def replacement? (verdict : Verdict) (c : Custody) : Step → Option Source
  | .command (.load key) =>
    match verdict key c.clock with
    | .ok _ => some (.verified ⟨key, c.clock⟩)
    | .error _ => none
  | .command .useCommunity => some .community
  | .command _ => none
  | .settle key snapshot =>
    match verdict key c.clock with
    | .ok _ => some (.verified ⟨key, c.clock⟩)
    | .error _ => if c.isDroppable snapshot then some .community else none

/-- Whether some step of several replaces the license in force. -/
def isReplacedBy (verdict : Verdict) : Custody → List Step → Bool
  | _, [] => false
  | c, step :: more =>
    (c.replacement? verdict step).isSome || (c.step verdict step).isReplacedBy verdict more

/-- A step that replaces the license in force begins another installation, and the license is the
one that its source gives. -/
theorem step_of_replacement {verdict : Verdict} {c : Custody} {step : Step} {source : Source}
    (hsource : c.replacement? verdict step = some source) :
    (c.step verdict step).installation = c.installation + 1 ∧
      source.Gives verdict (c.step verdict step).license := by
  -- Loads, the default and settled checks replace licenses; queries and the clock never do.
  cases step with
  | command command =>
      rw [Custody.step, execute_fst]
      cases command with
      | load key =>
          dsimp only
          rw [replacement?] at hsource
          split at hsource
          next license hverdict =>
            cases hsource
            rw [load_of_ok hverdict]
            exact ⟨rfl, hverdict⟩
          next => cases hsource
      | useCommunity =>
          obtain rfl := Option.some.inj hsource
          exact ⟨rfl, rfl⟩
      | _ => exact absurd hsource (Option.some_ne_none source).symm
  | settle key snapshot =>
      rw [Custody.step]
      rw [replacement?] at hsource
      split at hsource
      next license hverdict =>
        cases hsource
        obtain ⟨hlicense, hinstallation⟩ := c.renew_installs license
        rw [settle_of_ok hverdict, hlicense]
        exact ⟨hinstallation, hverdict⟩
      next cause hverdict =>
        split at hsource
        next hdrop =>
          cases hsource
          rw [settle_of_isDroppable hverdict hdrop]
          exact ⟨rfl, rfl⟩
        next => cases hsource

/-- Any other step leaves the license in force where it is. -/
theorem step_of_no_replacement {verdict : Verdict} {c : Custody} {step : Step}
    (hsource : c.replacement? verdict step = none) :
    (c.step verdict step).installation = c.installation ∧
      (c.step verdict step).license = c.license := by
  cases step with
  | command command =>
      rw [Custody.step, execute_fst]
      cases command with
      | load key =>
          dsimp only
          rw [replacement?] at hsource
          split at hsource
          next => cases hsource
          next cause hverdict =>
            rw [load_of_error hverdict]
            exact ⟨rfl, rfl⟩
      | useCommunity => exact absurd hsource (Option.some_ne_none _)
      | _ => exact ⟨rfl, rfl⟩
  | settle key snapshot =>
      rw [Custody.step]
      rw [replacement?] at hsource
      split at hsource
      next => cases hsource
      next cause hverdict =>
        split at hsource
        next => cases hsource
        next hkept =>
          rw [settle_of_not_isDroppable hverdict (Bool.eq_false_iff.mpr hkept)]
          exact ⟨rfl, rfl⟩

/-! ## Runs -/

/-- Installations are never taken back, and a replacement begins another one. -/
theorem installation_steps {verdict : Verdict} (list : List Step) (c : Custody) :
    c.installation ≤ (c.steps verdict list).installation ∧
      (c.isReplacedBy verdict list = true →
        c.installation < (c.steps verdict list).installation) := by
  induction list generalizing c with
  | nil => exact ⟨Nat.le_refl _, fun hreplaced => by cases hreplaced⟩
  | cons step list ih =>
      obtain ⟨hle, hlt⟩ := ih (c.step verdict step)
      change c.installation ≤ ((c.step verdict step).steps verdict list).installation ∧ _
      -- A step moves the installation on by one or leaves it where it is.
      cases hsource : c.replacement? verdict step with
      | none =>
          obtain ⟨hsame, -⟩ := step_of_no_replacement hsource
          rw [hsame] at hle hlt
          refine ⟨hle, fun hreplaced => hlt ?_⟩
          simpa [isReplacedBy, hsource] using hreplaced
      | some source =>
          obtain ⟨hnext, -⟩ := step_of_replacement hsource
          rw [hnext] at hle
          exact ⟨Nat.le_of_succ_le hle, fun _ => hle⟩

/-- Steps of which none is a replacement leave the license in force where it is. -/
theorem steps_of_not_isReplacedBy {verdict : Verdict} {list : List Step} {c : Custody}
    (hkept : c.isReplacedBy verdict list = false) :
    (c.steps verdict list).installation = c.installation ∧
      (c.steps verdict list).license = c.license := by
  induction list generalizing c with
  | nil => exact ⟨rfl, rfl⟩
  | cons step list ih =>
      rw [isReplacedBy, Bool.or_eq_false_iff, Option.isSome_eq_false_iff,
        Option.isNone_iff_eq_none] at hkept
      obtain ⟨hsource, hrest⟩ := hkept
      obtain ⟨hinstallation, hlicense⟩ := step_of_no_replacement hsource
      obtain ⟨hinstallation', hlicense'⟩ := ih hrest
      exact ⟨hinstallation'.trans hinstallation, hlicense'.trans hlicense⟩

end Entitlement.Custody
