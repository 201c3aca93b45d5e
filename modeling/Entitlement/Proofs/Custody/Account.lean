import Entitlement.Proofs.Custody.Step

/-! # Accounts

An account keeps the books of a custody while steps are taken: the checks made so far, and what the
license in force is due to. The books are never looked at by a step, and they are always right: the
license in force is the one that its source gives, and the source is among the checks.
-/

namespace Entitlement.Custody

open Calendar Grant

/-- A custody with the checks made so far and with what the license in force is due to. -/
structure Account where
  custody : Custody
  checks : List Check
  source : Source

namespace Account

/-- The account of a custody before anything has happened. -/
def start (clock : Timestamp) : Account :=
  ⟨.start clock, [], .community⟩

def step (verdict : Verdict) (account : Account) (step : Step) : Account where
  custody := account.custody.step verdict step
  checks := account.checks ++ (step.check? account.custody).toList
  source := (account.custody.replacement? verdict step).getD account.source

def steps (verdict : Verdict) (account : Account) (list : List Step) : Account :=
  list.foldl (step verdict) account

theorem custody_steps (verdict : Verdict) (account : Account) (list : List Step) :
    (account.steps verdict list).custody = account.custody.steps verdict list := by
  induction list generalizing account with
  | nil => rfl
  | cons step list ih => exact ih _

/-- The books are right. -/
structure IsRight (verdict : Verdict) (account : Account) : Prop where
  gives : account.source.Gives verdict account.custody.license
  made : ∀ check, account.source = .verified check → check ∈ account.checks

theorem isRight_start (verdict : Verdict) (clock : Timestamp) : (start clock).IsRight verdict :=
  ⟨rfl, fun _ hsource => by cases hsource⟩

/-- The source of a license that a step puts in force is the check that the step makes. -/
theorem check?_of_replacement {verdict : Verdict} {c : Custody} {step : Step} {check : Check}
    (hsource : c.replacement? verdict step = some (.verified check)) :
    step.check? c = some check := by
  cases step with
  | command command =>
      cases command with
      | load key =>
          rw [replacement?] at hsource
          split at hsource <;> cases hsource
          rfl
      | useCommunity => cases Option.some.inj hsource
      | _ => exact absurd hsource (Option.some_ne_none _).symm
  | settle key snapshot =>
      rw [replacement?] at hsource
      split at hsource
      next =>
        cases hsource
        rfl
      next => split at hsource <;> cases hsource

theorem IsRight.step {verdict : Verdict} {account : Account} (hright : account.IsRight verdict)
    (step : Step) : (account.step verdict step).IsRight verdict := by
  unfold Account.step
  -- Either the source stays with the license, or the check of this very step becomes the source.
  cases hsource : account.custody.replacement? verdict step with
  | none =>
      obtain ⟨-, hlicense⟩ := step_of_no_replacement hsource
      refine ⟨?_, fun check hcheck => List.mem_append_left _ (hright.made check hcheck)⟩
      dsimp only [Option.getD_none]
      rw [hlicense]
      exact hright.gives
  | some source =>
      obtain ⟨-, hgives⟩ := step_of_replacement hsource
      refine ⟨hgives, ?_⟩
      rintro check rfl
      rw [check?_of_replacement hsource]
      exact List.mem_append_right _ List.mem_cons_self

theorem IsRight.steps {verdict : Verdict} {account : Account} (hright : account.IsRight verdict)
    (list : List Step) : (account.steps verdict list).IsRight verdict := by
  induction list generalizing account with
  | nil => exact hright
  | cons step list ih => exact ih (hright.step step)

/-- What passes for the Community default is the Community default. -/
theorem IsRight.eq_community {verdict : Verdict} {account : Account}
    (hright : account.IsRight verdict) (hgrants : OnlyGrants verdict)
    (hcommunity : account.custody.license.isCommunity = true) :
    account.custody.license = .community := by
  have hgives := hright.gives
  cases hsource : account.source with
  | community =>
      rw [hsource] at hgives
      exact hgives
  | verified check =>
      rw [hsource] at hgives
      exact absurd hcommunity (Bool.eq_false_iff.mp (hgrants _ _ _ hgives))

/-- A check that has been made was made by one of the steps. -/
theorem key_of_mem_checks {verdict : Verdict} {account : Account} {list : List Step} {check : Check}
    (hcheck : check ∈ (account.steps verdict list).checks) :
    check ∈ account.checks ∨ ∃ step ∈ list, step.key? = some check.key := by
  induction list generalizing account with
  | nil => exact .inl hcheck
  | cons step list ih =>
      rcases ih hcheck with hbefore | ⟨other, hother, hkey⟩
      · rcases List.mem_append.mp hbefore with hold | hnew
        · exact .inl hold
        · rw [Option.mem_toList, Step.check?, Option.map_eq_some_iff] at hnew
          obtain ⟨key, hkey, rfl⟩ := hnew
          exact .inr ⟨step, List.mem_cons_self, hkey⟩
      · exact .inr ⟨other, List.mem_cons_of_mem _ hother, hkey⟩

end Account

end Entitlement.Custody
