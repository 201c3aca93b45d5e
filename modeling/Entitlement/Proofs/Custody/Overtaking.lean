import Entitlement.Proofs.Custody.Step

/-! # Checks that are overtaken

While a check is under way other steps may be taken. The license of its snapshot can be taken away
at the end if none of them has replaced it. Installations settle this and the licenses themselves do
not: a license that was loaded once more, or loaded again after Community, is equal to the one of
the snapshot and has replaced it all the same.
-/

namespace Entitlement.Custody

open Grant

section Checks

variable {verdict : Verdict} {c : Custody}

/-- The license of a snapshot can be taken away after some steps if it is not Community and none of
them was a replacement. -/
theorem isDroppable_steps (list : List Step) :
    (c.steps verdict list).isDroppable c.snapshot =
      (!c.license.isCommunity && !c.isReplacedBy verdict list) := by
  -- The installation has moved on if there was a replacement, and only then.
  cases hreplaced : c.isReplacedBy verdict list with
  | true =>
      have hlater := (installation_steps list c).2 hreplaced
      rw [isDroppable, snapshot, beq_false_of_ne (Nat.ne_of_gt hlater), Bool.and_false,
        Bool.not_true, Bool.and_false]
  | false =>
      obtain ⟨hinstallation, hlicense⟩ := steps_of_not_isReplacedBy hreplaced
      rw [isDroppable, snapshot, hinstallation, hlicense, beq_self_eq_true, Bool.not_false]

variable {key : String} {commands : List Command}

/-- Loading a key that holds is a replacement, even if its license is the one in force. -/
theorem isReplacedBy_load {license : License} (hverdict : verdict key c.clock = .ok license)
    (list : List Step) : c.isReplacedBy verdict (.command (.load key) :: list) = true := by
  rw [isReplacedBy, replacement?, hverdict]
  rfl

/-- A check is settled in the custody that the commands leave, with the snapshot from before
them. -/
theorem revalidateDuring_eq :
    c.revalidateDuring verdict key commands =
      (((c.executeAll verdict commands).1.settle verdict key c.snapshot).1,
        (c.executeAll verdict commands).2,
        ((c.executeAll verdict commands).1.settle verdict key c.snapshot).2) :=
  rfl

/-- A key that holds is renewed, no matter what has overtaken the check: the license of the snapshot
plays no part. -/
theorem revalidateDuring_of_ok {license : License}
    (hverdict : verdict key (c.executeAll verdict commands).1.clock = .ok license) :
    c.revalidateDuring verdict key commands =
      (((c.executeAll verdict commands).1.revalidate verdict key).1,
        (c.executeAll verdict commands).2, .renewed license) := by
  rw [revalidateDuring_eq, revalidate, settle_of_ok hverdict, settle_of_ok hverdict]

/-- A key that no longer holds takes nothing away from Community or from a newer license. -/
theorem revalidateDuring_of_overtaken {cause : Key.VerificationError}
    (hverdict : verdict key (c.executeAll verdict commands).1.clock = .error cause)
    (hovertaken : c.license.isCommunity = true ∨
      c.isReplacedBy verdict (commands.map .command) = true) :
    c.revalidateDuring verdict key commands =
      ((c.executeAll verdict commands).1.emit (.revalidationFailed c.license.id
          (c.executeAll verdict commands).1.license.tier cause.kind),
        (c.executeAll verdict commands).2, .unchanged cause) := by
  have hkept : (c.executeAll verdict commands).1.isDroppable c.snapshot = false := by
    rw [executeAll_eq_steps, isDroppable_steps]
    rcases hovertaken with hcommunity | hreplaced
    · rw [hcommunity]
      rfl
    · rw [hreplaced, Bool.not_true, Bool.and_false]
  rw [revalidateDuring_eq, settle_of_not_isDroppable hverdict hkept]
  rfl

/-- A key that no longer holds takes the license of the snapshot away if nothing has replaced it. -/
theorem revalidateDuring_of_not_overtaken {cause : Key.VerificationError}
    (hverdict : verdict key (c.executeAll verdict commands).1.clock = .error cause)
    (hgrant : c.license.isCommunity = false)
    (hkept : c.isReplacedBy verdict (commands.map .command) = false) :
    c.revalidateDuring verdict key commands =
      (((c.executeAll verdict commands).1.install .community).emit
          (.revalidationFailed c.license.id .free cause.kind)
        |>.emit (.licenseDemoted c.license.id .free),
        (c.executeAll verdict commands).2, .demoted cause) := by
  have hdrop : (c.executeAll verdict commands).1.isDroppable c.snapshot = true := by
    rw [executeAll_eq_steps, isDroppable_steps, hgrant, hkept]
    rfl
  rw [revalidateDuring_eq, settle_of_isDroppable hverdict hdrop]
  rfl

end Checks

end Entitlement.Custody
