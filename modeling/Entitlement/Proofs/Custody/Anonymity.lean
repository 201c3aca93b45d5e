import Entitlement.Http.Router
import Entitlement.Proofs.Custody.Step
import Entitlement.Tool.Run

/-! # Customers are not looked at

A license says who its customer is, and nothing that a custody does depends on it. A custody that
holds the same licenses without their customers goes through the same states without the customers,
tells the same events and gives the same answers, except where it is asked for the license itself.
-/

namespace Entitlement

open Calendar Custody Grant Plan

/-! ## Without customers -/

/-- Claims that say nothing of the customer. -/
def Grant.Claims.anonymous (claims : Claims) : Claims :=
  { claims with customerId := "", customerName := "", email := "", metadata := ∅ }

def Grant.License.anonymous (license : License) : License :=
  { license with claims := license.claims.anonymous }

def Verdict.anonymous (verdict : Verdict) : Verdict :=
  fun key now => (verdict key now).map License.anonymous

namespace Custody

def anonymous (c : Custody) : Custody :=
  { c with license := c.license.anonymous }

def Snapshot.anonymous (snapshot : Snapshot) : Snapshot :=
  { snapshot with license := snapshot.license.anonymous }

def Revalidation.anonymous : Revalidation → Revalidation
  | .renewed license => .renewed license.anonymous
  | .demoted cause => .demoted cause
  | .unchanged cause => .unchanged cause

/-- Of all replies only a license that is handed out says who the customer is. -/
def Reply.anonymous : Reply → Reply
  | .license held => .license held.anonymous
  | reply => reply

end Custody

/-! ## What is said of a license -/

/-- No route says anything of the customer. -/
theorem Http.respond_anonymous (license : License) (request : Request) :
    respond license.anonymous request = respond license request :=
  rfl

theorem Tool.inspection_anonymous (license : License) :
    inspection license.anonymous = inspection license :=
  rfl

namespace Custody

variable {verdict : Verdict}

/-! ## Checks -/

theorem renew_anonymous (c : Custody) (license : License) :
    (c.renew license).anonymous = c.anonymous.renew license.anonymous := by
  unfold renew
  change
    (if c.license.isCommunity || c.license.id != license.id then _ else _ : Custody).anonymous =
      if c.license.isCommunity || c.license.id != license.id then _ else _
  split <;> rfl

theorem settle_anonymous (key : String) (snapshot : Snapshot) (c : Custody) :
    c.anonymous.settle verdict.anonymous key snapshot.anonymous =
      ((c.settle verdict key snapshot).1.anonymous,
        (c.settle verdict key snapshot).2.anonymous) := by
  cases hverdict : verdict key c.clock with
  | ok license =>
      have hanonymous : verdict.anonymous key c.anonymous.clock = .ok license.anonymous :=
        congrArg (Except.map License.anonymous) hverdict
      rw [settle_of_ok hverdict, settle_of_ok hanonymous, renew_anonymous]
      rfl
  | error cause =>
      have hanonymous : verdict.anonymous key c.anonymous.clock = .error cause :=
        congrArg (Except.map License.anonymous) hverdict
      -- What can be taken away is a matter of the origin and of installations.
      have hsame : c.anonymous.isDroppable snapshot.anonymous = c.isDroppable snapshot := rfl
      by_cases hdrop : c.isDroppable snapshot = true
      · rw [settle_of_isDroppable hverdict hdrop,
          settle_of_isDroppable hanonymous (hsame.trans hdrop)]
        rfl
      · have hkept := Bool.eq_false_iff.mpr hdrop
        rw [settle_of_not_isDroppable hverdict hkept,
          settle_of_not_isDroppable hanonymous (hsame.trans hkept)]
        rfl

theorem revalidate_anonymous (key : String) (c : Custody) :
    (c.anonymous.revalidate verdict.anonymous key).1 = (c.revalidate verdict key).1.anonymous :=
  congrArg Prod.fst (settle_anonymous key c.snapshot c)

/-! ## Commands -/

theorem execute_anonymous (command : Command) (c : Custody) :
    c.anonymous.execute verdict.anonymous command =
      ((c.execute verdict command).1.anonymous, (c.execute verdict command).2.anonymous) := by
  cases command with
  | load key =>
      unfold execute
      dsimp only
      cases hverdict : verdict key c.clock with
      | ok license =>
          have hanonymous : verdict.anonymous key c.anonymous.clock = .ok license.anonymous :=
            congrArg (Except.map License.anonymous) hverdict
          rw [load_of_ok hverdict, load_of_ok hanonymous]
          rfl
      | error cause =>
          have hanonymous : verdict.anonymous key c.anonymous.clock = .error cause :=
            congrArg (Except.map License.anonymous) hverdict
          rw [load_of_error hverdict, load_of_error hanonymous]
          rfl
  | advanceClock nanos =>
      have hsame : c.anonymous.clock.addNanos? nanos = c.clock.addNanos? nanos := rfl
      unfold execute
      dsimp only
      rw [hsame]
      cases c.clock.addNanos? nanos <;> rfl
  | ensureFeature feature =>
      have hsame : c.anonymous.license.ensureFeature feature = c.license.ensureFeature feature :=
        rfl
      unfold execute
      dsimp only
      rw [hsame]
      cases c.license.ensureFeature feature <;> rfl
  | ensureLimit limit usage =>
      have hsame :
          c.anonymous.license.ensureLimit limit usage = c.license.ensureLimit limit usage := rfl
      unfold execute
      dsimp only
      rw [hsame]
      cases c.license.ensureLimit limit usage <;> rfl
  | _ => rfl

theorem executeAll_anonymous (commands : List Command) (c : Custody) :
    c.anonymous.executeAll verdict.anonymous commands =
      ((c.executeAll verdict commands).1.anonymous,
        (c.executeAll verdict commands).2.map Reply.anonymous) := by
  induction commands generalizing c with
  | nil => rfl
  | cons command commands ih =>
      unfold executeAll
      dsimp only
      rw [execute_anonymous, ih]
      rfl

theorem revalidateDuring_anonymous (key : String) (commands : List Command) (c : Custody) :
    c.anonymous.revalidateDuring verdict.anonymous key commands =
      ((c.revalidateDuring verdict key commands).1.anonymous,
        (c.revalidateDuring verdict key commands).2.1.map Reply.anonymous,
        (c.revalidateDuring verdict key commands).2.2.anonymous) := by
  unfold revalidateDuring
  dsimp only
  rw [executeAll_anonymous]
  dsimp only
  rw [show c.anonymous.snapshot = c.snapshot.anonymous from rfl, settle_anonymous]

end Custody

end Entitlement
