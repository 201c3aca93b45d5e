import Entitlement.Custody.Basic
import Entitlement.Grant.Denial

/-! # Commands

Commands are what can be asked of a custody at any moment, also while a check is under way. Each is
answered at once, and a run of commands is answered one by one. A check that is overtaken by
commands takes its snapshot before them and comes to its verdict after them.
-/

namespace Entitlement.Custody

open Calendar Grant Plan

/-- What can be asked of a custody. -/
inductive Command where
  | load (key : String)
  | useCommunity
  | setClock (clock : Timestamp)
  /-- Moves the clock by a number of nanoseconds. -/
  | advanceClock (nanos : Int)
  | hasFeature (feature : Feature)
  | allows (limit : String) (usage : UInt64)
  | tier
  | current
  | inEffect
  | summary
  | ensureFeature (feature : Feature)
  | ensureLimit (limit : String) (usage : UInt64)

/-- What a command is answered. -/
inductive Reply where
  | done
  | license (license : License)
  | rejected (cause : Key.VerificationError)
  /-- The clock would leave the calendar, and has been left as it was. -/
  | beyondCalendar
  | truth (value : Bool)
  | tier (tier : Tier)
  | event (event : Event)
  | text (text : String)
  | granted
  | featureDenied (denial : FeatureDenial)
  | limitDenied (denial : LimitDenial)

/-- Carries out a command. -/
def execute (verdict : Verdict) (c : Custody) : Command → Custody × Reply
  | .load key =>
    match c.load verdict key with
    | (c, .ok license) => (c, .license license)
    | (c, .error cause) => (c, .rejected cause)
  | .useCommunity => (c.useCommunity, .done)
  | .setClock clock => ({ c with clock := clock }, .done)
  | .advanceClock nanos =>
    match c.clock.addNanos? nanos with
    | some clock => ({ c with clock := clock }, .done)
    | none => (c, .beyondCalendar)
  | .hasFeature feature => (c, .truth (c.license.hasFeature feature))
  | .allows limit usage => (c, .truth (c.license.allows limit usage))
  | .tier => (c, .tier c.license.tier)
  | .current => (c, .license c.license)
  | .inEffect => (c, .event (.inEffect c.license))
  | .summary => (c, .text c.summary)
  | .ensureFeature feature =>
    match c.license.ensureFeature feature with
    | .ok () => (c, .granted)
    | .error denial => (c, .featureDenied denial)
  | .ensureLimit limit usage =>
    match c.license.ensureLimit limit usage with
    | .ok () => (c, .granted)
    | .error denial => (c, .limitDenied denial)

/-- Carries out commands one after the other. -/
def executeAll (verdict : Verdict) (c : Custody) : List Command → Custody × List Reply
  | [] => (c, [])
  | command :: more =>
    let (c, reply) := c.execute verdict command
    let (c, replies) := executeAll verdict c more
    (c, reply :: replies)

/-- Checks a key again, overtaken by commands after the snapshot and before the verdict. -/
def revalidateDuring (verdict : Verdict) (key : String) (commands : List Command) (c : Custody) :
    Custody × List Reply × Revalidation :=
  let snapshot := c.snapshot
  let (c, replies) := c.executeAll verdict commands
  let (c, outcome) := c.settle verdict key snapshot
  (c, replies, outcome)

end Entitlement.Custody
