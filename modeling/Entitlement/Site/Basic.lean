import Entitlement.Custody.Command
import Entitlement.Custody.Delivery
import Entitlement.Http.Router
import Entitlement.Schedule

/-! # A running site

A running site has the license in force in its custody, a schedule of checks on a clock of its own,
and followers who receive events or read the feed. Operations act on it one after the other, and
each is answered at once. A follower is a place in the log of events, so operations on followers
change nothing that another follower or the license could notice.
-/

namespace Entitlement

open Custody Grant Plan

/-- The state of a running site. -/
structure Site where
  custody : Custody
  /-- The clock of the schedule, in milliseconds from the start. -/
  time : Nat
  schedule : Schedule
  /-- How much of the log each receiver has been given. -/
  receivers : Table Nat
  /-- How much of the log each reader of the feed has been given. -/
  feeds : Table Nat

namespace Site

/-- What can be done with a running site. -/
inductive Operation where
  | command (command : Command)
  /-- Checks a key again, overtaken by commands. -/
  | revalidate (key : String) (commands : List Command)
  | subscribe (receiver : String)
  | drain (receiver : String)
  | startTask (task key : String) (interval : Nat)
  | stopTask (task : String)
  /-- Lets a number of milliseconds pass. -/
  | sleep (duration : Nat)
  /-- Moves the clock of the schedule by a number of milliseconds at once. -/
  | jump (duration : Nat)
  /-- Answers a request, and keeps the feed under a name where one is given and the answer is
  one. -/
  | request (request : Http.Request) (feed : Option String)
  | readFeed (feed : String)
  /-- Answers a request behind a gate of its own. -/
  | gated (feature : Feature) (answer : Http.Response)
  /-- Answers a request that takes one more unit. -/
  | metered (limit : String) (usage : UInt64)

/-- What an operation is answered. -/
inductive Outcome where
  | done
  | reply (reply : Reply)
  | revalidated (replies : List Reply) (revalidation : Revalidation)
  | deliveries (deliveries : List Delivery)
  | response (response : Http.Response)
  | granted
  | chunk (text : String)
  /-- There is no receiver, task or feed of that name. -/
  | unknownName

/-- A site before anything has happened. -/
def start (clock : Calendar.Timestamp) : Site where
  custody := .start clock
  time := 0
  schedule := []
  receivers := ∅
  feeds := ∅

/-- What is pending for a follower who has been given the log up to some place. -/
def pending (site : Site) (place : Nat) : List Delivery :=
  Delivery.ofPending (site.custody.log.drop place)

/-- The end of the log. -/
def endOfLog (site : Site) : Nat :=
  site.custody.log.length

/-- Carries out the runs of tasks one after the other. -/
def recheck (verdict : Verdict) (runs : List Schedule.Run) (custody : Custody) : Custody :=
  runs.foldl (fun custody run => (custody.revalidate verdict run.key).1) custody

/-- Moves the clock of the schedule on, and carries out the runs that come due. -/
def pass (verdict : Verdict) (time : Nat) (step : List Schedule.Run × Schedule)
    (site : Site) : Site :=
  { site with custody := recheck verdict step.1 site.custody, time, schedule := step.2 }

/-- Carries out an operation. -/
def perform (verdict : Verdict) (site : Site) : Operation → Site × Outcome
  | .command command =>
    let (custody, reply) := site.custody.execute verdict command
    ({ site with custody }, .reply reply)
  | .revalidate key commands =>
    let (custody, replies, revalidation) := site.custody.revalidateDuring verdict key commands
    ({ site with custody }, .revalidated replies revalidation)
  | .subscribe receiver =>
    ({ site with receivers := site.receivers.set receiver site.endOfLog }, .done)
  | .drain receiver =>
    match site.receivers.get? receiver with
    | none => (site, .unknownName)
    | some place =>
      ({ site with receivers := site.receivers.set receiver site.endOfLog },
        .deliveries (site.pending place))
  | .startTask task key interval =>
    ({ site with schedule := site.schedule.start task key interval site.time }, .done)
  | .stopTask task =>
    if site.schedule.has task then
      ({ site with schedule := site.schedule.stop task }, .done)
    else (site, .unknownName)
  | .sleep duration =>
    let time := site.time + duration
    (site.pass verdict time (site.schedule.sleep time), .done)
  | .jump duration =>
    let time := site.time + duration
    (site.pass verdict time (site.schedule.jump time), .done)
  | .request request feed =>
    let response := Http.respond site.custody.license request
    match feed, response.isOpen with
    | some feed, true =>
      ({ site with feeds := site.feeds.set feed site.endOfLog }, .response response)
    | _, _ => (site, .response response)
  | .readFeed feed =>
    match site.feeds.get? feed with
    | none => (site, .unknownName)
    | some place =>
      ({ site with feeds := site.feeds.set feed site.endOfLog },
        .chunk (lines ((site.pending place).filterMap Delivery.event?)))
  | .gated feature answer =>
    (site, .response (Http.gate site.custody.license feature answer).measured)
  | .metered limit usage =>
    match site.custody.license.ensureLimit limit usage with
    | .ok () => (site, .granted)
    | .error denial => (site, .response (Http.ofLimitDenial denial))

/-- Carries out operations one after the other. -/
def run (verdict : Verdict) (site : Site) : List Operation → Site × List Outcome
  | [] => (site, [])
  | operation :: more =>
    let (site, outcome) := site.perform verdict operation
    let (site, outcomes) := run verdict site more
    (site, outcome :: outcomes)

end Site

end Entitlement
