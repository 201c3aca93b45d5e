import Entitlement.Proofs.Custody.Replay
import Entitlement.Proofs.Custody.Tier
import Entitlement.Proofs.Grant.Claims
import Entitlement.Proofs.Json.Line
import Entitlement.Proofs.Text.Pieces

/-! # The lines of the feed

The feed is a text with one line for each event. As no event is written with a newline, the text
falls into the lines again wherever it was cut while it was read, and a reader of JSON gets the
event back from its line, whatever the license is called. Of those lines the last that says which
license is in force is enough to know it.
-/

namespace Entitlement.Custody

open Grant Plan
open Json (Reader Member)
open Json.Reader (Given)

namespace Event

/-! ## Members -/

/-- The kinds of events. -/
inductive Kind where
  | licenseLoaded | communityEdition | revalidationFailed | licenseDemoted
  deriving DecidableEq

def Kind.all : List Kind :=
  [.licenseLoaded, .communityEdition, .revalidationFailed, .licenseDemoted]

/-- The tag of a kind in documents. -/
def Kind.name : Kind → String
  | .licenseLoaded => "license_loaded"
  | .communityEdition => "community_edition"
  | .revalidationFailed => "revalidation_failed"
  | .licenseDemoted => "license_demoted"

def kind : Event → Kind
  | .licenseLoaded _ _ => .licenseLoaded
  | .communityEdition _ => .communityEdition
  | .revalidationFailed _ _ _ => .revalidationFailed
  | .licenseDemoted _ _ => .licenseDemoted

def licenseId? : Event → Option String
  | .licenseLoaded id _ | .revalidationFailed id _ _ | .licenseDemoted id _ => some id
  | .communityEdition _ => none

def reason? : Event → Option Key.Rejection
  | .revalidationFailed _ _ reason => some reason
  | _ => none

/-- The members of the JSON object of an event. -/
def members (event : Event) : List Member :=
  ("event", Json.string event.kind.name) ::
    event.licenseId?.toList.map (fun id => ("license_id", Json.string id)) ++
    ("tier", Json.string event.tier.name) ::
    event.reason?.toList.map fun reason => ("reason", Json.string reason.name)

theorem toJson_eq_object (event : Event) : event.toJson = Json.object event.members := by
  cases event <;> rfl

theorem mem_members_iff {event : Event} {m : Member} :
    m ∈ event.members ↔ m = ("event", Json.string event.kind.name) ∨
      (∃ id, event.licenseId? = some id ∧ m = ("license_id", Json.string id)) ∨
      m = ("tier", Json.string event.tier.name) ∨
      ∃ reason, event.reason? = some reason ∧ m = ("reason", Json.string reason.name) := by
  simp [members, eq_comm]

theorem isLine_toJson (event : Event) : Json.IsLine event.toJson := by
  rw [toJson_eq_object]
  refine Json.isLine_object fun m hm => ?_
  rcases mem_members_iff.mp hm with rfl | ⟨_, -, rfl⟩ | rfl | ⟨_, -, rfl⟩
  all_goals exact Json.isLine_string _

/-! ## Reading -/

/-- The members of an event as they are read. -/
structure Draft where
  kind : Option Kind := none
  licenseId : Option String := none
  tier : Option Tier := none
  reason : Option Key.Rejection := none

/-- Reads the tag of a kind. -/
def kindReader : Reader Kind :=
  .choice (Kind.all.map fun kind => (kind.name, kind))

/-- Reads the name of a class of reasons. -/
def reasonReader : Reader Key.Rejection :=
  .choice ([.invalidFormat, .invalidSignature, .notYetValid, .expired].map
    fun reason => (Key.Rejection.name reason, reason))

/-- The members of the JSON object of some event. -/
def record : Json.Record Draft where
  title := "an event"
  start := {}
  fields :=
    [⟨"event", true, (·.kind.isSome), fun draft =>
        kindReader.map fun value => { draft with kind := some value }⟩,
      ⟨"license_id", false, (·.licenseId.isSome), fun draft =>
        Reader.string.map fun value => { draft with licenseId := some value }⟩,
      ⟨"tier", true, (·.tier.isSome), fun draft =>
        Claims.tierReader.map fun value => { draft with tier := some value }⟩,
      ⟨"reason", false, (·.reason.isSome), fun draft =>
        reasonReader.map fun value => { draft with reason := some value }⟩]

/-- The event of a draft; which members it needs depends on its kind. -/
def ofDraft (draft : Draft) : Except Json.ReadError Event := do
  let kind ← Claims.required "event" draft.kind
  let tier ← Claims.required "tier" draft.tier
  match kind with
  | .communityEdition => return .communityEdition tier
  | .licenseLoaded => return .licenseLoaded (← Claims.required "license_id" draft.licenseId) tier
  | .licenseDemoted => return .licenseDemoted (← Claims.required "license_id" draft.licenseId) tier
  | .revalidationFailed =>
    return .revalidationFailed (← Claims.required "license_id" draft.licenseId) tier
      (← Claims.required "reason" draft.reason)

/-- Reads an event from its JSON object. -/
def reader : Reader Event :=
  record.reader.check ofDraft

/-- What has been read of an event when some of its members have been given. -/
def draft (event : Event) (given : Given) : Draft where
  kind := if given "event" then some event.kind else none
  licenseId := if given "license_id" then event.licenseId? else none
  tier := if given "tier" then some event.tier else none
  reason := if given "reason" then event.reason? else none

theorem takes_kind (kind : Kind) : kindReader.Takes (Json.string kind.name) kind := by
  apply Reader.takes_choice
  cases kind <;> rfl

theorem takes_reason (reason : Key.Rejection) :
    reasonReader.Takes (Json.string reason.name) reason := by
  apply Reader.takes_choice
  cases reason <;> rfl

/-- Every member adds its value to a draft, whichever members have been given before it. -/
theorem member_draft (event : Event) :
    ∀ m ∈ event.members, ∀ given : Given, given m.1 = false →
      ∃ reader : Reader Draft, record.member (event.draft given) m.1 = .ok reader ∧
        reader.Takes m.2 (event.draft (given.add m.1)) := by
  intro m hm given hnew
  rcases mem_members_iff.mp hm with rfl | ⟨id, hid, rfl⟩ | rfl | ⟨reason, hreason, rfl⟩
  · exact Json.Record.exists_reader rfl (by simp [draft, hnew]) (takes_kind event.kind)
      (by simp [draft, Given.add])
  · exact Json.Record.exists_reader rfl (by simp [draft, hnew]) (Reader.takes_string id)
      (by simp [draft, Given.add, hid])
  · exact Json.Record.exists_reader rfl (by simp [draft, hnew]) (Claims.takes_tier event.tier)
      (by simp [draft, Given.add])
  · exact Json.Record.exists_reader rfl (by simp [draft, hnew]) (takes_reason reason)
      (by simp [draft, Given.add, hreason])

theorem draft_complete (event : Event) {given : Given}
    (hall : ∀ name ∈ event.members.map Prod.fst, given name = true) :
    record.complete (event.draft given) = .ok (event.draft given) ∧
      ofDraft (event.draft given) = .ok event := by
  cases event <;>
    simp [members, licenseId?, reason?] at hall <;>
    simp [Json.Record.complete, record, draft, ofDraft, Claims.required, hall, kind, licenseId?,
      Event.tier, reason?, bind, Except.bind, pure, Except.pure]

/-- An event is read back from its JSON object, whatever the id in it. -/
theorem read_toJson (event : Event) : reader.read (Text.bytes event.toJson) = .ok event := by
  have hnodup : (event.members.map Prod.fst).Nodup := by
    cases event <;> simp [members, licenseId?, reason?]
  rw [toJson_eq_object]
  exact (Json.Record.takes_perm rfl event.member_draft hnodup
    (fun _ hall => event.draft_complete hall) (List.Perm.refl _)).read

/-! ## What an event says of the license in force -/

/-- Which license an event says to be in force from then on. -/
def standing? : Event → Option Standing
  | .licenseLoaded id _ => some (.verified id)
  | .communityEdition _ | .licenseDemoted _ _ => some .community
  | .revalidationFailed _ _ _ => none

theorem standing?_inEffect (license : License) :
    (Event.inEffect license).standing? = some (Standing.ofLicense license) := by
  unfold Event.inEffect Standing.ofLicense
  split <;> rfl

end Event

/-- What is known after some events is what the last of them says that says anything. -/
theorem foldl_after (known : Standing) (events : List Event) :
    events.foldl Standing.after known =
      ((events.filterMap Event.standing?).getLast?).getD known := by
  induction events generalizing known with
  | nil => rfl
  | cons event events ih =>
      rw [List.foldl_cons, ih]
      cases event with
      | revalidationFailed _ _ _ => rfl
      | _ => simp [Event.standing?, Standing.after, List.getLast?_cons]

/-! ## Lines -/

theorem lines_cons (event : Event) (events : List Event) :
    lines (event :: events) = event.toJson ++ "\n" ++ lines events := by
  rw [lines, List.map_cons, String.join_cons]
  rfl

theorem lines_append (first second : List Event) :
    lines (first ++ second) = lines first ++ lines second := by
  rw [lines, List.map_append, String.join_append]
  rfl

/-- Lines that follow one another are the lines of all events. -/
theorem join_lines (portions : List (List Event)) :
    String.join (portions.map lines) = lines portions.flatten := by
  induction portions with
  | nil => rfl
  | cons portion portions ih =>
      rw [List.map_cons, String.join_cons, ih, List.flatten_cons, lines_append]

/-- The pieces between the newlines are the events, and nothing is left over after the last
newline. -/
theorem split_lines (events : List Event) :
    Text.split '\n' (lines events) = events.map Event.toJson ++ [""] := by
  induction events with
  | nil => rfl
  | cons event events ih =>
      rw [lines_cons]
      refine (Text.split_append '\n' event.toJson (lines events)).trans ?_
      rw [Text.split_of_not_mem event.isLine_toJson, ih]
      rfl

end Entitlement.Custody
