import Entitlement.Proofs.Custody.Delivery
import Entitlement.Proofs.Site.Follower

/-! # What receivers are given

A receiver is given the events of a site portion by portion, each time it drains. The portions
follow one another in the log without a gap from the subscription on, so nothing is given twice and
all that is not given is counted. Other receivers make no difference to it.
-/

namespace Entitlement.Site

open Custody

variable {verdict : Verdict} {site : Site} {receiver : String}

theorem prefix_log_perform (verdict : Verdict) (site : Site) (operation : Operation) :
    site.custody.log <+: (site.perform verdict operation).1.custody.log := by
  rw [custody_perform]
  exact prefix_log_steps _ _

theorem prefix_log_run (verdict : Verdict) (site : Site) (operations : List Operation) :
    site.custody.log <+: (site.run verdict operations).1.custody.log := by
  rw [custody_run]
  exact prefix_log_steps _ _

/-! ## Places -/

/-- A follower stays where it is while nothing is done about it. -/
theorem place?_run {follower : Follower} {operations : List Operation}
    (hothers : ∀ operation ∈ operations, operation.follower? ≠ some follower) :
    (site.run verdict operations).1.place? follower = site.place? follower := by
  induction operations generalizing site with
  | nil => rfl
  | cons operation operations ih =>
      obtain ⟨hfirst, hmore⟩ := List.forall_mem_cons.mp hothers
      have hstep := place?_perform verdict site operation follower
      rw [if_neg fun hreached => hfirst (follower?_of_reached? hreached)] at hstep
      exact (ih hmore).trans hstep

theorem eq_of_follower?_receiver {operation : Operation}
    (hown : operation.follower? = some (.receiver receiver)) :
    operation = .subscribe receiver ∨ operation = .drain receiver := by
  cases operation with
  | subscribe name =>
      cases hown
      exact .inl rfl
  | drain name =>
      cases hown
      exact .inr rfl
  | request request feed => cases feed <;> cases hown
  | _ => cases hown

theorem outcome_drain {place : Nat} (hplace : site.place? (.receiver receiver) = some place) :
    (site.perform verdict (.drain receiver)).2 =
      .deliveries (Delivery.ofPending (site.custody.log.drop place)) := by
  have hknown : site.receivers.get? receiver = some place := hplace
  unfold perform
  dsimp only
  rw [hknown]
  rfl

theorem reached?_drain {place : Nat} (hplace : site.place? (.receiver receiver) = some place) :
    site.reached? (.drain receiver) = some (.receiver receiver) := by
  have hknown : site.receivers.get? receiver = some place := hplace
  rw [reached?, hknown]
  rfl

theorem place?_of_reached? (verdict : Verdict) {operation : Operation} {follower : Follower}
    (hreached : site.reached? operation = some follower) :
    (site.perform verdict operation).1.place? follower =
      some (site.perform verdict operation).1.endOfLog := by
  have hpassive := isPassive_of_follower? (follower?_of_reached? hreached)
  rw [place?_perform, if_pos hreached, endOfLog, endOfLog, custody_of_isPassive hpassive]

/-- What a receiver is given since it was at the end of the log. -/
theorem outcome_drain_since {between : List Operation} {events : List Event}
    (hplace : site.place? (.receiver receiver) = some site.endOfLog)
    (hbetween : ∀ operation ∈ between, operation.follower? ≠ some (.receiver receiver))
    (hlog : (site.run verdict between).1.custody.log = site.custody.log ++ events) :
    ((site.run verdict between).1.perform verdict (.drain receiver)).2 =
      .deliveries (Delivery.ofPending events) := by
  rw [outcome_drain ((place?_run hbetween).trans hplace), hlog, endOfLog, List.drop_left]

/-! ## Portions -/

/-- What an operation hands out to a receiver. -/
def handout? (receiver : String) : Operation → Outcome → Option (List Delivery)
  | .drain name, .deliveries given => if name = receiver then some given else none
  | _, _ => none

/-- What a run hands out to a receiver, one time after the other. -/
def handouts (receiver : String) (operations : List Operation) (outcomes : List Outcome) :
    List (List Delivery) :=
  (operations.zip outcomes).filterMap fun (operation, outcome) =>
    handout? receiver operation outcome

theorem handouts_cons (operation : Operation) (operations : List Operation) (outcome : Outcome)
    (outcomes : List Outcome) :
    handouts receiver (operation :: operations) (outcome :: outcomes) =
      (handout? receiver operation outcome).toList ++ handouts receiver operations outcomes := by
  cases hhandout : handout? receiver operation outcome <;> simp [handouts, hhandout]

theorem handout?_eq_none {operation : Operation}
    (hother : operation ≠ .drain receiver) (outcome : Outcome) :
    handout? receiver operation outcome = none := by
  cases operation with
  | drain name =>
      cases outcome with
      | deliveries given => exact if_neg fun hsame => hother (congrArg _ hsame)
      | _ => rfl
  | _ => rfl

/-- The portions that a receiver is given follow one another from its place on, and what it has not
been given is what it is given next. -/
theorem handouts_run {life : List Operation} (hlife : .subscribe receiver ∉ life) {place : Nat}
    (hplace : site.place? (.receiver receiver) = some place) (hle : place ≤ site.endOfLog) :
    ∃ (portions : List (List Event)) (unread : List Event),
      handouts receiver life (site.run verdict life).2 = portions.map Delivery.ofPending ∧
      ((site.run verdict life).1.perform verdict (.drain receiver)).2 =
        .deliveries (Delivery.ofPending unread) ∧
      portions.flatten ++ unread = (site.run verdict life).1.custody.log.drop place := by
  induction life generalizing site place with
  | nil => exact ⟨[], _, rfl, outcome_drain hplace, rfl⟩
  | cons operation life ih =>
      rw [List.mem_cons, not_or] at hlife
      obtain ⟨hfirst, hmore⟩ := hlife
      rw [run_cons, handouts_cons]
      by_cases hdrain : operation = .drain receiver
      · subst hdrain
        have hreached := reached?_drain hplace
        obtain ⟨portions, unread, hgiven, hnext, hall⟩ :=
          ih hmore (place?_of_reached? verdict hreached) (Nat.le_refl _)
        refine ⟨site.custody.log.drop place :: portions, unread, ?_, hnext, ?_⟩
        · rw [outcome_drain hplace, hgiven]
          simp [handout?]
        · have hcustody : (site.perform verdict (.drain receiver)).1.custody = site.custody :=
            custody_of_isPassive rfl
          obtain ⟨events, hlog⟩ :=
            prefix_log_run verdict (site.perform verdict (.drain receiver)).1 life
          rw [← hlog, endOfLog, List.drop_left] at hall
          rw [← hlog, hcustody, List.drop_append_of_le_length hle, List.flatten_cons,
            List.append_assoc, hall]
      · have hother : operation.follower? ≠ some (.receiver receiver) := by
          intro hown
          rcases eq_of_follower?_receiver hown with hsubscribe | hdrains
          · exact hfirst hsubscribe.symm
          · exact hdrain hdrains
        have hstep := place?_perform verdict site operation (.receiver receiver)
        rw [if_neg fun hreached => hother (follower?_of_reached? hreached), hplace] at hstep
        have hgrows := (prefix_log_perform verdict site operation).length_le
        obtain ⟨portions, unread, hgiven, hnext, hall⟩ :=
          ih hmore hstep (Nat.le_trans hle hgrows)
        refine ⟨portions, unread, ?_, hnext, hall⟩
        rw [handout?_eq_none hdrain, hgiven]
        rfl

/-- What a receiver has been given when it has just drained and was never given a mark is all that
there was since its place. -/
theorem given_of_not_lagged {life : List Operation} (hlife : .subscribe receiver ∉ life)
    {place : Nat} (hplace : site.place? (.receiver receiver) = some place)
    (hle : place ≤ site.endOfLog) {last : List Delivery}
    (hlast : ((site.run verdict life).1.perform verdict (.drain receiver)).2 = .deliveries last)
    (hmarks : ∀ lost, Delivery.lagged lost ∉
      (handouts receiver life (site.run verdict life).2).flatten ++ last) :
    ((handouts receiver life (site.run verdict life).2).flatten ++ last).filterMap Delivery.event? =
      (site.run verdict life).1.custody.log.drop place := by
  obtain ⟨portions, unread, hgiven, hnext, hall⟩ := @handouts_run verdict _ _ _ hlife _ hplace hle
  obtain rfl : last = Delivery.ofPending unread := by
    rw [hnext, Outcome.deliveries.injEq] at hlast
    exact hlast.symm
  have hportions : (handouts receiver life (site.run verdict life).2).flatten ++
      Delivery.ofPending unread = ((portions ++ [unread]).map Delivery.ofPending).flatten := by
    rw [hgiven, List.map_append, List.flatten_append, List.map_singleton, List.flatten_singleton]
  rw [hportions] at hmarks ⊢
  rw [Delivery.filterMap_event?_of_portions hmarks, List.flatten_append, List.flatten_singleton,
    hall]

/-! ## Other receivers -/

/-- What is left of an operation hands out as much to a receiver that is kept. -/
theorem handout?_keeping {kept : Follower → Bool} (hkept : kept (.receiver receiver) = true)
    (operation : Operation) (outcome : Outcome) :
    ((operation.keeping kept).bind fun left => handout? receiver left outcome) =
      handout? receiver operation outcome := by
  by_cases hamong : operation.IsAmong kept
  · rw [keeping_of_isAmong hamong, Option.bind_some]
  · have hother : operation ≠ .drain receiver := by
      rintro rfl
      apply hamong
      rintro follower ⟨⟩
      exact hkept
    rw [keeping_of_not_isAmong hamong, handout?_eq_none hother]
    cases operation <;> rfl

/-- What is handed out to a receiver that is kept is the same without the others. -/
theorem handouts_keeping {kept : Follower → Bool} (hkept : kept (.receiver receiver) = true)
    (operations : List Operation) (outcomes : List Outcome) :
    handouts receiver (operations.filterMap (·.keeping kept))
        (keptOutcomes kept operations outcomes) =
      handouts receiver operations outcomes := by
  induction operations generalizing outcomes with
  | nil => rfl
  | cons operation operations ih =>
      cases outcomes with
      | nil => simp [handouts, keptOutcomes]
      | cons outcome outcomes =>
          have hsame := handout?_keeping hkept operation outcome
          rw [handouts_cons, ← ih, ← hsame]
          cases hleft : operation.keeping kept with
          | none => simp [keptOutcomes, hleft]
          | some left => simp [keptOutcomes, hleft, handouts_cons]

/-! ## Delivery -/

/-- What receivers are given. A receiver that has just subscribed or drained is given, the next time
it drains, all events since then if they fit, and else the last of them after a mark that counts the
others. From its subscription on it is given the events in their order and none twice, and those
that it has been given, those that were counted as lost and those still unread make up all that
there were. What it is given is the same without the other followers, and so are the custody after
the run and all other outcomes. -/
theorem run_delivers (verdict : Verdict) (site : Site) (receiver : String) :
    (∀ contact, contact = .subscribe receiver ∨
        contact = .drain receiver ∧ (site.receivers.get? receiver).isSome = true →
      ∀ between : List Operation,
        (∀ operation ∈ between, operation.follower? ≠ some (.receiver receiver)) →
        let since := (site.perform verdict contact).1
        let now := (since.run verdict between).1
        ∃ events, now.custody.log = since.custody.log ++ events ∧
          (events.length ≤ 64 →
            (now.perform verdict (.drain receiver)).2 = .deliveries (events.map .event)) ∧
          (64 < events.length →
            (now.perform verdict (.drain receiver)).2 = .deliveries
              (.lagged (events.length - 64) ::
                (events.drop (events.length - 64)).map .event))) ∧
    (∀ life : List Operation, .subscribe receiver ∉ life →
      let born := (site.perform verdict (.subscribe receiver)).1
      let now := (born.run verdict life).1
      let given := (handouts receiver life (born.run verdict life).2).flatten
      ∃ emitted unread, now.custody.log = born.custody.log ++ emitted ∧
        (now.perform verdict (.drain receiver)).2 = .deliveries (Delivery.ofPending unread) ∧
        (given.filterMap Delivery.event? ++ unread).Sublist emitted ∧
        (given.filterMap Delivery.event?).length + (given.map Delivery.lost).sum + unread.length =
          emitted.length) ∧
    ∀ (kept : Follower → Bool) (operations : List Operation),
      let alone := operations.filterMap (·.keeping kept)
      (site.run verdict alone).1.custody = (site.run verdict operations).1.custody ∧
      (site.run verdict alone).2 = keptOutcomes kept operations (site.run verdict operations).2 ∧
      (kept (.receiver receiver) = true →
        handouts receiver alone (site.run verdict alone).2 =
          handouts receiver operations (site.run verdict operations).2) := by
  refine ⟨?_, ?_, ?_⟩
  · intro contact hcontact between hbetween since now
    obtain ⟨events, hlog⟩ := prefix_log_run verdict since between
    have hreached : site.reached? contact = some (.receiver receiver) := by
      rcases hcontact with rfl | ⟨rfl, hknown⟩
      · rfl
      · obtain ⟨place, hplace⟩ := Option.isSome_iff_exists.mp hknown
        exact reached?_drain hplace
    have hdrain := outcome_drain_since (place?_of_reached? verdict hreached) hbetween hlog.symm
    refine ⟨events, hlog.symm, fun hfits => ?_, fun hover => ?_⟩
    · exact hdrain.trans (congrArg _ (Delivery.ofPending_of_le hfits))
    · exact hdrain.trans (congrArg _ (Delivery.ofPending_of_lt hover))
  · intro life hlife born now given
    have hreached : site.reached? (.subscribe receiver) = some (.receiver receiver) := rfl
    have hplace := place?_of_reached? verdict hreached
    obtain ⟨portions, unread, hgiven, hnext, hall⟩ := handouts_run hlife hplace (Nat.le_refl _)
    obtain ⟨emitted, hlog⟩ := prefix_log_run verdict born life
    rw [← hlog, endOfLog, List.drop_left] at hall
    have hflat : given = (portions.map Delivery.ofPending).flatten := congrArg _ hgiven
    refine ⟨emitted, unread, hlog.symm, hnext, ?_, ?_⟩
    · rw [hflat, ← hall]
      exact Delivery.sublist_of_portions.append (List.Sublist.refl _)
    · rw [hflat, Delivery.length_add_lost_of_portions, ← List.length_append, hall]
  · intro kept operations alone
    obtain ⟨hagrees, houtcomes⟩ := (AgreesOn.refl kept site).run_keeping operations
    refine ⟨hagrees.custody, houtcomes, fun hkept => ?_⟩
    rw [houtcomes]
    exact handouts_keeping hkept operations _

/-- A receiver that lets seventy events pass loses six. -/
theorem run_delivers_seventy :
    ∃ verdict born now,
      born = ((Site.start Grant.License.epoch).perform verdict (.subscribe "a")).1 ∧
      now = (born.run verdict (List.replicate 70 (.command .useCommunity))).1 ∧
      (now.perform verdict (.drain "a")).2 = .deliveries
        (.lagged 6 :: List.replicate 64 (.event (.communityEdition .free))) := by
  refine ⟨fun _ _ => .ok .community, _, _, rfl, rfl, ?_⟩
  obtain ⟨hdrains, -, -⟩ := run_delivers (fun _ _ => .ok .community)
    (Site.start Grant.License.epoch) "a"
  have hothers : ∀ operation ∈ List.replicate 70 (Operation.command .useCommunity),
      operation.follower? ≠ some (.receiver "a") := by
    intro operation hoperation
    rw [List.eq_of_mem_replicate hoperation]
    exact (Option.some_ne_none _).symm
  obtain ⟨events, hlog, -, hover⟩ := hdrains _ (.inl rfl) _ hothers
  have hevents : events = List.replicate 70 (.communityEdition .free) :=
    hlog.symm.trans (by decide)
  rw [hevents] at hover
  exact hover (by decide)

end Entitlement.Site
