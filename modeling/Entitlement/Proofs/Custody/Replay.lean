import Entitlement.Proofs.Custody.Step

/-! # Replaying events

Whoever hears every event from the start knows what is in force without having to ask. A step tells
nothing only if it changes nothing that a listener knows of: a renewal of the very license in force
is silent, and so is a change of the clock. A failed check is told before the demotion that it leads
to, so a demotion never comes alone.
-/

namespace Entitlement.Custody

open Calendar Grant Plan

/-- What a listener knows of the license in force. -/
inductive Standing where
  | community
  | verified (id : String)
  deriving DecidableEq

namespace Standing

/-- What is known of a license. -/
def ofLicense (license : License) : Standing :=
  if license.isCommunity then .community else .verified license.id

/-- What is known after one more event. -/
def after (known : Standing) : Event → Standing
  | .licenseLoaded id _ => .verified id
  | .communityEdition _ => .community
  | .revalidationFailed _ _ _ => known
  | .licenseDemoted _ _ => .community

theorem ofLicense_of_isCommunity {license : License} (hcommunity : license.isCommunity = true) :
    ofLicense license = .community :=
  if_pos hcommunity

theorem ofLicense_of_grant {license : License} (hgrant : license.isCommunity = false) :
    ofLicense license = .verified license.id :=
  if_neg (Bool.eq_false_iff.mp hgrant)

theorem ofLicense_eq_community_iff {license : License} :
    ofLicense license = .community ↔ license.isCommunity = true := by
  constructor
  · intro hknown
    cases hcommunity : license.isCommunity with
    | true => rfl
    | false =>
        rw [ofLicense_of_grant hcommunity] at hknown
        cases hknown
  · exact ofLicense_of_isCommunity

/-- The event in effect makes its license known. -/
theorem after_inEffect (known : Standing) (license : License) :
    known.after (.inEffect license) = ofLicense license := by
  unfold Event.inEffect ofLicense
  split <;> rfl

end Standing

/-- What is known after some events from the start on. -/
def replay (events : List Event) : Standing :=
  events.foldl Standing.after .community

/-! ## What a step tells -/

/-- What a step from one custody to another tells. -/
inductive Tells (verdict : Verdict) (c c' : Custody) : Step → List Event → Prop where
  | nothing {step : Step} (hknown : Standing.ofLicense c'.license = Standing.ofLicense c.license) :
      Tells verdict c c' step []
  | inEffect {step : Step} : Tells verdict c c' step [.inEffect c'.license]
  | failure {key : String} {snapshot : Snapshot} {cause : Key.VerificationError}
      (hverdict : verdict key c.clock = .error cause) (hkept : c'.license = c.license) :
      Tells verdict c c' (.settle key snapshot)
        [.revalidationFailed snapshot.license.id c'.license.tier cause.kind]
  | demotion {key : String} {snapshot : Snapshot} {cause : Key.VerificationError}
      (hverdict : verdict key c.clock = .error cause) (hdropped : c'.license = .community) :
      Tells verdict c c' (.settle key snapshot)
        [.revalidationFailed snapshot.license.id c'.license.tier cause.kind,
          .licenseDemoted snapshot.license.id c'.license.tier]

section Step

variable {verdict : Verdict}

/-- A renewal keeps silent only about a grant whose id was in force before. -/
theorem renew_tells (c : Custody) {license : License} (hgrant : license.isCommunity = false)
    (step : Step) :
    ∃ told, (c.renew license).log = c.log ++ told ∧
      Tells verdict c (c.renew license) step told := by
  unfold renew
  dsimp only
  split
  next hnews => exact ⟨_, rfl, .inEffect⟩
  next hsilent =>
    rw [Bool.or_eq_true, not_or, Bool.not_eq_true, bne_iff_ne, Decidable.not_not] at hsilent
    obtain ⟨hbefore, hsame⟩ := hsilent
    refine ⟨[], (List.append_nil _).symm, .nothing ?_⟩
    change Standing.ofLicense license = _
    rw [Standing.ofLicense_of_grant hgrant, Standing.ofLicense_of_grant hbefore, hsame]

theorem step_tells (hgrants : OnlyGrants verdict) (c : Custody) (step : Step) :
    ∃ told, (c.step verdict step).log = c.log ++ told ∧
      Tells verdict c (c.step verdict step) step told := by
  cases step with
  | command command =>
      rw [Custody.step, execute_fst]
      cases command with
      | load key =>
          dsimp only
          cases hverdict : verdict key c.clock with
          | ok license =>
              rw [load_of_ok hverdict]
              exact ⟨_, rfl, .inEffect⟩
          | error cause =>
              rw [load_of_error hverdict]
              exact ⟨[], (List.append_nil _).symm, .nothing rfl⟩
      | useCommunity => exact ⟨_, rfl, .inEffect⟩
      | _ => exact ⟨[], (List.append_nil _).symm, .nothing rfl⟩
  | settle key snapshot =>
      rw [Custody.step]
      cases hverdict : verdict key c.clock with
      | ok license =>
          rw [settle_of_ok hverdict]
          exact renew_tells c (hgrants key c.clock license hverdict) _
      | error cause =>
          by_cases hdrop : c.isDroppable snapshot = true
          · rw [settle_of_isDroppable hverdict hdrop]
            exact ⟨_, List.append_assoc _ _ _, .demotion hverdict rfl⟩
          · rw [settle_of_not_isDroppable hverdict (Bool.eq_false_iff.mpr hdrop)]
            exact ⟨_, rfl, .failure hverdict rfl⟩

/-- Whatever a step tells, a listener who knew the license before knows the license after. -/
theorem Tells.foldl_after {c c' : Custody} {step : Step} {told : List Event}
    (htold : Tells verdict c c' step told) :
    told.foldl Standing.after (Standing.ofLicense c.license) = Standing.ofLicense c'.license := by
  cases htold with
  | nothing hknown => exact hknown.symm
  | inEffect => exact Standing.after_inEffect _ _
  | failure _ hkept => rw [hkept]; rfl
  | demotion _ hdropped => rw [hdropped]; rfl

end Step

/-! ## What a run tells -/

/-- Every demotion comes directly after a failed check of the same license. -/
def DemotionsFollow (events : List Event) : Prop :=
  ∀ before id tier later, events = before ++ .licenseDemoted id tier :: later →
    ∃ earlier tier' reason, before = earlier ++ [.revalidationFailed id tier' reason]

theorem demotionsFollow_of_forall {events : List Event}
    (hnone : ∀ event ∈ events, ∀ id tier, event ≠ .licenseDemoted id tier) :
    DemotionsFollow events := by
  rintro before id tier later rfl
  exact absurd rfl (hnone _ (List.mem_append_right _ List.mem_cons_self) id tier)

theorem parts_ne_nil {α : Type} {before later : List α} {event : α} :
    before ++ event :: later ≠ [] :=
  List.append_ne_nil_of_right_ne_nil _ (List.cons_ne_nil _ _)

/-- What stands in two parts stands in the first or in the second. -/
theorem mem_parts {α : Type} {first second before later : List α} {event : α}
    (hparts : first ++ second = before ++ event :: later) :
    (∃ middle, first = before ++ event :: middle) ∨
      ∃ middle, before = first ++ middle ∧ second = middle ++ event :: later := by
  rcases List.append_eq_append_iff.mp hparts with ⟨middle, hleft, hright⟩ | ⟨middle, hleft, hright⟩
  · exact .inr ⟨middle, hleft, hright⟩
  · cases middle with
    | nil => exact .inr ⟨[], by rw [hleft, List.append_nil, List.append_nil], hright.symm⟩
    | cons head middle =>
        obtain ⟨rfl, -⟩ := List.cons.inj hright
        exact .inl ⟨middle, hleft⟩

theorem DemotionsFollow.append {first second : List Event} (hfirst : DemotionsFollow first)
    (hsecond : DemotionsFollow second) : DemotionsFollow (first ++ second) := by
  intro before id tier later hevents
  rcases mem_parts hevents with ⟨middle, hleft⟩ | ⟨middle, rfl, hright⟩
  · exact hfirst before id tier middle hleft
  · obtain ⟨earlier, tier', reason, rfl⟩ := hsecond middle id tier later hright
    exact ⟨first ++ earlier, tier', reason, (List.append_assoc _ _ _).symm⟩

theorem Tells.demotionsFollow {verdict : Verdict} {c c' : Custody} {step : Step}
    {told : List Event} (htold : Tells verdict c c' step told) : DemotionsFollow told := by
  cases htold with
  | nothing _ => exact demotionsFollow_of_forall fun _ hevent => absurd hevent List.not_mem_nil
  | inEffect =>
      apply demotionsFollow_of_forall
      intro event hevent id tier
      rw [List.mem_singleton.mp hevent, Event.inEffect]
      split <;> exact Event.noConfusion
  | failure _ _ =>
      apply demotionsFollow_of_forall
      intro event hevent id tier
      rw [List.mem_singleton.mp hevent]
      exact Event.noConfusion
  | demotion _ _ =>
      intro before id tier later hevents
      rcases List.cons_eq_append_iff.mp hevents with ⟨-, hevent⟩ | ⟨middle, rfl, hmore⟩
      · cases hevent
      · rcases List.cons_eq_append_iff.mp hmore with ⟨rfl, hevent⟩ | ⟨_, -, hnil⟩
        · cases hevent
          exact ⟨[], _, _, rfl⟩
        · exact absurd hnil.symm parts_ne_nil

/-- A failed check among the events comes from a check that was settled when all events before it
had been told. -/
def FailuresSettled (verdict : Verdict) (start : Custody) (list : List Step)
    (events : List Event) : Prop :=
  ∀ before id tier reason later, events = before ++ .revalidationFailed id tier reason :: later →
    ∃ done key snapshot rest cause, list = done ++ .settle key snapshot :: rest ∧
      (start.steps verdict done).log = start.log ++ before ∧
      verdict key (start.steps verdict done).clock = .error cause ∧
      id = snapshot.license.id ∧ reason = cause.kind ∧
      tier = (start.steps verdict (done ++ [.settle key snapshot])).license.tier

theorem FailuresSettled.append {verdict : Verdict} {c : Custody} {list more : List Step}
    {first second : List Event} (hfirst : FailuresSettled verdict c list first)
    (hsecond : FailuresSettled verdict (c.steps verdict list) more second)
    (hlog : (c.steps verdict list).log = c.log ++ first) :
    FailuresSettled verdict c (list ++ more) (first ++ second) := by
  intro before id tier reason later hevents
  rcases mem_parts hevents with ⟨middle, hleft⟩ | ⟨middle, rfl, hright⟩
  · obtain ⟨done, key, snapshot, rest, cause, rfl, hsettled⟩ :=
      hfirst before id tier reason middle hleft
    exact ⟨done, key, snapshot, rest ++ more, cause, List.append_assoc _ _ _, hsettled⟩
  · obtain ⟨done, key, snapshot, rest, cause, rfl, hbefore, hsettled⟩ :=
      hsecond middle id tier reason later hright
    refine ⟨list ++ done, key, snapshot, rest, cause, (List.append_assoc _ _ _).symm, ?_⟩
    rw [List.append_assoc list, steps_append, steps_append, hbefore, hlog, List.append_assoc]
    exact ⟨rfl, hsettled⟩

/-- A step that tells a failed check settles it, and tells the failure before anything else. -/
theorem Tells.of_failure {verdict : Verdict} {c c' : Custody} {step : Step}
    {before later : List Event} {id : String} {tier : Tier} {reason : Key.Rejection}
    (htold : Tells verdict c c' step (before ++ .revalidationFailed id tier reason :: later)) :
    before = [] ∧ ∃ key snapshot cause, step = .settle key snapshot ∧
      verdict key c.clock = .error cause ∧ id = snapshot.license.id ∧ reason = cause.kind ∧
      tier = c'.license.tier := by
  generalize hevents : before ++ .revalidationFailed id tier reason :: later = events at htold
  cases htold with
  | nothing _ => exact absurd hevents parts_ne_nil
  | inEffect =>
      rcases List.append_eq_singleton_iff.mp hevents with ⟨-, hevent⟩ | ⟨-, hnil⟩
      · unfold Event.inEffect at hevent
        split at hevent <;> cases hevent
      · cases hnil
  | @failure key snapshot cause hverdict hkept =>
      rcases List.append_eq_singleton_iff.mp hevents with ⟨rfl, hevent⟩ | ⟨-, hnil⟩
      · cases hevent
        exact ⟨rfl, key, snapshot, cause, rfl, hverdict, rfl, rfl, rfl⟩
      · cases hnil
  | @demotion key snapshot cause hverdict hdropped =>
      rcases List.append_eq_cons_iff.mp hevents with ⟨rfl, hevent⟩ | ⟨middle, rfl, hmore⟩
      · cases hevent
        exact ⟨rfl, key, snapshot, cause, rfl, hverdict, rfl, rfl, rfl⟩
      · rcases List.append_eq_singleton_iff.mp hmore.symm with ⟨-, hevent⟩ | ⟨-, hnil⟩
        · cases hevent
        · cases hnil

theorem Tells.failuresSettled {verdict : Verdict} {c : Custody} {step : Step}
    {told : List Event} (htold : Tells verdict c (c.step verdict step) step told) :
    FailuresSettled verdict c [step] told := by
  rintro before id tier reason later rfl
  obtain ⟨rfl, key, snapshot, cause, rfl, hsettled⟩ := htold.of_failure
  exact ⟨[], key, snapshot, [], cause, rfl, (List.append_nil _).symm, hsettled⟩

/-- Whatever happens, a listener who knew the license before knows the license after. -/
theorem steps_tell {verdict : Verdict} (hgrants : OnlyGrants verdict) (list : List Step)
    (c : Custody) :
    ∃ told, (c.steps verdict list).log = c.log ++ told ∧
      told.foldl Standing.after (Standing.ofLicense c.license) =
        Standing.ofLicense (c.steps verdict list).license ∧
      DemotionsFollow told ∧ FailuresSettled verdict c list told := by
  induction list generalizing c with
  | nil =>
      refine ⟨[], (List.append_nil _).symm, rfl, ?_, ?_⟩
      · exact demotionsFollow_of_forall fun _ hevent => absurd hevent List.not_mem_nil
      · intro before id tier reason later hevents
        exact absurd hevents.symm parts_ne_nil
  | cons step list ih =>
      obtain ⟨first, hfirst, htold⟩ := step_tells hgrants c step
      obtain ⟨more, hmore, hknown, hfollow, hsettled⟩ := ih (c.step verdict step)
      refine ⟨first ++ more, ?_, ?_, htold.demotionsFollow.append hfollow,
        htold.failuresSettled.append hsettled hfirst⟩
      · rw [← List.append_assoc, ← hfirst]
        exact hmore
      · rw [List.foldl_append, htold.foldl_after]
        exact hknown

end Entitlement.Custody
