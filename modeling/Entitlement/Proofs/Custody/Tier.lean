import Entitlement.Proofs.Custody.Delivery

/-! # The tier that was told last

Every event tells a tier, and whoever hears an event takes its tier to be in force until the next
one. There is one step that proves such a listener wrong: a check that puts in force another license
under the id of the one before says nothing, so if the two licenses differ in their tiers nobody
hears of it.
-/

namespace Entitlement.Custody

open Grant Plan

/-- The tier that an event tells. -/
def Event.tier : Event → Tier
  | .licenseLoaded _ tier => tier
  | .communityEdition tier => tier
  | .revalidationFailed _ tier _ => tier
  | .licenseDemoted _ tier => tier

@[simp] theorem Event.tier_inEffect (license : License) :
    (Event.inEffect license).tier = license.tier := by
  unfold Event.inEffect
  split <;> rfl

/-- The tier that was told last, or that was known before anything was told. -/
def toldTier (known : Tier) (told : List Event) : Tier :=
  (told.getLast?.map Event.tier).getD known

@[simp] theorem toldTier_nil (known : Tier) : toldTier known [] = known :=
  rfl

@[simp] theorem toldTier_append_singleton (known : Tier) (told : List Event) (event : Event) :
    toldTier known (told ++ [event]) = event.tier := by
  simp [toldTier]

theorem toldTier_of_getLast? {known : Tier} {told : List Event}
    (htold : toldTier known told ≠ known) :
    ∃ last, told.getLast? = some last ∧ last.tier = toldTier known told := by
  cases hlast : told.getLast? with
  | none => exact absurd (by rw [toldTier, hlast]; rfl) htold
  | some last => exact ⟨last, rfl, by rw [toldTier, hlast]; rfl⟩

variable {verdict : Verdict}

/-! ## One step -/

/-- A step that puts another tier in force under the id that is in force already. -/
def Retiers (verdict : Verdict) (c : Custody) : Step → Prop
  | .command _ => False
  | .settle key _ =>
    ∃ license, verdict key c.clock = .ok license ∧ c.license.isCommunity = false ∧
      license.id = c.license.id ∧ license.tier ≠ c.license.tier

theorem renew_of_silent {c : Custody} {license : License} (hgrant : c.license.isCommunity = false)
    (hid : license.id = c.license.id) : c.renew license = c.install license := by
  simp [renew, hgrant, hid]

theorem renew_of_news {c : Custody} {license : License}
    (hnews : c.license.isCommunity = true ∨ license.id ≠ c.license.id) :
    c.renew license = c.announce license := by
  unfold renew
  dsimp only
  rw [if_pos]
  rcases hnews with hcommunity | hother
  · rw [hcommunity, Bool.true_or]
  · rw [bne_iff_ne.mpr (Ne.symm hother), Bool.or_true]

/-- A step that puts another tier in force under the same id says nothing about it. -/
theorem step_of_retiers {c : Custody} {step : Step} (hretiers : Retiers verdict c step) :
    (c.step verdict step).log = c.log ∧ (c.step verdict step).license.tier ≠ c.license.tier := by
  cases step with
  | command command => cases hretiers
  | settle key snapshot =>
      obtain ⟨license, hverdict, hgrant, hid, htier⟩ := hretiers
      rw [Custody.step, settle_of_ok hverdict, renew_of_silent hgrant hid]
      exact ⟨rfl, htier⟩

/-- After any other step the tier in force is the one that was told last. -/
theorem step_of_not_retiers {c : Custody} {step : Step} (hretiers : ¬ Retiers verdict c step) :
    ∃ told, (c.step verdict step).log = c.log ++ told ∧
      toldTier c.license.tier told = (c.step verdict step).license.tier := by
  cases step with
  | command command =>
      rw [Custody.step, execute_fst]
      cases command with
      | load key =>
          dsimp only
          cases hverdict : verdict key c.clock with
          | ok license =>
              rw [load_of_ok hverdict]
              exact ⟨[.inEffect license], rfl, Event.tier_inEffect license⟩
          | error cause =>
              rw [load_of_error hverdict]
              exact ⟨[], (List.append_nil _).symm, rfl⟩
      | useCommunity => exact ⟨[.inEffect .community], rfl, Event.tier_inEffect .community⟩
      | _ => exact ⟨[], (List.append_nil _).symm, rfl⟩
  | settle key snapshot =>
      rw [Custody.step]
      cases hverdict : verdict key c.clock with
      | ok license =>
          rw [settle_of_ok hverdict]
          by_cases hsilent : c.license.isCommunity = false ∧ license.id = c.license.id
          · -- A silent renewal that is no change of tier leaves the tier as it was known.
            obtain ⟨hgrant, hid⟩ := hsilent
            rw [renew_of_silent hgrant hid]
            refine ⟨[], (List.append_nil _).symm, ?_⟩
            apply Classical.byContradiction
            intro htier
            exact hretiers ⟨license, hverdict, hgrant, hid, fun hsame => htier hsame.symm⟩
          · rw [not_and_or, Bool.not_eq_false] at hsilent
            rw [renew_of_news hsilent]
            exact ⟨[.inEffect license], rfl, Event.tier_inEffect license⟩
      | error cause =>
          by_cases hdrop : c.isDroppable snapshot = true
          · rw [settle_of_isDroppable hverdict hdrop]
            exact ⟨_, List.append_assoc _ _ _, rfl⟩
          · rw [settle_of_not_isDroppable hverdict (Bool.eq_false_iff.mpr hdrop)]
            exact ⟨_, rfl, rfl⟩

/-! ## Many steps -/

/-- Whether some step of several puts another tier in force under the same id, and nothing is told
from then on. -/
def LeavesUnheard (verdict : Verdict) (c : Custody) (list : List Step) : Prop :=
  ∃ before step after, list = before ++ step :: after ∧
    Retiers verdict (c.steps verdict before) step ∧
    (c.steps verdict list).log = (c.steps verdict before).log

theorem steps_concat (list : List Step) (step : Step) (c : Custody) :
    c.steps verdict (list ++ [step]) = (c.steps verdict list).step verdict step := by
  rw [steps_append]
  rfl

/-- A step that tells nothing leaves unheard what was unheard before. -/
theorem LeavesUnheard.concat {c : Custody} {list : List Step}
    (hunheard : c.LeavesUnheard verdict list)
    {step : Step} (hsilent : (c.steps verdict (list ++ [step])).log = (c.steps verdict list).log) :
    c.LeavesUnheard verdict (list ++ [step]) := by
  obtain ⟨before, retiering, after, rfl, hretiers, hlog⟩ := hunheard
  exact ⟨before, retiering, after ++ [step], by simp, hretiers, hsilent.trans hlog⟩

/-- Unless a change of tier under an id is left unheard, the tier in force is the one told last. -/
theorem steps_told {list : List Step} {c : Custody} (hheard : ¬ c.LeavesUnheard verdict list) :
    ∃ told, (c.steps verdict list).log = c.log ++ told ∧
      toldTier c.license.tier told = (c.steps verdict list).license.tier := by
  induction list using List.reverseRecOn with
  | nil => exact ⟨[], (List.append_nil _).symm, rfl⟩
  | append_singleton list step ih =>
      have hretiers : ¬ Retiers verdict (c.steps verdict list) step := by
        intro hretiers
        refine hheard ⟨list, step, [], rfl, hretiers, ?_⟩
        rw [steps_concat]
        exact (step_of_retiers hretiers).1
      obtain ⟨more, hmore, htier⟩ := step_of_not_retiers hretiers
      rw [← steps_concat] at hmore htier
      -- What was unheard before is heard of with the first event, which tells the tier in force.
      cases more using List.reverseRecOn with
      | nil =>
          rw [List.append_nil] at hmore
          obtain ⟨told, htold, hbefore⟩ := ih fun hunheard => hheard (hunheard.concat hmore)
          exact ⟨told, hmore.trans htold, hbefore.trans htier⟩
      | append_singleton more event =>
          obtain ⟨told, htold⟩ := prefix_log_steps list c
          refine ⟨told ++ (more ++ [event]), ?_, ?_⟩
          · rw [hmore, ← htold, List.append_assoc]
          · rw [← htier, ← List.append_assoc, toldTier_append_singleton, toldTier_append_singleton]

end Entitlement.Custody
