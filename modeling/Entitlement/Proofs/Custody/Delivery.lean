import Entitlement.Custody.Delivery
import Entitlement.Proofs.Custody.Step

/-! # What followers are given

The log of events only grows, so what is pending for a follower is always its end. Of that a
follower is given the last events up to the capacity, in their order, after a mark that counts the
ones before.
-/

namespace Entitlement.Custody

/-! ## The log -/

section Log

variable {verdict : Verdict}

theorem prefix_log_renew (c : Custody) (license : Grant.License) :
    c.log <+: (c.renew license).log := by
  unfold renew
  dsimp only
  split
  next => exact List.prefix_append _ _
  next => exact List.prefix_rfl

theorem prefix_log_step (c : Custody) (step : Step) : c.log <+: (c.step verdict step).log := by
  cases step with
  | command command =>
      rw [Custody.step, execute_fst]
      cases command with
      | load key =>
          dsimp only
          cases hverdict : verdict key c.clock with
          | ok license =>
              rw [load_of_ok hverdict]
              exact List.prefix_append _ _
          | error cause => simp [load_of_error hverdict]
      | useCommunity => exact List.prefix_append _ _
      | _ => exact List.prefix_rfl
  | settle key snapshot =>
      rw [Custody.step]
      cases hverdict : verdict key c.clock with
      | ok license =>
          rw [settle_of_ok hverdict]
          exact prefix_log_renew c license
      | error cause =>
          by_cases hdrop : c.isDroppable snapshot = true
          · rw [settle_of_isDroppable hverdict hdrop]
            exact (List.prefix_append _ _).trans (List.prefix_append _ _)
          · rw [settle_of_not_isDroppable hverdict (Bool.eq_false_iff.mpr hdrop)]
            exact List.prefix_append _ _

/-- No event is ever taken back. -/
theorem prefix_log_steps (list : List Step) (c : Custody) :
    c.log <+: (c.steps verdict list).log := by
  induction list generalizing c with
  | nil => exact List.prefix_rfl
  | cons step list ih => exact (prefix_log_step c step).trans (ih _)

end Log

/-! ## Deliveries -/

namespace Delivery

/-- How many events a delivery reports as lost. -/
def lost : Delivery → Nat
  | .lagged lost => lost
  | .event _ => 0

theorem ofPending_of_le {pending : List Event} (hfits : pending.length ≤ capacity) :
    ofPending pending = pending.map .event := by
  have hnone : pending.length - capacity = 0 := Nat.sub_eq_zero_of_le hfits
  simp [ofPending, hnone]

theorem ofPending_of_lt {pending : List Event} (hover : capacity < pending.length) :
    ofPending pending =
      .lagged (pending.length - capacity) ::
        (pending.drop (pending.length - capacity)).map .event := by
  have hsome : pending.length - capacity ≠ 0 := Nat.sub_ne_zero_of_lt hover
  simp [ofPending, hsome]

theorem filterMap_event?_map (events : List Event) :
    (events.map Delivery.event).filterMap event? = events := by
  simp [List.filterMap_map, Function.comp_def, event?]

/-- The events that are given are the last of those that were pending. -/
theorem filterMap_event?_ofPending (pending : List Event) :
    (ofPending pending).filterMap event? = pending.drop (pending.length - capacity) := by
  rcases Nat.lt_or_ge capacity pending.length with hover | hfits
  · rw [ofPending_of_lt hover, List.filterMap_cons_none rfl, filterMap_event?_map]
  · rw [ofPending_of_le hfits, filterMap_event?_map, Nat.sub_eq_zero_of_le hfits, List.drop_zero]

/-- The mark counts the events that are not given. -/
theorem sum_lost_ofPending (pending : List Event) :
    ((ofPending pending).map lost).sum = pending.length - capacity := by
  have hevents : ∀ events : List Event, ((events.map Delivery.event).map lost).sum = 0 := by
    intro events
    simp [List.map_map, Function.comp_def, lost]
  rcases Nat.lt_or_ge capacity pending.length with hover | hfits
  · rw [ofPending_of_lt hover, List.map_cons, List.sum_cons, hevents, Nat.add_zero, lost]
  · rw [ofPending_of_le hfits, hevents, Nat.sub_eq_zero_of_le hfits]

variable {portions : List (List Event)}

/-- What is given portion by portion is in the order of the portions, and no event is given
twice. -/
theorem sublist_of_portions :
    ((portions.map ofPending).flatten.filterMap event?).Sublist portions.flatten := by
  induction portions with
  | nil => exact List.Sublist.refl _
  | cons portion portions ih =>
      rw [List.map_cons, List.flatten_cons, List.filterMap_append, filterMap_event?_ofPending,
        List.flatten_cons]
      exact (List.drop_sublist _ _).append ih

/-- Every event of every portion is given or counted as lost. -/
theorem length_add_lost_of_portions :
    ((portions.map ofPending).flatten.filterMap event?).length +
      ((portions.map ofPending).flatten.map lost).sum = portions.flatten.length := by
  induction portions with
  | nil => rfl
  | cons portion portions ih =>
      rw [List.map_cons, List.flatten_cons, List.filterMap_append, filterMap_event?_ofPending,
        List.flatten_cons, List.length_append, List.length_append, List.map_append, List.sum_append,
        sum_lost_ofPending, List.length_drop]
      omega

/-- Where no mark is given, every event of every portion is. -/
theorem filterMap_event?_of_portions
    (hmarks : ∀ lost, Delivery.lagged lost ∉ (portions.map ofPending).flatten) :
    (portions.map ofPending).flatten.filterMap event? = portions.flatten := by
  have hnone : ((portions.map ofPending).flatten.map lost).sum = 0 := by
    rw [List.sum_eq_zero_iff_forall_eq_nat]
    intro count hcount
    obtain ⟨delivery, hdelivery, rfl⟩ := List.mem_map.mp hcount
    cases delivery with
    | lagged lost => exact absurd hdelivery (hmarks lost)
    | event told => rfl
  have hlength := @length_add_lost_of_portions portions
  rw [hnone, Nat.add_zero] at hlength
  exact sublist_of_portions.eq_of_length hlength

end Delivery

end Entitlement.Custody
