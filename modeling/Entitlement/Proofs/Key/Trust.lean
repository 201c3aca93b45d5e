import Entitlement.Proofs.Key.Issue
import Entitlement.Proofs.Text.Pieces

/-! # Trust sets

While signing keys are rotated, old and new ones are trusted side by side. A trust set is asked for
one thing only, whether some member accepts a signature, so its members may come in any order and
more than once, and another member never takes a verdict away. The list that a trust set is read
from splits up likewise: what two lists name together is what the one names followed by what the
other names.
-/

namespace Entitlement.Key

open Calendar Grant Signature

/-! ## Verdicts -/

section Verdicts

variable {scheme : Scheme} {S T : TrustSet} {key : String} {now : Timestamp}

theorem isAuthentic_append (envelope : Envelope) :
    isAuthentic scheme (S ++ T) envelope =
      (isAuthentic scheme S envelope || isAuthentic scheme T envelope) := by
  rw [isAuthentic, isAuthentic, isAuthentic, List.any_append, Bool.and_or_distrib_left]

theorem isAuthentic_congr (hmembers : ∀ member, member ∈ S ↔ member ∈ T) (envelope : Envelope) :
    isAuthentic scheme S envelope = isAuthentic scheme T envelope := by
  rw [Bool.eq_iff_iff, isAuthentic_iff, isAuthentic_iff, Envelope.IsTrusted, Envelope.IsTrusted]
  simp only [hmembers]

/-- A rejected signature is all that members can be found to disagree about. -/
theorem verify_append :
    verify scheme (S ++ T) key now =
      if verify scheme S key now = .error .invalidSignature then verify scheme T key now
      else verify scheme S key now := by
  unfold verify
  cases hopen : openEnvelope key with
  | error e => simp
  | ok envelope =>
      simp only [isAuthentic_append]
      by_cases hauthentic : isAuthentic scheme S envelope = true
      · -- From here on the trust set is not asked any more, and no signature is rejected.
        have haccepted := licenseOf_ne_invalidSignature envelope.payload now
        simp [hauthentic, haccepted]
      · simp [hauthentic]

theorem verify_eq_of_mem_iff (hmembers : ∀ member, member ∈ S ↔ member ∈ T) :
    verify scheme S key now = verify scheme T key now := by
  unfold verify
  cases openEnvelope key with
  | error e => rfl
  | ok envelope =>
      dsimp only
      rw [isAuthentic_congr hmembers]

/-- A license that some members accept is accepted by all who trust these members. -/
theorem verify_of_subset (hsubset : S ⊆ T) {license : License}
    (hverify : verify scheme S key now = .ok license) :
    verify scheme T key now = .ok license := by
  have hunion : verify scheme (S ++ T) key now = .ok license := by
    rw [verify_append, hverify, if_neg (by simp)]
  rw [← hunion]
  refine verify_eq_of_mem_iff fun member => ?_
  rw [List.mem_append]
  exact ⟨.inr, fun hmember => hmember.elim (fun hmember => hsubset hmember) id⟩

theorem verify_nil_ne_ok (license : License) : verify scheme [] key now ≠ .ok license := by
  intro hverify
  obtain ⟨envelope, -, -, member, hmember, -⟩ := reads_of_verify hverify
  cases hmember

end Verdicts

/-! ## Lists -/

section Lists

variable {scheme : Scheme}

theorem listEntries_append (a b : String) :
    listEntries (a ++ "," ++ b) = listEntries a ++ listEntries b := by
  have hsplit := Text.split_append ',' a b
  change Text.split ',' (a ++ "," ++ b) = _ at hsplit
  rw [listEntries, hsplit, List.map_append, List.filter_append]
  rfl

theorem listEntries_of_not_mem {entry : String} (hcomma : ',' ∉ entry.toList) :
    listEntries entry = if Text.trim entry = "" then [] else [Text.trim entry] := by
  rw [listEntries, Text.split_of_not_mem hcomma, List.map_singleton]
  by_cases hblank : Text.trim entry = "" <;> simp [hblank]

theorem listEntries_congr_of_not_mem {a b : String} (ha : ',' ∉ a.toList) (hb : ',' ∉ b.toList)
    (htrim : Text.trim a = Text.trim b) : listEntries a = listEntries b := by
  rw [listEntries_of_not_mem ha, listEntries_of_not_mem hb, htrim]

theorem comma_not_mem_of_isBlankText {text : String} (hblank : Text.IsBlankText text) :
    ',' ∉ text.toList := by
  intro hcomma
  cases hblank ',' hcomma

theorem exists_first_entry {list : String} (hcomma : ',' ∈ list.toList) :
    ∃ first rest, list = first ++ "," ++ rest ∧ ',' ∉ first.toList := by
  obtain ⟨first, rest, hlist, hfirst⟩ := List.eq_append_cons_of_mem hcomma
  refine ⟨String.ofList first, String.ofList rest, ?_, by simpa using hfirst⟩
  rw [← String.toList_inj, hlist]
  simp

theorem exists_last_entry {list : String} (hcomma : ',' ∈ list.toList) :
    ∃ front last, list = front ++ "," ++ last ∧ ',' ∉ last.toList := by
  obtain ⟨last, front, hlist, hlast⟩ := List.eq_append_cons_of_mem (List.mem_reverse.mpr hcomma)
  refine ⟨String.ofList front.reverse, String.ofList last.reverse, ?_, by simpa using hlast⟩
  rw [← String.toList_inj, ← List.reverse_inj, hlist]
  simp

/-- Blanks around a list stand around its first and its last entry. -/
theorem listEntries_blanks {before after : String} (hbefore : Text.IsBlankText before)
    (hafter : Text.IsBlankText after) (list : String) :
    listEntries (before ++ list ++ after) = listEntries list := by
  have hnone := comma_not_mem_of_isBlankText hbefore
  have hnone' := comma_not_mem_of_isBlankText hafter
  have hfront : ∀ text : String, listEntries (before ++ text) = listEntries text := by
    intro text
    by_cases hcomma : ',' ∈ text.toList
    · obtain ⟨first, rest, rfl, hfirst⟩ := exists_first_entry hcomma
      have hentry : listEntries (before ++ first) = listEntries first :=
        listEntries_congr_of_not_mem (by simp [hnone, hfirst]) hfirst
          (Text.trim_append_left hbefore first)
      rw [← String.append_assoc, ← String.append_assoc, listEntries_append, listEntries_append,
        hentry]
    · exact listEntries_congr_of_not_mem (by simp [hnone, hcomma]) hcomma
        (Text.trim_append_left hbefore text)
  rw [String.append_assoc, hfront]
  by_cases hcomma : ',' ∈ list.toList
  · obtain ⟨front, last, rfl, hlast⟩ := exists_last_entry hcomma
    have hentry : listEntries (last ++ after) = listEntries last :=
      listEntries_congr_of_not_mem (by simp [hnone', hlast]) hlast
        (Text.trim_append_right last hafter)
    have hassoc : front ++ "," ++ last ++ after = front ++ "," ++ (last ++ after) :=
      String.append_assoc
    rw [hassoc, listEntries_append, listEntries_append, hentry]
  · exact listEntries_congr_of_not_mem (by simp [hnone', hcomma]) hcomma
      (Text.trim_append_right list hafter)

theorem ofList_append (a b : String) :
    TrustSet.ofList scheme (a ++ "," ++ b) =
      match TrustSet.ofList scheme a, TrustSet.ofList scheme b with
      | .error cause, _ => .error cause
      | .ok _, .error cause => .error cause
      | .ok S, .ok T => .ok (S ++ T) := by
  rw [TrustSet.ofList, listEntries_append, TrustSet.ofTexts, List.mapM_append]
  change _ = match TrustSet.ofTexts scheme (listEntries a), TrustSet.ofTexts scheme (listEntries b)
    with | .error cause, _ => _ | .ok _, .error cause => _ | .ok S, .ok T => _
  rw [TrustSet.ofTexts, TrustSet.ofTexts]
  cases (listEntries a).mapM (publicOfText scheme) with
  | error cause => rfl
  | ok S => cases (listEntries b).mapM (publicOfText scheme) <;> rfl

theorem publicOfText_trim (text : String) :
    publicOfText scheme (Text.trim text) = publicOfText scheme text := by
  rw [publicOfText, publicOfText, bytesOfText, bytesOfText, Text.trim_trim]

/-- A list without commas names one key, unless it is blank. -/
theorem ofList_of_not_mem {entry : String} (hcomma : ',' ∉ entry.toList) :
    TrustSet.ofList scheme entry =
      if Text.trim entry = "" then .ok [] else (publicOfText scheme entry).map ([·]) := by
  rw [TrustSet.ofList, listEntries_of_not_mem hcomma]
  split
  next => rfl
  next =>
    rw [TrustSet.ofTexts, List.mapM_cons, List.mapM_nil, publicOfText_trim]
    cases publicOfText scheme entry <;> rfl

end Lists

/-! ## Trust sets together -/

/-- How trust sets go together. Whoever trusts the members of two sets comes to the verdict of the
first one, unless that is a rejected signature, and then to the verdict of the second one. So
neither the order of members nor their number matters, a license that some of them accept is
accepted with the same claims by all who trust these, and nothing is accepted where nobody is
trusted. Of two lists with a comma between them the keys are those of the first list and then those
of the second one, or the first error that there is. A list without a comma names its one key or, if
it is blank, none, and blanks around a list are of no matter. -/
theorem trust_joins (scheme : Scheme) :
    (∀ (S T : TrustSet) (key : String) (now : Timestamp),
      verify scheme (S ++ T) key now =
        if verify scheme S key now = .error .invalidSignature then verify scheme T key now
        else verify scheme S key now) ∧
    (∀ S T : TrustSet, (∀ member, member ∈ S ↔ member ∈ T) → ∀ (key : String) (now : Timestamp),
      verify scheme S key now = verify scheme T key now) ∧
    (∀ S T : TrustSet, S ⊆ T → ∀ (key : String) (now : Timestamp) (license : License),
      verify scheme S key now = .ok license → verify scheme T key now = .ok license) ∧
    (∀ (key : String) (now : Timestamp) (license : License),
      verify scheme [] key now ≠ .ok license) ∧
    (∀ a b : String, TrustSet.ofList scheme (a ++ "," ++ b) =
      match TrustSet.ofList scheme a, TrustSet.ofList scheme b with
      | .error cause, _ => .error cause
      | .ok _, .error cause => .error cause
      | .ok S, .ok T => .ok (S ++ T)) ∧
    (∀ entry : String, ',' ∉ entry.toList → TrustSet.ofList scheme entry =
      if Text.trim entry = "" then .ok [] else (publicOfText scheme entry).map ([·])) ∧
    ∀ before list after : String, Text.IsBlankText before → Text.IsBlankText after →
      TrustSet.ofList scheme (before ++ list ++ after) = TrustSet.ofList scheme list := by
  refine ⟨fun S T key now => verify_append,
    fun S T hmembers key now => verify_eq_of_mem_iff hmembers,
    fun S T hsubset key now license => verify_of_subset hsubset,
    fun key now license => verify_nil_ne_ok license, fun a b => ofList_append a b,
    fun entry hcomma => ofList_of_not_mem hcomma, ?_⟩
  intro before list after hbefore hafter
  rw [TrustSet.ofList, TrustSet.ofList, listEntries_blanks hbefore hafter]

/-- The signer of the sample is trusted twice beside another one, who comes first, and the sample
passes as it does where nobody else is trusted. A list of a blank entry and a short one is refused
for the short one, whatever blanks stand around it. -/
theorem trust_joins_sample :
    verify Ed25519.scheme (zeroPublicKey :: sampleTrusted ++ sampleTrusted) sampleEnvelope.encode
        sampleClaims.issuedAt = .ok ⟨sampleClaims, .verified⟩ ∧
      verify Ed25519.scheme (zeroPublicKey :: sampleTrusted ++ sampleTrusted)
          sampleEnvelope.encode License.endOfTime =
        verify Ed25519.scheme (zeroPublicKey :: sampleTrusted) sampleEnvelope.encode
          License.endOfTime ∧
      TrustSet.ofList Ed25519.scheme ("
" ++ (" " ++ "," ++ " AAAA") ++ "　") =
        .error (.length 3) := by
  obtain ⟨-, hmembers, hsubset, -, hlists, hentry, hblanks⟩ := trust_joins Ed25519.scheme
  refine ⟨?_, ?_, ?_⟩
  · exact hsubset sampleTrusted _ (by simp [sampleTrusted]) _ _ _ verify_sampleEnvelope_issuedAt
  · exact hmembers _ _ (by simp [sampleTrusted]) _ _
  · rw [hblanks "
" _ "　" (by decide) (by decide), hlists, hentry " " (by decide),
      hentry " AAAA" (by decide), if_pos (by decide), if_neg (by decide)]
    have hshort : publicOfText Ed25519.scheme " AAAA" = .error (.length 3) := by rfl
    rw [hshort]
    rfl

end Entitlement.Key
