import Entitlement.Grant.Claims
import Entitlement.Proofs.Json.Unambiguous

/-! # The members of claims

Each member of a claims document is read on its own: what its value is read as depends on nothing
else, and goes into a place of its own in the draft. The grants beyond the plan are parts of the
claims that a document may leave out.
-/

namespace Entitlement.Grant

open Calendar Plan

namespace Claims

/-- The timestamp that a tree is. -/
def timestampOf (tree : Json.Tree) : Option Timestamp :=
  tree.text?.bind fun text => (Rfc3339.parse text).toOption

/-- The limits that a tree is. -/
def limitsOf (tree : Json.Tree) : Option Limits :=
  (Json.Reader.tableOf Json.Tree.word64? tree).map Limits.mk

/-- What the values of the members are read as. -/
def readings : List (String × (Json.Tree → Option Draft)) :=
  [("id", fun tree => tree.text?.map fun value => { id := some value }),
    ("customer_id", fun tree => tree.text?.map fun value => { customerId := some value }),
    ("customer_name", fun tree => tree.text?.map fun value => { customerName := some value }),
    ("email", fun tree => tree.text?.map fun value => { email := some value }),
    ("type", fun tree =>
      (Json.Reader.choiceOf (LicenseType.all.map fun kind => (kind.name, kind)) tree).map
        fun value => { licenseType := some value }),
    ("tier", fun tree =>
      (Json.Reader.choiceOf (Tier.all.map fun tier => (tier.name, tier)) tree).map
        fun value => { tier := some value }),
    ("issued_at", fun tree => (timestampOf tree).map fun value => { issuedAt := some value }),
    ("expires_at", fun tree => (timestampOf tree).map fun value => { expiresAt := some value }),
    ("features", fun tree => tree.names?.map fun value => { features := some value }),
    ("limits", fun tree => (limitsOf tree).map fun value => { limits := some value }),
    ("metadata", fun tree =>
      (Json.Reader.tableOf Json.Tree.text? tree).map fun value => { metadata := some value })]

/-- What the value of a member is read as. -/
def memberOf (name : String) (tree : Json.Tree) : Option Draft :=
  (readings.lookup name).bind fun reading => reading tree

/-- Takes the member of one name over from a draft to another. -/
def pick (name : String) (a b : Draft) : Draft where
  id := if "id" = name then a.id else b.id
  customerId := if "customer_id" = name then a.customerId else b.customerId
  customerName := if "customer_name" = name then a.customerName else b.customerName
  email := if "email" = name then a.email else b.email
  licenseType := if "type" = name then a.licenseType else b.licenseType
  tier := if "tier" = name then a.tier else b.tier
  issuedAt := if "issued_at" = name then a.issuedAt else b.issuedAt
  expiresAt := if "expires_at" = name then a.expiresAt else b.expiresAt
  features := if "features" = name then a.features else b.features
  limits := if "limits" = name then a.limits else b.limits
  metadata := if "metadata" = name then a.metadata else b.metadata

theorem reads_timestamp (tree : Json.Tree) : timestampReader.Reads tree (timestampOf tree) := by
  have hmapped : timestampOf tree = tree.text?.bind fun text =>
      ((Rfc3339.parse text).mapError fun e => Json.ReadError.misread e.message).toOption := by
    refine congrArg _ (funext fun text => ?_)
    cases Rfc3339.parse text <;> rfl
  rw [hmapped]
  exact (Json.Reader.reads_text _ tree).check _

theorem reads_limits (tree : Json.Tree) : limitsReader.Reads tree (limitsOf tree) :=
  (Json.Reader.reads_table Json.Reader.reads_word64 tree).map Limits.mk

theorem pick_comm {name other : String} (hne : name ≠ other) (a b draft : Draft) :
    pick name a (pick other b draft) = pick other b (pick name a draft) := by
  have hother : ∀ key : String, key = name → ¬ key = other := fun key hname hother =>
    hne (hname.symm.trans hother)
  unfold pick
  congr 1 <;> exact ite_ite_comm _ _ _ _ (hother _)

theorem record_isIndependent : record.IsIndependent memberOf pick where
  names_nodup := by decide
  reads := by
    have hstring : ∀ tree : Json.Tree, Json.Reader.string.Reads tree tree.text? :=
      Json.Reader.reads_string
    simp only [record, List.forall_mem_cons]
    refine ⟨?_, ?_, ?_, ?_, ?_, ?_, ?_, ?_, ?_, ?_, ?_, List.forall_mem_nil _⟩ <;> intro draft tree
    case refine_1 | refine_2 | refine_3 | refine_4 => exact (hstring tree).map_of_eq fun _ => rfl
    case refine_5 | refine_6 => exact (Json.Reader.reads_choice _ tree).map_of_eq fun _ => rfl
    case refine_7 | refine_8 => exact (reads_timestamp tree).map_of_eq fun _ => rfl
    case refine_9 => exact (Json.Reader.reads_names tree).map_of_eq fun _ => rfl
    case refine_10 => exact (reads_limits tree).map_of_eq fun _ => rfl
    case refine_11 => exact (Json.Reader.reads_table hstring tree).map_of_eq fun _ => rfl
  isGiven_start := by decide
  isGiven_on := by
    simp only [record, List.forall_mem_cons]
    refine ⟨?_, ?_, ?_, ?_, ?_, ?_, ?_, ?_, ?_, ?_, ?_, List.forall_mem_nil _⟩ <;>
      (intro tree draft hon; obtain ⟨_, -, rfl⟩ := Option.map_eq_some_iff.mp hon; rfl)
  isGiven_pick := by
    simp only [record, List.forall_mem_cons]
    refine ⟨?_, ?_, ?_, ?_, ?_, ?_, ?_, ?_, ?_, ?_, ?_, List.forall_mem_nil _⟩ <;>
      exact fun _ _ _ => apply_ite Option.isSome _ _ _
  pick_comm := pick_comm

/-! ## The grants beyond the plan -/

/-- Grants that were left out are empty. -/
theorem grants_of_ofDraft {draft : Draft} {claims : Claims} (hclaims : ofDraft draft = .ok claims) :
    claims.features = draft.features.getD ∅ ∧ claims.limits = draft.limits.getD .empty ∧
      claims.metadata = draft.metadata.getD ∅ := by
  have hgrants :
      (fun claims => (claims.features, claims.limits, claims.metadata)) <$> ofDraft draft =
        (fun _ => (draft.features.getD ∅, draft.limits.getD .empty, draft.metadata.getD ∅)) <$>
          ofDraft draft := by
    simp only [ofDraft, map_bind, map_pure]
  rw [hclaims] at hgrants
  obtain ⟨hfeatures, hmore⟩ := Prod.mk.inj (Except.ok.inj hgrants)
  exact ⟨hfeatures, Prod.mk.inj hmore⟩

theorem hasPart_features :
    reader.HasPart "features" Json.Tree.names? ∅ features fun features claims =>
      { claims with features } := by
  refine record_isIndependent.hasPart ⟨fun _ _ => rfl, fun _ _ _ => rfl, fun _ => rfl⟩ (by decide)
    (by decide) (fun tree => rfl) (fun part others => ?_) (fun others base hfree hbase => ?_)
  · simp only [ofDraft, map_bind, map_pure]
    rfl
  · have hnone : others.features = none := by simpa [Json.Record.Gives, record] using hfree
    rw [(grants_of_ofDraft hbase).1, hnone]
    rfl

theorem hasPart_limits :
    reader.HasPart "limits" (Json.Reader.tableOf Json.Tree.word64?) ∅
      (fun claims => claims.limits.table)
      fun table claims => { claims with limits := ⟨table⟩ } := by
  refine record_isIndependent.hasPart ⟨fun _ _ => rfl, fun _ _ _ => rfl, fun _ => rfl⟩ (by decide)
    (by decide) (fun tree => Option.map_map _ _ _) (fun part others => ?_)
    (fun others base hfree hbase => ?_)
  · simp only [ofDraft, map_bind, map_pure]
    rfl
  · have hnone : others.limits = none := by simpa [Json.Record.Gives, record] using hfree
    rw [(grants_of_ofDraft hbase).2.1, hnone]
    rfl

theorem hasPart_metadata :
    reader.HasPart "metadata" (Json.Reader.tableOf Json.Tree.text?) ∅ metadata
      fun metadata claims => { claims with metadata } := by
  refine record_isIndependent.hasPart ⟨fun _ _ => rfl, fun _ _ _ => rfl, fun _ => rfl⟩ (by decide)
    (by decide) (fun tree => rfl) (fun part others => ?_) (fun others base hfree hbase => ?_)
  · simp only [ofDraft, map_bind, map_pure]
    rfl
  · have hnone : others.metadata = none := by simpa [Json.Record.Gives, record] using hfree
    rw [(grants_of_ofDraft hbase).2.2, hnone]
    rfl

end Claims

end Entitlement.Grant
