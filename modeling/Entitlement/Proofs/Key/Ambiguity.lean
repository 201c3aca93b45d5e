import Entitlement.Key.Envelope
import Entitlement.Proofs.Grant.Ambiguity

/-! # Signed documents can be read in one way only

A license is signed twice over by a document in a document: the envelope, and the claims in its
payload. In both a member is given once or the document is refused, and so nobody can hide a second
tier or a later end of the window behind the first one. Only the contents of the optional members
may repeat a name: the last ceiling or text counts, and a feature counts once.
-/

namespace Entitlement.Key

open Grant

namespace Envelope

/-- What the values of the members are read as. -/
def readings : List (String × (Json.Tree → Option EnvelopeDraft)) :=
  [("v", fun tree => tree.word32?.map fun value => { version := some value }),
    ("payload", fun tree => tree.text?.map fun value => { payload := some value }),
    ("sig", fun tree => tree.text?.map fun value => { signature := some value })]

/-- What the value of a member is read as. -/
def memberOf (name : String) (tree : Json.Tree) : Option EnvelopeDraft :=
  (readings.lookup name).bind fun reading => reading tree

/-- Takes the member of one name over from a draft to another. -/
def pick (name : String) (a b : EnvelopeDraft) : EnvelopeDraft where
  version := if "v" = name then a.version else b.version
  payload := if "payload" = name then a.payload else b.payload
  signature := if "sig" = name then a.signature else b.signature

theorem record_isIndependent : record.IsIndependent memberOf pick where
  names_nodup := by decide
  reads := by
    simp only [record, List.forall_mem_cons]
    refine ⟨?version, ?payload, ?signature, List.forall_mem_nil _⟩ <;> intro draft tree
    case version => exact (Json.Reader.reads_word32 tree).map_of_eq fun _ => rfl
    case payload | signature => exact (Json.Reader.reads_string tree).map_of_eq fun _ => rfl
  isGiven_start := by decide
  isGiven_on := by
    simp only [record, List.forall_mem_cons]
    refine ⟨?_, ?_, ?_, List.forall_mem_nil _⟩ <;>
      (intro tree draft hon; obtain ⟨_, -, rfl⟩ := Option.map_eq_some_iff.mp hon; rfl)
  isGiven_pick := by
    simp only [record, List.forall_mem_cons]
    refine ⟨?_, ?_, ?_, List.forall_mem_nil _⟩ <;> exact fun _ _ _ => apply_ite Option.isSome _ _ _
  pick_comm := by
    intro name other hne a b draft
    have hother : ∀ key : String, key = name → ¬ key = other := fun key hname hother =>
      hne (hname.symm.trans hother)
    unfold pick
    congr 1 <;> exact ite_ite_comm _ _ _ _ (hother _)

end Envelope

/-- Neither an envelope nor claims leave a choice to their reader, except for what is inside the
grants beyond the plan: there the last value of a name stays, and names in a set count once. -/
theorem signed_documents_unambiguous :
    Envelope.reader.IsUnambiguous ["v", "payload", "sig"] ["v", "payload", "sig"] ∧
      Claims.reader.IsUnambiguous
        ["id", "customer_id", "customer_name", "email", "type", "tier", "issued_at", "expires_at",
          "features", "limits", "metadata"]
        ["id", "customer_id", "customer_name", "email", "type", "tier", "issued_at", "expires_at"] ∧
      Claims.reader.HasPart "features" Json.Tree.names? ∅ Claims.features
        (fun features claims => { claims with features }) ∧
      Claims.reader.HasPart "limits" (Json.Reader.tableOf Json.Tree.word64?) ∅
        (fun claims => claims.limits.table)
        (fun table claims => { claims with limits := ⟨table⟩ }) ∧
      Claims.reader.HasPart "metadata" (Json.Reader.tableOf Json.Tree.text?) ∅ Claims.metadata
        (fun metadata claims => { claims with metadata }) ∧
      Claims.reader.Collapses "features" Claims.features ∧
      Claims.reader.KeepsLast "limits" Json.Tree.word64? (fun claims => claims.limits.table) ∧
      Claims.reader.KeepsLast "metadata" Json.Tree.text? Claims.metadata :=
  ⟨Envelope.record_isIndependent.isUnambiguous Envelope.parts,
    Claims.record_isIndependent.isUnambiguous Claims.ofDraft, Claims.hasPart_features,
    Claims.hasPart_limits, Claims.hasPart_metadata, Claims.hasPart_features.collapses,
    Claims.hasPart_limits.keepsLast, Claims.hasPart_metadata.keepsLast⟩

theorem signed_documents_unambiguous_respelled :
    Envelope.reader.read (Text.bytes "\x7b\"v\":1,\"payload\":\"e30=\",\"sig\":\"\"\x7d") =
        .ok (1, "e30=", "") ∧
      Envelope.reader.read
          (Text.bytes "\x7b \"x\":null,\"payload\":\"e30=\", \"v\":1,\"sig\":\"\"\x7d") =
        .ok (1, "e30=", "") := by
  have hread : Envelope.reader.read
      (Text.bytes "\x7b\"v\":1,\"payload\":\"e30=\",\"sig\":\"\"\x7d") = .ok (1, "e30=", "") := by
    decide +kernel
  -- What the two documents are made of.
  have hnone : Json.IsBlank [] := fun b hb => absurd hb List.not_mem_nil
  have hspace : Json.IsBlank [Json.byte ' '] := List.forall_mem_singleton.mpr (by decide)
  have hbody :
      ∀ text ∈ ["v", "payload", "sig", "x", "e30=", ""], Json.IsBody (Text.bytes text) := by
    have hplain : ∀ text ∈ ["v", "payload", "sig", "x", "e30=", ""],
        ((Text.bytes text).all fun b => decide (Json.IsPlain b)) = true := by decide
    exact fun text htext => Json.isBody_of_isPlain (hplain text htext)
  have hone : Json.IsNumber [Json.byte '1'] := by
    have hdigits : Json.IsDigits [Json.byte '1'] :=
      ⟨by decide, List.forall_mem_singleton.mpr (Text.isDigit_iff.mp (by decide))⟩
    exact .unsigned (.parts ⟨hdigits, fun more heq => by cases heq⟩ .none .none)
  have hversion := Json.Spelling.member (hbody "v" (by decide)) hnone hnone (.number hone)
  have hpayload := Json.Spelling.member (hbody "payload" (by decide)) hnone hnone
    (.string (hbody "e30=" (by decide)))
  have hsignature := Json.Spelling.member (hbody "sig" (by decide)) hnone hnone
    (.string (hbody "" (by decide)))
  have hunknown := Json.Spelling.member (hbody "x" (by decide)) hnone hnone .null
  have hdocument : Json.IsDocument _
      (Text.bytes "\x7b\"v\":1,\"payload\":\"e30=\",\"sig\":\"\"\x7d") :=
    ⟨[], _, [], hnone, .object hnone hversion (.nextMember hnone hnone hpayload
      (.nextMember hnone hnone hsignature (.endOfObject hnone))), hnone, rfl⟩
  have hother : Json.IsDocument _
      (Text.bytes "\x7b \"x\":null,\"payload\":\"e30=\", \"v\":1,\"sig\":\"\"\x7d") :=
    ⟨[], _, [], hnone, .object hspace hunknown (.nextMember hnone hnone hpayload
      (.nextMember hnone hspace hversion
        (.nextMember hnone hnone hsignature (.endOfObject hnone)))),
      hnone, rfl⟩
  have hextra :
      ∀ m ∈ [(Text.bytes "x", Json.Tree.null)], Json.IsUnknown ["v", "payload", "sig"] m :=
    List.forall_mem_singleton.mpr ⟨"x", by decide +kernel, by decide⟩
  exact ⟨hread, signed_documents_unambiguous.1.respelled hdocument hread
    (((List.Perm.swap _ _ _).cons _).trans (List.perm_append_singleton _ _).symm) hextra hother⟩

end Entitlement.Key
