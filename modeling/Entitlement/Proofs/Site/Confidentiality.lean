import Entitlement.Proofs.Custody.Anonymity
import Entitlement.Proofs.Key.Payload
import Entitlement.Proofs.Site.Assignment
import Entitlement.Proofs.Site.Step

/-! # Customers stay with the license

Who the customer of a license is can be learned from the license itself and from nothing else that a
site or the inspection of a key gives away. Two runs on keys that differ in nothing but their
customers cannot be told apart, however long they are and whatever is done in them.
-/

namespace Entitlement

open Calendar Custody Grant Signature

namespace Site

/-! ## Runs -/

/-- An outcome without the customers of the licenses that are handed out. -/
def Outcome.anonymous : Outcome → Outcome
  | .reply told => .reply told.anonymous
  | .revalidated replies came => .revalidated (replies.map Reply.anonymous) came.anonymous
  | outcome => outcome

def anonymous (site : Site) : Site :=
  { site with custody := site.custody.anonymous }

variable {verdict : Verdict}

theorem recheck_anonymous (runs : List Schedule.Run) (c : Custody) :
    recheck verdict.anonymous runs c.anonymous = (recheck verdict runs c).anonymous := by
  induction runs generalizing c with
  | nil => rfl
  | cons run runs ih =>
      change recheck verdict.anonymous runs (c.anonymous.revalidate verdict.anonymous run.key).1 = _
      rw [revalidate_anonymous]
      exact ih _

theorem pass_anonymous (time : Nat) (step : List Schedule.Run × Schedule) (site : Site) :
    site.anonymous.pass verdict.anonymous time step = (site.pass verdict time step).anonymous := by
  unfold pass anonymous
  dsimp only
  rw [recheck_anonymous]

theorem perform_anonymous (operation : Operation) (site : Site) :
    site.anonymous.perform verdict.anonymous operation =
      ((site.perform verdict operation).1.anonymous,
        (site.perform verdict operation).2.anonymous) := by
  cases operation with
  | command command =>
      unfold perform anonymous
      dsimp only
      rw [execute_anonymous]
      rfl
  | revalidate key commands =>
      unfold perform anonymous
      dsimp only
      rw [revalidateDuring_anonymous]
      rfl
  | sleep duration => exact congrArg (·, Outcome.done) (pass_anonymous _ _ site)
  | jump duration => exact congrArg (·, Outcome.done) (pass_anonymous _ _ site)
  | request request feed =>
      have hsame : Http.respond site.anonymous.custody.license request =
        Http.respond site.custody.license request := Http.respond_anonymous _ _
      unfold perform
      dsimp only
      rw [hsame]
      split <;> rfl
  | metered limit usage =>
      have hsame : site.anonymous.custody.license.ensureLimit limit usage =
        site.custody.license.ensureLimit limit usage := rfl
      unfold perform
      dsimp only
      rw [hsame]
      cases site.custody.license.ensureLimit limit usage <;> rfl
  | stopTask name =>
      unfold perform
      dsimp only
      by_cases hhas : site.schedule.has name = true
      · have hanonymous : site.anonymous.schedule.has name = true := hhas
        rw [if_pos hhas, if_pos hanonymous]
        rfl
      · have hanonymous : ¬ site.anonymous.schedule.has name = true := hhas
        rw [if_neg hhas, if_neg hanonymous]
        rfl
  | drain _ | readFeed _ =>
      unfold perform
      dsimp only [anonymous]
      split <;> rfl
  | _ => rfl

/-- A site that never hears of customers does the same, and all it says is the same. -/
theorem run_anonymous (operations : List Operation) (site : Site) :
    site.anonymous.run verdict.anonymous operations =
      ((site.run verdict operations).1.anonymous,
        (site.run verdict operations).2.map Outcome.anonymous) := by
  induction operations generalizing site with
  | nil => rfl
  | cons operation operations ih =>
      unfold run
      dsimp only
      rw [perform_anonymous]
      dsimp only
      rw [ih]
      rfl

end Site

/-! ## Corresponding keys -/

namespace Key

variable {scheme : Scheme} {trusted : TrustSet} {key key' : String} {claims claims' : Claims}

/-- A key that reads as a trusted envelope carries the claims of its payload. -/
def Carries (scheme : Scheme) (trusted : TrustSet) (key : String) (claims : Claims) : Prop :=
  ∃ envelope, Envelope.Reads key envelope ∧ envelope.IsTrusted scheme trusted ∧
    Claims.ofBytes envelope.payload = .ok claims

/-- Two keys carry claims that differ at most in the customer. -/
def Corresponds (scheme : Scheme) (trusted : TrustSet) (key key' : String) : Prop :=
  ∃ claims claims', Carries scheme trusted key claims ∧ Carries scheme trusted key' claims' ∧
    claims.anonymous = claims'.anonymous

/-- Nothing but the license tells corresponding keys apart, and in it only the customer does. -/
theorem verify_of_corresponds (hkeys : Corresponds scheme trusted key key') (now : Timestamp) :
    (verify scheme trusted key now).map License.anonymous =
      (verify scheme trusted key' now).map License.anonymous := by
  obtain ⟨claims, claims', ⟨envelope, hreads, htrusted, hclaims⟩,
    ⟨envelope', hreads', htrusted', hclaims'⟩, hsame⟩ := hkeys
  have hissued := congrArg Claims.issuedAt hsame
  have hexpires := congrArg Claims.expiresAt hsame
  change claims.issuedAt = claims'.issuedAt at hissued
  change claims.expiresAt = claims'.expiresAt at hexpires
  have hlicense : License.anonymous ⟨claims, .verified⟩ = License.anonymous ⟨claims', .verified⟩ :=
    congrArg (License.mk · .verified) hsame
  rw [verify_of_isTrusted hreads htrusted, verify_of_isTrusted hreads' htrusted']
  unfold licenseOf
  rw [hclaims, hclaims']
  dsimp only
  rw [Claims.hasValidWindow, Claims.hasValidWindow, hissued, hexpires]
  -- The window decides alike for both, so either both are refused with it or both have a license.
  split
  next => rfl
  next =>
    split
    next => rfl
    next =>
      split
      next => rfl
      next => exact congrArg Except.ok hlicense

end Key

/-! ## What is given away -/

theorem eq_of_map_eq {ε α β : Type} {f : α → β} {first second : Except ε α}
    (hsame : first.map f = second.map f) :
    (∃ e, first = .error e ∧ second = .error e) ∨
      ∃ a b, first = .ok a ∧ second = .ok b ∧ f a = f b := by
  cases first with
  | error e =>
      cases second with
      | error e' =>
          cases hsame
          exact .inl ⟨e, rfl, rfl⟩
      | ok b => cases hsame
  | ok a =>
      cases second with
      | error e' => cases hsame
      | ok b => exact .inr ⟨a, b, rfl, rfl, Except.ok.inj hsame⟩

namespace Tool

open Key

variable {scheme : Scheme} {publicKey : PublicKey} {surroundings surroundings' : Surroundings}
  {source source' : KeySource} {path path' key key' : String}

/-- An inspection prints its license, or why the key is rejected. -/
theorem carryOut_inspect (hsource : publicKeyOf scheme surroundings.folder source = .ok publicKey)
    (hread : surroundings.folder.readText path = .ok key) :
    carryOut scheme surroundings (.inspect source path) =
      match verify scheme [publicKey] key surroundings.now with
      | .ok license => ⟨0, inspection license, some "", surroundings.folder⟩
      | .error cause => failed (.rejected cause) surroundings.folder := by
  have hsteps : inspect scheme surroundings source path = do
      let license ← orStop .rejected (verify scheme [publicKey] key surroundings.now)
      return ⟨inspection license, "", surroundings.folder⟩ := by
    rw [inspect, hsource, hread]
    rfl
  rw [carryOut, hsteps]
  cases verify scheme [publicKey] key surroundings.now <;> rfl

/-- What the tool prints of one of two corresponding keys it prints of the other as well. -/
theorem carryOut_inspect_of_corresponds
    (hsource : publicKeyOf scheme surroundings.folder source = .ok publicKey)
    (hsource' : publicKeyOf scheme surroundings'.folder source' = .ok publicKey)
    (hread : surroundings.folder.readText path = .ok key)
    (hread' : surroundings'.folder.readText path' = .ok key')
    (hnow : surroundings.now = surroundings'.now)
    (hkeys : Corresponds scheme [publicKey] key key') :
    let left := carryOut scheme surroundings (.inspect source path)
    let left' := carryOut scheme surroundings' (.inspect source' path')
    left.exit = left'.exit ∧ left.output = left'.output ∧ left.errors = left'.errors := by
  intro left left'
  have hleft : left = _ := carryOut_inspect hsource hread
  have hleft' : left' = _ := carryOut_inspect hsource' hread'
  have hverify := verify_of_corresponds hkeys surroundings'.now
  rw [hnow] at hleft
  rw [hleft, hleft']
  rcases eq_of_map_eq hverify with
    ⟨e, hfirst, hsecond⟩ | ⟨license, license', hfirst, hsecond, hsame⟩
  · rw [hfirst, hsecond]
    exact ⟨rfl, rfl, rfl⟩
  · rw [hfirst, hsecond]
    refine ⟨rfl, ?_, rfl⟩
    dsimp only
    rw [← inspection_anonymous license, ← inspection_anonymous license', hsame]

end Tool

namespace Site

/-- A run on keys shows what a run on their names shows that never hears of customers. -/
theorem run_names (verdict : Verdict) (keys : String → String) (clock : Timestamp)
    (operations : List Operation) :
    let left := (Site.start clock).run verdict (operations.map (Operation.withKeys keys))
    let seen := (Site.start clock).run (verdict.assigned keys).anonymous operations
    left.2.map Outcome.anonymous = seen.2 ∧ left.1.custody.anonymous = seen.1.custody := by
  intro left seen
  have hleft : left = _ := run_withKeys operations (Site.start clock)
  have hseen : seen = _ := run_anonymous operations (Site.start clock)
  rw [hleft, hseen]
  exact ⟨rfl, rfl⟩

/-- What is done with two sites is told apart by nothing but the customers of licenses that are
handed out, if the keys that are given to one correspond to those that are given to the other. -/
theorem run_hides_customers (scheme : Scheme) (trusted : Key.TrustSet) (clock : Timestamp)
    (operations : List Operation) (keys keys' : String → String)
    (hkeys : ∀ name, keys name = keys' name ∨
      Key.Corresponds scheme trusted (keys name) (keys' name)) :
    let left := (Site.start clock).run (Key.verify scheme trusted)
      (operations.map (Operation.withKeys keys))
    let left' := (Site.start clock).run (Key.verify scheme trusted)
      (operations.map (Operation.withKeys keys'))
    left.2.map Outcome.anonymous = left'.2.map Outcome.anonymous ∧
      left.1.custody.log = left'.1.custody.log ∧
      left.1.custody.summary = left'.1.custody.summary ∧
      ∀ (publicKey : PublicKey) (surroundings surroundings' : Tool.Surroundings)
        (source source' : Tool.KeySource) (path path' key key' : String),
        Tool.publicKeyOf scheme surroundings.folder source = .ok publicKey →
        Tool.publicKeyOf scheme surroundings'.folder source' = .ok publicKey →
        surroundings.folder.readText path = .ok key →
        surroundings'.folder.readText path' = .ok key' →
        surroundings.now = surroundings'.now → Key.Corresponds scheme [publicKey] key key' →
          let printed := Tool.carryOut scheme surroundings (.inspect source path)
          let printed' := Tool.carryOut scheme surroundings' (.inspect source' path')
          printed.exit = printed'.exit ∧ printed.output = printed'.output ∧
            printed.errors = printed'.errors := by
  intro left left'
  have hverdict : Verdict.anonymous (Verdict.assigned (Key.verify scheme trusted) keys) =
      Verdict.anonymous (Verdict.assigned (Key.verify scheme trusted) keys') := by
    funext name now
    rcases hkeys name with hsame | hcorresponds
    · rw [Verdict.anonymous, Verdict.anonymous, Verdict.assigned, Verdict.assigned, hsame]
    · exact Key.verify_of_corresponds hcorresponds now
  obtain ⟨hshown, hcustody⟩ := run_names (Key.verify scheme trusted) keys clock operations
  obtain ⟨hshown', hcustody'⟩ := run_names (Key.verify scheme trusted) keys' clock operations
  rw [← hverdict] at hshown' hcustody'
  have hsame : left.1.custody.anonymous = left'.1.custody.anonymous :=
    hcustody.trans hcustody'.symm
  refine ⟨hshown.trans hshown'.symm, ?_, ?_, ?_⟩
  · have hlog := congrArg Custody.log hsame
    exact hlog
  · have hsummary := congrArg Custody.summary hsame
    exact hsummary
  · intro publicKey surroundings surroundings' source source' path path' key key' hsource hsource'
      hread hread' hnow hcorresponds
    exact Tool.carryOut_inspect_of_corresponds hsource hsource' hread hread' hnow hcorresponds

/-! ## Two customers -/

/-- The envelope of the other claims. -/
def otherEnvelope : Key.Envelope :=
  Key.signedEnvelope Ed25519.scheme Key.sampleSecret (Text.bytes (Json.object Key.otherMembers))

theorem carries_sample :
    Key.Carries Ed25519.scheme Key.sampleTrusted Key.sampleEnvelope.encode Key.sampleClaims :=
  ⟨Key.sampleEnvelope, Key.Envelope.reads_encode_self _ rfl,
    Key.signedEnvelope_isTrusted List.mem_cons_self Key.honors_sampleDocument,
    Key.ofBytes_canonicalPayload Key.canonicalPayload_sampleClaims⟩

theorem carries_other :
    Key.Carries Ed25519.scheme Key.sampleTrusted otherEnvelope.encode Key.otherClaims := by
  have hhonors : Ed25519.scheme.Honors Key.sampleSecret
      (Text.bytes (Json.object Key.otherMembers)) := by
    decide +kernel
  exact ⟨otherEnvelope, Key.Envelope.reads_encode_self _ rfl,
    Key.signedEnvelope_isTrusted List.mem_cons_self hhonors,
    Key.ofBytes_canonicalPayload Key.canonicalPayload_otherClaims⟩

theorem corresponds_sample :
    Key.Corresponds Ed25519.scheme Key.sampleTrusted Key.sampleEnvelope.encode
      otherEnvelope.encode :=
  ⟨_, _, carries_sample, carries_other, rfl⟩

/-- Surroundings with a license key in a file. -/
def sampleSurroundings (key : String) : Tool.Surroundings where
  folder := .ofFiles ((∅ : Table (List UInt8)).set "license.key" (Text.bytes key))
  now := Key.sampleClaims.issuedAt
  freshSecret := Key.sampleSecret
  freshLicenseId := ""
  freshCustomerId := ""

theorem now_sampleSurroundings (key key' : String) :
    (sampleSurroundings key).now = (sampleSurroundings key').now :=
  rfl

theorem readText_sampleSurroundings (key : String) :
    (sampleSurroundings key).folder.readText "license.key" = .ok key := by
  have hsteps : Folder.steps "license.key" = ["license.key"] := by decide +kernel
  have hfile : "license.key".endsWith "/" = false := by decide +kernel
  have hplace : (sampleSurroundings key).folder.place "license.key" = .ok ["license.key"] := by
    rw [Folder.place, hsteps, hfile]
    rfl
  have hread : (sampleSurroundings key).folder.read "license.key" = .ok (Text.bytes key) := by
    rw [Folder.read, hplace]
    rfl
  simp [Folder.readText, hread, Text.ofBytes?_bytes, bind, Except.bind, pure, Except.pure]

/-- The text of the public key that the sample is trusted by. -/
def sampleSource : Tool.KeySource :=
  .publicKey (Key.publicText (Ed25519.scheme.publicKey Key.sampleSecret))

theorem publicKeyOf_sampleSource (folder : Folder) :
    Tool.publicKeyOf Ed25519.scheme folder sampleSource =
      .ok (Ed25519.scheme.publicKey Key.sampleSecret) := by
  change Tool.publicKeyOf Ed25519.scheme (.ofFiles ∅) sampleSource = _
  decide +kernel

theorem loading_withKeys (now : Timestamp) (name key : String) :
    (loading now name).map (Operation.withKeys fun _ => key) = loading now key :=
  rfl

/-- A site on which a key has been loaded at the start of the window of the sample. -/
def sampleSite (key : String) : Site :=
  ((Site.start License.epoch).run (Key.verify Ed25519.scheme Key.sampleTrusted)
    (loading Key.sampleClaims.issuedAt key)).1

theorem license_sampleSite {key : String} {claims : Claims}
    (hcarries : Key.Carries Ed25519.scheme Key.sampleTrusted key claims)
    (hcovers : claims.Covers Key.sampleClaims.issuedAt) :
    (sampleSite key).custody.license = ⟨claims, .verified⟩ := by
  obtain ⟨envelope, hreads, htrusted, hclaims⟩ := hcarries
  have hverify :=
    Key.verify_eq_ok_iff.mpr ⟨envelope, claims, hreads, htrusted, hclaims, hcovers, rfl⟩
  rw [sampleSite, custody_run_loading License.epoch hverify]
  rfl

/-- The keys of two customers are loaded under one name. What is in force differs and nothing that
is shown does, neither by the sites nor by the tool. -/
theorem run_hides_customers_sample :
    (sampleSite Key.sampleEnvelope.encode).custody.license.claims.customerName = "é" ∧
      (sampleSite otherEnvelope.encode).custody.license.claims.customerName = "ö" ∧
      (sampleSite Key.sampleEnvelope.encode).custody.log =
        (sampleSite otherEnvelope.encode).custody.log ∧
      (Tool.carryOut Ed25519.scheme (sampleSurroundings Key.sampleEnvelope.encode)
          (.inspect sampleSource "license.key")).output =
        (Tool.carryOut Ed25519.scheme (sampleSurroundings otherEnvelope.encode)
          (.inspect sampleSource "license.key")).output := by
  -- The theorem is applied to keys of which nothing else is known, so that none is ever evaluated.
  have hspec (key key' : String) (surroundings surroundings' : Tool.Surroundings)
      (hkeys : Key.Corresponds Ed25519.scheme Key.sampleTrusted key key')
      (hread : surroundings.folder.readText "license.key" = .ok key)
      (hread' : surroundings'.folder.readText "license.key" = .ok key')
      (hnow : surroundings.now = surroundings'.now) :
      (sampleSite key).custody.log = (sampleSite key').custody.log ∧
        (Tool.carryOut Ed25519.scheme surroundings (.inspect sampleSource "license.key")).output =
          (Tool.carryOut Ed25519.scheme surroundings'
            (.inspect sampleSource "license.key")).output := by
    obtain ⟨-, hlog, -, hinspect⟩ := run_hides_customers Ed25519.scheme Key.sampleTrusted
      License.epoch (loading Key.sampleClaims.issuedAt "license") (fun _ => key) (fun _ => key')
      (fun _ => .inr hkeys)
    have hprinted := hinspect _ surroundings surroundings' sampleSource sampleSource _ _ key key'
      (publicKeyOf_sampleSource _) (publicKeyOf_sampleSource _) hread hread' hnow hkeys
    rw [loading_withKeys, loading_withKeys] at hlog
    refine ⟨?_, hprinted.2.1⟩
    rw [sampleSite, sampleSite]
    exact hlog
  obtain ⟨hlog, hprinted⟩ := hspec Key.sampleEnvelope.encode otherEnvelope.encode _ _
    corresponds_sample (readText_sampleSurroundings _) (readText_sampleSurroundings _)
    (now_sampleSurroundings _ _)
  rw [license_sampleSite carries_sample (by decide),
    license_sampleSite carries_other (by decide)]
  exact ⟨rfl, rfl, hlog, hprinted⟩

end Site

end Entitlement
