import Entitlement.Proofs.Calendar.Days
import Entitlement.Proofs.Folder
import Entitlement.Proofs.Key.Issue
import Entitlement.Proofs.Tool.Arguments
import Entitlement.Proofs.Tool.Pairs

/-! # Keys that are ordered

An order is taken from the arguments, the claims from the order, and the key from the claims.
Nothing that was asked for is lost on the way, and nothing else is added: whoever knows the
arguments knows the claims that the key yields.
-/

namespace Entitlement.Tool

open Calendar Grant Key Plan Signature

/-! ## Options that were read -/

namespace Grammar

variable {grammar : Grammar} {arguments : List String} {given : Given}

/-- What is read is read from the arguments alone. Where it is options, the grammar allows them and
misses none. -/
theorem read_eq_ok {asked : Asked} (hread : grammar.read arguments = .ok asked) :
    readOptions grammar.choices [] .nothing arguments = .ok asked ∧
      ∀ given, asked = .options given →
        grammar.conflict? given = none ∧ grammar.isComplete given = true := by
  obtain ⟨read, hoptions, hrest⟩ := bind_eq_ok_iff.mp hread
  cases read with
  | help =>
      obtain rfl := Except.ok.inj hrest
      exact ⟨hoptions, by rintro _ ⟨⟩⟩
  | options read =>
      dsimp only at hrest
      split at hrest
      next => cases hrest
      next hconflict =>
        split at hrest
        next hcomplete =>
          obtain rfl := Except.ok.inj hrest
          refine ⟨hoptions, ?_⟩
          rintro _ ⟨⟩
          exact ⟨hconflict, hcomplete⟩
        next => cases hrest

/-- Options that were read are those that the arguments spell, each as often as it may be. -/
theorem acceptAll_of_read (hdistinct : AreDistinct grammar.choices)
    (hread : grammar.read arguments = .ok (.options given)) {said : List (Choice × String)}
    (hspells : Spells grammar.choices arguments said) : acceptAll [] said = .ok given := by
  obtain ⟨hoptions, -⟩ := read_eq_ok hread
  rw [readOptions_of_spells hdistinct hspells] at hoptions
  obtain ⟨before, hbefore, haccept⟩ := bind_eq_ok_iff.mp hoptions
  obtain rfl := Except.ok.inj hbefore
  obtain ⟨read, haccept, hsame⟩ := map_eq_ok_iff.mp haccept
  rwa [Asked.options.inj hsame] at haccept

/-- An option that is not repeatable has the one value that was read, or none. -/
theorem values_of_read (hdistinct : AreDistinct grammar.choices)
    (hread : grammar.read arguments = .ok (.options given)) {long : String}
    (honce : ∀ choice ∈ grammar.choices, choice.long = long → choice.isRepeatable = false) :
    given.values long = (given.value? long).toList := by
  obtain ⟨said, hspells⟩ := spells_of_readOptions (read_eq_ok hread).1
  have haccept := acceptAll_of_read hdistinct hread hspells
  have hlength : (given.values long).length ≤ 1 :=
    length_values_acceptAll (fun entry hentry => honce entry.1 (hspells.mem entry hentry)) haccept
      (Nat.zero_le 1)
  rw [value?_eq_head?]
  match hvalues : given.values long with
  | [] | [_] => rfl
  | _ :: _ :: _ =>
      rw [hvalues] at hlength
      simp at hlength

/-- Of two alternatives that were read, only one has been given. -/
theorem has_eq_false_of_read (hread : grammar.read arguments = .ok (.options given)) {a b : String}
    (halternatives : (a, b) ∈ grammar.alternatives) (ha : given.has a = true) :
    given.has b = false := by
  obtain ⟨hconflict, -⟩ := (read_eq_ok hread).2 given rfl
  obtain ⟨entry, hentry, hname⟩ := List.any_eq_true.mp ha
  obtain rfl : entry.1 = a := by simpa using hname
  rw [conflict?, List.findSome?_eq_none_iff] at hconflict
  have hnone := hconflict entry.1 (List.mem_map_of_mem hentry)
  rw [List.findSome?_eq_none_iff] at hnone
  have hboth := hnone _ halternatives
  rw [← Bool.not_eq_true]
  intro hb
  simp [hb] at hboth

end Grammar

theorem areDistinct_signGrammar : AreDistinct signGrammar.choices where
  long_nodup := by decide
  short_nodup := by decide
  long_ne := by decide
  long_equals := by decide
  short_ne := by decide

/-! ## From options to orders -/

theorem needed_eq_ok_iff {given : Given} {long value : String} :
    needed given long = .ok value ↔ given.value? long = some value := by
  unfold needed
  cases given.value? long <;> simp

theorem readAs_eq_ok_iff {ε α : Type} {grammar : Grammar} {long text : String}
    {read : String → Except ε α} {message : ε → String} {value : α} :
    readAs grammar long read message text = .ok value ↔ read text = .ok value :=
  mapError_eq_ok_iff

theorem orStop_eq_ok_iff {ε α : Type} {failure : ε → Failure} {result : Except ε α} {value : α} :
    orStop failure result = .ok value ↔ result = .ok value :=
  mapError_eq_ok_iff

/-- What options say of an order. -/
structure Orders (given : Given) (order : Order) : Prop where
  keyFile : given.value? "key-file" = some order.keyFile
  customer : given.value? "customer" = some order.customer
  email : given.value? "email" = some order.email
  customerId : given.value? "customer-id" = order.customerId
  licenseId : given.value? "license-id" = order.licenseId
  tier : ∃ text, given.value? "tier" = some text ∧ Tier.ofText text = .ok order.tier
  licenseType :
    LicenseType.ofText ((given.value? "type").getD LicenseType.subscription.name) =
      .ok order.licenseType
  features : given.values "feature" = order.features
  limits : given.values "limit" = order.limits
  metadata : given.values "meta" = order.metadata
  issuedAt : given.value? "issued-at" = order.issuedAt
  windowEnd :
    (∃ text, given.value? "expires" = some text ∧ order.windowEnd = .expires text) ∨
      ∃ text days, given.value? "expires" = none ∧ given.value? "days" = some text ∧
        Text.integerOfText text = .ok days ∧ order.windowEnd = .days days
  output : given.value? "output" = order.output

theorem orders_of_orderOf {given : Given} {order : Order} (horder : orderOf given = .ok order) :
    Orders given order := by
  unfold orderOf at horder
  obtain ⟨tierText, htierText, horder⟩ := bind_eq_ok_iff.mp horder
  rw [needed_eq_ok_iff] at htierText
  -- The order is finished in the branch that finds the end of its window.
  split at horder
  next text hexpires =>
    simp only [pure_bind, bind_eq_ok_iff, needed_eq_ok_iff, readAs_eq_ok_iff] at horder
    obtain ⟨keyFile, hkeyFile, customer, hcustomer, email, hemail, tier, htier, licenseType,
      hlicenseType, horder⟩ := horder
    obtain rfl := Except.ok.inj horder
    exact ⟨hkeyFile, hcustomer, hemail, rfl, rfl, ⟨tierText, htierText, htier⟩, hlicenseType, rfl,
      rfl, rfl, rfl, .inl ⟨text, hexpires, rfl⟩, rfl⟩
  next text hexpires hdays =>
    simp only [map_eq_pure_bind, bind_assoc, pure_bind, bind_eq_ok_iff, needed_eq_ok_iff,
      readAs_eq_ok_iff] at horder
    obtain ⟨days, hcount, keyFile, hkeyFile, customer, hcustomer, email, hemail, tier, htier,
      licenseType, hlicenseType, horder⟩ := horder
    obtain rfl := Except.ok.inj horder
    exact ⟨hkeyFile, hcustomer, hemail, rfl, rfl, ⟨tierText, htierText, htier⟩, hlicenseType, rfl,
      rfl, rfl, rfl, .inr ⟨text, days, hexpires, hdays, hcount, rfl⟩, rfl⟩
  next => cases horder

/-! ## From orders to keys -/

/-- What options order of the end of a window. It is a time, or a number of days of 86400 seconds
after the start, in the offset of the start. -/
def EndsAsOrdered (given : Given) (issuedAt expiresAt : Timestamp) : Prop :=
  (∃ text, given.values "expires" = [text] ∧ given.values "days" = [] ∧
    Rfc3339.parse text = .ok expiresAt) ∨
    ∃ text days, given.values "days" = [text] ∧ given.values "expires" = [] ∧
      Text.integerOfText text = .ok days ∧
      expiresAt.instant = issuedAt.instant + days * 86400 * 1000000000 ∧
      expiresAt.offset = issuedAt.offset

/-- What options order of the claims that a key is to yield. -/
structure Meets (given : Given) (claims : Claims) : Prop where
  id : given.values "license-id" = [claims.id]
  customerId : given.values "customer-id" = [claims.customerId]
  customerName : given.values "customer" = [claims.customerName]
  email : given.values "email" = [claims.email]
  tier : ∃ text, given.values "tier" = [text] ∧ Tier.ofText text = .ok claims.tier
  licenseType :
    (given.values "type" = [] ∧ claims.licenseType = .subscription) ∨
      ∃ text, given.values "type" = [text] ∧ LicenseType.ofText text = .ok claims.licenseType
  features : ∀ name, claims.features.has name = true ↔ name ∈ given.values "feature"
  limits : ∀ name ceiling, claims.limits.get? name = some ceiling ↔
    ∃ text, LastNamed (given.values "limit") name text ∧
      Text.naturalOfText largestWord text = .ok ceiling.toNat
  metadata : ∀ name value,
    claims.metadata.get? name = some value ↔ LastNamed (given.values "meta") name value
  issuedAt : ∃ text, given.values "issued-at" = [text] ∧ Rfc3339.parse text = .ok claims.issuedAt
  expiresAt : EndsAsOrdered given claims.issuedAt claims.expiresAt

theorem addDays?_of_endOf {issuedAt expiresAt : Timestamp} {days : Int}
    (hend : endOf issuedAt (.days days) = .ok expiresAt) :
    issuedAt.addDays? days = some expiresAt := by
  unfold endOf at hend
  dsimp only at hend
  generalize issuedAt.addDays? days = moved at hend ⊢
  cases moved with
  | none => cases hend
  | some moved => exact congrArg some (Except.ok.inj hend)

/-- An end of a window that was read or counted is where the options order it. -/
theorem endOf_eq_ok {arguments : List String} {given : Given} {order : Order}
    {issuedAt expiresAt : Timestamp} (hread : signGrammar.read arguments = .ok (.options given))
    (horders : Orders given order) (hend : endOf issuedAt order.windowEnd = .ok expiresAt) :
    EndsAsOrdered given issuedAt expiresAt := by
  have hexpires : given.values "expires" = (given.value? "expires").toList :=
    Grammar.values_of_read areDistinct_signGrammar hread (by decide)
  have hdays : given.values "days" = (given.value? "days").toList :=
    Grammar.values_of_read areDistinct_signGrammar hread (by decide)
  rcases horders.windowEnd with
    ⟨text, htext, hwindowEnd⟩ | ⟨text, days, hnone, htext, hcount, hwindowEnd⟩
  · rw [hwindowEnd] at hend
    rw [htext] at hexpires
    have hgiven : given.has "expires" = true := by
      rw [← Bool.not_eq_false, ← values_eq_nil_iff, hexpires]
      simp
    -- The tool looks at a time first, so what says that there are no days is the grammar.
    have hother : given.has "days" = false :=
      Grammar.has_eq_false_of_read hread (by decide) hgiven
    exact .inl ⟨text, hexpires, values_eq_nil_iff.mpr hother, orStop_eq_ok_iff.mp hend⟩
  · rw [hwindowEnd] at hend
    rw [hnone] at hexpires
    rw [htext] at hdays
    obtain ⟨hinstant, hoffset⟩ := Timestamp.addDays?_eq_some (addDays?_of_endOf hend)
    exact .inr ⟨text, days, hdays, hexpires, hcount, hinstant, hoffset⟩

/-- Claims that are made of an order are those that the options order, where these name the ids and
the start of the window. -/
theorem meets_of_claimsOf {arguments : List String} {given : Given} {order : Order}
    {surroundings : Surroundings} {claims : Claims}
    (hread : signGrammar.read arguments = .ok (.options given))
    (horders : Orders given order) (hid : given.has "license-id" = true)
    (hcustomerId : given.has "customer-id" = true) (hissuedAt : given.has "issued-at" = true)
    (hclaims : claimsOf surroundings order = .ok claims) : Meets given claims := by
  have hvalues {long value : String} (honce : ∀ choice ∈ signGrammar.choices, choice.long = long →
      choice.isRepeatable = false) (hvalue : given.value? long = some value) :
      given.values long = [value] := by
    rw [Grammar.values_of_read areDistinct_signGrammar hread honce, hvalue]
    rfl
  obtain ⟨licenseId, hlicenseId⟩ := exists_value?_of_has hid
  obtain ⟨customerId, hcustomerId⟩ := exists_value?_of_has hcustomerId
  obtain ⟨issued, hissued⟩ := exists_value?_of_has hissuedAt
  unfold claimsOf at hclaims
  simp only [← horders.issuedAt, hissued, timeOf, bind_eq_ok_iff, orStop_eq_ok_iff] at hclaims
  obtain
    ⟨issuedAt, hissuedAt, expiresAt, hexpiresAt, limits, hlimits, metadata, hmetadata, hclaims⟩ :=
    hclaims
  obtain rfl := Except.ok.inj hclaims
  obtain ⟨tierText, htierText, htier⟩ := horders.tier
  constructor
  case id =>
    rw [← horders.licenseId, hlicenseId]
    exact hvalues (by decide) hlicenseId
  case customerId =>
    rw [← horders.customerId, hcustomerId]
    exact hvalues (by decide) hcustomerId
  case customerName => exact hvalues (by decide) horders.customer
  case email => exact hvalues (by decide) horders.email
  case tier => exact ⟨tierText, hvalues (by decide) htierText, htier⟩
  case licenseType =>
    have hlicenseType := horders.licenseType
    cases htype : given.value? "type" with
    | none =>
        have hdefault : LicenseType.ofText LicenseType.subscription.name = .ok .subscription := by
          decide +kernel
        have hnone : given.values "type" = [] := by
          rw [Grammar.values_of_read areDistinct_signGrammar hread (by decide), htype]
          rfl
        rw [htype, Option.getD_none, hdefault] at hlicenseType
        exact .inl ⟨hnone, (Except.ok.inj hlicenseType).symm⟩
    | some text =>
        rw [htype] at hlicenseType
        exact .inr ⟨text, hvalues (by decide) htype, hlicenseType⟩
  case features =>
    intro name
    rw [horders.features]
    exact NameSet.has_ofList _ _
  case limits =>
    rw [horders.limits]
    exact get?_limitsOf hlimits
  case metadata =>
    rw [horders.metadata]
    exact get?_pairsOf hmetadata
  case issuedAt => exact ⟨issued, hvalues (by decide) hissued, hissuedAt⟩
  case expiresAt => exact endOf_eq_ok hread horders hexpiresAt

/-! ## Keys that leave the tool -/

/-- A key leaves the tool on a line of its own: it is printed, or it is in the one file that was
named. -/
def Leaves (given : Given) (before : Folder) (outcome : Outcome) (key : String) : Prop :=
  (given.values "output" = [] ∧ outcome.output = key ++ "\n" ∧ outcome.folder = before) ∨
    ∃ path, given.values "output" = [path] ∧ outcome.output = "" ∧
      outcome.folder.readText path = .ok (key ++ "\n")

variable {scheme : Scheme} {surroundings : Surroundings}

theorem secretIn_eq_ok {folder : Folder} {path : String} {secret : SecretKey}
    (hsecret : secretIn folder path = .ok secret) :
    ∃ encoded, folder.readText path = .ok encoded ∧ secretOfText encoded = .ok secret := by
  simpa only [secretIn, bind_eq_ok_iff, orStop_eq_ok_iff] using hsecret

/-- An order that is carried out is carried out by signing its claims with the key of its file, and
by writing the key to the file that it names. -/
theorem sign_eq_ok_write {order : Order} {effect : Effect}
    (hsign : sign scheme surroundings order = .ok effect) :
    ∃ claims secret key, claimsOf surroundings order = .ok claims ∧
      secretIn surroundings.folder order.keyFile = .ok secret ∧
      issue scheme secret claims = .ok key ∧
      ((order.output = none ∧ effect.output = key ++ "\n" ∧ effect.folder = surroundings.folder) ∨
        ∃ path, order.output = some path ∧ effect.output = "" ∧
          surroundings.folder.write path (key ++ "\n") = .ok effect.folder) := by
  unfold sign at hsign
  simp only [bind_eq_ok_iff, orStop_eq_ok_iff] at hsign
  obtain ⟨claims, hclaims, secret, hsecret, key, hkey, hsign⟩ := hsign
  refine ⟨claims, secret, key, hclaims, hsecret, hkey, ?_⟩
  cases houtput : order.output with
  | none =>
      rw [houtput] at hsign
      obtain rfl := Except.ok.inj hsign
      exact .inl ⟨rfl, rfl, rfl⟩
  | some path =>
      simp only [houtput, bind_eq_ok_iff, orStop_eq_ok_iff] at hsign
      obtain ⟨folder, hwrite, hsign⟩ := hsign
      obtain rfl := Except.ok.inj hsign
      exact .inr ⟨path, rfl, rfl, hwrite⟩

/-- The key of an order that is carried out is printed, or it can be read in the file that the order
names. -/
theorem sign_eq_ok {order : Order} {effect : Effect}
    (hsign : sign scheme surroundings order = .ok effect) :
    ∃ claims secret key, claimsOf surroundings order = .ok claims ∧
      secretIn surroundings.folder order.keyFile = .ok secret ∧
      issue scheme secret claims = .ok key ∧
      ((order.output = none ∧ effect.output = key ++ "\n" ∧ effect.folder = surroundings.folder) ∨
        ∃ path, order.output = some path ∧ effect.output = "" ∧
          effect.folder.readText path = .ok (key ++ "\n")) := by
  obtain ⟨claims, secret, key, hclaims, hsecret, hkey, hleft⟩ := sign_eq_ok_write hsign
  refine ⟨claims, secret, key, hclaims, hsecret, hkey, hleft.imp_right ?_⟩
  rintro ⟨path, houtput, hsilent, hwrite⟩
  exact ⟨path, houtput, hsilent, Folder.readText_of_write hwrite⟩

theorem outcomeOf_exit {folder : Folder} {result : Except Stop Effect}
    (hexit : (outcomeOf folder result).exit = 0) :
    ∃ effect, result = .ok effect ∧ (outcomeOf folder result).output = effect.output ∧
      (outcomeOf folder result).folder = effect.folder := by
  match result with
  | .ok effect => exact ⟨effect, rfl, rfl, rfl⟩
  | .error (.failed failure) => cases hexit
  | .error .beyondCalendar => cases hexit

/-- The tool succeeds on an order that it reads and carries out, and where it gives help instead. -/
theorem run_sign_exit {rest : List String}
    (hexit : (run scheme surroundings ("sign" :: rest)).exit = 0) :
    (signGrammar.read rest = .ok .help ∧
      run scheme surroundings ("sign" :: rest) =
        ⟨0, helpOn (some .sign), some "", surroundings.folder⟩) ∨
      ∃ given order effect, signGrammar.read rest = .ok (.options given) ∧
        orderOf given = .ok order ∧ sign scheme surroundings order = .ok effect ∧
        (run scheme surroundings ("sign" :: rest)).output = effect.output ∧
        (run scheme surroundings ("sign" :: rest)).folder = effect.folder := by
  have hcommand : Command.ofArguments ("sign" :: rest) = Verb.sign.read rest := rfl
  unfold run at hexit ⊢
  rw [hcommand, Verb.read, readWith] at hexit ⊢
  cases hread : signGrammar.read rest with
  | error e =>
      rw [hread] at hexit
      cases hexit
  | ok asked =>
      cases asked with
      | help => exact .inl ⟨rfl, rfl⟩
      | options given =>
          cases horder : orderOf given with
          | error e =>
              rw [hread] at hexit
              simp only [bind, Except.bind, horder] at hexit
              cases hexit
          | ok order =>
              rw [hread] at hexit
              simp only [bind, Except.bind, horder, pure, Except.pure, carryOut] at hexit ⊢
              obtain ⟨effect, hsign, heffect⟩ := outcomeOf_exit hexit
              exact .inr ⟨given, order, effect, rfl, horder, hsign, heffect⟩

/-- The arguments of an order that succeeds spell options with their values, unless there is one
among them that asks for help; then the help is printed and nothing else is done. Where the options
name the ids and the start of the window, the key that leaves the tool is the one that the key of
the file signs for the claims that were ordered, and it yields these claims throughout their window
under every set of keys that trusts the signer. -/
theorem sign_issues (rest : List String)
    (hexit : (run scheme surroundings ("sign" :: rest)).exit = 0) :
    ((∃ said, Spells signGrammar.choices rest said) ∨
        (∃ argument ∈ rest, AsksHelp argument) ∧
          run scheme surroundings ("sign" :: rest) =
            ⟨0, helpOn (some .sign), some "", surroundings.folder⟩) ∧
      ∀ said, Spells signGrammar.choices rest said →
        let given := givenOf said
        given.has "license-id" = true → given.has "customer-id" = true →
        given.has "issued-at" = true →
        ∃ claims path encoded secret key, Meets given claims ∧ given.values "key-file" = [path] ∧
          surroundings.folder.readText path = .ok encoded ∧ secretOfText encoded = .ok secret ∧
          issue scheme secret claims = .ok key ∧
          Leaves given surroundings.folder (run scheme surroundings ("sign" :: rest)) key ∧
          ((∀ payload, canonicalPayload claims = .ok payload → scheme.Honors secret payload) →
            ∀ trusted, scheme.publicKey secret ∈ trusted → ∀ now, claims.Covers now →
              verify scheme trusted key now = .ok ⟨claims, .verified⟩) := by
  rcases run_sign_exit hexit with
    ⟨hread, hhelp⟩ | ⟨read, order, effect, hread, horder, hsign, houtcome, hfolder⟩
  · have hasked := (Grammar.read_eq_ok hread).1
    refine ⟨.inr ⟨exists_asksHelp hasked, hhelp⟩, fun said hspells => ?_⟩
    exact absurd hasked (readOptions_ne_help_of_spells areDistinct_signGrammar hspells [] .nothing)
  have horders := orders_of_orderOf horder
  obtain ⟨claims, secret, key, hclaims, hsecret, hissue, hleft⟩ := sign_eq_ok hsign
  obtain ⟨encoded, hencoded, hdecoded⟩ := secretIn_eq_ok hsecret
  refine ⟨.inl (spells_of_readOptions (Grammar.read_eq_ok hread).1), ?_⟩
  intro said hspells given hid hcustomerId hissuedAt
  obtain rfl : read = given :=
    acceptAll_eq_ok (Grammar.acceptAll_of_read areDistinct_signGrammar hread hspells)
  have hmeets := meets_of_claimsOf hread horders hid hcustomerId hissuedAt hclaims
  have hkeyFile : given.values "key-file" = [order.keyFile] := by
    rw [Grammar.values_of_read areDistinct_signGrammar hread (by decide), horders.keyFile]
    rfl
  refine ⟨claims, order.keyFile, encoded, secret, key, hmeets, hkeyFile, hencoded, hdecoded, hissue,
    ?_, ?_⟩
  · have houtput : given.values "output" = order.output.toList := by
      rw [Grammar.values_of_read areDistinct_signGrammar hread (by decide), horders.output]
    rw [Leaves, houtcome, hfolder, houtput]
    rcases hleft with ⟨hnone, hprinted, hsame⟩ | ⟨path, hpath, hsilent, htext⟩
    · rw [hnone]
      exact .inl ⟨rfl, hprinted, hsame⟩
    · rw [hpath]
      exact .inr ⟨path, rfl, hsilent, htext⟩
  · intro hhonors trusted htrusted now hcovers
    obtain ⟨payload, hpayload, rfl⟩ := issue_eq_ok_iff.mp hissue
    rw [verify_signedEnvelope hpayload (hhonors payload hpayload) htrusted hcovers.1,
      if_neg (Timestamp.not_le.mpr hcovers.2)]

/-! ## An order -/

/-- The arguments of an order: options in several spellings, and a limit that is given twice. -/
def sampleArguments : List String :=
  ["-kprivate.key", "--customer", "Acme", "--email=ops@acme.test", "--customer-id", "c-1",
    "--license-id", "lic-1", "--tier", " Business ", "--feature", "scim", "--limit", "seats = 5",
    "--limit", "seats=25", "--meta", "po = a=b", "--issued-at",
    "2026-02-01T09:30:15.123456789-05:30", "--days", "30"]

/-- The order that the arguments make. -/
def sampleOrder : Order where
  keyFile := "private.key"
  customer := "Acme"
  email := "ops@acme.test"
  customerId := some "c-1"
  licenseId := some "lic-1"
  tier := .business
  licenseType := .subscription
  features := ["scim"]
  limits := ["seats = 5", "seats=25"]
  metadata := ["po = a=b"]
  issuedAt := some "2026-02-01T09:30:15.123456789-05:30"
  windowEnd := .days 30
  output := none

/-- The claims that are ordered. -/
def orderedClaims : Claims where
  id := "lic-1"
  customerId := "c-1"
  customerName := "Acme"
  email := "ops@acme.test"
  licenseType := .subscription
  tier := .business
  issuedAt := sampleClaims.issuedAt
  expiresAt :=
    { sampleClaims.issuedAt with
      date := ⟨2026, 3, 3, sampleClaims.issuedAt.date.year_range, by decide, by decide⟩ }
  features := (∅ : NameSet).insert "scim"
  limits := Limits.empty.set "seats" 25
  metadata := (∅ : Table String).set "po" "a=b"

/-- The members of the ordered claims, in the order of their canonical document. -/
def orderedMembers : List Json.Member :=
  [("customer_id", "\"c-1\""), ("customer_name", "\"Acme\""), ("email", "\"ops@acme.test\""),
    ("expires_at", "\"2026-03-03T09:30:15.123456789-05:30\""), ("features", "[\"scim\"]"),
    ("id", "\"lic-1\""), ("issued_at", "\"2026-02-01T09:30:15.123456789-05:30\""),
    ("limits", "\x7b\"seats\":25\x7d"), ("metadata", "\x7b\"po\":\"a=b\"\x7d"),
    ("tier", "\"business\""), ("type", "\"subscription\"")]

theorem canonicalPayload_orderedClaims :
    canonicalPayload orderedClaims = .ok (Text.bytes (Json.object orderedMembers)) := by
  have hlimits : Claims.writeLimits Json.canonicalOrder orderedClaims.limits =
      "\x7b\"seats\":25\x7d" := by
    rw [Claims.writeLimits, Json.canonicalOrder_eq (List.Perm.refl _) (by decide)]
    decide
  have hmetadata : Claims.writeMetadata Json.canonicalOrder orderedClaims.metadata =
      "\x7b\"po\":\"a=b\"\x7d" := by
    rw [Claims.writeMetadata, Json.canonicalOrder_eq (List.Perm.refl _) (by decide)]
    decide
  refine canonicalPayload_of_ordered "2026-02-01T09:30:15.123456789-05:30"
    "2026-03-03T09:30:15.123456789-05:30" orderedMembers (by decide) (by decide) (by decide)
    (by decide) ?_ (by decide) rfl
  rw [Claims.members, hlimits, hmetadata]
  decide

/-- The envelope of the ordered claims. -/
def orderedEnvelope : Envelope :=
  signedEnvelope Ed25519.scheme sampleSecret (Text.bytes (Json.object orderedMembers))

/-- Surroundings that hold nothing but the key that signs. -/
def orderSurroundings : Surroundings where
  folder :=
    .ofFiles ((∅ : Table (List UInt8)).set "private.key" (Text.bytes (secretText sampleSecret)))
  now := License.epoch
  freshSecret := sampleSecret
  freshLicenseId := ""
  freshCustomerId := ""

theorem run_sampleArguments :
    run Ed25519.scheme orderSurroundings ("sign" :: sampleArguments) =
      ⟨0, orderedEnvelope.encode ++ "\n", some "", orderSurroundings.folder⟩ := by
  have hcommand : Command.ofArguments ("sign" :: sampleArguments) = .ok (.sign sampleOrder) := by
    decide +kernel
  have hclaims : claimsOf orderSurroundings sampleOrder = .ok orderedClaims := by decide +kernel
  have hsecret : secretIn orderSurroundings.folder sampleOrder.keyFile = .ok sampleSecret := by
    decide +kernel
  have hissue : issue Ed25519.scheme sampleSecret orderedClaims = .ok orderedEnvelope.encode :=
    issue_eq_ok_iff.mpr ⟨_, canonicalPayload_orderedClaims, rfl⟩
  have hsign : sign Ed25519.scheme orderSurroundings sampleOrder =
      .ok ⟨orderedEnvelope.encode ++ "\n", "", orderSurroundings.folder⟩ :=
    bind_eq_ok_iff.mpr ⟨_, hclaims, bind_eq_ok_iff.mpr ⟨_, hsecret,
      bind_eq_ok_iff.mpr ⟨_, orStop_eq_ok_iff.mpr hissue, rfl⟩⟩⟩
  rw [run, hcommand]
  change outcomeOf _ (sign Ed25519.scheme orderSurroundings sampleOrder) = _
  rw [hsign]
  rfl

/-- The options that the arguments give. -/
def sampleGiven : Given :=
  [("key-file", "private.key"), ("customer", "Acme"), ("email", "ops@acme.test"),
    ("customer-id", "c-1"), ("license-id", "lic-1"), ("tier", " Business "), ("feature", "scim"),
    ("limit", "seats = 5"), ("limit", "seats=25"), ("meta", "po = a=b"),
    ("issued-at", "2026-02-01T09:30:15.123456789-05:30"), ("days", "30")]

theorem givenOf_eq_sampleGiven {said : List (Choice × String)}
    (hspells : Spells signGrammar.choices sampleArguments said) : givenOf said = sampleGiven := by
  have hread : signGrammar.read sampleArguments = .ok (.options sampleGiven) := by
    decide +kernel
  have haccept := Grammar.acceptAll_of_read areDistinct_signGrammar hread hspells
  exact (acceptAll_eq_ok haccept).symm

/-- The order succeeds. Its key is printed, and it yields the claims that were ordered until 30 days
after their start: the limit that was given last, and the pair split at its first equals sign. -/
theorem sign_issues_sample :
    (run Ed25519.scheme orderSurroundings ("sign" :: sampleArguments)).exit = 0 ∧
      (∃ said, Spells signGrammar.choices sampleArguments said) ∧
        Meets sampleGiven orderedClaims ∧
        Leaves sampleGiven orderSurroundings.folder
          (run Ed25519.scheme orderSurroundings ("sign" :: sampleArguments))
            orderedEnvelope.encode ∧
        ∀ now, orderedClaims.Covers now →
          verify Ed25519.scheme sampleTrusted orderedEnvelope.encode now =
            .ok ⟨orderedClaims, .verified⟩ := by
  have hexit : (run Ed25519.scheme orderSurroundings ("sign" :: sampleArguments)).exit = 0 := by
    rw [run_sampleArguments]
  obtain ⟨hspelled, hissues⟩ := sign_issues sampleArguments hexit
  have hnoHelp : ¬ ∃ argument ∈ sampleArguments, AsksHelp argument := by decide +kernel
  obtain ⟨said, hspells⟩ := hspelled.resolve_right fun hhelp => hnoHelp hhelp.1
  have hissued := hissues said hspells
  rw [givenOf_eq_sampleGiven hspells] at hissued
  obtain ⟨claims, path, encoded, secret, key, hmeets, hpath, hencoded, hsecret, hissue, hleaves,
    hverify⟩ := hissued (by decide) (by decide) (by decide)
  obtain rfl : "private.key" = path := by
    have hgiven : sampleGiven.values "key-file" = ["private.key"] := by decide
    simpa [hgiven] using hpath
  obtain rfl : sampleSecret = secret := by
    have hread : secretIn orderSurroundings.folder "private.key" = .ok sampleSecret := by
      decide +kernel
    have hsame : secretIn orderSurroundings.folder "private.key" = .ok secret :=
      bind_eq_ok_iff.mpr ⟨_, orStop_eq_ok_iff.mpr hencoded, orStop_eq_ok_iff.mpr hsecret⟩
    exact Except.ok.inj (hread.symm.trans hsame)
  obtain rfl : orderedEnvelope.encode = key := by
    have houtput : sampleGiven.values "output" = [] := by decide
    rcases hleaves with ⟨-, hprinted, -⟩ | ⟨path, hpath, -⟩
    · rw [run_sampleArguments] at hprinted
      exact (String.append_left_inj "\n").mp hprinted
    · rw [houtput] at hpath
      cases hpath
  have hordered : issue Ed25519.scheme sampleSecret orderedClaims = .ok orderedEnvelope.encode :=
    issue_eq_ok_iff.mpr ⟨_, canonicalPayload_orderedClaims, rfl⟩
  obtain rfl : orderedClaims = claims := claims_eq_of_issue hordered hissue
  refine ⟨hexit, ⟨said, hspells⟩, hmeets, hleaves, hverify ?_ _ List.mem_cons_self⟩
  intro payload hpayload
  rw [canonicalPayload_orderedClaims] at hpayload
  obtain rfl := Except.ok.inj hpayload
  decide +kernel

end Entitlement.Tool
