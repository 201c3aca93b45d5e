import Entitlement.Proofs.Calendar.Range
import Entitlement.Proofs.Tool.Sign

/-! # How the tool ends

Arguments that are not understood are reported with one exit code and commands that fail with
another. A window of a number of days is the exception: its end is counted without asking whether
the calendar reaches that far, and where it does not the tool stops and reports nothing.
-/

namespace Entitlement.Tool

open Calendar Key Signature

/-! ## What is reported -/

section Steps

variable {ε α β : Type}

/-- Whatever is wrong, the tool reports it. -/
def IsReported (result : Except Stop α) : Prop :=
  result ≠ .error .beyondCalendar

theorem isReported_orStop (failure : ε → Failure) (result : Except ε α) :
    IsReported (orStop failure result) := by
  cases result with
  | error e => rintro ⟨⟩
  | ok value => rintro ⟨⟩

theorem isReported_pure (value : α) : IsReported (pure value : Except Stop α) := by
  rintro ⟨⟩

theorem IsReported.bind {first : Except Stop α} {next : α → Except Stop β}
    (hfirst : IsReported first) (hnext : ∀ value, IsReported (next value)) :
    IsReported (first >>= next) := by
  intro hstop
  rcases bind_eq_error_iff.mp hstop with hstop | ⟨value, -, hstop⟩
  · exact hfirst hstop
  · exact hnext value hstop

/-- Steps stop where the first one does if everything behind it is reported. -/
theorem bind_eq_beyondCalendar_iff {first : Except Stop α} {next : α → Except Stop β}
    (hnext : ∀ value, IsReported (next value)) :
    first >>= next = .error .beyondCalendar ↔ first = .error .beyondCalendar := by
  rw [bind_eq_error_iff]
  refine or_iff_left ?_
  rintro ⟨value, -, hstop⟩
  exact hnext value hstop

end Steps

variable {scheme : Scheme} {surroundings : Surroundings}

theorem isReported_timeOf (flag text : String) : IsReported (timeOf flag text) :=
  isReported_orStop _ _

theorem isReported_secretIn (folder : Folder) (path : String) :
    IsReported (secretIn folder path) :=
  (isReported_orStop _ _).bind fun _ => isReported_orStop _ _

theorem isReported_publicKeyOf (folder : Folder) (source : KeySource) :
    IsReported (publicKeyOf scheme folder source) := by
  cases source with
  | keyFile path => exact (isReported_secretIn folder path).bind fun _ => isReported_pure _
  | publicKey text => exact isReported_orStop _ _

theorem isReported_inspect (source : KeySource) (path : String) :
    IsReported (inspect scheme surroundings source path) :=
  (isReported_publicKeyOf _ source).bind fun _ =>
    (isReported_orStop _ _).bind fun _ => (isReported_orStop _ _).bind fun _ => isReported_pure _

theorem isReported_showPublicKey (path : String) :
    IsReported (showPublicKey scheme surroundings path) :=
  (isReported_secretIn _ path).bind fun _ => isReported_pure _

/-! ## Windows that leave the calendar -/

/-- An ordered window starts at the time that is ordered, or now where none is. -/
def StartsAt (surroundings : Surroundings) (order : Order) (issuedAt : Timestamp) : Prop :=
  match order.issuedAt with
  | some text => Rfc3339.parse text = .ok issuedAt
  | none => issuedAt = surroundings.now

/-- An ordered window lasts for a number of days after which there is no time in the offset of its
start. -/
def EndsBeyondCalendar (surroundings : Surroundings) (order : Order) : Prop :=
  ∃ issuedAt days, StartsAt surroundings order issuedAt ∧ order.windowEnd = .days days ∧
    ∀ expiresAt : Timestamp, expiresAt.offset = issuedAt.offset →
      expiresAt.instant ≠ issuedAt.instant + days * 86400 * 1000000000

theorem endOf_eq_beyondCalendar_iff {issuedAt : Timestamp} {windowEnd : WindowEnd} :
    endOf issuedAt windowEnd = .error .beyondCalendar ↔
      ∃ days, windowEnd = .days days ∧ ∀ expiresAt : Timestamp,
        expiresAt.offset = issuedAt.offset →
          expiresAt.instant ≠ issuedAt.instant + days * 86400 * 1000000000 := by
  cases windowEnd with
  | expires text =>
      refine iff_of_false (isReported_timeOf _ text) ?_
      rintro ⟨days, ⟨⟩, -⟩
  | days days =>
      have hnone : endOf issuedAt (.days days) = .error .beyondCalendar ↔
          issuedAt.addDays? days = none := by
        unfold endOf
        dsimp only
        cases issuedAt.addDays? days <;> simp
      rw [hnone]
      refine Timestamp.addNanos?_eq_none_iff.trans ⟨fun hbeyond => ⟨days, rfl, hbeyond⟩, ?_⟩
      rintro ⟨_, ⟨⟩, hbeyond⟩
      exact hbeyond

/-- Once a window has started, the claims can only stop at its end. -/
theorem endOf_bind_eq_beyondCalendar_iff {α : Type} {issuedAt : Timestamp} {windowEnd : WindowEnd}
    {next : Timestamp → Except Stop α} (hnext : ∀ expiresAt, IsReported (next expiresAt)) :
    endOf issuedAt windowEnd >>= next = .error .beyondCalendar ↔
      ∃ days, windowEnd = .days days ∧ ∀ expiresAt : Timestamp,
        expiresAt.offset = issuedAt.offset →
          expiresAt.instant ≠ issuedAt.instant + days * 86400 * 1000000000 :=
  (bind_eq_beyondCalendar_iff hnext).trans endOf_eq_beyondCalendar_iff

/-- Claims cannot be made of an order if the start of its window can be read and the end cannot be
counted. -/
theorem claimsOf_eq_beyondCalendar_iff {order : Order} :
    claimsOf surroundings order = .error .beyondCalendar ↔
      EndsBeyondCalendar surroundings order := by
  unfold claimsOf EndsBeyondCalendar StartsAt
  cases order.issuedAt with
  | none =>
      simp only [pure_bind, exists_and_left, exists_eq_left]
      exact endOf_bind_eq_beyondCalendar_iff fun _ =>
        (isReported_orStop _ _).bind fun _ => (isReported_orStop _ _).bind fun _ =>
          isReported_pure _
  | some text =>
      rw [bind_eq_error_iff, or_iff_right (isReported_timeOf _ text)]
      refine exists_congr fun issuedAt => ?_
      rw [exists_and_left]
      refine and_congr orStop_eq_ok_iff (endOf_bind_eq_beyondCalendar_iff fun _ => ?_)
      exact (isReported_orStop _ _).bind fun _ => (isReported_orStop _ _).bind fun _ =>
        isReported_pure _

theorem sign_eq_beyondCalendar_iff {order : Order} :
    sign scheme surroundings order = .error .beyondCalendar ↔
      EndsBeyondCalendar surroundings order := by
  rw [← claimsOf_eq_beyondCalendar_iff]
  refine bind_eq_beyondCalendar_iff fun claims =>
    (isReported_secretIn _ _).bind fun secret => (isReported_orStop _ _).bind fun key => ?_
  cases order.output with
  | none => exact isReported_pure _
  | some path => exact (isReported_orStop _ _).bind fun _ => isReported_pure _

/-! ## Commands -/

/-- The verb that a command carries out, where it carries one out. -/
def Command.verb? : Command → Option Verb
  | .version | .help _ => none
  | .generateKeys _ => some .generateKeys
  | .sign _ => some .sign
  | .inspect _ _ => some .inspect
  | .showPublicKey _ => some .showPublicKey

/-- What is read of a verb with options carries out this verb or gives help. -/
theorem verb?_of_readWith {verb other : Verb} {grammar : Grammar}
    {make : Given → Except UsageError Command} {arguments : List String} {command : Command}
    (hmake : ∀ given made, make given = .ok made → made.verb? = some verb)
    (hcommand : readWith verb grammar make arguments = .ok command)
    (hverb : command.verb? = some other) : other = verb := by
  obtain ⟨asked, -, hcommand⟩ := bind_eq_ok_iff.mp hcommand
  cases asked with
  | help =>
      obtain rfl := Except.ok.inj hcommand
      cases hverb
  | options given => exact Option.some.inj (hverb.symm.trans (hmake given command hcommand))

theorem verb?_of_read {verb other : Verb} {arguments : List String} {command : Command}
    (hcommand : verb.read arguments = .ok command) (hverb : command.verb? = some other) :
    other = verb := by
  cases verb with
  | help =>
      obtain ⟨subject, -, hcommand⟩ := bind_eq_ok_iff.mp hcommand
      obtain rfl := Except.ok.inj hcommand
      cases hverb
  | generateKeys =>
      refine verb?_of_readWith (fun given made hmade => ?_) hcommand hverb
      obtain rfl := Except.ok.inj hmade
      rfl
  | sign =>
      refine verb?_of_readWith (fun given made hmade => ?_) hcommand hverb
      obtain ⟨order, -, hmade⟩ := bind_eq_ok_iff.mp hmade
      obtain rfl := Except.ok.inj hmade
      rfl
  | inspect =>
      refine verb?_of_readWith (fun given made hmade => ?_) hcommand hverb
      obtain ⟨source, -, hmade⟩ := bind_eq_ok_iff.mp hmade
      obtain ⟨license, -, hmade⟩ := bind_eq_ok_iff.mp hmade
      obtain rfl := Except.ok.inj hmade
      rfl
  | showPublicKey =>
      refine verb?_of_readWith (fun given made hmade => ?_) hcommand hverb
      obtain ⟨path, -, hmade⟩ := bind_eq_ok_iff.mp hmade
      obtain rfl := Except.ok.inj hmade
      rfl

theorem Verb.word_of_ofWord? {word : String} {verb : Verb} (hword : ofWord? word = some verb) :
    verb.word = word := by
  simpa using List.find?_some hword

/-- A verb is carried out where its word stands first. -/
theorem eq_word_of_ofArguments {argument : String} {rest : List String} {command : Command}
    {verb : Verb} (hcommand : Command.ofArguments (argument :: rest) = .ok command)
    (hverb : command.verb? = some verb) : argument = verb.word := by
  simp only [Command.ofArguments] at hcommand
  split at hcommand
  next => split at hcommand <;> cases hcommand
  next =>
    obtain rfl := Except.ok.inj hcommand
    cases hverb
  next => cases hcommand
  next =>
    obtain rfl := Except.ok.inj hcommand
    cases hverb
  next =>
    split at hcommand
    next read hread =>
      rw [verb?_of_read hcommand hverb]
      exact (Verb.word_of_ofWord? hread).symm
    next => cases hcommand
  next =>
    split at hcommand
    next =>
      obtain rfl := Except.ok.inj hcommand
      cases hverb
    next => cases hcommand

/-! ## Exit codes -/

/-- An outcome that reports what is wrong and prints nothing else. -/
def Reports (outcome : Outcome) : Prop :=
  outcome.output = "" ∧
    ((outcome.exit = 1 ∧ ∃ failure : Failure, outcome.errors = some failure.report) ∨
      (outcome.exit = 2 ∧ ∃ e : UsageError, outcome.errors = some (e.message ++ "\n")))

theorem reports_failed (failure : Failure) (folder : Folder) : Reports (failed failure folder) :=
  ⟨rfl, .inl ⟨rfl, failure, rfl⟩⟩

theorem Reports.exit_ne {outcome : Outcome} (hreports : Reports outcome) : outcome.exit ≠ 101 := by
  rcases hreports with ⟨-, ⟨hexit, -⟩ | ⟨hexit, -⟩⟩ <;> rw [hexit] <;> decide

theorem generateKeys_ends (directory : String) :
    let outcome := generateKeys scheme surroundings directory
    outcome.exit = 0 ∨ Reports outcome := by
  intro outcome
  unfold outcome generateKeys
  dsimp only
  split
  next => exact .inr (reports_failed _ _)
  next =>
    split
    next => exact .inr (reports_failed _ _)
    next =>
      split
      next => exact .inr (reports_failed _ _)
      next => exact .inl rfl

theorem outcomeOf_ends (folder : Folder) (result : Except Stop Effect) :
    let outcome := outcomeOf folder result
    (outcome.exit = 0 ∨ Reports outcome ∨ outcome.exit = 101) ∧
      (outcome.exit = 101 ↔ result = .error .beyondCalendar) := by
  match result with
  | .ok effect => exact ⟨.inl rfl, by simp [outcomeOf]⟩
  | .error (.failed failure) =>
      exact ⟨.inr (.inl (reports_failed failure folder)), by simp [outcomeOf, failed]⟩
  | .error .beyondCalendar => exact ⟨.inr (.inr rfl), by simp [outcomeOf]⟩

/-- A command stops the tool if it is an order whose window leaves the calendar, and in no other
case. -/
theorem carryOut_ends (command : Command) :
    let outcome := carryOut scheme surroundings command
    (outcome.exit = 0 ∨ Reports outcome ∨ outcome.exit = 101) ∧
      (outcome.exit = 101 ↔
        ∃ order, command = .sign order ∧ EndsBeyondCalendar surroundings order) := by
  cases command with
  | version => simp [carryOut]
  | help subject => simp [carryOut]
  | generateKeys directory =>
      have hends := @generateKeys_ends scheme surroundings directory
      refine ⟨hends.imp_right .inl, iff_of_false (fun hexit => ?_) (by simp)⟩
      rcases hends with hdone | hreports
      · exact absurd (hdone.symm.trans hexit) (by decide)
      · exact hreports.exit_ne hexit
  | sign order =>
      obtain ⟨hends, hstops⟩ :=
        outcomeOf_ends surroundings.folder (sign scheme surroundings order)
      refine ⟨hends, hstops.trans (sign_eq_beyondCalendar_iff.trans ?_)⟩
      simp only [Command.sign.injEq, exists_eq_left']
  | inspect source path =>
      obtain ⟨hends, hstops⟩ :=
        outcomeOf_ends surroundings.folder (inspect scheme surroundings source path)
      refine ⟨hends, hstops.trans (iff_of_false (isReported_inspect source path) (by simp))⟩
  | showPublicKey path =>
      obtain ⟨hends, hstops⟩ :=
        outcomeOf_ends surroundings.folder (showPublicKey scheme surroundings path)
      refine ⟨hends, hstops.trans (iff_of_false (isReported_showPublicKey path) (by simp))⟩

/-- Every run of the tool does what it is asked for or reports what is wrong, unless it is asked to
sign a license for a window of days that leaves the calendar. Such a run stops with exit code 101;
no inspection, no display of a public key and no window with an ordered end does. -/
theorem run_ends (arguments : List String) :
    ((run scheme surroundings arguments).exit = 0 ∨ Reports (run scheme surroundings arguments) ∨
        (run scheme surroundings arguments).exit = 101) ∧
      ((run scheme surroundings arguments).exit = 101 ↔
        ∃ rest order, arguments = "sign" :: rest ∧
          Command.ofArguments arguments = .ok (.sign order) ∧
            EndsBeyondCalendar surroundings order) := by
  unfold run
  cases hcommand : Command.ofArguments arguments with
  | error e => exact ⟨.inr (.inl ⟨rfl, .inr ⟨rfl, e, rfl⟩⟩), by simp⟩
  | ok command =>
      obtain ⟨hends, hstops⟩ := @carryOut_ends scheme surroundings command
      refine ⟨hends, hstops.trans ⟨?_, ?_⟩⟩
      · rintro ⟨order, rfl, hbeyond⟩
        cases arguments with
        | nil => cases hcommand
        | cons argument rest =>
            obtain rfl := eq_word_of_ofArguments hcommand rfl
            exact ⟨rest, order, rfl, rfl, hbeyond⟩
      · rintro ⟨rest, order, -, hsame, hbeyond⟩
        exact ⟨order, Except.ok.inj hsame, hbeyond⟩

/-- The arguments of an order for one day more than the calendar has. -/
def overlongArguments : List String :=
  ["--key-file", "private.key", "--customer", "Acme", "--email", "ops@acme.test", "--customer-id",
    "c-1", "--license-id", "lic-1", "--tier", "pro", "--issued-at", "9999-12-31T00:00:00Z",
    "--days", "1"]

/-- The order stops the tool, and nothing is reported. -/
theorem overlong_order_stops :
    (run Ed25519.scheme orderSurroundings ("sign" :: overlongArguments)).exit = 101 ∧
      (run Ed25519.scheme orderSurroundings ("sign" :: overlongArguments)).errors = none := by
  decide +kernel

end Entitlement.Tool
