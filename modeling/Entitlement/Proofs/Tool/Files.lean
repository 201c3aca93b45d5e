import Entitlement.Proofs.Folder.Frame
import Entitlement.Proofs.Tool.Exit

/-! # Which files the tool changes

A command that only looks leaves every file alone. An order is carried out to its key before the
first file is touched, so an order that fails leaves no trace either; one that succeeds changes no
file but the one that it names.
-/

namespace Entitlement.Tool

open Key Signature

variable {scheme : Scheme} {surroundings : Surroundings} {folder : Folder}
  {result : Except Stop Effect}

/-! ## What a command leaves behind -/

theorem folder_outcomeOf (hkeeps : ∀ effect, result = .ok effect → effect.folder = folder) :
    (outcomeOf folder result).folder = folder := by
  match result with
  | .ok effect => exact hkeeps effect rfl
  | .error (.failed failure) => rfl
  | .error .beyondCalendar => rfl

/-- What stops leaves everything as it was and prints nothing. -/
theorem outcomeOf_of_exit_ne_zero (hexit : (outcomeOf folder result).exit ≠ 0) :
    (outcomeOf folder result).folder = folder ∧ (outcomeOf folder result).output = "" := by
  match result with
  | .ok effect => exact absurd rfl hexit
  | .error (.failed failure) => exact ⟨rfl, rfl⟩
  | .error .beyondCalendar => exact ⟨rfl, rfl⟩

theorem folder_inspect {source : KeySource} {path : String} {effect : Effect}
    (hinspect : inspect scheme surroundings source path = .ok effect) :
    effect.folder = surroundings.folder := by
  unfold inspect at hinspect
  simp only [bind_eq_ok_iff] at hinspect
  obtain ⟨_, -, _, -, _, -, heffect⟩ := hinspect
  obtain rfl := Except.ok.inj heffect
  rfl

theorem folder_showPublicKey {path : String} {effect : Effect}
    (hshow : showPublicKey scheme surroundings path = .ok effect) :
    effect.folder = surroundings.folder := by
  obtain ⟨_, -, heffect⟩ := bind_eq_ok_iff.mp hshow
  obtain rfl := Except.ok.inj heffect
  rfl

/-- The words of the verbs that write files. -/
def writingWords : List String := [Verb.generateKeys.word, Verb.sign.word]

/-- Files change by commands that write them, and by no others. -/
theorem folder_run {word : String} (hword : word ∉ writingWords) (rest : List String) :
    (run scheme surroundings (word :: rest)).folder = surroundings.folder := by
  unfold run
  cases hcommand : Command.ofArguments (word :: rest) with
  | error e => rfl
  | ok command =>
      cases command with
      | version => rfl
      | help subject => rfl
      | generateKeys directory =>
          obtain rfl := eq_word_of_ofArguments hcommand rfl
          exact absurd (by decide) hword
      | sign order =>
          obtain rfl := eq_word_of_ofArguments hcommand rfl
          exact absurd (by decide) hword
      | inspect source path => exact folder_outcomeOf fun _ => folder_inspect
      | showPublicKey path => exact folder_outcomeOf fun _ => folder_showPublicKey

/-- An order that is not carried out changes no file and prints nothing. -/
theorem run_sign_of_exit_ne_zero {rest : List String}
    (hexit : (run scheme surroundings ("sign" :: rest)).exit ≠ 0) :
    (run scheme surroundings ("sign" :: rest)).folder = surroundings.folder ∧
      (run scheme surroundings ("sign" :: rest)).output = "" := by
  unfold run at hexit ⊢
  cases hcommand : Command.ofArguments ("sign" :: rest) with
  | error e => exact ⟨rfl, rfl⟩
  | ok command =>
      rw [hcommand] at hexit
      cases command with
      | version => exact absurd rfl hexit
      | help subject => exact absurd rfl hexit
      | sign order => exact outcomeOf_of_exit_ne_zero hexit
      | generateKeys directory => exact absurd (eq_word_of_ofArguments hcommand rfl) (by decide)
      | inspect source path => exact absurd (eq_word_of_ofArguments hcommand rfl) (by decide)
      | showPublicKey path => exact absurd (eq_word_of_ofArguments hcommand rfl) (by decide)

/-! ## Keys and their files -/

/-- The key that an order asks for. -/
def IsKeyFor (scheme : Scheme) (surroundings : Surroundings) (order : Order) (key : String) :
    Prop :=
  ∃ claims secret, claimsOf surroundings order = .ok claims ∧
    secretIn surroundings.folder order.keyFile = .ok secret ∧ issue scheme secret claims = .ok key

theorem IsKeyFor.unique {order : Order} {key key' : String}
    (hkey : IsKeyFor scheme surroundings order key)
    (hkey' : IsKeyFor scheme surroundings order key') : key = key' := by
  obtain ⟨claims, secret, hclaims, hsecret, hissue⟩ := hkey
  obtain ⟨claims', secret', hclaims', hsecret', hissue'⟩ := hkey'
  obtain rfl := Except.ok.inj (hclaims.symm.trans hclaims')
  obtain rfl := Except.ok.inj (hsecret.symm.trans hsecret')
  exact Except.ok.inj (hissue.symm.trans hissue')

/-- Inspecting a license and showing a public key change no file. An order that fails changes none
either, and it prints nothing. An order that succeeds prints its key and changes no file, or it
prints nothing and changes the one file that it names, which then holds the key on a line of its
own. Only where an argument asks for help is there success without a key: the help is printed, and
no file changes. -/
theorem files_change_on_success (rest : List String) :
    (run scheme surroundings ("inspect" :: rest)).folder = surroundings.folder ∧
      (run scheme surroundings ("print-public-key" :: rest)).folder = surroundings.folder ∧
      ((run scheme surroundings ("sign" :: rest)).exit ≠ 0 →
        (run scheme surroundings ("sign" :: rest)).folder = surroundings.folder ∧
          (run scheme surroundings ("sign" :: rest)).output = "") ∧
      ((run scheme surroundings ("sign" :: rest)).exit = 0 →
        (signGrammar.read rest = .ok .help ∧ (∃ argument ∈ rest, AsksHelp argument) ∧
          run scheme surroundings ("sign" :: rest) =
            ⟨0, helpOn (some .sign), some "", surroundings.folder⟩) ∨
        ∃ given order key, signGrammar.read rest = .ok (.options given) ∧
          orderOf given = .ok order ∧ IsKeyFor scheme surroundings order key ∧
          ((given.values "output" = [] ∧
              (run scheme surroundings ("sign" :: rest)).output = key ++ "\n" ∧
              (run scheme surroundings ("sign" :: rest)).folder = surroundings.folder) ∨
            ∃ path, given.values "output" = [path] ∧
              (run scheme surroundings ("sign" :: rest)).output = "" ∧
              surroundings.folder.WritesOnly path (key ++ "\n")
                (run scheme surroundings ("sign" :: rest)).folder)) := by
  refine ⟨folder_run (by decide) rest, folder_run (by decide) rest, run_sign_of_exit_ne_zero, ?_⟩
  intro hexit
  rcases run_sign_exit hexit with
    ⟨hread, hhelp⟩ | ⟨given, order, effect, hread, horder, hsign, hprinted, hfolder⟩
  · exact .inl ⟨hread, exists_asksHelp (Grammar.read_eq_ok hread).1, hhelp⟩
  obtain ⟨claims, secret, key, hclaims, hsecret, hkey, hleft⟩ := sign_eq_ok_write hsign
  refine .inr ⟨given, order, key, hread, horder, ⟨claims, secret, hclaims, hsecret, hkey⟩, ?_⟩
  have houtput : given.values "output" = order.output.toList := by
    rw [Grammar.values_of_read areDistinct_signGrammar hread (by decide),
      (orders_of_orderOf horder).output]
  rw [houtput, hprinted, hfolder]
  rcases hleft with ⟨hnone, hkey, hsame⟩ | ⟨path, hpath, hsilent, hwrite⟩
  · rw [hnone]
    exact .inl ⟨rfl, hkey, hsame⟩
  · rw [hpath]
    exact .inr ⟨path, rfl, hsilent, Folder.writesOnly_of_write hwrite⟩

/-- Arguments that name a file for the key. -/
def archiveArguments : List String :=
  sampleArguments ++ ["--output", "acme.license"]

/-- The order that these arguments make. -/
def archiveOrder : Order :=
  { sampleOrder with output := some "acme.license" }

/-- Arguments that name a file as well, with metadata that cannot be read. -/
def brokenArguments : List String :=
  archiveArguments ++ ["--meta", "po"]

theorem command_archiveArguments :
    Command.ofArguments ("sign" :: archiveArguments) = .ok (.sign archiveOrder) := by
  decide +kernel

theorem isKeyFor_archiveOrder :
    IsKeyFor Ed25519.scheme orderSurroundings archiveOrder orderedEnvelope.encode := by
  refine ⟨orderedClaims, sampleSecret, by decide +kernel, by decide +kernel, ?_⟩
  exact issue_eq_ok_iff.mpr ⟨_, canonicalPayload_orderedClaims, rfl⟩

theorem exit_archiveArguments :
    (run Ed25519.scheme orderSurroundings ("sign" :: archiveArguments)).exit = 0 := by
  have hplace : orderSurroundings.folder.place "acme.license" = .ok ["acme.license"] := by
    decide +kernel
  have hfree : ¬ (orderSurroundings.folder.hasDirectory ["acme.license"] = true ∨
      "acme.license".endsWith "/" = true) := by
    decide +kernel
  have hwrite (text : String) : orderSurroundings.folder.write "acme.license" text =
      .ok (orderSurroundings.folder.holding ["acme.license"] (Text.bytes text)) := by
    simp only [Folder.write, hplace, bind, Except.bind, if_neg hfree]
    rfl
  obtain ⟨claims, secret, hclaims, hsecret, hissue⟩ := isKeyFor_archiveOrder
  obtain ⟨effect, hsign⟩ :
      ∃ effect, sign Ed25519.scheme orderSurroundings archiveOrder = .ok effect :=
    ⟨_, bind_eq_ok_iff.mpr ⟨_, hclaims, bind_eq_ok_iff.mpr ⟨_, hsecret, bind_eq_ok_iff.mpr
      ⟨_, orStop_eq_ok_iff.mpr hissue,
        bind_eq_ok_iff.mpr ⟨_, orStop_eq_ok_iff.mpr (hwrite _), rfl⟩⟩⟩⟩⟩
  rw [run, command_archiveArguments]
  change (outcomeOf _ (sign Ed25519.scheme orderSurroundings archiveOrder)).exit = 0
  rw [hsign]
  rfl

/-- The key that was ordered stands in the file that was named, and nothing else has changed. Where
the metadata cannot be read the same order leaves the folder as it was. -/
theorem files_change_on_success_sample :
    (run Ed25519.scheme orderSurroundings ("sign" :: archiveArguments)).exit = 0 ∧
      orderSurroundings.folder.WritesOnly "acme.license" (orderedEnvelope.encode ++ "\n")
        (run Ed25519.scheme orderSurroundings ("sign" :: archiveArguments)).folder ∧
      (run Ed25519.scheme orderSurroundings ("sign" :: brokenArguments)).exit = 1 ∧
      (run Ed25519.scheme orderSurroundings ("sign" :: brokenArguments)).folder =
        orderSurroundings.folder := by
  obtain ⟨-, -, -, hsuccess⟩ := @files_change_on_success Ed25519.scheme orderSurroundings
    archiveArguments
  obtain ⟨-, -, hfailure, -⟩ := @files_change_on_success Ed25519.scheme orderSurroundings
    brokenArguments
  have hbroken : (run Ed25519.scheme orderSurroundings ("sign" :: brokenArguments)).exit = 1 := by
    decide +kernel
  refine ⟨exit_archiveArguments, ?_, hbroken, (hfailure (by rw [hbroken]; decide)).1⟩
  have hnoHelp : ¬ ∃ argument ∈ archiveArguments, AsksHelp argument := by decide +kernel
  obtain ⟨given, order, key, hread, horder, hkey, hleft⟩ :=
    (hsuccess exit_archiveArguments).resolve_left fun hhelp => hnoHelp hhelp.2.1
  have hcommand : Command.ofArguments ("sign" :: archiveArguments) = .ok (.sign order) :=
    bind_eq_ok_iff.mpr ⟨.options given, hread, bind_eq_ok_iff.mpr ⟨order, horder, rfl⟩⟩
  obtain rfl := Command.sign.inj (Except.ok.inj (command_archiveArguments.symm.trans hcommand))
  have houtput := (orders_of_orderOf horder).output
  rw [value?_eq_head?] at houtput
  rw [hkey.unique isKeyFor_archiveOrder] at hleft
  rcases hleft with ⟨hnone, -⟩ | ⟨path, hpath, -, hwrites⟩
  · rw [hnone] at houtput
    cases houtput
  · rw [hpath] at houtput
    obtain rfl := Option.some.inj houtput
    exact hwrites

end Entitlement.Tool
