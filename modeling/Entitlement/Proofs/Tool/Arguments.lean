import Entitlement.Proofs.Key.Verify
import Entitlement.Proofs.Text.Pieces
import Entitlement.Tool.Arguments
import Mathlib.Data.List.Nodup

/-! # What arguments say

Arguments say which options are given and with which values, and they say so in one way only. An
option is named by its long name after two hyphens or by its letter after one. Its value is the next
argument, or it stands in the same argument behind an equals sign, or directly behind the letter.
Arguments that say nothing of the kind and are read all the same ask for help.
-/

namespace Entitlement.Tool

open Key

/-! ## Spelling options -/

/-- An argument can be a value of its own unless it starts with a hyphen and goes on. -/
def IsValue (argument : String) : Prop :=
  ∀ c rest, argument.toList ≠ '-' :: c :: rest

/-- An argument that names an option and nothing more. -/
inductive Choice.Flag (choice : Choice) : String → Prop where
  | long : choice.Flag ("--" ++ choice.long)
  | short {letter : Char} (hletter : choice.short = some letter) :
      choice.Flag ("-" ++ String.singleton letter)

/-- An argument that names an option and holds its value. -/
inductive Choice.Attaches (choice : Choice) : String → String → Prop where
  | equals {flag : String} (hflag : choice.Flag flag) (value : String) :
      choice.Attaches (flag ++ "=" ++ value) value
  | joined {letter : Char} (hletter : choice.short = some letter) {value : String}
      (hvalue : value ≠ "") (hequals : ∀ rest, value.toList ≠ '=' :: rest) :
      choice.Attaches ("-" ++ String.singleton letter ++ value) value

/-- Arguments that spell options with their values. The end of the options may be marked. -/
inductive Spells (choices : List Choice) : List String → List (Choice × String) → Prop where
  | nil : Spells choices [] []
  | endOfOptions : Spells choices ["--"] []
  | separate {choice : Choice} {flag value : String} {rest : List String}
      {said : List (Choice × String)} (hchoice : choice ∈ choices) (hflag : choice.Flag flag)
      (hvalue : IsValue value) (hrest : Spells choices rest said) :
      Spells choices (flag :: value :: rest) ((choice, value) :: said)
  | attached {choice : Choice} {argument value : String} {rest : List String}
      {said : List (Choice × String)} (hchoice : choice ∈ choices)
      (hattaches : choice.Attaches argument value) (hrest : Spells choices rest said) :
      Spells choices (argument :: rest) ((choice, value) :: said)

theorem Spells.mem {choices : List Choice} {arguments : List String} {said : List (Choice × String)}
    (hspells : Spells choices arguments said) : ∀ entry ∈ said, entry.1 ∈ choices := by
  induction hspells with
  | nil | endOfOptions => exact fun entry hentry => absurd hentry List.not_mem_nil
  | separate hchoice _ _ _ ih | attached hchoice _ _ ih =>
      exact List.forall_mem_cons.mpr ⟨hchoice, ih⟩

/-- Options whose names are told apart, also from the marks around them. -/
structure AreDistinct (choices : List Choice) : Prop where
  long_nodup : (choices.map Choice.long).Nodup
  short_nodup : (choices.filterMap Choice.short).Nodup
  long_ne : ∀ choice ∈ choices, choice.long ≠ ""
  long_equals : ∀ choice ∈ choices, '=' ∉ choice.long.toList
  short_ne : ∀ choice ∈ choices, choice.short ≠ some '-'

variable {choices : List Choice} {choice : Choice} {argument flag value : String}

/-! ## Shapes -/

/-- What an argument of some shape is. -/
def Shape.Looks (argument : String) : Shape → Prop
  | .long name none => argument = "--" ++ name
  | .long name (some value) => argument = "--" ++ name ++ "=" ++ value
  | .short letter attached =>
    ∃ tail, argument = "-" ++ String.singleton letter ++ tail ∧
      attached = attachedToShort tail.toList
  | .endOfOptions => argument = "--"
  | .plain => IsValue argument

theorem looks_of (argument : String) : (Shape.of argument).Looks argument := by
  unfold Shape.of
  split
  next hlist => exact String.toList_inj.mp hlist
  next rest hne hlist =>
    split
    next name value hcut =>
      obtain ⟨rfl, -⟩ := Text.cut?_eq_some_iff.mp hcut
      exact String.toList_inj.mp (by simp [hlist])
    next => exact String.toList_inj.mp (by simp [hlist])
  next letter rest hne hne' hlist =>
    exact ⟨String.ofList rest, String.toList_inj.mp (by simp [hlist]), by simp⟩
  next hnone => exact fun c rest hlist => hnone c rest hlist

theorem of_isValue (hvalue : IsValue value) : Shape.of value = .plain := by
  unfold Shape.of
  split
  next hlist => exact absurd hlist (hvalue _ _)
  next rest _ hlist => exact absurd hlist (hvalue _ _)
  next letter rest _ _ hlist => exact absurd hlist (hvalue _ _)
  next => rfl

theorem of_long {name : String} (hne : name ≠ "") (hequals : '=' ∉ name.toList) :
    Shape.of ("--" ++ name) = .long name none := by
  have hlist : ("--" ++ name).toList = '-' :: '-' :: name.toList := by simp
  rw [Shape.of, hlist]
  cases hname : name.toList with
  | nil => exact absurd (String.toList_eq_nil_iff.mp hname) hne
  | cons c rest =>
      have hback : String.ofList (c :: rest) = name := by rw [← hname, String.ofList_toList]
      rw [hname] at hequals
      simp [Text.cut?_eq_none hequals, hback]

theorem of_long_equals {name : String} (hequals : '=' ∉ name.toList) (value : String) :
    Shape.of ("--" ++ name ++ "=" ++ value) = .long name (some value) := by
  have hlist : ("--" ++ name ++ "=" ++ value).toList =
      '-' :: '-' :: (name.toList ++ '=' :: value.toList) := by simp
  have hcut := Text.cut?_eq_some_iff.mpr
    ⟨(rfl : name.toList ++ '=' :: value.toList = _), hequals⟩
  rw [Shape.of, hlist]
  cases hrest : name.toList ++ '=' :: value.toList with
  | nil => exact absurd hrest (by simp)
  | cons c rest =>
      rw [hrest] at hcut
      simp [hcut]

theorem of_short {letter : Char} (hletter : letter ≠ '-') (tail : String) :
    Shape.of ("-" ++ String.singleton letter ++ tail) =
      .short letter (attachedToShort tail.toList) := by
  have hlist : ("-" ++ String.singleton letter ++ tail).toList = '-' :: letter :: tail.toList := by
    simp
  rw [Shape.of, hlist]
  simp [hletter]

/-! ## Options that arguments name -/

theorem find?_of_nodup_filterMap {α β : Type} [DecidableEq β] {list : List α} {key? : α → Option β}
    (hnodup : (list.filterMap key?).Nodup) {entry : α} (hentry : entry ∈ list) {key : β}
    (hkey : key? entry = some key) :
    list.find? (fun other => key? other == some key) = some entry := by
  induction list with
  | nil => cases hentry
  | cons head list ih =>
      rcases List.mem_cons.mp hentry with rfl | hentry
      · rw [List.find?_cons_of_pos (by simp [hkey])]
      · have hmem : key ∈ list.filterMap key? := List.mem_filterMap.mpr ⟨entry, hentry, hkey⟩
        cases hhead : key? head with
        | none =>
            rw [List.filterMap_cons_none hhead] at hnodup
            rw [List.find?_cons_of_neg (by simp [hhead]), ih hnodup hentry]
        | some other =>
            rw [List.filterMap_cons_some hhead] at hnodup
            obtain ⟨hnew, hmore⟩ := List.nodup_cons.mp hnodup
            have hne : other ≠ key := fun hsame => hnew (hsame ▸ hmem)
            rw [List.find?_cons_of_neg (by simp [hhead, hne]), ih hmore hentry]

theorem find?_long (hdistinct : AreDistinct choices) (hchoice : choice ∈ choices) :
    choices.find? (fun other => other.long == choice.long) = some choice := by
  have hnodup : (choices.filterMap fun other => some other.long).Nodup := by
    rw [List.filterMap_eq_map']
    exact hdistinct.long_nodup
  simpa using find?_of_nodup_filterMap hnodup hchoice rfl

theorem choice?_of_flag (hdistinct : AreDistinct choices) (hchoice : choice ∈ choices)
    (hflag : choice.Flag flag) : (Shape.of flag).choice? choices = some (choice, none) := by
  cases hflag with
  | long =>
      rw [of_long (hdistinct.long_ne choice hchoice) (hdistinct.long_equals choice hchoice),
        Shape.choice?, find?_long hdistinct hchoice]
      rfl
  | @short letter hletter =>
      have hhyphen : letter ≠ '-' := fun hsame =>
        hdistinct.short_ne choice hchoice (hsame ▸ hletter)
      have hshape := of_short hhyphen ""
      rw [String.append_empty] at hshape
      rw [hshape, Shape.choice?,
        find?_of_nodup_filterMap hdistinct.short_nodup hchoice hletter]
      rfl

theorem attachedToShort_of_ne {value : String} (hvalue : value ≠ "")
    (hequals : ∀ rest, value.toList ≠ '=' :: rest) : attachedToShort value.toList = some value := by
  unfold attachedToShort
  split
  next hlist => exact absurd (String.toList_eq_nil_iff.mp hlist) hvalue
  next rest hlist => exact absurd hlist (hequals rest)
  next => rw [String.ofList_toList]

theorem choice?_of_attaches (hdistinct : AreDistinct choices) (hchoice : choice ∈ choices)
    (hattaches : choice.Attaches argument value) :
    (Shape.of argument).choice? choices = some (choice, some value) := by
  have hhyphen {letter : Char} (hletter : choice.short = some letter) : letter ≠ '-' :=
    fun hsame => hdistinct.short_ne choice hchoice (hsame ▸ hletter)
  cases hattaches with
  | equals hflag value =>
      cases hflag with
      | long =>
          rw [of_long_equals (hdistinct.long_equals choice hchoice), Shape.choice?,
            find?_long hdistinct hchoice]
          rfl
      | short hletter =>
          rw [String.append_assoc, of_short (hhyphen hletter), Shape.choice?,
            find?_of_nodup_filterMap hdistinct.short_nodup hchoice hletter]
          simp [attachedToShort]
  | joined hletter hvalue hequals =>
      rw [of_short (hhyphen hletter), Shape.choice?,
        find?_of_nodup_filterMap hdistinct.short_nodup hchoice hletter,
        attachedToShort_of_ne hvalue hequals]
      rfl

/-- What names an option is a flag of the option, with or without a value. -/
theorem flag_of_choice? {attached : Option String}
    (hnamed : (Shape.of argument).choice? choices = some (choice, attached)) :
    choice ∈ choices ∧
      (attached = none → choice.Flag argument) ∧
      ∀ value, attached = some value → choice.Attaches argument value := by
  have hlooks := looks_of argument
  cases hshape : Shape.of argument with
  | long name given =>
      rw [hshape, Shape.choice?, Option.map_eq_some_iff] at hnamed
      obtain ⟨other, hfound, hsame⟩ := hnamed
      obtain ⟨rfl, rfl⟩ := Prod.mk.inj hsame
      obtain rfl : other.long = name := by simpa using List.find?_some hfound
      refine ⟨List.mem_of_find?_eq_some hfound, ?_, ?_⟩
      · rintro rfl
        rw [hshape] at hlooks
        obtain rfl := hlooks
        exact .long
      · rintro value rfl
        rw [hshape] at hlooks
        obtain rfl := hlooks
        exact .equals .long value
  | short letter given =>
      rw [hshape, Shape.choice?, Option.map_eq_some_iff] at hnamed
      obtain ⟨other, hfound, hsame⟩ := hnamed
      obtain ⟨rfl, rfl⟩ := Prod.mk.inj hsame
      have hletter : other.short = some letter := by simpa using List.find?_some hfound
      rw [hshape] at hlooks
      obtain ⟨tail, rfl, rfl⟩ := hlooks
      refine ⟨List.mem_of_find?_eq_some hfound, ?_, ?_⟩
      · intro hnone
        unfold attachedToShort at hnone
        split at hnone
        next hlist =>
          rw [String.toList_eq_nil_iff.mp hlist, String.append_empty]
          exact .short hletter
        next => cases hnone
        next => cases hnone
      · intro value hvalue
        unfold attachedToShort at hvalue
        split at hvalue
        next => cases hvalue
        next rest hlist =>
          obtain rfl := Option.some.inj hvalue
          obtain rfl : tail = "=" ++ String.ofList rest :=
            String.toList_inj.mp (by simp [hlist])
          rw [← String.append_assoc]
          exact .equals (.short hletter) _
        next hnil hequals =>
          obtain rfl := Option.some.inj hvalue
          rw [String.ofList_toList] at *
          exact .joined hletter (fun hempty => hnil (by rw [hempty]; rfl)) hequals
  | endOfOptions =>
      rw [hshape] at hnamed
      cases hnamed
  | plain =>
      rw [hshape] at hnamed
      cases hnamed

/-! ## Asking for help -/

/-- An argument that asks for help. What follows the letter does not matter. -/
def AsksHelp (argument : String) : Prop :=
  argument = "--help" ∨ ∃ tail, argument = "-h" ++ tail

theorem asksHelp_shape_iff : (Shape.of argument).asksHelp = true ↔ AsksHelp argument := by
  constructor
  · intro hasks
    have hlooks := looks_of argument
    cases hshape : Shape.of argument with
    | long name attached =>
        rw [hshape] at hasks hlooks
        obtain ⟨rfl, rfl⟩ : name = "help" ∧ attached = none := by
          simpa [Shape.asksHelp] using hasks
        exact .inl hlooks
    | short letter attached =>
        rw [hshape] at hasks hlooks
        obtain rfl : letter = 'h' := by simpa [Shape.asksHelp] using hasks
        obtain ⟨tail, htail, -⟩ := hlooks
        exact .inr ⟨tail, htail⟩
    | endOfOptions | plain =>
        rw [hshape] at hasks
        cases hasks
  · rintro (rfl | ⟨tail, rfl⟩)
    · rfl
    · have hflag : "-h" = "-" ++ String.singleton 'h' := by decide
      rw [hflag, of_short (by decide)]
      rfl

instance (argument : String) : Decidable (AsksHelp argument) :=
  decidable_of_iff _ asksHelp_shape_iff

/-! ## Reading -/

/-- Looks at options with their values one after the other. -/
def acceptAll (given : Given) (said : List (Choice × String)) : Except UsageError Given :=
  said.foldlM (fun given entry => accept given (.valued entry.1 entry.2)) given

theorem readOptions_of_choice? {attached : Option String}
    (hnamed : (Shape.of argument).choice? choices = some (choice, attached)) (given : Given)
    (pending : Pending) (rest : List String) :
    readOptions choices given pending (argument :: rest) =
      accept given pending >>= fun given =>
        match attached with
        | none => readOptions choices given (.awaiting choice) rest
        | some value =>
          accept given (.valued choice value) >>= (readOptions choices · .nothing rest) := by
  rw [readOptions.eq_def]
  cases hshape : Shape.of argument with
  | endOfOptions | plain =>
      rw [hshape] at hnamed
      cases hnamed
  | long _ _ | short _ _ =>
      rw [hshape] at hnamed
      simp only [hshape, hnamed]
      cases accept given pending with
      | error e => rfl
      | ok given =>
          cases attached with
          | none => rfl
          | some value =>
              change _ = (accept given (.valued choice value)).bind _
              dsimp only
              cases accept given (.valued choice value) <;> rfl

/-- An option that waits for its value takes the next argument. -/
theorem readOptions_awaiting (hvalue : IsValue value) (given : Given) (rest : List String) :
    readOptions choices given (.awaiting choice) (value :: rest) =
      readOptions choices given (.valued choice value) rest := by
  rw [readOptions.eq_def]
  simp only [of_isValue hvalue]

theorem readOptions_endOfOptions (given : Given) (pending : Pending) :
    readOptions choices given pending ["--"] = Asked.options <$> accept given pending := by
  have hshape : Shape.of "--" = .endOfOptions := rfl
  rw [readOptions.eq_def]
  simp only [hshape]

/-- Arguments that spell options are read as these options, after what is pending. -/
theorem readOptions_of_spells (hdistinct : AreDistinct choices) {arguments : List String}
    {said : List (Choice × String)} (hspells : Spells choices arguments said) (given : Given)
    (pending : Pending) :
    readOptions choices given pending arguments =
      accept given pending >>= fun given => Asked.options <$> acceptAll given said := by
  induction hspells generalizing given pending with
  | nil =>
      rw [readOptions]
      cases accept given pending <;> rfl
  | endOfOptions =>
      rw [readOptions_endOfOptions]
      cases accept given pending <;> rfl
  | separate hchoice hflag hvalue hrest ih =>
      rw [readOptions_of_choice? (choice?_of_flag hdistinct hchoice hflag)]
      refine congrArg _ (funext fun given => ?_)
      dsimp only
      rw [readOptions_awaiting hvalue, ih, ← map_bind]
      rfl
  | attached hchoice hattaches hrest ih =>
      rw [readOptions_of_choice? (choice?_of_attaches hdistinct hchoice hattaches)]
      refine congrArg _ (funext fun given => ?_)
      have hnext (given : Given) : readOptions choices given .nothing _ = _ := ih given .nothing
      simp only [hnext]
      exact (map_bind _ _ _).symm

/-- Arguments that spell options do not ask for help. -/
theorem readOptions_ne_help_of_spells (hdistinct : AreDistinct choices) {arguments : List String}
    {said : List (Choice × String)} (hspells : Spells choices arguments said) (given : Given)
    (pending : Pending) : readOptions choices given pending arguments ≠ .ok .help := by
  rw [readOptions_of_spells hdistinct hspells]
  intro hhelp
  obtain ⟨before, -, hhelp⟩ := bind_eq_ok_iff.mp hhelp
  obtain ⟨read, -, ⟨⟩⟩ := map_eq_ok_iff.mp hhelp

/-- The ways to read an argument, after what is pending and with more arguments behind it. -/
inductive ReadsHead (choices : List Choice) (given : Given) (pending : Pending)
    (argument : String) (rest : List String) (asked : Asked) : Prop where
  | flag {choice : Choice} {before : Given} (hchoice : choice ∈ choices)
      (hflag : choice.Flag argument) (hbefore : accept given pending = .ok before)
      (hrest : readOptions choices before (.awaiting choice) rest = .ok asked)
  | attached {choice : Choice} {value : String} {before after : Given} (hchoice : choice ∈ choices)
      (hattaches : choice.Attaches argument value) (hbefore : accept given pending = .ok before)
      (hafter : accept before (.valued choice value) = .ok after)
      (hrest : readOptions choices after .nothing rest = .ok asked)
  | value {choice : Choice} (hpending : pending = .awaiting choice) (hvalue : IsValue argument)
      (hrest : readOptions choices given (.valued choice argument) rest = .ok asked)
  | endOfOptions {before : Given} (hargument : argument = "--") (hrest : rest = [])
      (hbefore : accept given pending = .ok before) (hasked : asked = .options before)
  | help (hasks : AsksHelp argument) (hasked : asked = .help)

theorem readsHead_of_readOptions {given : Given} {pending : Pending} {rest : List String}
    {asked : Asked} (hread : readOptions choices given pending (argument :: rest) = .ok asked) :
    ReadsHead choices given pending argument rest asked := by
  cases hnamed : (Shape.of argument).choice? choices with
  | some named =>
      obtain ⟨choice, attached⟩ := named
      obtain ⟨hchoice, hflag, hattaches⟩ := flag_of_choice? hnamed
      rw [readOptions_of_choice? hnamed, bind_eq_ok_iff] at hread
      obtain ⟨before, hbefore, hread⟩ := hread
      cases attached with
      | none => exact .flag hchoice (hflag rfl) hbefore hread
      | some value =>
          obtain ⟨after, hafter, hread⟩ := bind_eq_ok_iff.mp hread
          exact .attached hchoice (hattaches value rfl) hbefore hafter hread
  | none =>
      have hlooks := looks_of argument
      rw [readOptions.eq_def] at hread
      cases hshape : Shape.of argument with
      | endOfOptions =>
          rw [hshape] at hlooks
          simp only [hshape] at hread
          cases rest with
          | cons next more => cases hread
          | nil =>
              obtain ⟨before, hbefore, hasked⟩ := map_eq_ok_iff.mp hread
              exact .endOfOptions hlooks rfl hbefore hasked.symm
      | plain =>
          rw [hshape] at hlooks
          simp only [hshape] at hread
          cases pending with
          | awaiting choice => exact .value rfl hlooks hread
          | nothing | valued _ _ => cases hread
      | long _ _ | short _ _ =>
          rw [hshape] at hnamed
          simp only [hshape, hnamed] at hread
          split at hread
          next hasks =>
            obtain ⟨_, -, hasked⟩ := map_eq_ok_iff.mp hread
            exact .help (asksHelp_shape_iff.mp (hshape ▸ hasks)) hasked.symm
          next => cases hread

/-- What arguments have to be to be read after what is pending. -/
def ReadsAfter (choices : List Choice) (arguments : List String) : Pending → Prop
  | .awaiting _ =>
    ∃ value rest said, arguments = value :: rest ∧ IsValue value ∧ Spells choices rest said
  | _ => ∃ said, Spells choices arguments said

/-- Where nothing has to follow, whatever spells options can. -/
theorem readsAfter_of_accept {arguments : List String} {given before : Given} {pending : Pending}
    {said : List (Choice × String)} (hbefore : accept given pending = .ok before)
    (hspells : Spells choices arguments said) : ReadsAfter choices arguments pending := by
  cases pending with
  | awaiting choice => cases hbefore
  | nothing | valued _ _ => exact ⟨said, hspells⟩

/-- Arguments that are read spell options. -/
theorem spells_of_readOptions {arguments : List String} {given read : Given} {pending : Pending}
    (hread : readOptions choices given pending arguments = .ok (.options read)) :
    ReadsAfter choices arguments pending := by
  induction arguments generalizing given pending with
  | nil =>
      rw [readOptions, map_eq_ok_iff] at hread
      obtain ⟨before, hbefore, -⟩ := hread
      exact readsAfter_of_accept hbefore .nil
  | cons argument rest ih =>
      cases readsHead_of_readOptions hread with
      | flag hchoice hflag hbefore hrest =>
          obtain ⟨value, rest, said, rfl, hvalue, hspells⟩ := ih hrest
          exact readsAfter_of_accept hbefore (.separate hchoice hflag hvalue hspells)
      | attached hchoice hattaches hbefore hafter hrest =>
          obtain ⟨said, hspells⟩ := ih hrest
          exact readsAfter_of_accept hbefore (.attached hchoice hattaches hspells)
      | value hpending hvalue hrest =>
          subst hpending
          obtain ⟨said, hspells⟩ := ih hrest
          exact ⟨argument, rest, said, rfl, hvalue, hspells⟩
      | endOfOptions hargument hrest hbefore hasked =>
          subst hargument hrest
          exact readsAfter_of_accept hbefore .endOfOptions
      | help hasks hasked => cases hasked

/-- Arguments that are read as asking for help have one among them that asks for it. -/
theorem exists_asksHelp {arguments : List String} {given : Given} {pending : Pending}
    (hread : readOptions choices given pending arguments = .ok .help) :
    ∃ argument ∈ arguments, AsksHelp argument := by
  induction arguments generalizing given pending with
  | nil =>
      rw [readOptions, map_eq_ok_iff] at hread
      obtain ⟨_, -, ⟨⟩⟩ := hread
  | cons argument rest ih =>
      cases readsHead_of_readOptions hread with
      | flag _ _ _ hrest | attached _ _ _ _ hrest | value _ _ hrest =>
          obtain ⟨other, hother, hasks⟩ := ih hrest
          exact ⟨other, List.mem_cons_of_mem _ hother, hasks⟩
      | endOfOptions _ _ _ hasked => cases hasked
      | help hasks => exact ⟨argument, List.mem_cons_self, hasks⟩

/-! ## What has been said -/

/-- The options and values that have been said, by the long names of the options. -/
def givenOf (said : List (Choice × String)) : Given :=
  said.map fun entry => (entry.1.long, entry.2)

theorem accept_valued_eq_ok {given given' : Given}
    (haccept : accept given (.valued choice value) = .ok given') :
    given' = given ++ [(choice.long, value)] ∧
      (choice.isRepeatable = false → given.has choice.long = false) ∧
        choice.check value = none := by
  unfold accept at haccept
  dsimp only at haccept
  split at haccept
  next => cases haccept
  next hnew =>
    cases hcheck : choice.check value with
    | some cause =>
        rw [hcheck] at haccept
        cases haccept
    | none =>
        rw [hcheck] at haccept
        obtain rfl := Except.ok.inj haccept
        refine ⟨rfl, fun honce => ?_, rfl⟩
        simpa [honce] using hnew

theorem values_append (given more : Given) (long : String) :
    (given ++ more).values long = given.values long ++ more.values long := by
  rw [Given.values, List.filter_append, List.map_append]
  rfl

theorem values_eq_nil_iff {given : Given} {long : String} :
    given.values long = [] ↔ given.has long = false := by
  simp [Given.values, Given.has]

theorem value?_eq_head? (given : Given) (long : String) :
    given.value? long = (given.values long).head? := by
  induction given with
  | nil => rfl
  | cons entry given ih =>
      obtain ⟨name, value⟩ := entry
      by_cases hsame : name = long
      · simp [Given.value?, Given.values, hsame]
      · have hother : (long == name) = false := beq_eq_false_iff_ne.mpr (Ne.symm hsame)
        simpa [Given.value?, Given.values, List.lookup_cons, hsame, hother] using ih

theorem exists_value?_of_has {given : Given} {long : String} (hgiven : given.has long = true) :
    ∃ value, given.value? long = some value := by
  rw [← Bool.not_eq_false, ← values_eq_nil_iff] at hgiven
  obtain ⟨value, more, hvalues⟩ := List.exists_cons_of_ne_nil hgiven
  exact ⟨value, by rw [value?_eq_head?, hvalues]; rfl⟩

theorem acceptAll_eq_ok {given read : Given} {said : List (Choice × String)}
    (haccept : acceptAll given said = .ok read) : read = given ++ givenOf said := by
  induction said generalizing given with
  | nil =>
      obtain rfl := Except.ok.inj haccept
      exact (List.append_nil _).symm
  | cons entry said ih =>
      obtain ⟨next, hnext, hmore⟩ := bind_eq_ok_iff.mp haccept
      obtain ⟨rfl, -, -⟩ := accept_valued_eq_ok hnext
      rw [ih hmore, List.append_assoc]
      rfl

/-- An option that is not repeatable has been said no more than once. -/
theorem length_values_acceptAll {long : String} {given read : Given}
    {said : List (Choice × String)}
    (honce : ∀ entry ∈ said, entry.1.long = long → entry.1.isRepeatable = false)
    (haccept : acceptAll given said = .ok read) (hgiven : (given.values long).length ≤ 1) :
    (read.values long).length ≤ 1 := by
  induction said generalizing given with
  | nil =>
      obtain rfl := Except.ok.inj haccept
      exact hgiven
  | cons entry said ih =>
      obtain ⟨hfirst, hmore⟩ := List.forall_mem_cons.mp honce
      obtain ⟨next, hnext, hrest⟩ := bind_eq_ok_iff.mp haccept
      obtain ⟨rfl, hnew, -⟩ := accept_valued_eq_ok hnext
      refine ih hmore hrest ?_
      rw [values_append]
      by_cases hsame : entry.1.long = long
      · have hnone : given.values long = [] :=
          values_eq_nil_iff.mpr (hsame ▸ hnew (hfirst hsame))
        rw [hnone, List.nil_append]
        simp [Given.values, hsame]
      · simpa [Given.values, hsame] using hgiven

end Entitlement.Tool
