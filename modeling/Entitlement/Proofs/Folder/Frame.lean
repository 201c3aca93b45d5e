import Entitlement.Proofs.Folder

/-! # Writing one file

A place is reached through directories, and what is written there makes no directory and takes none
away. So writing a file changes what is read at its own place and nowhere else, by whatever path one
comes.
-/

namespace Entitlement.Folder

/-! ## Shortest paths -/

/-- A step that names something in a directory, or leads up from it. -/
structure IsName (step : String) : Prop where
  no_slash : '/' ∉ step.toList
  ne_empty : step ≠ ""
  ne_here : step ≠ "."

/-- A place in its shortest form: names, which may stand behind the root. -/
def IsShortest (place : List String) : Prop :=
  ∃ names, (∀ step ∈ names, IsName step) ∧ (place = names ∨ place = "" :: names)

variable {folder : Folder} {place target : List String} {bytes : List UInt8}

theorem IsShortest.isPlace (hplace : IsShortest place) : IsPlace place := by
  obtain ⟨names, hnames, rfl | rfl⟩ := hplace
  · exact fun step hstep => (hnames step hstep).no_slash
  · exact List.forall_mem_cons.mpr ⟨by decide, fun step hstep => (hnames step hstep).no_slash⟩

theorem isName_of_mem_split {path step : String}
    (hstep : step ∈ (Text.split '/' path).filter fun step => step ≠ "" ∧ step ≠ ".") :
    IsName step := by
  obtain ⟨hsplit, hnamed⟩ := List.mem_filter.mp hstep
  obtain ⟨hempty, hhere⟩ := of_decide_eq_true hnamed
  exact ⟨Text.not_mem_of_mem_split hsplit, hempty, hhere⟩

theorem filter_names {names : List String} (hnames : ∀ step ∈ names, IsName step) :
    (names.filter fun step => step ≠ "" ∧ step ≠ ".") = names :=
  List.filter_eq_self.mpr fun step hstep =>
    decide_eq_true ⟨(hnames step hstep).ne_empty, (hnames step hstep).ne_here⟩

theorem pathOf_cons (step : String) (more : List String) :
    ∃ rest, pathOf (step :: more) = step ++ rest := by
  cases more with
  | nil => exact ⟨"", by rw [pathOf, String.intercalate_singleton, String.append_empty]⟩
  | cons next more =>
      exact ⟨_, by rw [pathOf, String.intercalate_cons_cons, String.append_assoc]⟩

/-- The path of names starts with no slash. -/
theorem startsWith_pathOf_cons {step : String} (hstep : IsName step) (more : List String) :
    (pathOf (step :: more)).startsWith "/" = false := by
  obtain ⟨rest, hpath⟩ := pathOf_cons step more
  obtain ⟨c, cs, hlist⟩ :=
    List.exists_cons_of_ne_nil (mt String.toList_eq_nil_iff.mp hstep.ne_empty)
  have hslash := hstep.no_slash
  rw [hlist, List.mem_cons, not_or] at hslash
  rw [String.startsWith_string_eq_false_iff, hpath, String.toList_append, hlist]
  rintro ⟨tail, htail⟩
  exact hslash.1 (List.cons.inj htail).1

/-- The path of a place leads back to the place, in as many steps. -/
theorem steps_pathOf (hplace : IsShortest place) (hroot : place ≠ [""]) :
    steps (pathOf place) = place := by
  have hslashes := hplace.isPlace
  obtain ⟨names, hnames, rfl | rfl⟩ := hplace
  · cases place with
    | nil => decide
    | cons step more =>
        have hstep := hnames step List.mem_cons_self
        rw [steps, split_pathOf hslashes (List.cons_ne_nil _ _), startsWith_pathOf_cons hstep more]
        exact filter_names hnames
  · have habsolute : (pathOf ("" :: names)).startsWith "/" = true := by
      obtain ⟨name, more, rfl⟩ := List.exists_cons_of_ne_nil fun hnone => hroot (hnone ▸ rfl)
      rw [String.startsWith_string_iff, pathOf, String.intercalate_cons_cons, String.empty_append,
        String.toList_append]
      exact List.prefix_append _ _
    rw [steps, split_pathOf hslashes (List.cons_ne_nil _ _), habsolute]
    exact congrArg ("" :: ·) (filter_names hnames)

theorem isShortest_nil : IsShortest [] :=
  ⟨[], fun _ hstep => absurd hstep List.not_mem_nil, .inl rfl⟩

theorem isShortest_root : IsShortest [""] :=
  ⟨[], fun _ hstep => absurd hstep List.not_mem_nil, .inr rfl⟩

theorem IsShortest.append (hplace : IsShortest place) {step : String} (hstep : IsName step) :
    IsShortest (place ++ [step]) := by
  obtain ⟨names, hnames, rfl | rfl⟩ := hplace
  · exact ⟨_, List.forall_mem_append.mpr ⟨hnames, List.forall_mem_singleton.mpr hstep⟩, .inl rfl⟩
  · exact ⟨_, List.forall_mem_append.mpr ⟨hnames, List.forall_mem_singleton.mpr hstep⟩, .inr rfl⟩

theorem IsShortest.dropLast (hplace : IsShortest place) : IsShortest place.dropLast := by
  obtain ⟨names, hnames, rfl | rfl⟩ := hplace
  · exact ⟨place.dropLast, fun step hstep => hnames step (List.dropLast_subset _ hstep), .inl rfl⟩
  · cases names with
    | nil => exact isShortest_nil
    | cons name more =>
        exact ⟨_, fun step hstep => hnames step (List.dropLast_subset _ hstep), .inr rfl⟩

theorem IsShortest.above (hplace : IsShortest place) : IsShortest (above place) := by
  unfold Folder.above
  split
  · exact hplace.append ⟨by decide, by decide, by decide⟩
  · split
    · exact hplace
    · exact hplace.dropLast

/-! ## Places on the way -/

/-- Everything on the way to a place is a directory. -/
def IsReachable (folder : Folder) (place : List String) : Prop :=
  ∀ front, front <+: place → front ≠ place → folder.hasDirectory front = true

/-- A directory on the way to which there are only directories. -/
def IsOpen (folder : Folder) (place : List String) : Prop :=
  ∀ front, front <+: place → folder.hasDirectory front = true

theorem IsOpen.isReachable_append (hopen : folder.IsOpen place) (step : String) :
    folder.IsReachable (place ++ [step]) := by
  intro front hfront hne
  rcases List.prefix_concat_iff.mp hfront with rfl | hfront
  · exact absurd rfl hne
  · exact hopen front hfront

theorem isOpen_of_all_up (hup : place.all (· == "..") = true) : folder.IsOpen place := by
  rintro front ⟨rest, rfl⟩
  rw [List.all_append, Bool.and_eq_true] at hup
  simp [hasDirectory, hup.1]

theorem IsOpen.above (hopen : folder.IsOpen place) : folder.IsOpen (above place) := by
  unfold Folder.above
  split
  next hup => exact isOpen_of_all_up (by rw [List.all_append, hup]; rfl)
  next =>
    split
    next => exact hopen
    next => exact fun front hfront => hopen front (hfront.trans (List.dropLast_prefix place))

theorem isOpen_root : folder.IsOpen [""] := by
  intro front hfront
  rcases (@List.prefix_concat_iff _ front [] "").mp hfront with rfl | hfront
  · simp [hasDirectory]
  · rw [List.prefix_nil.mp hfront]
    rfl

/-- Steps lead through directories. -/
theorem isReachable_of_follow {rest : List String} (hplace : IsShortest place)
    (hopen : folder.IsOpen place) (hrest : ∀ step ∈ rest, IsName step)
    (hfollow : folder.follow place rest = .ok target) :
    IsShortest target ∧ folder.IsReachable target := by
  induction rest generalizing place with
  | nil =>
      obtain rfl := Except.ok.inj hfollow
      exact ⟨hplace, fun front hfront _ => hopen front hfront⟩
  | cons step rest ih =>
      obtain ⟨hstep, hmore⟩ := List.forall_mem_cons.mp hrest
      by_cases hup : step = ".."
      · subst hup
        exact ih hplace.above hopen.above hmore hfollow
      · rw [follow_cons hup] at hfollow
        split at hfollow
        next =>
          obtain rfl := Except.ok.inj hfollow
          exact ⟨hplace.append hstep, hopen.isReachable_append step⟩
        next =>
          split at hfollow
          next => cases hfollow
          next =>
            split at hfollow
            next hdirectory =>
              refine ih (hplace.append hstep) (fun front hfront => ?_) hmore hfollow
              by_cases hwhole : front = place ++ [step]
              · rwa [hwhole]
              · exact hopen.isReachable_append step front hfront hwhole
            next => cases hfollow

/-- A path leads where its steps lead; with a slash at its end it does not lead to a file. -/
theorem follow_of_place {path : String} (hplace : folder.place path = .ok target) :
    folder.follow [] (steps path) = .ok target ∧
      ((folder.file? target).isSome = true → path.endsWith "/" = false) := by
  unfold Folder.place at hplace
  split at hplace
  next => cases hplace
  next =>
    cases hfollow : folder.follow [] (steps path) with
    | error e =>
        rw [hfollow] at hplace
        cases hplace
    | ok reached =>
        rw [hfollow] at hplace
        dsimp only at hplace
        split at hplace
        next => cases hplace
        next hopen =>
          obtain rfl := Except.ok.inj hplace
          exact ⟨rfl, fun hfile => by simpa [hfile] using hopen⟩

theorem isReachable_of_place {path : String} (hplace : folder.place path = .ok target) :
    IsShortest target ∧ folder.IsReachable target := by
  obtain ⟨hfollow, -⟩ := follow_of_place hplace
  have hnone : folder.IsOpen [] := fun front hfront => by
    rw [List.prefix_nil.mp hfront]
    rfl
  have hnames := @isName_of_mem_split path
  unfold steps at hfollow
  dsimp only at hfollow
  split at hfollow
  next =>
    rw [follow_cons (by decide)] at hfollow
    split at hfollow
    next =>
      obtain rfl := Except.ok.inj hfollow
      exact ⟨isShortest_root, fun front hfront _ => isOpen_root front hfront⟩
    next =>
      split at hfollow
      next => cases hfollow
      next =>
        split at hfollow
        next => exact isReachable_of_follow isShortest_root isOpen_root (fun _ => hnames) hfollow
        next => cases hfollow
  next => exact isReachable_of_follow isShortest_nil hnone (fun _ => hnames) hfollow

/-! ## What stays -/

/-- Where a place has been written that could be reached, the directories are the same as before. -/
theorem hasDirectory_holding_iff (hshortest : IsShortest target)
    (hreachable : folder.IsReachable target) (hfree : folder.hasDirectory target = false) :
    (folder.holding target bytes).hasDirectory place = true ↔ folder.hasDirectory place = true := by
  refine ⟨fun hdirectory => ?_, hasDirectory_holding bytes⟩
  have hroot : target ≠ [""] := by
    rintro rfl
    exact absurd hfree (by simp [hasDirectory])
  unfold hasDirectory at hdirectory
  rw [Bool.or_eq_true] at hdirectory
  rcases hdirectory with hmade | hbelow
  · unfold hasDirectory
    rw [Bool.or_eq_true]
    exact .inl hmade
  · obtain ⟨⟨path, held⟩, hentry, hfront⟩ := List.any_eq_true.mp hbelow
    have hheld : (folder.files.set (pathOf target) bytes).get? path = some held :=
      Table.get?_eq_some_iff.mpr hentry
    rw [Table.get?_set] at hheld
    split at hheld
    next hpath =>
      -- The file that was written stands in directories that were there before.
      subst hpath
      rw [steps_pathOf hshortest hroot, List.isPrefixOf_iff_prefix] at hfront
      refine hreachable place (hfront.trans (List.dropLast_prefix target)) ?_
      rintro rfl
      have hlength := hfront.length_le
      rw [List.length_dropLast] at hlength
      have hnil : place = [] := List.length_eq_zero_iff.mp (by omega)
      rw [hnil] at hfree
      cases hfree
    next =>
      unfold hasDirectory
      rw [Bool.or_eq_true]
      exact .inr (List.any_eq_true.mpr ⟨_, Table.get?_eq_some_iff.mp hheld, hfront⟩)

/-- Steps that lead somewhere after a place has been written led there before. -/
theorem follow_of_holding {rest reached : List String} (hshortest : IsShortest target)
    (hreachable : folder.IsReachable target) (hfree : folder.hasDirectory target = false)
    (hfollow : (folder.holding target bytes).follow place rest = .ok reached) :
    folder.follow place rest = .ok reached := by
  induction rest generalizing place with
  | nil => exact hfollow
  | cons step rest ih =>
      by_cases hup : step = ".."
      · subst hup
        exact ih hfollow
      · rw [follow_cons hup] at hfollow ⊢
        split at hfollow
        next hlast => rwa [if_pos hlast]
        next hlast =>
          split at hfollow
          next => cases hfollow
          next hfile =>
            split at hfollow
            next hdirectory =>
              rw [file?_holding] at hfile
              split at hfile
              next => exact absurd rfl hfile
              next =>
                rw [hasDirectory_holding_iff hshortest hreachable hfree] at hdirectory
                rw [if_neg hlast, if_neg hfile, if_pos hdirectory]
                exact ih hfollow
            next => cases hfollow

/-! ## Reading -/

/-- What is read from a path is the file to which it leads. -/
theorem read_eq_ok_iff {path : String} :
    folder.read path = .ok bytes ↔ path.endsWith "/" = false ∧
      ∃ reached, folder.place path = .ok reached ∧ folder.file? reached = some bytes := by
  unfold read
  cases hplace : folder.place path with
  | error e => simp [bind, Except.bind]
  | ok reached =>
      obtain ⟨-, hslash⟩ := follow_of_place hplace
      cases hheld : folder.file? reached with
      | none => simp [bind, Except.bind, hheld]
      | some held =>
          rw [hheld] at hslash
          simp [bind, Except.bind, pure, Except.pure, hheld, hslash rfl]

/-- Of two places with one path that is no directory, both are the same. -/
theorem eq_of_pathOf_eq {reached : List String} (hreached : IsShortest reached)
    (htarget : IsShortest target) (hfree : folder.hasDirectory target = false)
    (hpath : pathOf target = pathOf reached) : reached = target := by
  have hdirectory (place : List String) (hplace : place = [] ∨ place = [""]) :
      folder.hasDirectory place = true := by
    rcases hplace with rfl | rfl <;> simp [hasDirectory]
  have hroot : target ≠ [""] := by
    rintro rfl
    rw [hdirectory _ (.inr rfl)] at hfree
    cases hfree
  have hback := steps_pathOf htarget hroot
  rw [hpath] at hback
  by_cases hother : reached = [""]
  · rw [hother] at hback
    rw [← hback, hdirectory _ (.inl (by decide))] at hfree
    cases hfree
  · rwa [steps_pathOf hreached hother] at hback

/-- Paths that led elsewhere are read as before. -/
theorem read_holding_iff {path other : String} {held : List UInt8}
    (hplace : folder.place path = .ok target) (hfree : folder.hasDirectory target = false)
    (hne : folder.place other ≠ folder.place path) :
    (folder.holding target bytes).read other = .ok held ↔ folder.read other = .ok held := by
  obtain ⟨hshortest, hreachable⟩ := isReachable_of_place hplace
  have hslashes := hshortest.isPlace
  have hstart : IsPlace [] := fun step hstep => absurd hstep List.not_mem_nil
  rw [read_eq_ok_iff, read_eq_ok_iff]
  refine and_congr_right fun hslash => exists_congr fun reached => ?_
  rw [place_eq_ok_iff hslash, place_eq_ok_iff hslash, file?_holding, and_assoc, and_assoc]
  refine and_congr_right fun hempty => ?_
  have hother (hfollow : folder.follow [] (steps other) = .ok reached) :
      pathOf target ≠ pathOf reached := by
    intro hpath
    have hreached : folder.place other = .ok reached :=
      (place_eq_ok_iff hslash).mpr ⟨hempty, hfollow⟩
    have hsame := eq_of_pathOf_eq (isReachable_of_place hreached).1 hshortest hfree hpath
    exact hne (hreached.trans (hsame ▸ hplace.symm))
  constructor
  · rintro ⟨hfollow, hheld⟩
    have hbefore := follow_of_holding hshortest hreachable hfree hfollow
    rw [if_neg (hother hbefore)] at hheld
    exact ⟨hbefore, hheld⟩
  · rintro ⟨hfollow, hheld⟩
    refine ⟨follow_holding hstart (isPlace_steps other) hslashes hfree hfollow, ?_⟩
    rwa [if_neg (hother hfollow)]

/-- A folder differs from another in the file at a path and in nothing else, and the file holds a
text. -/
structure WritesOnly (before : Folder) (path text : String) (after : Folder) : Prop where
  readText_eq : after.readText path = .ok text
  directories_eq : after.directories = before.directories
  files_eq : ∃ name, ∀ other,
    after.files.get? other =
      if name = other then some (Text.bytes text) else before.files.get? other
  read_iff : ∀ other, before.place other ≠ before.place path →
    ∀ held, after.read other = .ok held ↔ before.read other = .ok held

theorem writesOnly_of_write {written : Folder} {path text : String}
    (hwrite : folder.write path text = .ok written) : WritesOnly folder path text written := by
  obtain ⟨target, hplace, hfree, -, rfl⟩ := write_eq_ok hwrite
  exact {
    readText_eq := readText_of_write hwrite
    directories_eq := rfl
    files_eq := ⟨pathOf target, fun other => Table.get?_set _ _ _ _⟩
    read_iff := fun other hne held => read_holding_iff hplace hfree hne }

end Entitlement.Folder
