import Entitlement.Folder
import Entitlement.Proofs.Ascending
import Entitlement.Proofs.Text.Pieces

/-! # Files that are written can be read

A path leads through directories. A file is only written where there is no directory, so writing it
puts nothing in the way of its own path, and whoever reads the path afterwards finds the text there.
-/

namespace Entitlement.Folder

/-! ## Paths of places -/

/-- The steps of a place are names, which hold no slash. -/
def IsPlace (place : List String) : Prop :=
  ∀ step ∈ place, '/' ∉ step.toList

theorem isPlace_steps (path : String) : IsPlace (steps path) := by
  have hnamed : IsPlace ((Text.split '/' path).filter fun step => step ≠ "" ∧ step ≠ ".") :=
    fun step hstep => Text.not_mem_of_mem_split (List.mem_of_mem_filter hstep)
  unfold steps
  dsimp only
  split
  · exact List.forall_mem_cons.mpr ⟨by decide, hnamed⟩
  · exact hnamed

theorem IsPlace.above {place : List String} (hplace : IsPlace place) : IsPlace (above place) := by
  unfold Folder.above
  split
  · exact List.forall_mem_append.mpr ⟨hplace, List.forall_mem_singleton.mpr (by decide)⟩
  · split
    · exact hplace
    · exact fun step hstep => hplace step ((List.dropLast_sublist place).subset hstep)

theorem split_pathOf {place : List String} (hplace : IsPlace place) (hne : place ≠ []) :
    Text.split '/' (pathOf place) = place := by
  induction place with
  | nil => exact absurd rfl hne
  | cons step place ih =>
      obtain ⟨hstep, hmore⟩ := List.forall_mem_cons.mp hplace
      cases place with
      | nil => rw [pathOf, String.intercalate_singleton, Text.split_of_not_mem hstep]
      | cons next place =>
          rw [pathOf, String.intercalate_cons_cons]
          refine (Text.split_append '/' step _).trans ?_
          rw [Text.split_of_not_mem hstep]
          exact congrArg (step :: ·) (ih hmore (List.cons_ne_nil _ _))

variable {folder : Folder} {place target : List String}

/-- Places that have one path are the same, or they are the folder itself and the root, which are
both directories. -/
theorem hasDirectory_of_pathOf_eq (hplace : IsPlace place) (htarget : IsPlace target)
    (hpath : pathOf target = pathOf place) (hdirectory : folder.hasDirectory place = true) :
    folder.hasDirectory target = true := by
  by_cases hnone : target = []
  · subst hnone
    simp [hasDirectory]
  by_cases hnone' : place = []
  · subst hnone'
    have hroot := split_pathOf htarget hnone
    rw [hpath] at hroot
    rw [← hroot]
    rfl
  · rwa [← split_pathOf htarget hnone, hpath, split_pathOf hplace hnone']

/-! ## Writing -/

/-- The folder in which a place holds some bytes. -/
def holding (folder : Folder) (target : List String) (bytes : List UInt8) : Folder :=
  { folder with files := folder.files.set (pathOf target) bytes }

theorem file?_holding (bytes : List UInt8) :
    (folder.holding target bytes).file? place =
      if pathOf target = pathOf place then some bytes else folder.file? place :=
  Table.get?_set _ _ _ _

/-- A directory that is there stays there. -/
theorem hasDirectory_holding (bytes : List UInt8) (hdirectory : folder.hasDirectory place = true) :
    (folder.holding target bytes).hasDirectory place = true := by
  unfold hasDirectory at hdirectory ⊢
  rw [Bool.or_eq_true] at hdirectory ⊢
  refine hdirectory.imp_right fun hfile => ?_
  obtain ⟨⟨path, held⟩, hentry, hbelow⟩ := List.any_eq_true.mp hfile
  obtain ⟨held', hentry'⟩ : ∃ held', (folder.files.set (pathOf target) bytes).get? path =
      some held' := by
    rw [Table.get?_set]
    split
    · exact ⟨bytes, rfl⟩
    · exact ⟨held, Table.get?_eq_some_iff.mpr hentry⟩
  exact List.any_eq_true.mpr ⟨_, Table.get?_eq_some_iff.mp hentry', hbelow⟩

theorem follow_cons {step : String} (hstep : step ≠ "..") (rest : List String) :
    folder.follow place (step :: rest) =
      if rest = [] then .ok (place ++ [step])
      else if (folder.file? (place ++ [step])).isSome then .error .notDirectory
      else if folder.hasDirectory (place ++ [step]) then folder.follow (place ++ [step]) rest
      else .error .notFound := by
  rw [follow]
  exact hstep

/-- Steps still lead where they led when a place has been written that is no directory. -/
theorem follow_holding {bytes : List UInt8} {rest reached : List String} (hplace : IsPlace place)
    (hrest : IsPlace rest) (htarget : IsPlace target) (hfree : folder.hasDirectory target = false)
    (hfollow : folder.follow place rest = .ok reached) :
    (folder.holding target bytes).follow place rest = .ok reached := by
  induction rest generalizing place with
  | nil => exact hfollow
  | cons step rest ih =>
      obtain ⟨hstep, hmore⟩ := List.forall_mem_cons.mp hrest
      by_cases hup : step = ".."
      · subst hup
        exact ih hplace.above hmore hfollow
      · have hnext : IsPlace (place ++ [step]) :=
          List.forall_mem_append.mpr ⟨hplace, List.forall_mem_singleton.mpr hstep⟩
        rw [follow_cons hup] at hfollow ⊢
        split at hfollow
        next hlast => rwa [if_pos hlast]
        next hlast =>
          split at hfollow
          next => cases hfollow
          next hfile =>
            split at hfollow
            next hdirectory =>
              -- The steps on the way are directories, and what was written is none.
              have hother : pathOf target ≠ pathOf (place ++ [step]) := by
                intro hpath
                rw [hasDirectory_of_pathOf_eq hnext htarget hpath hdirectory] at hfree
                cases hfree
              rw [if_neg hlast, file?_holding, if_neg hother, if_neg hfile,
                if_pos (hasDirectory_holding bytes hdirectory)]
              exact ih hnext hmore hfollow
            next => cases hfollow

theorem isPlace_follow {rest : List String} (hplace : IsPlace place) (hrest : IsPlace rest)
    (hfollow : folder.follow place rest = .ok target) : IsPlace target := by
  induction rest generalizing place with
  | nil =>
      obtain rfl := Except.ok.inj hfollow
      exact hplace
  | cons step rest ih =>
      obtain ⟨hstep, hmore⟩ := List.forall_mem_cons.mp hrest
      by_cases hup : step = ".."
      · subst hup
        exact ih hplace.above hmore hfollow
      · have hnext : IsPlace (place ++ [step]) :=
          List.forall_mem_append.mpr ⟨hplace, List.forall_mem_singleton.mpr hstep⟩
        rw [follow_cons hup] at hfollow
        split at hfollow
        next =>
          obtain rfl := Except.ok.inj hfollow
          exact hnext
        next =>
          split at hfollow
          next => cases hfollow
          next =>
            split at hfollow
            next => exact ih hnext hmore hfollow
            next => cases hfollow

theorem write_eq_ok {written : Folder} {path text : String}
    (hwrite : folder.write path text = .ok written) :
    ∃ target, folder.place path = .ok target ∧ folder.hasDirectory target = false ∧
      path.endsWith "/" = false ∧ written = folder.holding target (Text.bytes text) := by
  unfold write at hwrite
  cases hplace : folder.place path with
  | error e =>
      rw [hplace] at hwrite
      cases hwrite
  | ok target =>
      rw [hplace] at hwrite
      simp only [bind, Except.bind, pure, Except.pure] at hwrite
      split at hwrite
      next => cases hwrite
      next hfree =>
        rw [not_or, Bool.not_eq_true, Bool.not_eq_true] at hfree
        obtain rfl := Except.ok.inj hwrite
        exact ⟨target, rfl, hfree.1, hfree.2, rfl⟩

theorem place_eq_ok_iff {path : String} (hfile : path.endsWith "/" = false) :
    folder.place path = .ok target ↔ path ≠ "" ∧ folder.follow [] (steps path) = .ok target := by
  unfold Folder.place
  split
  next hempty => simp [hempty]
  next hne =>
    cases folder.follow [] (steps path) with
    | error e => simp
    | ok place => simp [hne, hfile]

/-- A text is read back from the path to which it has been written. -/
theorem readText_of_write {written : Folder} {path text : String}
    (hwrite : folder.write path text = .ok written) : written.readText path = .ok text := by
  obtain ⟨target, hplace, hfree, hfile, rfl⟩ := write_eq_ok hwrite
  obtain ⟨hne, hfollow⟩ := (place_eq_ok_iff hfile).mp hplace
  have hsteps := isPlace_steps path
  have hstart : IsPlace [] := fun step hstep => absurd hstep List.not_mem_nil
  have htarget := isPlace_follow hstart hsteps hfollow
  have hagain : (folder.holding target (Text.bytes text)).place path = .ok target :=
    (place_eq_ok_iff hfile).mpr ⟨hne, follow_holding hstart hsteps htarget hfree hfollow⟩
  have hbytes : (folder.holding target (Text.bytes text)).file? target =
      some (Text.bytes text) := by
    rw [file?_holding, if_pos rfl]
  simp only [readText, read, hagain, hbytes, bind, Except.bind, pure, Except.pure,
    Text.ofBytes?_bytes]

end Entitlement.Folder
