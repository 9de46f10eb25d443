import KeyTransparency.Auditor.Workspace
import KeyTransparency.Proofs.Basic

/-!
# Files and directories of a workspace

A path leads to a location through directories only (`Workspace.walk`). What is written or made
leaves every directory a directory (`Workspace.KeepsDirectories`), so that a path leads where it
led before (`locate_of_keeps`).

* `isDirectory_iff`, `storeOf_eq_ok_iff`, `entryOf_eq_ok_iff`: what is found at a path;
* `createDirectory_cases`, `setContent_cases`: what making a directory and writing a file do;
* `saveStore_of_isDirectory`, `entryOf_saveStore`: the tables that were saved are found again, and
  files are as they were.
-/

namespace KeyTransparency.Auditor.Workspace

/-- An action goes on with the result and the files of the one before it. -/
theorem run_bind_of_eq {α β : Type} {x : StateM Workspace α} {f : α → StateM Workspace β} {w w' : Workspace} {a : α}
    (h : x.run w = (a, w')) : (x >>= f).run w = (f a).run w' := by
  rw [StateT.run_bind, h]
  rfl

/-- There is a directory at the location. -/
def DirectoryAt (w : Workspace) (location : Location) : Prop :=
  ∃ store, w.at? location = some (.directory store)

/-- Directories stay directories. The stores in them may change. -/
def KeepsDirectories (w w' : Workspace) : Prop :=
  ∀ location, w.DirectoryAt location → w'.DirectoryAt location

/-- Directories stay, and the stores in them stay as they are. -/
def KeepsStores (w w' : Workspace) : Prop :=
  ∀ location store, w.at? location = some (.directory store) → w'.at? location = some (.directory store)

variable {w w' w'' : Workspace} {path name : String} {p : Path} {location l : Location} {entry : Entry}
  {store : Option Tables} {tables : Tables} {content : Bytes} {fault : FileFault}

theorem at?_put : (w.put location entry).at? l = if location = l then some entry else w.at? l := by
  simp only [at?, put, getElem?_insert]
  split <;> rfl

theorem KeepsDirectories.refl (w : Workspace) : w.KeepsDirectories w := fun _ h => h

theorem KeepsDirectories.trans (h : w.KeepsDirectories w') (h' : w'.KeepsDirectories w'') :
    w.KeepsDirectories w'' := fun l hl => h' l (h l hl)

theorem KeepsStores.refl (w : Workspace) : w.KeepsStores w := fun _ _ h => h

theorem KeepsStores.trans (h : w.KeepsStores w') (h' : w'.KeepsStores w'') : w.KeepsStores w'' :=
  fun l store hl => h' l store (h l store hl)

theorem KeepsStores.keepsDirectories (h : w.KeepsStores w') : w.KeepsDirectories w' :=
  fun l hl => hl.imp (h l)

theorem keepsDirectories_put (store : Option Tables) : w.KeepsDirectories (w.put location (.directory store)) := by
  intro l hl
  rw [DirectoryAt, at?_put]
  split
  · exact ⟨store, rfl⟩
  · exact hl

theorem keepsStores_put (h : ¬ w.DirectoryAt location) : w.KeepsStores (w.put location entry) := by
  intro l store hl
  rw [at?_put, if_neg, hl]
  rintro rfl
  exact h ⟨store, hl⟩

/-! ## Ways -/

theorem checkDirectory_eq_ok_iff : w.checkDirectory location = .ok () ↔ w.DirectoryAt location := by
  rw [checkDirectory, DirectoryAt]
  cases w.at? location with
  | none => simp
  | some entry => cases entry <;> simp

theorem step_eq_ok_iff : w.step location name = .ok l ↔
    w.DirectoryAt location ∧ name.utf8ByteSize ≤ 255 ∧ l = location.follow name := by
  rw [step, ← checkDirectory_eq_ok_iff]
  cases hd : w.checkDirectory location with
  | error fault => simp [bind, Except.bind]
  | ok u =>
    by_cases hn : name.utf8ByteSize > 255
    · simp [hn, Nat.not_le.mpr hn, bind, Except.bind, throw, throwThe, MonadExceptOf.throw]
    · simp [hn, bind, Except.bind, pure, Except.pure, Nat.not_lt.mp hn, eq_comm]

theorem walk_append (names more : List String) :
    w.walk location (names ++ more) = w.walk location names >>= fun l => w.walk l more := by
  induction names generalizing location with
  | nil => rfl
  | cons name names ih =>
    simp only [List.cons_append, walk]
    cases w.step location name with
    | error fault => rfl
    | ok l => exact ih

theorem walk_singleton : w.walk location [name] = w.step location name := by
  rw [walk]
  cases w.step location name <;> rfl

theorem walk_of_keeps (h : w.KeepsDirectories w') {names : List String} (hw : w.walk location names = .ok l) :
    w'.walk location names = .ok l := by
  induction names generalizing location with
  | nil => exact hw
  | cons name names ih =>
    obtain ⟨next, hs, hw⟩ := bind_eq_ok_iff.mp hw
    obtain ⟨hd, hn⟩ := step_eq_ok_iff.mp hs
    rw [walk, step_eq_ok_iff.mpr ⟨h location hd, hn⟩]
    exact ih hw

theorem locate_eq_ok_iff : w.locate path = .ok l ↔ checkPath path = .ok () ∧
    w.walk (Location.start (Path.ofString path)) (Path.ofString path).names = .ok l ∧
      ((Path.ofString path).endsInSeparator = true → w.DirectoryAt l) := by
  simp only [locate, bind_eq_ok_iff, ← checkDirectory_eq_ok_iff]
  constructor
  · rintro ⟨_, hc, location, hw, h⟩
    split at h
    · obtain ⟨_, hd, h⟩ := bind_eq_ok_iff.mp h
      cases h
      exact ⟨hc, hw, fun _ => hd⟩
    · cases h
      rename_i hs
      exact ⟨hc, hw, fun hs' => absurd hs' hs⟩
  · rintro ⟨hc, hw, hd⟩
    refine ⟨(), hc, l, hw, ?_⟩
    split
    · rename_i hs
      rw [hd hs]
      rfl
    · rfl

theorem locate_of_keeps (h : w.KeepsDirectories w') (hl : w.locate path = .ok l) : w'.locate path = .ok l := by
  obtain ⟨hc, hw, hd⟩ := locate_eq_ok_iff.mp hl
  exact locate_eq_ok_iff.mpr ⟨hc, walk_of_keeps h hw, fun hs => h l (hd hs)⟩

/-! ## What is found -/

theorem entryOf_eq_ok_iff : w.entryOf path = .ok entry ↔ ∃ l, w.locate path = .ok l ∧ w.at? l = some entry := by
  rw [entryOf, bind_eq_ok_iff]
  refine exists_congr fun l => and_congr_right fun _ => ?_
  cases w.at? l <;> simp [pure, Except.pure, throw, throwThe, MonadExceptOf.throw]

theorem isDirectory_iff : w.isDirectory path = true ↔ ∃ l, w.locate path = .ok l ∧ w.DirectoryAt l := by
  have hentry : w.isDirectory path = true ↔ ∃ store, w.entryOf path = .ok (.directory store) := by
    rw [isDirectory]
    split
    · rename_i he
      exact ⟨fun _ => ⟨_, he⟩, fun _ => rfl⟩
    · rename_i hn
      exact ⟨nofun, fun ⟨store, he⟩ => absurd he (hn store)⟩
  simp only [hentry, entryOf_eq_ok_iff, DirectoryAt]
  exact ⟨fun ⟨store, l, hl, hs⟩ => ⟨l, hl, store, hs⟩, fun ⟨l, hl, store, hs⟩ => ⟨store, l, hl, hs⟩⟩

theorem storeOf_eq_ok_iff : w.storeOf path = .ok tables ↔
    ∃ l, w.locate path = .ok l ∧ w.at? l = some (.directory (some tables)) := by
  rw [← entryOf_eq_ok_iff, storeOf, bind_eq_ok_iff]
  constructor
  · rintro ⟨entry, he, h⟩
    split at h <;> cases h
    exact he
  · intro he
    exact ⟨_, he, rfl⟩

theorem isDirectory_of_keeps (h : w.KeepsDirectories w') (hd : w.isDirectory path = true) :
    w'.isDirectory path = true := by
  obtain ⟨l, hl, hd⟩ := isDirectory_iff.mp hd
  exact isDirectory_iff.mpr ⟨l, locate_of_keeps h hl, h l hd⟩

theorem storeOf_of_keeps (h : w.KeepsStores w') (hs : w.storeOf path = .ok tables) : w'.storeOf path = .ok tables := by
  obtain ⟨l, hl, hs⟩ := storeOf_eq_ok_iff.mp hs
  exact storeOf_eq_ok_iff.mpr ⟨l, locate_of_keeps h.keepsDirectories hl, h l _ hs⟩

/-! ## Making and writing -/

/-- The last name of a path is followed from where the names before it lead to. -/
theorem walk_of_lastStep (h : w.lastStep p = .ok (some (location, name))) :
    w.walk (Location.start p) p.names = w.step location name := by
  rw [lastStep] at h
  split at h
  · cases h
  · rename_i last hlast
    obtain ⟨directory, hw, h⟩ := bind_eq_ok_iff.mp h
    obtain ⟨_, -, h⟩ := bind_eq_ok_iff.mp h
    split at h <;> cases h
    obtain ⟨names, hnames⟩ := List.getLast?_eq_some_iff.mp hlast
    rw [hnames, List.dropLast_concat] at hw
    rw [hnames, walk_append, hw]
    exact walk_singleton

/-- A way that leads somewhere leads there by its last name, if it has one of its own. -/
theorem lastStep_of_walk (h : w.walk (Location.start p) p.names = .ok l) : w.lastStep p = .ok none ∨
    ∃ directory name, w.lastStep p = .ok (some (directory, name)) ∧ w.step directory name = .ok l := by
  cases hlast : p.names.getLast? with
  | none =>
    rw [lastStep, hlast]
    exact .inl rfl
  | some name =>
    obtain ⟨names, hnames⟩ := List.getLast?_eq_some_iff.mp hlast
    rw [hnames, walk_append] at h
    obtain ⟨directory, hdirectory, hs⟩ := bind_eq_ok_iff.mp h
    rw [walk_singleton] at hs
    obtain ⟨hd, -⟩ := step_eq_ok_iff.mp hs
    have hstep : w.lastStep p = .ok (if name == "." || name == ".." then none else some (directory, name)) := by
      rw [lastStep, hlast, hnames, List.dropLast_concat]
      simp only [hdirectory, checkDirectory_eq_ok_iff.mpr hd, bind, Except.bind]
      rfl
    rw [hstep]
    split
    · exact .inl rfl
    · exact .inr ⟨directory, name, rfl, hs⟩

theorem locateNew_eq_ok (h : w.locateNew path = .ok l) : w.at? l = none ∧ checkPath path = .ok () ∧
    w.walk (Location.start (Path.ofString path)) (Path.ofString path).names = .ok l := by
  rw [locateNew] at h
  obtain ⟨_, hc, h⟩ := bind_eq_ok_iff.mp h
  obtain ⟨found, hfound, h⟩ := bind_eq_ok_iff.mp h
  split at h
  · cases h
  · rename_i directory name
    obtain ⟨location, hs, h⟩ := bind_eq_ok_iff.mp h
    cases hentry : w.at? location with
    | some entry =>
      rw [hentry] at h
      cases h
    | none =>
      rw [hentry] at h
      cases hsealed : location.isSealed with
      | true =>
        rw [hsealed] at h
        cases h
      | false =>
        rw [hsealed] at h
        cases h
        exact ⟨hentry, hc, (walk_of_lastStep hfound).trans hs⟩

theorem createDirectory_cases (w : Workspace) (path : String) :
    (∃ fault, w.createDirectory path = (.error fault, w)) ∨
    ∃ w', w.createDirectory path = (.ok (), w') ∧ w.KeepsStores w' ∧ w'.isDirectory path = true := by
  rw [createDirectory]
  cases h : w.locateNew path with
  | error fault => exact .inl ⟨fault, rfl⟩
  | ok l =>
    obtain ⟨hnone, hc, hw⟩ := locateNew_eq_ok h
    have hkeeps : w.KeepsStores (w.put l (.directory none)) := keepsStores_put fun hd => by
      rw [DirectoryAt, hnone] at hd
      exact nomatch hd
    have hd : (w.put l (.directory none)).DirectoryAt l := ⟨none, by rw [at?_put, if_pos rfl]⟩
    exact .inr ⟨_, rfl, hkeeps, isDirectory_iff.mpr
      ⟨l, locate_eq_ok_iff.mpr ⟨hc, walk_of_keeps hkeeps.keepsDirectories hw, fun _ => hd⟩, hd⟩⟩

/-- A directory that is there is not made again. -/
theorem createDirectory_of_isDirectory (h : w.isDirectory path = true) :
    w.createDirectory path = (.error .alreadyExists, w) := by
  obtain ⟨l, hl, store, hstore⟩ := isDirectory_iff.mp h
  obtain ⟨hc, hw, -⟩ := locate_eq_ok_iff.mp hl
  have hnew : w.locateNew path = .error .alreadyExists := by
    rw [locateNew, hc]
    rcases lastStep_of_walk hw with hlast | ⟨directory, name, hlast, hs⟩
    · simp [hlast, bind, Except.bind, throw, throwThe, MonadExceptOf.throw]
    · simp [hlast, hs, hstore, bind, Except.bind, throw, throwThe, MonadExceptOf.throw]
  rw [createDirectory, hnew]

theorem locateFile_eq_ok (h : w.locateFile path = .ok l) : w.locate path = .ok l ∧ ¬ w.DirectoryAt l := by
  rw [locateFile] at h
  obtain ⟨_, hc, h⟩ := bind_eq_ok_iff.mp h
  obtain ⟨found, hfound, h⟩ := bind_eq_ok_iff.mp h
  split at h
  · cases h
  · rename_i directory name
    split at h
    · cases h
    · rename_i hsep
      obtain ⟨location, hs, h⟩ := bind_eq_ok_iff.mp h
      have hw := (walk_of_lastStep hfound).trans hs
      have hl : w.locate path = .ok location := locate_eq_ok_iff.mpr ⟨hc, hw, fun hs => absurd hs hsep⟩
      split at h
      · cases h
      · rename_i hn hsome
        cases h
        refine ⟨hl, fun ⟨store, hd⟩ => hn store ?_⟩
        rwa [hsome, Option.some.injEq] at hd
      · rename_i hnone
        split at h <;> cases h
        refine ⟨hl, fun ⟨store, hd⟩ => ?_⟩
        rw [hnone] at hd
        cases hd

/-- A file that was written has the content, unless it is a device. -/
theorem setContent_cases (w : Workspace) (path : String) (content : Bytes) :
    (∃ fault, w.setContent path content = (.error fault, w)) ∨
    ∃ w', w.setContent path content = (.ok (), w') ∧ w.KeepsStores w' ∧
      (w'.entryOf path = .ok (.file content) ∨ ∃ device, w'.entryOf path = .ok (.device device)) := by
  rw [setContent]
  cases h : w.locateFile path with
  | error fault => exact .inl ⟨fault, rfl⟩
  | ok l =>
    obtain ⟨hl, hd⟩ := locateFile_eq_ok h
    dsimp only
    split
    · rename_i device hdevice
      cases ha : device.accept content with
      | error fault => exact .inl ⟨fault, rfl⟩
      | ok u => exact .inr ⟨w, rfl, .refl w, .inr ⟨device, entryOf_eq_ok_iff.mpr ⟨l, hl, hdevice⟩⟩⟩
    · have hkeeps : w.KeepsStores (w.put l (.file content)) := keepsStores_put hd
      exact .inr ⟨_, rfl, hkeeps, .inl (entryOf_eq_ok_iff.mpr
        ⟨l, locate_of_keeps hkeeps.keepsDirectories hl, by rw [at?_put, if_pos rfl]⟩)⟩

/-! ## Stores -/

/-- A store that is found is replaced by the one that is saved. Everything else is as it was. -/
theorem saveStore_of_isDirectory (h : w.isDirectory path = true) (tables : Tables) :
    w.KeepsDirectories (w.saveStore path tables) ∧ (w.saveStore path tables).storeOf path = .ok tables := by
  obtain ⟨l, hl, -⟩ := isDirectory_iff.mp h
  have hput : w.saveStore path tables = w.put l (.directory (some tables)) := by rw [saveStore, hl]
  have hkeeps : w.KeepsDirectories (w.put l (.directory (some tables))) := keepsDirectories_put _
  rw [hput]
  exact ⟨hkeeps, storeOf_eq_ok_iff.mpr ⟨l, locate_of_keeps hkeeps hl, by rw [at?_put, if_pos rfl]⟩⟩

theorem isDirectory_of_storeOf (h : w.storeOf path = .ok tables) : w.isDirectory path = true := by
  obtain ⟨l, hl, hs⟩ := storeOf_eq_ok_iff.mp h
  exact isDirectory_iff.mpr ⟨l, hl, some tables, hs⟩

/-- Saving a store leaves what is at the path of a file. -/
theorem entryOf_saveStore {file : String} (h : w.isDirectory path = true) (tables : Tables)
    (hfile : w.entryOf file = .ok entry) (he : ∀ store, entry ≠ .directory store) :
    (w.saveStore path tables).entryOf file = .ok entry := by
  obtain ⟨l, hl, store, hd⟩ := isDirectory_iff.mp h
  obtain ⟨l', hl', hentry⟩ := entryOf_eq_ok_iff.mp hfile
  have hne : l ≠ l' := by
    rintro rfl
    rw [hd, Option.some.injEq] at hentry
    exact he store hentry.symm
  rw [saveStore, hl]
  exact entryOf_eq_ok_iff.mpr ⟨l', locate_of_keeps (keepsDirectories_put _) hl', by rw [at?_put, if_neg hne, hentry]⟩

end KeyTransparency.Auditor.Workspace
