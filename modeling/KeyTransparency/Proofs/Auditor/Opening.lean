import KeyTransparency.Auditor.Program
import KeyTransparency.Proofs.Auditor.Workspace

/-!
# The store of a data directory

Before a command is carried out, the data directory and the store in it are opened, and made if
they are missing (`opening`). Once they are there (`Ready`), opening them again changes nothing
and finds the same tables:

* `ready_of_opening`: opening leaves the directory and the store in place;
* `opening_of_ready`: what is in place is found, and stays as it is;
* `opening_of_missing`: in a data directory that has no histories yet, opening finds no rows.
-/

namespace KeyTransparency.Auditor

open Workspace

/-- Opens the store of a data directory: the tables in it, and the files after that. -/
def opening (directory : String) (w : Workspace) : Except StoreFault Tables × Workspace :=
  match (createDirectories (host []) directory).run w with
  | (.error fault, w) => (.error (.file fault), w)
  | (.ok (), w) => (openStore (host []) (joinPath directory "history")).run w

/-- The directory of the store of a data directory. -/
def historyDirectory (directory : String) : String := storeDirectory (joinPath directory "history")

/-- The data directory is there, and a store with the tables is in it. -/
structure Ready (directory : String) (w : Workspace) (tables : Tables) : Prop where
  isDirectory : directory.isEmpty = true ∨ w.isDirectory directory = true
  store : w.storeOf (historyDirectory directory) = .ok tables

variable {held : List String} {w w' : Workspace} {path directory : String} {tables : Tables}

/-! ## Directories -/

theorem run_orExisting (held : List String) (w : Workspace) (path : String) (result : Except FileFault Unit) :
    ((orExisting (host held) path result).run w).2 = w ∧
      (((orExisting (host held) path result).run w).1 = .ok () → result = .ok () ∨ w.isDirectory path = true) := by
  cases result with
  | ok u => exact ⟨rfl, fun _ => .inl rfl⟩
  | error fault =>
    refine ⟨rfl, fun h => .inr ?_⟩
    change (if w.isDirectory path = true then Except.ok () else Except.error fault) = .ok () at h
    split at h
    · assumption
    · cases h

/-- A directory that was made, or that was there already, is there. -/
theorem orExisting_createDirectory (held : List String) {result : Except FileFault Unit}
    (h : w.createDirectory path = (result, w')) :
    w.KeepsStores w' ∧ ((orExisting (host held) path result).run w').2 = w' ∧
      (((orExisting (host held) path result).run w').1 = .ok () → w'.isDirectory path = true) := by
  obtain ⟨hsame, hok⟩ := run_orExisting held w' path result
  rcases w.createDirectory_cases path with ⟨fault, he⟩ | ⟨_, he, hkeeps, hd⟩ <;> cases h.symm.trans he
  · exact ⟨.refl w, hsame, fun hr => (hok hr).resolve_left nofun⟩
  · exact ⟨hkeeps, hsame, fun _ => hd⟩

/-- Making a directory ends with its own result, or, if the way to it is missing, with that of
the directories above it or of a second attempt. -/
theorem createAfter_cons_cases (held : List String) (path : String) (above : List String) (w : Workspace) :
    (∃ result w', w.createDirectory path = (result, w') ∧
      (createAfter (host held) (path :: above)).run w = (orExisting (host held) path result).run w') ∨
    ∃ v, ((∃ fault, (createAfter (host held) above).run w = (.error fault, v) ∧
        (createAfter (host held) (path :: above)).run w = (.error fault, v)) ∨
      (createAfter (host held) above).run w = (.ok (), v) ∧ ∃ result w', v.createDirectory path = (result, w') ∧
        (createAfter (host held) (path :: above)).run w = (orExisting (host held) path result).run w') := by
  rcases w.createDirectory_cases path with ⟨fault, he⟩ | ⟨w', he, -⟩
  · have hrun : ((host held).createDirectory path).run w = (.error fault, w) := he
    cases fault with
    | notFound =>
      cases habove : (createAfter (host held) above).run w with
      | mk result v =>
        cases result with
        | error fault =>
          refine .inr ⟨v, .inl ⟨fault, rfl, ?_⟩⟩
          rw [createAfter, run_bind_of_eq hrun, run_bind_of_eq habove]
          rfl
        | ok u =>
          have hagain : ((host held).createDirectory path).run v = v.createDirectory path := rfl
          refine .inr ⟨v, .inr ⟨rfl, _, _, rfl, ?_⟩⟩
          rw [createAfter, run_bind_of_eq hrun, run_bind_of_eq habove, run_bind_of_eq hagain]
    | _ => exact .inl ⟨_, _, he, by rw [createAfter, run_bind_of_eq hrun]⟩
  · have hrun : ((host held).createDirectory path).run w = (.ok (), w') := he
    exact .inl ⟨_, _, he, by rw [createAfter, run_bind_of_eq hrun]⟩

/-- By induction on the directories above: each is made in the ones that were made before it. -/
theorem createAfter_makes (held : List String) (paths : List String) (w : Workspace) :
    w.KeepsStores ((createAfter (host held) paths).run w).2 ∧
      (((createAfter (host held) paths).run w).1 = .ok () →
        ∀ path ∈ paths.head?, ((createAfter (host held) paths).run w).2.isDirectory path = true) := by
  induction paths generalizing w with
  | nil => exact ⟨.refl w, fun _ => nofun⟩
  | cons path above ih =>
    rcases createAfter_cons_cases held path above w with
      ⟨result, w', he, hrun⟩ | ⟨v, ⟨fault, habove, hrun⟩ | ⟨habove, result, w', he, hrun⟩⟩
    · obtain ⟨hkeeps, hsame, hok⟩ := orExisting_createDirectory held he
      rw [hrun, hsame]
      refine ⟨hkeeps, fun hr p hp => ?_⟩
      cases hp
      exact hok hr
    · have hkeeps := (ih w).1
      rw [habove] at hkeeps
      rw [hrun]
      exact ⟨hkeeps, nofun⟩
    · have hkeeps := (ih w).1
      rw [habove] at hkeeps
      obtain ⟨hkeeps', hsame, hok⟩ := orExisting_createDirectory held he
      rw [hrun, hsame]
      refine ⟨hkeeps.trans hkeeps', fun hr p hp => ?_⟩
      cases hp
      exact hok hr

theorem createDirectories_makes (held : List String) (path : String) (w : Workspace) :
    w.KeepsStores ((createDirectories (host held) path).run w).2 ∧
      (((createDirectories (host held) path).run w).1 = .ok () →
        path.isEmpty = true ∨ ((createDirectories (host held) path).run w).2.isDirectory path = true) := by
  rw [createDirectories]
  split
  · rename_i hempty
    exact ⟨.refl w, fun _ => .inl hempty⟩
  · obtain ⟨hkeeps, hok⟩ := createAfter_makes held (path :: (Path.ofString path).above.map Path.text) w
    exact ⟨hkeeps, fun hr => .inr (hok hr path rfl)⟩

/-- A directory that is there is left as it is, with those above it. -/
theorem createDirectories_of_isDirectory (h : path.isEmpty = true ∨ w.isDirectory path = true) :
    (createDirectories (host held) path).run w = (.ok (), w) := by
  rw [createDirectories]
  split
  · rfl
  · rename_i hempty
    have hd : w.isDirectory path = true := h.resolve_left hempty
    have hrun : ((host held).createDirectory path).run w = (.error .alreadyExists, w) :=
      createDirectory_of_isDirectory hd
    rw [createAfter, run_bind_of_eq hrun]
    show ((if w.isDirectory path = true then Except.ok () else Except.error FileFault.alreadyExists), w) = _
    rw [if_pos hd]

/-! ## Stores -/

/-- A store is made in a directory without one, and has no rows. -/
theorem createStore_eq_ok (h : w.createStore held path = (.ok (), w')) :
    w.KeepsDirectories w' ∧ w'.storeOf path = .ok Tables.empty := by
  rw [createStore] at h
  split at h
  · rename_i hentry
    cases h
    obtain ⟨l, hl, hd⟩ := entryOf_eq_ok_iff.mp hentry
    exact saveStore_of_isDirectory (isDirectory_iff.mpr ⟨l, hl, none, hd⟩) Tables.empty
  all_goals cases h

theorem openTables_nil (w : Workspace) (path : String) : w.openTables [] path = (w.storeOf path).mapError .file := by
  rw [Workspace.openTables]
  cases w.storeOf path <;> rfl

theorem run_readStore (w : Workspace) (path : String) :
    ((host []).readStore path).run w = ((w.storeOf path).mapError .file, w) := by
  show (w.openTables [] path, w) = _
  rw [openTables_nil]

theorem openStore_of_storeOf (h : w.storeOf (storeDirectory path) = .ok tables) :
    (openStore (host []) path).run w = (.ok tables, w) := by
  rw [openStore, run_bind_of_eq (run_readStore w _), h]
  rfl

/-- A store that is missing is made once the way to it is there. -/
theorem openStore_of_missing {v : Workspace} (h : w.storeOf (storeDirectory path) = .error .notFound)
    (hmade : (createDirectories (host []) (storeDirectory path)).run w = (.ok (), v)) :
    (openStore (host []) path).run w = ((v.createStore [] (storeDirectory path)).1.map fun _ => Tables.empty,
      (v.createStore [] (storeDirectory path)).2) := by
  cases hcreate : v.createStore [] (storeDirectory path) with
  | mk result w' =>
    have hrun : ((host []).createStore (storeDirectory path)).run v = (result, w') := hcreate
    rw [openStore, run_bind_of_eq (run_readStore w _), h]
    change (createDirectories (host []) (storeDirectory path) >>= _).run w = _
    rw [run_bind_of_eq hmade, run_bind_of_eq hrun]
    cases result <;> rfl

/-- What is opened was found, or was missing and made. -/
theorem openStore_eq_ok (h : (openStore (host []) path).run w = (.ok tables, w')) :
    w.storeOf (storeDirectory path) = .ok tables ∧ w' = w ∨
    tables = Tables.empty ∧ ∃ v, (createDirectories (host []) (storeDirectory path)).run w = (.ok (), v) ∧
      v.createStore [] (storeDirectory path) = (.ok (), w') := by
  cases hs : w.storeOf (storeDirectory path) with
  | ok found =>
    rw [openStore_of_storeOf hs] at h
    cases h
    exact .inl ⟨rfl, rfl⟩
  | error fault =>
    cases fault with
    | notFound =>
      cases hmade : (createDirectories (host []) (storeDirectory path)).run w with
      | mk result v =>
        cases result with
        | error fault =>
          rw [openStore, run_bind_of_eq (run_readStore w _), hs] at h
          change (createDirectories (host []) (storeDirectory path) >>= _).run w = _ at h
          rw [run_bind_of_eq hmade] at h
          cases h
        | ok u =>
          rw [openStore_of_missing hs hmade] at h
          cases hcreate : v.createStore [] (storeDirectory path) with
          | mk result w'' =>
            rw [hcreate] at h
            cases result <;> cases h
            exact .inr ⟨rfl, v, rfl, hcreate⟩
    | _ =>
      rw [openStore, run_bind_of_eq (run_readStore w _), hs] at h
      cases h

/-- A store that was opened is there, with the tables that were found in it or made. -/
theorem storeOf_of_openStore (h : (openStore (host []) path).run w = (.ok tables, w')) :
    w.KeepsDirectories w' ∧ w'.storeOf (storeDirectory path) = .ok tables := by
  rcases openStore_eq_ok h with ⟨hs, rfl⟩ | ⟨rfl, v, hmade, hcreate⟩
  · exact ⟨.refl _, hs⟩
  · have hkeeps := (createDirectories_makes [] (storeDirectory path) w).1
    rw [hmade] at hkeeps
    obtain ⟨hkeeps', hstore⟩ := createStore_eq_ok hcreate
    exact ⟨hkeeps.keepsDirectories.trans hkeeps', hstore⟩

/-! ## Opening -/

theorem opening_eq_ok (h : opening directory w = (.ok tables, w')) :
    ∃ v, (createDirectories (host []) directory).run w = (.ok (), v) ∧
      (openStore (host []) (joinPath directory "history")).run v = (.ok tables, w') := by
  rw [opening] at h
  split at h
  · cases h
  · rename_i v hmade
    exact ⟨v, hmade, h⟩

theorem ready_of_opening (h : opening directory w = (.ok tables, w')) : Ready directory w' tables := by
  obtain ⟨v, hmade, hopen⟩ := opening_eq_ok h
  have hmakes := (createDirectories_makes [] directory w).2
  rw [hmade] at hmakes
  obtain ⟨hkeeps, hstore⟩ := storeOf_of_openStore hopen
  exact ⟨(hmakes rfl).imp_right (isDirectory_of_keeps hkeeps), hstore⟩

theorem opening_of_ready (h : Ready directory w tables) : opening directory w = (.ok tables, w) := by
  rw [opening, createDirectories_of_isDirectory h.isDirectory]
  exact openStore_of_storeOf h.store

theorem Ready.of_keepsStores (h : Ready directory w tables) (hk : w.KeepsStores w') : Ready directory w' tables :=
  ⟨h.isDirectory.imp_right (isDirectory_of_keeps hk.keepsDirectories), storeOf_of_keeps hk h.store⟩

/-- In a data directory that has no histories yet, a store without rows is made. -/
theorem opening_of_missing {location : Location} (hd : directory.isEmpty = true ∨ w.isDirectory directory = true)
    (hmissing : w.storeOf (historyDirectory directory) = .error .notFound)
    (hnew : w.locateNew (historyDirectory directory) = .ok location) :
    (opening directory w).1 = .ok Tables.empty := by
  obtain ⟨hnone, hc, hw⟩ := locateNew_eq_ok hnew
  let made := w.put location (.directory none)
  have hd' : made.at? location = some (.directory none) := by rw [at?_put, if_pos rfl]
  have hentry : made.entryOf (historyDirectory directory) = .ok (.directory none) :=
    entryOf_eq_ok_iff.mpr ⟨location, locate_eq_ok_iff.mpr
      ⟨hc, walk_of_keeps (keepsDirectories_put none) hw, fun _ => ⟨none, hd'⟩⟩, hd'⟩
  have hmade : (createDirectories (host []) (historyDirectory directory)).run w = (.ok (), made) := by
    have hempty : ¬ (historyDirectory directory).isEmpty = true := fun he => by
      rw [checkPath, if_pos he] at hc
      split at hc
      · cases hc
      · split at hc <;> cases hc
    have hrun : ((host []).createDirectory (historyDirectory directory)).run w = (.ok (), made) := by
      show w.createDirectory (historyDirectory directory) = _
      rw [createDirectory, hnew]
    rw [createDirectories, if_neg hempty, createAfter, run_bind_of_eq hrun]
    rfl
  have hcreate : made.createStore [] (storeDirectory (joinPath directory "history")) =
      (.ok (), made.saveStore (historyDirectory directory) Tables.empty) := by
    show made.createStore [] (historyDirectory directory) = _
    rw [createStore, hentry]
  rw [opening, createDirectories_of_isDirectory hd]
  show ((openStore (host []) (joinPath directory "history")).run w).1 = _
  rw [openStore_of_missing hmissing hmade, hcreate]
  rfl

/-- Saving tables puts them in place of those that were there. -/
theorem Ready.saveStore (h : Ready directory w tables) (tables' : Tables) :
    Ready directory (w.saveStore (historyDirectory directory) tables') tables' := by
  obtain ⟨hkeeps, hstore⟩ := saveStore_of_isDirectory (isDirectory_of_storeOf h.store) tables'
  exact ⟨h.isDirectory.imp_right (isDirectory_of_keeps hkeeps), hstore⟩

end KeyTransparency.Auditor
