import KeyTransparency.Proofs.Audit.Log

/-!
# What an audit log takes

A log checks a run of snapshots piece by piece, each time from where its history ends. All
the same it takes exactly the runs that lead to a valid chain as a whole:

* `start_eq_ok_iff`, `extend_eq_ok_iff`, `ingest_eq_ok_iff`: what each of the entries takes,
  and what it replies;
* `status_of_extend_eq_error`: what a run is told that does not continue its history. The
  key was checked when it was pinned, so that it is never the key that is at fault.

Both together are `takes_exactly_valid_chains`.
-/

namespace KeyTransparency.AuditLog

variable {log : AuditLog} {id : DirectoryId} {h : History} {run : List Snapshot} {n : Nat}

theorem start_eq_ok_iff {address : String} {key : PublicKey} {snapshots : List Snapshot} :
    (log.start address key snapshots).1 = .ok id ↔
      ValidChain key snapshots ∧ snapshots.head?.map Snapshot.directoryId = some id ∧ log.contains id = false := by
  constructor
  · intro hok
    rcases log.start_cases address key snapshots with ⟨e, he⟩ | ⟨first, rest, h, rfl, -, hc, hb, he⟩
    · rw [he] at hok
      cases hok
    · rw [he] at hok
      cases hok
      exact ⟨(History.build_eq_ok_iff.mp hb).1, rfl, hc⟩
  · rintro ⟨hv, hid, hc⟩
    cases snapshots with
    | nil => cases hid
    | cons first rest =>
      cases hid
      rw [log.start_eq_of_validChain address (Std.ExtTreeMap.getElem?_eq_none_of_contains_eq_false hc) hv]

theorem extend_eq_ok_iff (hl : log.Sound) : (log.extend id run).1 = .ok n ↔
    ∃ h, log.history id = .ok h ∧ run ≠ [] ∧ ValidChain h.key (h.snapshots ++ run) ∧ n = run.length := by
  constructor
  · intro hok
    rcases log.extend_cases id run with ⟨e, he⟩ | ⟨h, hne, hh, hr, he⟩
    · rw [he] at hok
      cases hok
    · rw [he] at hok
      cases hok
      have hs : h.Sound := (hl id h hh).1
      exact ⟨h, history_eq_ok_iff.mpr hh, hne, hs.append_iff.mpr hr, rfl⟩
  · rintro ⟨h, hh, hne, hv, rfl⟩
    rw [history_eq_ok_iff] at hh
    have hs : h.Sound := (hl id h hh).1
    rw [extend_eq_of_isChain hne hh (hs.append_iff.mp hv)]

theorem ingest_eq_ok_iff {r : Response} : (log.ingest id r).1 = .ok n ↔
    ∃ run, r.asHistory = .ok run ∧ (log.extend id run).1 = .ok n := by
  rw [ingest, ingestOn]
  cases hr : r.asHistory with
  | error e => simp
  | ok run => simp [extend]

/-- A run that is offered to a history, and is refused, is refused for the chain it breaks. -/
theorem status_of_extend_eq_error {e : AuditError} (hl : log.Sound) (hh : log.history id = .ok h) (hne : run ≠ [])
    (he : (log.extend id run).1 = .error e) : (∃ cause, e = .chain cause) ∧ e.status = .invalidChain := by
  rcases h.append_cases run with ⟨cause, hc, -⟩ | ⟨hr, -⟩
  · have hx : log.extend id run = (.error (.chain cause), log) :=
      extendOn_eq_of_check_eq_error .writable hne (history_eq_ok_iff.mp hh) hc
    rw [hx] at he
    cases he
    have hs : h.Sound := (hl id h (history_eq_ok_iff.mp hh)).1
    exact ⟨⟨cause, rfl⟩, status_of_checkRun_eq_error hs.chain.point hc⟩
  · rw [extend_eq_of_isChain hne (history_eq_ok_iff.mp hh) hr] at he
    cases he

/-- Whatever a log was asked before, it takes the valid chains of directories that it has
not, and the runs that make a history of it a longer valid chain. It takes nothing else.
What it takes from a response is what it takes without one, and a run that breaks the chain
of a history is told so. -/
theorem takes_exactly_valid_chains (hl : log.Reachable) :
    (∀ address key snapshots id, (log.start address key snapshots).1 = .ok id ↔
      ValidChain key snapshots ∧ snapshots.head?.map Snapshot.directoryId = some id ∧
        log.contains id = false) ∧
    (∀ id run n, (log.extend id run).1 = .ok n ↔
      ∃ h, log.history id = .ok h ∧ run ≠ [] ∧ ValidChain h.key (h.snapshots ++ run) ∧ n = run.length) ∧
    (∀ id (r : Response) n, (log.ingest id r).1 = .ok n ↔
      ∃ run, (r.status = .ok ∧ r.body = some (.history run) ∧ run ≠ [] ∧
        run.IsChain fun s t => t.epoch.toNat = s.epoch.toNat + 1) ∧ (log.extend id run).1 = .ok n) ∧
    (∀ id h run e, log.history id = .ok h → run ≠ [] → (log.extend id run).1 = .error e →
      (∃ cause, e = .chain cause) ∧ e.status = .invalidChain) := by
  refine ⟨fun _ _ _ _ => start_eq_ok_iff, fun _ _ _ => extend_eq_ok_iff hl.sound, fun id r n => ?_,
    fun _ _ _ _ => status_of_extend_eq_error hl.sound⟩
  rw [ingest_eq_ok_iff]
  refine exists_congr fun run => and_congr_left fun _ => ?_
  rw [Response.asHistory_eq_ok_iff, consecutive_iff, Status.isOk, decide_eq_true_iff]

/-- A snapshot that is fine at its own place breaks the chain where the run before it has
that place already. -/
theorem takes_exactly_valid_chains_sample :
    Sample.opened.Reachable ∧
    (Sample.opened.extend KeyTransparency.Sample.first.directoryId [KeyTransparency.Sample.left]).1 = .ok 1 ∧
    ∃ e, (Sample.opened.extend KeyTransparency.Sample.first.directoryId
      [KeyTransparency.Sample.left, KeyTransparency.Sample.right]).1 = .error e ∧ e.status = .invalidChain := by
  have hh : Sample.opened.history KeyTransparency.Sample.first.directoryId =
      .ok ⟨"directory:1", ⟨KeyTransparency.Sample.key, KeyTransparency.Sample.first⟩,
        [KeyTransparency.Sample.first]⟩ :=
    history_eq_ok_iff.mpr Std.ExtTreeMap.getElem?_insert_self
  obtain ⟨-, hextend, -, hrefused⟩ := takes_exactly_valid_chains Sample.opened_reachable
  have hleft : ValidChain KeyTransparency.Sample.key [KeyTransparency.Sample.first, KeyTransparency.Sample.left] :=
    ValidChain.cons_iff.mpr ⟨KeyTransparency.Sample.first_starts,
      .cons_cons KeyTransparency.Sample.left_follows (.singleton _)⟩
  refine ⟨Sample.opened_reachable, (hextend _ _ _).mpr ⟨_, hh, List.cons_ne_nil _ _, hleft, rfl⟩, ?_⟩
  cases he : (Sample.opened.extend KeyTransparency.Sample.first.directoryId
      [KeyTransparency.Sample.left, KeyTransparency.Sample.right]).1 with
  | error e => exact ⟨e, rfl, (hrefused _ _ _ _ hh (List.cons_ne_nil _ _) he).2⟩
  | ok n =>
    obtain ⟨h', hh', -, hv, -⟩ := (hextend _ _ _).mp he
    rw [hh, Except.ok.injEq] at hh'
    subst hh'
    have hepoch := hv.epoch_eq (i := 2) rfl
    cases hepoch

end KeyTransparency.AuditLog
