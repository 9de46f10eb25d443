import KeyTransparency.Proofs.Client.Comparison

/-!
# What is said of a broken run

Snapshots of an auditor that are not signed and linked under the key that a session has pinned
are refused as no chain, and the status of the refusal tells what kind of fault that is. Where
a signature is missing or a link is broken, it is a broken chain, a fault of the directory
(`status_of_checkRun_eq_error`, `checkAuditorRun_eq_error_cases`).

A run from epoch 0 on is held to the rules for the start of a chain as well. If its first
snapshot links to one before it (`LinksBeforeStart`), the refusal has the status that a start
with such a snapshot is refused with, which blames the request
(`Session.run_with_predecessor_sample`).

* `Session.broken_run_reported`: every other run that is not signed and linked is reported as a
  broken chain.
-/

namespace KeyTransparency

/-- The run starts at epoch 0, with a snapshot that links to one before it. -/
def LinksBeforeStart (run : List Snapshot) : Prop :=
  ∃ s ∈ run.head?, s.epoch = 0 ∧ s.previous ≠ Digest.zero

/-- The failure is told as a broken chain: a fault of the directory, which no correction of the
request heals, and no second try. -/
structure SessionError.TellsBrokenChain (e : SessionError) : Prop where
  status : e.status = .invalidChain
  faultClass : e.status.faultClass = .securityFault
  notCorrectable : e.status.faultClass ≠ .clientCorrectable
  notRetryable : e.status.faultClass.isRetryable = false

variable {key : PublicKey} {s first : Snapshot} {run rest : List Snapshot} {e : ChainError}

theorem SessionError.tellsBrokenChain (h : e.status = .invalidChain) :
    (SessionError.chain e).TellsBrokenChain := by
  have hstatus : (SessionError.chain e).status = .invalidChain := h
  refine ⟨hstatus, ?_, ?_, ?_⟩ <;> rw [hstatus] <;> decide

/-! ## Why a run is refused -/

/-- What is wrong with a snapshot of epoch 0 under a point: the snapshot it links to, or else
its signature. -/
theorem checkInitial_eq_error_cases (hk : key.isPoint = true) (h0 : s.epoch = 0)
    (h : checkInitial key s = .error e) :
    s.previous ≠ Digest.zero ∧ e = .malformedInitial 0 .hasPredecessor ∨
      s.previous = Digest.zero ∧ e = .invalidSignature 0 := by
  rw [checkInitial, if_neg (not_not.mpr h0)] at h
  by_cases hprevious : s.previous = Digest.zero
  · right
    rw [if_neg (not_not.mpr hprevious), hk] at h
    simp only [Bool.not_true, Bool.false_eq_true, ↓reduceIte] at h
    split at h
    · cases h
      exact ⟨hprevious, rfl⟩
    · cases h
  · left
    rw [if_pos hprevious] at h
    cases h
    exact ⟨hprevious, rfl⟩

theorem linksBeforeStart_cons_iff :
    LinksBeforeStart (first :: rest) ↔ first.epoch = 0 ∧ first.previous ≠ Digest.zero := by
  simp [LinksBeforeStart]

/-- The first snapshot of a run is checked before the links, and its own link before its
signature. -/
theorem checkAuditorRun_eq_error_cases (hk : key.isPoint = true) (h : checkAuditorRun key run = .error e) :
    LinksBeforeStart run ∧ e = .malformedInitial 0 .hasPredecessor ∨
      ¬ LinksBeforeStart run ∧ e.status = .invalidChain := by
  cases run with
  | nil => cases h
  | cons first rest =>
    rw [linksBeforeStart_cons_iff]
    rw [checkAuditorRun] at h
    by_cases h0 : first.epoch = 0
    · rw [if_pos h0] at h
      cases hi : checkInitial key first with
      | error e' =>
        rw [hi] at h
        cases h
        rcases checkInitial_eq_error_cases hk h0 hi with ⟨hprevious, rfl⟩ | ⟨hprevious, rfl⟩
        · exact .inl ⟨⟨h0, hprevious⟩, rfl⟩
        · exact .inr ⟨fun hl => hl.2 hprevious, rfl⟩
      | ok u =>
        rw [hi] at h
        have hstarts := checkInitial_eq_ok_iff.mp hi
        exact .inr ⟨fun hl => hl.2 hstarts.previous, status_of_checkRun_eq_error hk h⟩
    · rw [if_neg h0] at h
      refine .inr ⟨fun hl => h0 hl.1, ?_⟩
      cases hs : first.hasValidSignature key with
      | false =>
        rw [hs] at h
        cases h
        rfl
      | true =>
        rw [hs] at h
        exact status_of_checkRun_eq_error hk h

namespace Session

variable {verify : ProofVerifier} {c : Session} {r : Response}

theorem Tracks.crossCheck_of_not_signedRun {tip : ChainTip} {l : List Snapshot} (h : c.Tracks tip l)
    (hr : r.asHistory = .ok run) (hbroken : ¬ SignedRun tip.key run) :
    ∃ cause, checkAuditorRun tip.key run = .error cause ∧ c.crossCheck r = .error (.chain cause) := by
  cases hcheck : checkAuditorRun tip.key run with
  | ok u => exact absurd (checkAuditorRun_eq_ok_iff_signedRun.mp hcheck) hbroken
  | error cause => exact ⟨cause, rfl, by simp only [crossCheck, h.holdsChain.pinned, hr, hcheck]⟩

namespace Sample

/-- A signed snapshot of epoch 0 that links to another one. -/
def rooted : Snapshot :=
  ⟨0, Digest.zero, KeyTransparency.Sample.first.digest,
    ⟨Block32.ofNatLE 0x90710c9bef1eded1f4fd7e2f413a153249ae87501591007eb41ce800bd7e7e06,
      Block32.ofNatLE 0xa34e02146956af22a0bda39289e951a354286f8c23c9f304dde2f9f92947078⟩⟩

theorem not_signedRun_rooted : ¬ SignedRun KeyTransparency.Sample.key [rooted] := by
  intro h
  have : rooted.previous ≠ Digest.zero := by decide +kernel
  exact this (h.initial rooted rfl rfl)

/-- The second snapshot of the run links to the one before the first. -/
theorem not_signedRun_detached :
    ¬ SignedRun KeyTransparency.Sample.key [KeyTransparency.Sample.left, detached] := by
  intro h
  have : KeyTransparency.Sample.first.digest ≠ KeyTransparency.Sample.left.digest := by decide +kernel
  exact this (List.isChain_cons_cons.mp h.linked).1.2

end Sample

/-- Of every session that has been started, faulted or not, and every run of consecutive epochs
that is not signed and linked under the key pinned: the run is refused, and this is told as a
broken chain, unless the run starts at epoch 0 with a snapshot that links to one before it. -/
theorem broken_run_reported (hc : Reachable verify c) (hk : c.key? = some key) (hr : r.asHistory = .ok run)
    (hbroken : ¬ SignedRun key run) :
    ∃ error, c.crossCheck r = .error error ∧ (error.TellsBrokenChain ↔ ¬ LinksBeforeStart run) := by
  rcases hc.cases with rfl | ⟨tip, l, h⟩
  · cases hk
  · rw [h.holdsChain.pinned, Option.some.injEq] at hk
    subst hk
    obtain ⟨cause, hcheck, hcross⟩ := h.crossCheck_of_not_signedRun hr hbroken
    refine ⟨.chain cause, hcross, ?_⟩
    rcases checkAuditorRun_eq_error_cases h.holdsChain.point hcheck with ⟨hlinks, rfl⟩ | ⟨hlinks, hstatus⟩
    · exact iff_of_false (fun ht => absurd ht.status (by decide)) (not_not.mpr hlinks)
    · exact iff_of_true (SessionError.tellsBrokenChain hstatus) hlinks

/-- A run of two signed snapshots with a broken link between them. -/
theorem broken_run_reported_sample :
    Reachable Commitment.verify Sample.session ∧
    ¬ SignedRun KeyTransparency.Sample.key [KeyTransparency.Sample.left, Sample.detached] ∧
    ∃ error, Sample.session.crossCheck (.ofHistory [KeyTransparency.Sample.left, Sample.detached]) =
      .error error ∧ error.TellsBrokenChain := by
  have hread : Response.asHistory (.ofHistory [KeyTransparency.Sample.left, Sample.detached]) =
      .ok [KeyTransparency.Sample.left, Sample.detached] := rfl
  obtain ⟨error, hcross, htells⟩ := broken_run_reported
    Sample.session_reachable rfl hread Sample.not_signedRun_detached
  refine ⟨Sample.session_reachable, Sample.not_signedRun_detached, error, hcross, htells.mpr ?_⟩
  rw [linksBeforeStart_cons_iff]
  exact fun h => absurd h.1 (by decide)

/-- A run of one signed snapshot of epoch 0 that links to another one is not signed and linked.
It is refused like a malformed request, as something that the client can correct. -/
theorem run_with_predecessor_sample :
    Reachable Commitment.verify Sample.session ∧
    Sample.session.key? = some KeyTransparency.Sample.key ∧
    Response.asHistory (.ofHistory [Sample.rooted]) = .ok [Sample.rooted] ∧
    Sample.rooted.hasValidSignature KeyTransparency.Sample.key = true ∧
    ¬ SignedRun KeyTransparency.Sample.key [Sample.rooted] ∧
    ∃ error, Sample.session.crossCheck (.ofHistory [Sample.rooted]) = .error error ∧
      error.status = .malformedMessage ∧ error.status.faultClass = .clientCorrectable := by
  refine ⟨Sample.session_reachable, rfl, rfl, by decide +kernel, Sample.not_signedRun_rooted,
    .chain (.malformedInitial 0 .hasPredecessor), ?_, rfl, rfl⟩
  decide +kernel

end Session

end KeyTransparency
