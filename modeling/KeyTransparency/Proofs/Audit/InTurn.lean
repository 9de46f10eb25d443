import KeyTransparency.Proofs.Audit.Log
import KeyTransparency.Proofs.Chain.Honest
import KeyTransparency.Proofs.Simulation.Directory

/-!
# Batches taken in turn

A log that has the first snapshots of a valid chain (`AuditLog.Has`) takes those that come next,
however many of them at a time, and refuses all runs that start at another place of the chain:
what it already has, as well as what comes later.

* `Has.extendAll`: the rest of the chain, batch by batch;
* `Has.refuses`: a run from another place;
* `takesInTurn_of_validChain`: a whole chain in batches, from the one on that starts the directory.

With them, `honest_chain_admitted` follows a chain from where it is signed to where it is read. Before
the first batch the directory is unknown to the log; what is said of batches out of turn is said of all
points after it.
-/

namespace KeyTransparency

/-- Every batch takes some room. -/
theorem length_flatten_take_lt {α : Type} {batches : List (List α)} (hne : ∀ b ∈ batches, b ≠ []) {i j : Nat}
    (hij : i < j) (hi : i < batches.length) :
    (batches.take i).flatten.length < (batches.take j).flatten.length := by
  induction batches generalizing i j with
  | nil => exact absurd hi (Nat.not_lt_zero i)
  | cons b batches ih =>
    obtain ⟨hb, hbatches⟩ := List.forall_mem_cons.mp hne
    cases j with
    | zero => exact absurd hij (Nat.not_lt_zero i)
    | succ j =>
      rw [List.take_succ_cons, List.flatten_cons, List.length_append]
      cases i with
      | zero =>
        have := List.length_pos_iff.mpr hb
        rw [List.take_zero, List.flatten_nil, List.length_nil]
        omega
      | succ i =>
        have := ih hbatches (Nat.lt_of_succ_lt_succ hij) (Nat.lt_of_succ_lt_succ hi)
        rw [List.take_succ_cons, List.flatten_cons, List.length_append]
        omega

variable {key : PublicKey} {l run b : List Snapshot} {batches : List (List Snapshot)} {s : Snapshot}

/-- A batch starts at the epoch that the batches before it lead up to. -/
theorem ValidChain.epoch_of_batch {m : Nat} (h : ValidChain key batches.flatten) (hb : batches[m]? = some b)
    (hs : b.head? = some s) : s.epoch.toNat = (batches.take m).flatten.length := by
  obtain ⟨hm, rfl⟩ := List.getElem?_eq_some_iff.mp hb
  have hsplit : batches.flatten =
      (batches.take m).flatten ++ (batches[m] ++ (batches.drop (m + 1)).flatten) := by
    rw [← List.flatten_cons, ← List.drop_eq_getElem_cons hm, ← List.flatten_append, List.take_append_drop]
  refine h.epoch_eq ?_
  rw [hsplit, List.getElem?_append_right (Nat.le_refl _), Nat.sub_self, ← List.head?_eq_getElem?,
    List.head?_append, hs, Option.some_or]

/-- A run that starts at another epoch than the next one breaks the chain. -/
theorem History.check_eq_error {h : History} (hh : h.Sound) (hs : run.head? = some s)
    (hne : s.epoch.toNat ≠ h.snapshots.length) :
    ∃ e, h.tip.check run = .error e ∧ e.status = .invalidChain := by
  rcases h.append_cases run with ⟨e, hc, -⟩ | ⟨hr, -⟩
  · exact ⟨e, hc, status_of_checkRun_eq_error hh.chain.point hc⟩
  · have hfollows : Snapshot.Follows h.key h.latest s := hr.rel_head? hs
    exact absurd (hfollows.epoch.trans hh.length_eq.symm) hne

namespace AuditLog

variable {log : AuditLog} {address : String} {id : DirectoryId} {initial : List Snapshot}
  {later : List (List Snapshot)}

/-- The log has the snapshots, a valid chain, as the history of the directory. -/
def Has (log : AuditLog) (address : String) (key : PublicKey) (id : DirectoryId) (l : List Snapshot) : Prop :=
  ∃ h, log.history id = .ok h ∧ h.Sound ∧ h.address = address ∧ h.key = key ∧ h.snapshots = l

/-- The calls that start a directory with the initial snapshots, and extend it with each later batch. -/
def offer (address : String) (key : PublicKey) (id : DirectoryId) (initial : List Snapshot)
    (later : List (List Snapshot)) : List Call :=
  .start address key initial :: later.map (.extend id)

/-- The log takes the batches in turn: each of them whole, and none of them out of turn. -/
structure TakesInTurn (log : AuditLog) (address : String) (key : PublicKey) (id : DirectoryId)
    (initial : List Snapshot) (later : List (List Snapshot)) : Prop where
  replies : (log.run (offer address key id initial later)).1 =
    .id (.ok id) :: later.map fun b => .count (.ok b.length)
  has : ∀ k, (log.run (offer address key id initial (later.take k))).2.Has address key id
    (initial :: later.take k).flatten
  refused : ∀ k, ∀ b ∈ initial :: later, later[k]? ≠ some b →
    ∃ e, (log.run (offer address key id initial (later.take k))).2.extend id b =
      (.error e, (log.run (offer address key id initial (later.take k))).2) ∧ e.status = .invalidChain
  observed : ∀ i j : Epoch, i ≤ j → j.toNat < (initial :: later).flatten.length →
    (log.run (offer address key id initial later)).2.observedRange id i j =
      .ok (((initial :: later).flatten.drop i.toNat).take (j.toNat + 1 - i.toNat))

/-! ## What a log makes of a batch -/

theorem has_start (address : String) (hn : log.contains id = false) (hv : ValidChain key l)
    (hid : l.head?.map Snapshot.directoryId = some id) :
    (log.start address key l).1 = .ok id ∧ (log.start address key l).2.Has address key id l := by
  cases l with
  | nil => cases hid
  | cons first rest =>
    cases hid
    obtain ⟨hs, hr⟩ := ValidChain.cons_iff.mp hv
    rw [log.start_eq_of_validChain address (Std.ExtTreeMap.getElem?_eq_none_of_contains_eq_false hn) hv]
    exact ⟨rfl, _, history_eq_ok_iff.mpr Std.ExtTreeMap.getElem?_insert_self,
      (History.sound_of_start hs).extended hr, rfl, rfl, rfl⟩

namespace Has

/-- What makes the chain a longer valid chain is taken. -/
theorem extend (h : log.Has address key id l) (hne : run ≠ []) (hv : ValidChain key (l ++ run)) :
    (log.extend id run).1 = .ok run.length ∧ (log.extend id run).2.Has address key id (l ++ run) := by
  obtain ⟨h, hh, hs, rfl, rfl, rfl⟩ := h
  have hr := hs.append_iff.mp hv
  rw [extend_eq_of_isChain hne (history_eq_ok_iff.mp hh) hr]
  exact ⟨rfl, _, history_eq_ok_iff.mpr Std.ExtTreeMap.getElem?_insert_self, hs.extended hr, rfl, rfl, rfl⟩

/-- By induction on the batches: each of them is taken after those before it. -/
theorem extendAll (h : log.Has address key id l) (hne : ∀ b ∈ batches, b ≠ [])
    (hv : ValidChain key (l ++ batches.flatten)) :
    (log.run (batches.map (.extend id))).1 = batches.map (fun b => .count (.ok b.length)) ∧
      (log.run (batches.map (.extend id))).2.Has address key id (l ++ batches.flatten) := by
  induction batches generalizing log l with
  | nil => exact ⟨rfl, by rwa [List.flatten_nil, List.append_nil]⟩
  | cons b batches ih =>
    obtain ⟨hb, hbatches⟩ := List.forall_mem_cons.mp hne
    rw [List.flatten_cons, ← List.append_assoc] at hv ⊢
    obtain ⟨hreply, hhas⟩ := h.extend hb (hv.of_append (by simp [hb]))
    obtain ⟨hreplies, hhas⟩ := ih hhas hbatches hv
    refine ⟨?_, hhas⟩
    rw [List.map_cons, List.map_cons, ← hreplies, ← hreply]
    rfl

theorem refuses (h : log.Has address key id l) (hs : run.head? = some s) (hne : s.epoch.toNat ≠ l.length) :
    ∃ e, log.extend id run = (.error e, log) ∧ e.status = .invalidChain := by
  obtain ⟨h, hh, hsound, rfl, rfl, rfl⟩ := h
  obtain ⟨e, hc, he⟩ := h.check_eq_error hsound hs hne
  have hnil : run ≠ [] := by
    rintro rfl
    cases hs
  exact ⟨.chain e, extendOn_eq_of_check_eq_error .writable hnil (history_eq_ok_iff.mp hh) hc, he⟩

theorem observedRange {i j : Epoch} (h : log.Has address key id l) (hij : i ≤ j) (hj : j.toNat < l.length) :
    log.observedRange id i j = .ok ((l.drop i.toNat).take (j.toNat + 1 - i.toNat)) := by
  obtain ⟨h, hh, hsound, rfl, rfl, rfl⟩ := h
  simp [AuditLog.observedRange, hh, hsound.range?_eq, hij, hj, bind, Except.bind, pure, Except.pure]

end Has

/-! ## A chain in batches -/

theorem run_offer (address : String) (hn : log.contains id = false)
    (hid : initial.head?.map Snapshot.directoryId = some id) (hne : ∀ b ∈ initial :: later, b ≠ [])
    (hv : ValidChain key (initial :: later).flatten) :
    (log.run (offer address key id initial later)).1 =
        .id (.ok id) :: later.map (fun b => .count (.ok b.length)) ∧
      (log.run (offer address key id initial later)).2.Has address key id (initial :: later).flatten := by
  obtain ⟨hinitial, hlater⟩ := List.forall_mem_cons.mp hne
  obtain ⟨hreply, hhas⟩ := has_start address hn (hv.of_append hinitial) hid
  obtain ⟨hreplies, hhas⟩ := hhas.extendAll hlater hv
  refine ⟨?_, hhas⟩
  rw [← hreplies, ← hreply]
  rfl

/-- A batch out of turn starts where another number of batches leads up to. -/
theorem epoch_ne_of_out_of_turn (hne : ∀ b ∈ initial :: later, b ≠ [])
    (hv : ValidChain key (initial :: later).flatten) {k : Nat} (hb : b ∈ initial :: later)
    (hturn : later[k]? ≠ some b) (hs : b.head? = some s) :
    s.epoch.toNat ≠ (initial :: later.take k).flatten.length := by
  obtain ⟨m, hm⟩ := List.mem_iff_getElem?.mp hb
  have hlt := (List.getElem?_eq_some_iff.mp hm).1
  have hmk : m ≠ k + 1 := by
    rintro rfl
    exact hturn hm
  rw [hv.epoch_of_batch hm hs, ← List.take_succ_cons]
  rcases Nat.lt_or_gt_of_ne hmk with hbefore | hafter
  · exact Nat.ne_of_lt (length_flatten_take_lt hne hbefore hlt)
  · exact Nat.ne_of_gt (length_flatten_take_lt hne hafter (Nat.lt_trans hafter hlt))

theorem takesInTurn_of_validChain (hn : log.contains id = false)
    (hid : initial.head?.map Snapshot.directoryId = some id) (hne : ∀ b ∈ initial :: later, b ≠ [])
    (hv : ValidChain key (initial :: later).flatten) : log.TakesInTurn address key id initial later := by
  obtain ⟨hinitial, hlater⟩ := List.forall_mem_cons.mp hne
  have hhas (k : Nat) : (log.run (offer address key id initial (later.take k))).2.Has address key id
      (initial :: later.take k).flatten := by
    have hsplit : (initial :: later).flatten = (initial :: later.take k).flatten ++ (later.drop k).flatten := by
      rw [← List.flatten_append, List.cons_append, List.take_append_drop]
    have hbatches : ∀ b ∈ initial :: later.take k, b ≠ [] :=
      List.forall_mem_cons.mpr ⟨hinitial, fun b hb => hlater b (List.mem_of_mem_take hb)⟩
    exact (run_offer address hn hid hbatches ((hsplit ▸ hv).of_append (by simp [hinitial]))).2
  obtain ⟨hreplies, hall⟩ := run_offer address hn hid hne hv
  refine ⟨hreplies, hhas, fun k b hb hturn => ?_, fun i j => hall.observedRange⟩
  obtain ⟨s, hs⟩ := Option.isSome_iff_exists.mp (List.isSome_head?.mpr (hne b hb))
  exact (hhas k).refuses hs (epoch_ne_of_out_of_turn hne hv hb hturn hs)

/-- Whatever a directory signs from epoch 0 on, with signatures that are valid, and however it is cut
into batches: a log that has not got the directory takes them in turn, once each, and then has all
of it. -/
theorem honest_chain_admitted {sk : SigningKey} {root : Digest} {roots : List Digest}
    (hlen : roots.length < UInt64.size)
    (hsigns : ∀ s ∈ Snapshot.chain sk none (root :: roots), sk.Verifies s.signedMessage)
    (hn : log.contains (Snapshot.genesis sk root).directoryId = false) (hne : ∀ b ∈ initial :: later, b ≠ [])
    (hcut : (initial :: later).flatten = Snapshot.chain sk none (root :: roots)) :
    log.TakesInTurn address sk.publicKey (Snapshot.genesis sk root).directoryId initial later := by
  refine takesInTurn_of_validChain hn ?_ hne (hcut ▸ validChain_chain hlen hsigns)
  cases initial with
  | nil => exact absurd rfl (hne [] (.head _))
  | cons first initial =>
    have hfirst : first = Snapshot.genesis sk root := (List.cons.inj hcut).1
    rw [hfirst]
    rfl

namespace Sample

open Directory.Sample (entries first second first_starts second_follows successor_first)

def root : Digest := Commitment.root ⟨[], ∅⟩

def nextRoot : Digest := Commitment.root ⟨[], entries⟩

theorem genesis_eq : Snapshot.genesis Directory.Sample.key root = first :=
  congrArg (fun d => d.latest.snapshot) Directory.Sample.create_eq

theorem chain_eq : Snapshot.chain Directory.Sample.key none [root, nextRoot] =
    [first, first.successor Directory.Sample.key nextRoot] := by
  simp only [Snapshot.chain, Snapshot.next, genesis_eq]

theorem verifies_chain : ∀ s ∈ Snapshot.chain Directory.Sample.key none [root, nextRoot],
    Directory.Sample.key.Verifies s.signedMessage := by
  have hfirst : (Snapshot.genesis Directory.Sample.key root).hasValidSignature
      Directory.Sample.key.publicKey = true :=
    genesis_eq ▸ first_starts.signed
  have hsecond : (first.successor Directory.Sample.key nextRoot).hasValidSignature
      Directory.Sample.key.publicKey = true :=
    successor_first ▸ second_follows.signed
  rw [chain_eq, ← genesis_eq]
  exact List.forall_mem_cons.mpr ⟨hfirst, List.forall_mem_singleton.mpr (genesis_eq ▸ hsecond)⟩

end Sample

/-- A log in memory, to which the first batch is offered once more before the second one. -/
theorem honest_chain_admitted_sample :
    empty.TakesInTurn "directory:1" Directory.Sample.key.publicKey Directory.Sample.first.directoryId
      [Directory.Sample.first] [[Directory.Sample.second]] ∧
    ∃ e, ((empty.run (offer "directory:1" Directory.Sample.key.publicKey Directory.Sample.first.directoryId
      [Directory.Sample.first] [])).2.extend Directory.Sample.first.directoryId [Directory.Sample.first]).1 =
      .error e ∧ e.status = .invalidChain := by
  have hcut : [[Directory.Sample.first], [Directory.Sample.second]].flatten =
      Snapshot.chain Directory.Sample.key none [Sample.root, Sample.nextRoot] := by
    rw [Sample.chain_eq, ← Directory.Sample.successor_first]
    rfl
  have h : empty.TakesInTurn "directory:1" Directory.Sample.key.publicKey
      (Snapshot.genesis Directory.Sample.key Sample.root).directoryId
      [Directory.Sample.first] [[Directory.Sample.second]] :=
    honest_chain_admitted (by decide) Sample.verifies_chain rfl (by simp) hcut
  rw [Sample.genesis_eq] at h
  obtain ⟨e, he, hstatus⟩ := h.refused 0 [Directory.Sample.first] (.head _) (by decide)
  exact ⟨h, e, congrArg Prod.fst he, hstatus⟩

end AuditLog

end KeyTransparency
