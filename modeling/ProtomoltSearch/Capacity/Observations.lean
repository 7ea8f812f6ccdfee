import ProtomoltSearch.Foundations.Keyed
import ProtomoltSearch.Foundations.Mutations
import ProtomoltSearch.Foundations.Refusals
import ProtomoltSearch.Foundations.Runs

/-!
# The store of capacity observations

Nodes report what they measured of a partition, and the store keeps at most one report per key
within bounds on records, bytes and nodes (`register_incarnation`, `commit_expiry` and `ingest` of
the source). A method makes its checks before it changes anything (`clean_attempt`). What the store
keeps passes its own checks again (`Inv.valid`), so it can be rebuilt from its rows in any order.
-/

namespace ProtomoltSearch.Capacity

open List Keyed Mutations

abbrev Digest := List UInt8

def hex16 (bytes : Digest) : String :=
  String.join ((bytes.take 16).map fun b =>
    String.ofList [Nat.digitChar (b.toNat / 16), Nat.digitChar (b.toNat % 16)])

structure PartitionIdentity where
  workspace : String
  collection : String
  derivedFingerprint : Digest
  column : String
  bucket : ℕ
deriving DecidableEq

def PartitionIdentity.label (p : PartitionIdentity) : String := p.column ++ "=" ++ toString p.bucket

structure ReporterIdentity where
  nodeId : String
  processIncarnation : Digest
deriving DecidableEq

structure ShardRef where
  shard : String
  sourceGeneration : ℕ
  storageIncarnation : Digest
  ownershipEpoch : ℕ
deriving DecidableEq

/-- The parts of an observation that identify it, in the source one flat record of their fields. -/
structure ObsKey where
  partition : PartitionIdentity
  topologyGeneration : ℕ
  leaf : String
  shard : ShardRef
  reporter : ReporterIdentity
deriving DecidableEq

/-- An observation; `capacity` is what its six strings have allocated together. -/
structure PartitionObservation extends ObsKey where
  (rows residentBytes scansObserved scanBytes queueWaitP50 queueWaitP99 samples lastScanned : ℕ)
  (windowStart windowEnd capacity : ℕ)

namespace PartitionObservation

variable (allocated : PartitionObservation → ℕ) (obs : PartitionObservation)

abbrev key : ObsKey := obs.toObsKey

/-- The numbers the source encodes with fixed widths. -/
def payload : List ℕ :=
  [obs.rows, obs.residentBytes, obs.scansObserved, obs.scanBytes, obs.queueWaitP50,
    obs.queueWaitP99, obs.lastScanned, obs.samples]

def heapBytes : ℕ := 336 + 2 * obs.capacity

/-- The same observation in strings that have allocated otherwise. -/
def reallocated : PartitionObservation := { obs with capacity := allocated obs }

def window : String :=
  "window [" ++ toString obs.windowStart ++ ", " ++ toString obs.windowEnd ++ ")"

end PartitionObservation

structure CommittedCopy where
  nodeId : String
  storageIncarnation : Digest

structure CommittedShard where
  sourceGeneration : ℕ
  ownershipEpoch : ℕ
  leaves : List (String × List CommittedCopy)

structure CommittedView where
  workspace : String
  collection : String
  derivedFingerprint : Digest
  topologyGeneration : ℕ
  shards : List (String × CommittedShard)

def CommittedView.resourceMatches (c : CommittedView) (p : PartitionIdentity) : Bool :=
  c.workspace == p.workspace && c.collection == p.collection &&
    c.derivedFingerprint == p.derivedFingerprint

def checkObservationIdentity (committed : CommittedView) (obs : PartitionObservation) :
    Except String Unit := do
  let shard := obs.shard
  let node := "report_shard: node " ++ obs.reporter.nodeId
  refuseIf (obs.topologyGeneration != committed.topologyGeneration)
    ("report_shard: topology_generation " ++ toString obs.topologyGeneration ++
      " is not the committed " ++ toString committed.topologyGeneration)
  let held ← okOr (committed.shards.lookup shard.shard)
    ("report_shard: shard " ++ shard.shard ++ " is not in the committed topology")
  refuseIf (shard.sourceGeneration != held.sourceGeneration)
    ("report_shard: shard " ++ shard.shard ++ " source generation " ++
      toString shard.sourceGeneration ++ " is not the committed " ++ toString held.sourceGeneration)
  refuseIf (shard.ownershipEpoch != held.ownershipEpoch)
    ("report_shard: shard " ++ shard.shard ++ " ownership epoch " ++
      toString shard.ownershipEpoch ++ " is not the committed " ++ toString held.ownershipEpoch)
  let copies ← okOr (held.leaves.lookup obs.leaf)
    ("report_shard: shard " ++ shard.shard ++ " covers no rows in leaf " ++ obs.leaf ++
      " at generation " ++ toString committed.topologyGeneration)
  let copy ← okOr (copies.find? fun copy => copy.nodeId == obs.reporter.nodeId)
    (node ++ " holds no committed copy of shard " ++ shard.shard ++ " in leaf " ++ obs.leaf)
  refuseIf (copy.storageIncarnation != shard.storageIncarnation)
    (node ++ " storage incarnation " ++ hex16 shard.storageIncarnation ++
      " is not the committed " ++ hex16 copy.storageIncarnation ++ " for shard " ++ shard.shard)

inductive IngestOutcome
  | landed
  | unchanged
  | superseded

structure ObservationStore where
  (cohortLength cohortPhase maxRecords maxBytes maxNodes : ℕ)
  committed : CommittedView
  incarnations : List (String × Digest)
  records : List PartitionObservation
  epoch : ℕ
  retained : ℕ

namespace ObservationStore

variable (s : ObservationStore)

/-- The store the source opens with these bounds, once it has checked the length of a cohort. -/
def fresh : ObservationStore :=
  { s with incarnations := [], records := [], epoch := 0, retained := 0 }

def nextEpoch : Except String ℕ := do
  refuseIf (decide (2 ^ 64 ≤ s.epoch + 1)) "report_shard: the observation epoch is exhausted"
  return s.epoch + 1

/-- A method that changes the store. What it has changed stays when it returns an error. -/
abbrev Mutation := EStateM String ObservationStore

/-- Remove the records that are doomed, in one transition if there are any. -/
def discard (doomed : PartitionObservation → Bool) : Mutation ℕ := do
  let s ← get
  if s.records.any doomed then do
    let next ← ofExcept s.nextEpoch
    -- the loop over the doomed keys
    modify fun s => { s with
      records := s.records.filter (!doomed ·)
      retained := s.retained - ((s.records.filter doomed).map (·.heapBytes)).sum }
    modify fun s => { s with epoch := next }
    return (s.records.filter doomed).length
  else return 0

def registerIncarnation (node : String) (incarnation : Digest) : Mutation Unit := do
  let s ← get
  let current := get? Prod.fst s.incarnations node
  if current = some (node, incarnation) then return
  else do
    ofExcept (refuseIf (current.isNone && decide (s.maxNodes ≤ s.incarnations.length))
      ("report_shard: the incarnation registry holds the bound of " ++ toString s.maxNodes ++ " nodes"))
    let _ ← discard fun r =>
      r.reporter.nodeId == node && r.reporter.processIncarnation != incarnation
    modify fun s =>
      { s with incarnations := Keyed.put Prod.fst s.incarnations (node, incarnation) }

def commitExpiry (now maxAge : ℕ) : Mutation ℕ :=
  discard fun r => decide (maxAge < now - r.windowEnd)

variable (obs : PartitionObservation)

def checkCohort : Except String Unit := do
  let reports := "report_shard: " ++ obs.partition.label ++ " on " ++ obs.reporter.nodeId ++ " reports "
  refuseIf (!s.committed.resourceMatches obs.partition)
    ("report_shard: partition " ++ obs.partition.workspace ++ "/" ++ obs.partition.collection ++ "/" ++
      hex16 obs.partition.derivedFingerprint ++ " is not this resource " ++ s.committed.workspace ++
      "/" ++ s.committed.collection ++ "/" ++ hex16 s.committed.derivedFingerprint)
  refuseIf (decide (obs.windowEnd < obs.windowStart)) ("report_shard: " ++ obs.window ++ " is inverted")
  refuseIf (decide (obs.windowEnd - obs.windowStart ≠ s.cohortLength ∨
      obs.windowStart < s.cohortPhase ∨ ¬s.cohortLength ∣ obs.windowStart - s.cohortPhase))
    ("report_shard: " ++ obs.window ++ " is not a cohort window (length " ++
      toString s.cohortLength ++ " ms, phase " ++ toString s.cohortPhase ++ ")")
  refuseIf (decide (0 < obs.rows ∧ obs.residentBytes = 0))
    (reports ++ toString obs.rows ++ " rows and 0 resident bytes")
  refuseIf (decide (0 < obs.scansObserved ∧ obs.residentBytes = 0))
    (reports ++ toString obs.scansObserved ++ " scans of 0 resident bytes")
  checkObservationIdentity s.committed obs

/-- Only the node's current process may report. -/
def checkIncarnation (r : ReporterIdentity) : Except String Unit :=
  match get? Prod.fst s.incarnations r.nodeId with
  | some current =>
    refuseIf (current.2 != r.processIncarnation)
      ("report_shard: node " ++ r.nodeId ++ " incarnation " ++ hex16 r.processIncarnation ++
        " is superseded by " ++ hex16 current.2)
  | none => .error ("report_shard: node " ++ r.nodeId ++ " has not registered an incarnation")

/-- The bounds a report is stored within. A replaced one is given as its charge, which is freed. -/
def checkBounds (replacing total : ℕ) : Except String ℕ := do
  refuseIf (decide (replacing = 0 ∧ s.maxRecords ≤ s.records.length))
    ("report_shard: the observation store holds the bound of " ++ toString s.maxRecords ++ " records")
  refuseIf (decide (2 ^ 64 ≤ total)) "report_shard: the retained-byte accounting overflowed"
  refuseIf (decide (s.maxBytes < total))
    ("report_shard: the observation store would exceed its bound of " ++ toString s.maxBytes ++
      " retained bytes")
  s.nextEpoch

/-- Store a report in place of the one with its key. -/
def land (replacing : ℕ) : Mutation IngestOutcome := do
  let s ← get
  let total := s.retained - replacing + obs.heapBytes
  let next ← ofExcept (s.checkBounds replacing total)
  modify fun s => { s with retained := total }
  modify fun s => { s with records := Keyed.put (·.key) s.records obs }
  modify fun s => { s with epoch := next }
  return .landed

def ingest : Mutation IngestOutcome := do
  let s ← get
  ofExcept (s.checkCohort obs)
  ofExcept (s.checkIncarnation obs.reporter)
  match get? (·.key) s.records obs.key with
  | none => land obs 0
  | some stored =>
    if stored.windowEnd = obs.windowEnd then do
      ofExcept (refuseIf (stored.payload != obs.payload)
        ("report_shard: observation for (" ++ obs.partition.label ++ ", gen " ++
          toString obs.topologyGeneration ++ ", " ++ obs.leaf ++ ", " ++ obs.shard.shard ++ ", gen " ++
          toString obs.shard.sourceGeneration ++ ") " ++ obs.window ++ " from " ++
          obs.reporter.nodeId ++ "/" ++ hex16 obs.reporter.processIncarnation ++
          " conflicts with the stored report"))
      return .unchanged
    else if obs.windowEnd < stored.windowEnd then return .superseded
    else land obs stored.heapBytes

inductive Call
  | register (node : String) (incarnation : Digest)
  | expire (now maxAge : ℕ)
  | ingest (obs : PartitionObservation)

def attempt : Call → Mutation Unit
  | .register node incarnation => registerIncarnation node incarnation
  | .expire now maxAge => do let _ ← commitExpiry now maxAge
  | .ingest obs => do let _ ← ingest obs

/-- The store a call leaves, whether it is refused or not. -/
def next (call : Call) : ObservationStore :=
  match attempt call s with
  | .ok _ t => t
  | .error _ t => t

def restoreReporter (r : String × Digest) : Mutation Unit :=
  (registerIncarnation r.1 r.2).adaptExcept ("stored reporter: " ++ ·)

def restore : Mutation Unit := do
  let outcome ← (ingest obs).adaptExcept ("stored observation no longer validates: " ++ ·)
  match outcome with
  | .landed => return
  | .unchanged => throw "stored observation did not land on rebuild: Unchanged"
  | .superseded => throw "stored observation did not land on rebuild: Superseded"

def rebuild (reporters : List (String × Digest)) (rows : List PartitionObservation) :
    Mutation Unit := do
  reporters.forM restoreReporter
  rows.forM restore

/-- The bounds hold, the bytes are those of the records, and every record would pass its checks again. -/
structure Inv : Prop where
  keys : (s.records.map (·.key)).Nodup
  nodes : (s.incarnations.map Prod.fst).Nodup
  charged : s.retained = (s.records.map (·.heapBytes)).sum
  records_le : s.records.length ≤ s.maxRecords
  bytes_le : s.retained ≤ s.maxBytes
  nodes_le : s.incarnations.length ≤ s.maxNodes
  valid : ∀ r ∈ s.records, s.checkCohort r = .ok () ∧ s.checkIncarnation r.reporter = .ok ()
  retained_lt : s.retained < 2 ^ 64
  epoch_lt : s.epoch < 2 ^ 64
  length_le : s.records.length ≤ s.epoch

/-- The epoch advances by one exactly when the set of records changes. -/
def Advances (t : ObservationStore) : Prop :=
  (∀ r, r ∈ t.records ↔ r ∈ s.records) ∧ t.epoch = s.epoch ∨
    ¬(∀ r, r ∈ t.records ↔ r ∈ s.records) ∧ t.epoch = s.epoch + 1

variable {s} {t : ObservationStore} {obs : PartitionObservation}
  {doomed : PartitionObservation → Bool} {n : ℕ} {outcome : IngestOutcome}

lemma nextEpoch_ok {next : ℕ} : s.nextEpoch = .ok next ↔ next = s.epoch + 1 ∧ next < 2 ^ 64 := by
  simp only [nextEpoch, bind_ok, refuseIf_ok, pure_ok, decide_eq_false_iff_not, not_le]
  constructor
  · rintro ⟨-, h, rfl⟩
    exact ⟨rfl, h⟩
  · rintro ⟨rfl, h⟩
    exact ⟨(), h, rfl⟩

lemma checkIncarnation_ok {r : ReporterIdentity} : s.checkIncarnation r = .ok () ↔
    get? Prod.fst s.incarnations r.nodeId = some (r.nodeId, r.processIncarnation) := by
  unfold checkIncarnation
  cases h : get? Prod.fst s.incarnations r.nodeId with
  | none => simp
  | some current =>
    have hnode : current.1 = r.nodeId := by simpa using find?_some h
    simp [← hnode, Prod.ext_iff]

/-! ## Refused calls -/

lemma clean_discard : Clean (discard doomed) := by
  refine .get fun s => ?_
  split
  · exact .check fun next =>
      (sure_modify.bind fun _ => sure_modify.bind fun _ => sure_pure).clean
  · exact sure_pure.clean

lemma clean_land {replacing : ℕ} : Clean (land obs replacing) :=
  .get fun _ => .check fun _ => (sure_modify.bind fun _ =>
    sure_modify.bind fun _ => sure_modify.bind fun _ => sure_pure).clean

/-- **A call that is refused has changed nothing**: its checks precede its first change. -/
theorem clean_attempt (call : Call) : Clean (attempt call) := by
  cases call with
  | register node incarnation =>
    refine .get fun s => ?_
    dsimp only
    split
    · exact sure_pure.clean
    · exact .check fun _ => clean_discard.then fun _ => sure_modify
  | expire now maxAge => exact clean_discard.then fun _ => sure_pure
  | ingest obs =>
    refine Clean.then (.get fun s => .check fun _ =>
      .check fun _ => ?_) fun _ => sure_pure
    split
    · exact clean_land
    · split_ifs
      · exact .check fun _ => sure_pure.clean
      · exact sure_pure.clean
      · exact clean_land

/-! ## Accepted calls -/

lemma discard_ok (h : discard doomed s = .ok n t) :
    s.records.any doomed ∧ s.epoch + 1 < 2 ^ 64 ∧ t = { s with
      records := s.records.filter (!doomed ·)
      retained := s.retained - ((s.records.filter doomed).map (·.heapBytes)).sum
      epoch := s.epoch + 1 } ∨ (∀ r ∈ s.records, doomed r = false) ∧ t = s := by
  obtain ⟨_, _, hget, h⟩ := run_bind.1 h
  obtain ⟨rfl, rfl⟩ := run_get.1 hget
  split at h
  · next hany =>
    simp only [run_bind, run_ofExcept, run_modify, run_pure, nextEpoch_ok] at h
    obtain ⟨_, _, ⟨⟨rfl, hlt⟩, rfl⟩, _, _, rfl, _, _, rfl, -, rfl⟩ := h
    exact .inl ⟨hany, hlt, rfl⟩
  · next hany =>
    obtain ⟨-, rfl⟩ := run_pure.1 h
    exact .inr ⟨by simpa using hany, rfl⟩

lemma Inv.discard (h : s.Inv) (hd : discard doomed s = .ok n t) :
    t.Inv ∧ s.Advances t ∧ t.records = s.records.filter (!doomed ·) ∧
      t.incarnations = s.incarnations ∧ t.maxNodes = s.maxNodes := by
  obtain ⟨hany, hlt, rfl⟩ | ⟨hnone, rfl⟩ := discard_ok hd
  · have hsub : (s.records.filter (!doomed ·)).Sublist s.records := filter_sublist
    have hsum : s.retained - ((s.records.filter doomed).map (·.heapBytes)).sum =
        ((s.records.filter (!doomed ·)).map (·.heapBytes)).sum := by
      have := ((filter_append_perm doomed s.records).map (·.heapBytes)).sum_eq
      rw [map_append, sum_append, ← h.charged] at this
      omega
    refine ⟨⟨h.keys.sublist (hsub.map _), h.nodes, hsum, hsub.length_le.trans h.records_le,
      (Nat.sub_le _ _).trans h.bytes_le, h.nodes_le, fun r hr => h.valid r (hsub.subset hr),
      (Nat.sub_le _ _).trans_lt h.retained_lt, hlt, ?_⟩, .inr ⟨fun hsame => ?_, rfl⟩, rfl, rfl, rfl⟩
    · exact hsub.length_le.trans (h.length_le.trans (Nat.le_succ _))
    · obtain ⟨r, hr, hdoomed⟩ := any_eq_true.1 hany
      simpa [hdoomed] using (mem_filter.1 ((hsame r).2 hr)).2
  · refine ⟨h, .inl ⟨fun _ => Iff.rfl, rfl⟩, (filter_eq_self.2 fun r hr => ?_).symm, rfl, rfl⟩
    simp [hnone r hr]

lemma Inv.register (h : s.Inv) {node : String} {incarnation : Digest}
    (hr : registerIncarnation node incarnation s = .ok () t) : t.Inv ∧ s.Advances t := by
  obtain ⟨_, _, hget, hr⟩ := run_bind.1 hr
  obtain ⟨rfl, rfl⟩ := run_get.1 hget
  split at hr
  · obtain ⟨-, rfl⟩ := run_pure.1 hr
    exact ⟨h, .inl ⟨fun _ => Iff.rfl, rfl⟩⟩
  · simp only [run_bind, run_ofExcept, run_modify] at hr
    obtain ⟨_, _, ⟨hroom, rfl⟩, _, u, hu, rfl⟩ := hr
    obtain ⟨hinv, hadv, _, hsame, _⟩ := h.discard hu
    refine ⟨{ hinv with
      nodes := nodup_put hinv.nodes
      nodes_le := ?_
      valid := fun r hr => ⟨(hinv.valid r hr).1, checkIncarnation_ok.2 ?_⟩ }, hadv⟩
    · -- a node that is new finds room, one that is known is replaced
      show (Keyed.put Prod.fst u.incarnations (node, incarnation)).length ≤ u.maxNodes
      rw [hsame]
      have hlen := (put_perm (a := (node, incarnation)) h.nodes).length_eq
      have hle := h.nodes_le
      cases hget : get? Prod.fst s.incarnations node <;> simp [hget] at hroom hlen <;> omega
    · -- what is kept of the node is from its new process
      have hold := checkIncarnation_ok.1 (hinv.valid r hr).2
      rw [get?_eq_some hinv.nodes] at hold
      rw [get?_eq_some (nodup_put hinv.nodes), mem_put]
      simp_all [Prod.ext_iff]
      tauto

lemma land_ok {replacing : ℕ} : land obs replacing s = .ok outcome t ↔
      (replacing = 0 → s.records.length < s.maxRecords) ∧
      s.retained - replacing + obs.heapBytes < 2 ^ 64 ∧
      s.retained - replacing + obs.heapBytes ≤ s.maxBytes ∧ s.epoch + 1 < 2 ^ 64 ∧
      .landed = outcome ∧ { s with
        retained := s.retained - replacing + obs.heapBytes
        records := Keyed.put (·.key) s.records obs
        epoch := s.epoch + 1 } = t := by
  simp only [land, run_bind, run_get, run_ofExcept, run_modify, run_pure, checkBounds, bind_ok,
    refuseIf_ok, nextEpoch_ok, decide_eq_false_iff_not, not_and, not_le, not_lt]
  constructor
  · rintro ⟨_, _, ⟨rfl, rfl⟩, _, _, ⟨⟨-, hrecs, -, hlt, -, hbytes, rfl, hep⟩, rfl⟩, -, _, rfl, -, _, rfl,
      -, _, rfl, rfl, rfl⟩
    exact ⟨hrecs, hlt, hbytes, hep, rfl, rfl⟩
  · rintro ⟨hrecs, hlt, hbytes, hep, rfl, rfl⟩
    exact ⟨s, s, ⟨rfl, rfl⟩, _, s, ⟨⟨(), hrecs, (), hlt, (), hbytes, rfl, hep⟩, rfl⟩, ⟨⟩, _, rfl, ⟨⟩, _,
      rfl, ⟨⟩, _, rfl, rfl, rfl⟩

/-- A report that lands is not stored yet, and the one it replaces is of an older window. -/
lemma Inv.land (h : s.Inv)
    (hvalid : s.checkCohort obs = .ok () ∧ s.checkIncarnation obs.reporter = .ok ())
    (hnew : obs ∉ s.records)
    (hland : land obs (((get? (·.key) s.records obs.key).toList.map (·.heapBytes)).sum) s =
      .ok outcome t) : t.Inv ∧ s.Advances t := by
  obtain ⟨hrecs, hlt, hbytes, hep, -, rfl⟩ := land_ok.1 hland
  have hperm := put_perm (a := obs) h.keys
  have hsum := (hperm.map (·.heapBytes)).sum_eq
  have hlen := hperm.length_eq
  have hcharged := h.charged
  have hle := h.records_le
  have hcost := h.length_le
  refine ⟨{
    keys := nodup_put h.keys
    nodes := h.nodes
    charged := ?_
    records_le := ?_
    bytes_le := hbytes
    nodes_le := h.nodes_le
    valid := fun r hr => ?_
    retained_lt := hlt
    epoch_lt := hep
    length_le := ?_ }, .inr ⟨fun hsame => hnew ((hsame obs).1 ?_), rfl⟩⟩
  · have hobs : obs.heapBytes ≤ ((Keyed.put (·.key) s.records obs).map (·.heapBytes)).sum := by
      simp [Keyed.put]
    simp only [map_append, sum_append, map_cons, sum_cons] at hsum ⊢
    omega
  · dsimp only
    cases hget : get? (·.key) s.records obs.key with
    | none => simp [hget] at hrecs hlen; omega
    | some stored => simp [hget] at hlen; omega
  · rcases mem_put.1 hr with ⟨hr, -⟩ | rfl
    · exact h.valid r hr
    · exact hvalid
  · simp only [length_append, length_cons] at hlen ⊢
    omega
  · exact mem_put.2 (.inr rfl)

lemma Inv.ingest (h : s.Inv) (hi : ingest obs s = .ok outcome t) :
    t.Inv ∧ s.Advances t := by
  simp only [ObservationStore.ingest, run_bind, run_get, run_ofExcept] at hi
  obtain ⟨_, _, ⟨rfl, rfl⟩, _, _, ⟨hcohort, rfl⟩, _, _, ⟨hinc, rfl⟩, hi⟩ := hi
  have hkept : s.Inv ∧ s.Advances s := ⟨h, .inl ⟨fun _ => Iff.rfl, rfl⟩⟩
  cases hget : get? (·.key) s.records obs.key with
  | none =>
    simp only [hget] at hi
    refine h.land ⟨hcohort, hinc⟩ (fun hmem => ?_) (by rw [hget]; exact hi)
    exact get?_eq_none.1 hget obs hmem rfl
  | some stored =>
    simp only [hget] at hi
    split at hi
    · simp only [run_bind, run_ofExcept, run_pure] at hi
      obtain ⟨_, _, ⟨-, rfl⟩, -, rfl⟩ := hi
      exact hkept
    · next hwindow =>
      split at hi
      · obtain ⟨-, rfl⟩ := run_pure.1 hi
        exact hkept
      · refine h.land ⟨hcohort, hinc⟩ (fun hmem => hwindow ?_) (by rw [hget]; simpa using hi)
        rw [Option.some.inj (hget.symm.trans ((get?_eq_some h.keys).2 ⟨hmem, rfl⟩))]

lemma Inv.next (h : s.Inv) (call : Call) : (s.next call).Inv ∧ s.Advances (s.next call) := by
  unfold ObservationStore.next
  cases hok : attempt call s with
  | error e t =>
    obtain rfl := clean_attempt call s e t hok
    exact ⟨h, .inl ⟨fun _ => Iff.rfl, rfl⟩⟩
  | ok _ t =>
    cases call with
    | register node incarnation => exact h.register hok
    | expire now maxAge =>
      obtain ⟨n, _, hd, hok⟩ := run_bind.1 hok
      obtain ⟨-, rfl⟩ := run_pure.1 hok
      obtain ⟨hinv, hadv, -⟩ := h.discard hd
      exact ⟨hinv, hadv⟩
    | ingest obs =>
      obtain ⟨outcome, _, hi, hok⟩ := run_bind.1 hok
      obtain ⟨-, rfl⟩ := run_pure.1 hok
      exact h.ingest hi

lemma inv_fresh (s : ObservationStore) : s.fresh.Inv := by
  constructor <;> simp [fresh]

lemma forM_restoreReporter {rest : List (String × Digest)} (hempty : s.records = [])
    (hnodes : ((s.incarnations ++ rest).map Prod.fst).Nodup)
    (hle : (s.incarnations ++ rest).length ≤ s.maxNodes) :
    rest.forM restoreReporter s = .ok () { s with incarnations := s.incarnations ++ rest } := by
  induction rest generalizing s with
  | nil => simp [pure, EStateM.pure]
  | cons r rest ih =>
    have hnone := get?_eq_none_of_nodup hnodes
    have hput := put_of_get?_eq_none hnone
    have hroom : decide (s.maxNodes ≤ s.incarnations.length) = false := by
      simp at hle ⊢
      omega
    have hdiscard (doomed) : discard doomed s = .ok 0 s := by
      refine run_bind.2 ⟨s, s, run_get.2 ⟨rfl, rfl⟩, ?_⟩
      simp only [hempty, any_nil, Bool.false_eq_true, if_false]
      rfl
    have hstep : restoreReporter r s = .ok () { s with incarnations := s.incarnations ++ [r] } := by
      refine run_adaptExcept.2 (run_bind.2 ⟨s, s, run_get.2 ⟨rfl, rfl⟩, ?_⟩)
      simp only [hnone, hroom, reduceCtorEq, if_false, Bool.and_false, refuseIf_false]
      exact run_bind.2 ⟨(), s, rfl, run_bind.2 ⟨0, s, hdiscard _, run_modify.2 (by rw [hput])⟩⟩
    refine run_forM_cons.2 ⟨(), _, hstep, ?_⟩
    simpa using ih (s := { s with incarnations := s.incarnations ++ [r] }) hempty (by simpa using hnodes)
      (by simpa using hle)

/-- The store with one more record. -/
def extended (s : ObservationStore) (obs : PartitionObservation) : ObservationStore :=
  { s with retained := s.retained + obs.heapBytes, records := s.records ++ [obs], epoch := s.epoch + 1 }

lemma forM_restore {rest : List PartitionObservation}
    (hkeys : ((s.records ++ rest).map (·.key)).Nodup)
    (hrecs : (s.records ++ rest).length ≤ s.maxRecords)
    (hbytes : s.retained + (rest.map (·.heapBytes)).sum ≤ s.maxBytes)
    (hlt : s.retained + (rest.map (·.heapBytes)).sum < 2 ^ 64) (hep : s.epoch + rest.length < 2 ^ 64)
    (hvalid : ∀ r ∈ rest, s.checkCohort r = .ok () ∧ s.checkIncarnation r.reporter = .ok ()) :
    ∃ t, rest.forM restore s = .ok () t ∧ t.records = s.records ++ rest := by
  induction rest generalizing s with
  | nil => exact ⟨s, rfl, (append_nil _).symm⟩
  | cons r rest ih =>
    obtain ⟨⟨hcohort, hinc⟩, hrest⟩ := forall_mem_cons.1 hvalid
    have hnone := get?_eq_none_of_nodup hkeys
    simp only [length_append, map_cons, sum_cons, length_cons] at *
    have hland : land r 0 s = .ok .landed (s.extended r) :=
      land_ok.2 ⟨fun _ => by omega, by omega, by omega, by omega, rfl, by
        rw [put_of_get?_eq_none hnone, Nat.sub_zero, extended]⟩
    have hingest : ingest r s = .ok .landed (s.extended r) := by
      refine run_bind.2 ⟨s, s, run_get.2 ⟨rfl, rfl⟩, ?_⟩
      rw [hcohort, hinc]
      refine run_bind.2 ⟨(), s, rfl, run_bind.2 ⟨(), s, rfl, ?_⟩⟩
      rw [hnone]
      exact hland
    have hstep : restore r s = .ok () (s.extended r) :=
      run_bind.2 ⟨.landed, _, run_adaptExcept.2 hingest, rfl⟩
    have hext : ∃ t, rest.forM restore (s.extended r) = .ok () t ∧
        t.records = (s.extended r).records ++ rest := by
      refine ih (by simpa [extended] using hkeys) ?_ ?_ ?_ ?_ hrest
      all_goals
        simp [extended]
        omega
    exact hext.imp fun t ht =>
      ⟨run_forM_cons.2 ⟨(), _, hstep, ht.1⟩, by simpa [extended] using ht.2⟩

variable (s) in
/-- What the store keeps to, whatever it is called with. -/
structure Kept : Prop where
  charged : s.retained = (s.records.map (·.heapBytes)).sum
  bounded : s.records.length ≤ s.maxRecords ∧ s.retained ≤ s.maxBytes ∧ s.incarnations.length ≤ s.maxNodes
  advances : ∀ call, s.Advances (s.next call)
  refused : ∀ call e t, attempt call s = .error e t → t = s
  /-- The reporters and the rows land again in any order, the rows with no more allocated than they
  were charged for. -/
  rebuilt : ∀ reporters rows allocated, reporters.Perm s.incarnations → List.Perm rows s.records →
    (∀ r : PartitionObservation, allocated r ≤ r.capacity) →
    ∃ t, rebuild reporters (rows.map (.reallocated allocated)) s.fresh = .ok () t

open PartitionObservation

lemma Inv.rebuild (h : s.Inv) {reporters : List (String × Digest)} {rows : List PartitionObservation}
    {allocated : PartitionObservation → ℕ} (hreps : reporters.Perm s.incarnations)
    (hrows : rows.Perm s.records) (hallocated : ∀ r, allocated r ≤ r.capacity) :
    ∃ t, rebuild reporters (rows.map (.reallocated allocated)) s.fresh = .ok () t := by
  have hnodes := (hreps.map _).nodup_iff.2 h.nodes
  have hbytes : ((rows.map (reallocated allocated)).map (·.heapBytes)).sum ≤ s.retained := by
    rw [h.charged, ← (hrows.map _).sum_eq, map_map]
    refine sum_le_sum fun r _ => ?_
    have := hallocated r
    simp only [Function.comp_apply, heapBytes, reallocated]
    omega
  have hlen := hrows.length_eq
  have hregistered : reporters.forM restoreReporter s.fresh =
      .ok () { s.fresh with incarnations := reporters } :=
    forM_restoreReporter rfl hnodes (hreps.length_eq ▸ h.nodes_le)
  refine (forM_restore ?_ ?_ ?_ ?_ ?_ fun r hr => ?_).imp fun _ ht =>
    run_bind.2 ⟨(), _, hregistered, ht.1⟩
  · simpa [fresh, Function.comp_def, reallocated] using (hrows.map _).nodup_iff.2 h.keys
  · simpa [fresh, hlen] using h.records_le
  · simpa [fresh] using hbytes.trans h.bytes_le
  · simpa [fresh] using hbytes.trans_lt h.retained_lt
  · simpa [fresh, hlen] using h.length_le.trans_lt h.epoch_lt
  · obtain ⟨row, hrow, rfl⟩ := mem_map.1 hr
    obtain ⟨hcohort, hinc⟩ := h.valid row (hrows.mem_iff.1 hrow)
    refine ⟨hcohort, checkIncarnation_ok.2 ((get?_eq_some hnodes).2 ?_)⟩
    have hheld := (get?_eq_some h.nodes).1 (checkIncarnation_ok.1 hinc)
    exact ⟨hreps.mem_iff.2 hheld.1, rfl⟩

end ObservationStore

/-- **The store of observations keeps its account**, after every sequence of calls on a fresh one. -/
theorem observations_kept (s : ObservationStore) (calls : List ObservationStore.Call) :
    (Runs.run ObservationStore.next s.fresh calls).Kept := by
  have h : (Runs.run ObservationStore.next s.fresh calls).Inv :=
    Runs.run_past (I := fun _ => ObservationStore.Inv) s.inv_fresh fun _ call hs => (hs.next call).1
  refine ⟨h.charged, ⟨h.records_le, h.bytes_le, h.nodes_le⟩, fun call => (h.next call).2,
    fun call => ObservationStore.clean_attempt call _, fun _ _ _ => h.rebuild⟩

end ProtomoltSearch.Capacity
