import ProtomoltSearch.Coordinator.Fanout

/-!
# Streamed search

`fanout_stream_search` of `coordinator.rs`: shards stream every candidate at or above the floor
they know of, and the coordinator keeps the `k` best of all that arrive in one bounded heap. When
the heap is full, one step below its worst score is pushed to the shards as the new floor.

* `Scanned` is what holds after every prefix of a run.
* `fanoutStreamSearch_exact`: in every run in which the shards complete, the answer is the `k` best
  of the union, and the pushed floors rise strictly and stay below the `k`-th best.
-/

namespace ProtomoltSearch.Coordinator

open TopK FloorStream List

variable {Identity : Type}

/-- A candidate of a batch: its global id and its score. -/
abbrev Candidate := U64 × F32

structure ScanState where
  heap : List MergedHit
  summaries : ℕ → Option StreamSearchSummary
  remaining : ℕ
  lastFloor : F32
  pushed : List F32
  fingerprint : Option String
  known : FilterKnown

structure ScoredHit (Identity : Type) where
  vectorId : U64
  score : F32
  parentId : U64
  identity : Option Identity

structure StreamFanoutResult (Identity : Type) where
  hits : List (ScoredHit Identity)
  summaries : List (Option StreamSearchSummary)
  floorsSent : ℕ

/-- The largest number of rows an identity exchange asks for. -/
def maxIdentityRows : ℕ := 1000000

section

variable (c : Fanout Identity)

variable (initialFloor : Option F32) (st : ScanState) (shard : ℕ)
  (queue : List (ℕ × Item Candidate Identity))

/-- The state before the first message. -/
def scanStart : ScanState where
  heap := []
  summaries := c.initialSummaries
  remaining := c.consulted.length
  lastFloor := initialFloor.getD F32.negInf
  pushed := []
  fingerprint := none
  known := filterKnown c.filters c.mask

/-- Push one step below the worst score of a full heap, when that is a raise. -/
def raiseFloor : ScanState :=
  if st.heap.length = c.k then
    match peek st.heap with
    | some kth =>
      let floor := kth.score.nextDown
      if st.lastFloor.val < floor.val then
        { st with lastFloor := floor, pushed := st.pushed ++ [floor] }
      else st
    | none => st
  else st

def takeBatch (b : Packed Candidate) : Except Status ScanState := do
  refuseIf (st.summaries shard).isSome (.internal "candidate batch after IdentityReady")
  refuseIf (b.bytes 12 % 12 != 0)
    (.internal ("shard " ++ toString shard ++ " sent a misaligned batch of " ++
      toString (b.bytes 12) ++ " bytes"))
  let heap := b.records.foldl (fun h r => offer cmpHits c.k h ⟨r.1, shard, r.2⟩) st.heap
  return raiseFloor c { st with heap := heap }

/-- A scan certificate. -/
def takeReady (scan : Option StreamSearchSummary) : Except Status ScanState := do
  refuseIf (st.summaries shard).isSome (.internal "duplicate IdentityReady")
  match scan with
  | none => throw (.internal "IdentityReady has no scan certificate")
  | some summary =>
    refuseIf (!summary.completed)
      (.internal ("shard " ++ toString shard ++ " stopped before completing its scan"))
    refuseIf summary.scoringFingerprint.isEmpty
      (.failedPrecondition ("shard " ++ toString shard ++
        " completed without a vector scoring fingerprint"))
    refuseIf (st.fingerprint.any (· != summary.scoringFingerprint))
      (.failedPrecondition ("shard " ++ toString shard ++ " vector scoring fingerprint " ++
        summary.scoringFingerprint ++ " differs from " ++ st.fingerprint.getD ""))
    let known ← st.known.mergeShard shard summary.geoColumnsKnown summary.filterColumnsKnown
    let summaries := Function.update st.summaries shard (some summary)
    return { st with
      fingerprint := some (st.fingerprint.getD summary.scoringFingerprint)
      known := known
      summaries := summaries
      remaining := st.remaining - 1 }

/-- One item of the queue. A stream may only close once its terminal summary is in, which no
consulted shard sends during the scan. -/
def scanStep : Item Candidate Identity → Except Status ScanState
  | .message (some (.batch b)) => takeBatch c st shard b
  | .message (some (.identityReady scan)) => takeReady st shard scan
  | .message (some (.summary _)) =>
    .error (.failedPrecondition
      "stream ended without snapshot-bound identity support or completion")
  | .message _ => .error (.internal "unexpected message before IdentityReady")
  | .closed =>
    if (c.initialSummaries shard).isNone then .error (Fanout.closedStatus shard) else .ok st
  | .failed e => .error (c.failedStatus shard e)

/-- The loop over the queue: the state at its end, and the items it did not read. -/
def scanLoop : Except Status (ScanState × List (ℕ × Item Candidate Identity)) :=
  Consumer.loop (fun st a => scanStep c st a.1 a.2) (fun st => st.remaining == 0)
    Fanout.endedStatus st queue

/-- The floors pushed while the loop reads these items. -/
def pushedBy : List F32 :=
  Consumer.trace (fun st a => scanStep c st a.1 a.2) (fun st => st.remaining == 0)
    ScanState.pushed st queue

/-- The streamed search over the items of the merged queue. -/
def fanoutStreamSearch : Except Status (StreamFanoutResult Identity) := do
  refuseIf (c.nodes == 0) (.failedPrecondition "no shard nodes configured")
  if c.k = 0 then
    refuseIf c.isScoped (.invalidArgument "a scoped vector scan requires positive k")
    return ⟨[], [], 0⟩
  refuseIf (maxIdentityRows < c.k)
    (.invalidArgument ("identity limits require max_rows=1..1000000, " ++
      "max_response_bytes=1..67108864, timeout_ms=1..60000"))
  let (st, rest) ← scanLoop c (scanStart c initialFloor) queue
  st.known.refuseUnknown c.filters
  let all := sortBy cmpHits st.heap
  let identities ← resolveIdentities c all st.summaries rest
  return {
    hits := all.map fun h => ⟨h.vectorId, h.score, ⟨0, U64.zero_lt⟩,
      (identities (h.shard, h.vectorId)).bind id⟩
    summaries := (List.range c.nodes).map st.summaries
    floorsSent := st.pushed.length }

end

/-! ## Runs -/

/-- A hit of the global ranking from a shard's candidate. -/
def hitOf (x : ℕ × Candidate) : MergedHit := ⟨x.2.1, x.1, x.2.2⟩

/-- The hits of a log, in arrival order. -/
def arrived (log : List (ℕ × Msg Candidate)) : List MergedHit := (received log).map hitOf

/-- The candidates of all consulted shards. -/
def union (c : Fanout Identity) (all : ℕ → List Candidate) : List MergedHit :=
  (c.consulted.flatMap fun i => (all i).map (i, ·)).map hitOf

/-- A message of the protocol as the shards send it: whole records in a batch, and the
certificate at the end of the scan. -/
def wire (cert : ℕ → StreamSearchSummary) (a : ℕ × Msg Candidate) : ℕ × Item Candidate Identity :=
  (a.1, match a.2 with
    | .batch xs => .message (some (.batch ⟨xs, 0⟩))
    | .done => .message (some (.identityReady (some (cert a.1)))))

/-- The shards complete: each certifies a completed scan, all under one scoring fingerprint, and
their answers to the handshake are accepted. -/
structure Completes (c : Fanout Identity) (cert : ℕ → StreamSearchSummary) (fp : String) :
    Prop where
  completed : ∀ i ∈ c.consulted, (cert i).completed = true
  nonempty : fp.isEmpty = false
  fingerprint : ∀ i ∈ c.consulted, (cert i).scoringFingerprint = fp
  accepted : Accepted c.filters c.mask c.consulted fun i => (cert i).flags

/-- The floors pushed after a log, by their values. -/
def pushes (c : Fanout Identity) (cert : ℕ → StreamSearchSummary) (initialFloor : Option F32)
    (log : List (ℕ × Msg Candidate)) : List ℤ :=
  (pushedBy c (scanStart c initialFloor) (log.map (wire cert))).map F32.val

/-- The score floors are compared with. -/
def candidateScore (x : Candidate) : ℤ := x.2.val

section

variable {c : Fanout Identity}

lemma pushed_subset_raiseFloor (st : ScanState) : st.pushed ⊆ (raiseFloor c st).pushed := by
  unfold raiseFloor
  split
  · split
    · dsimp only
      split
      · exact subset_append_left _ _
      · exact List.Subset.refl _
    · exact List.Subset.refl _
  · exact List.Subset.refl _

/-- A step takes no pushed floor back. -/
lemma pushed_subset_scanStep {st st' : ScanState} {shard : ℕ} {item : Item Candidate Identity}
    (h : scanStep c st shard item = .ok st') : st.pushed ⊆ st'.pushed := by
  unfold scanStep at h
  split at h
  · obtain ⟨_, _, h⟩ := rest₂_ok h
    obtain rfl := pure_ok.1 h
    refine List.Subset.trans ?_ (pushed_subset_raiseFloor _)
    exact List.Subset.refl st.pushed
  · obtain ⟨_, h⟩ := rest_ok h
    split at h
    · exact absurd h (by simp)
    · obtain ⟨_, -, _, -, h⟩ := bind₂_ok.1 h
      obtain ⟨_, -, known, -, h⟩ := bind₂_ok.1 h
      obtain rfl := pure_ok.1 h
      exact List.Subset.refl _
  · cases h
  · cases h
  · split at h
    · cases h
    · cases h
      exact List.Subset.refl _
  · cases h

/-- Pushed floors are never taken back. -/
lemma pushes_mono (cert : ℕ → StreamSearchSummary) (initialFloor : Option F32)
    (log : List (ℕ × Msg Candidate)) (a : ℕ × Msg Candidate) :
    pushes c cert initialFloor log ⊆ pushes c cert initialFloor (log ++ [a]) := by
  rw [pushes, pushes, map_append]
  exact map_subset _
    (Consumer.trace_subset_append (fun _ _ _ hs => pushed_subset_scanStep hs) _ _ _)

end

/-! ## The invariant of the scan -/

variable {c : Fanout Identity} {cert : ℕ → StreamSearchSummary} {fp : String}
  {log : List (ℕ × Msg Candidate)} {st : ScanState}

variable (c cert fp) in
/-- After a prefix of a run: the heap holds the `k` best of what arrived, and the pushed floors
rose strictly and are all below the `k`-th best of it. -/
structure Scanned (log : List (ℕ × Msg Candidate)) (st : ScanState) : Prop where
  heap : st.heap = topK cmpHits c.k (arrived log)
  summaries : st.summaries = fun i => if closed log i then some (cert i) else c.initialSummaries i
  remaining : st.remaining = openCount c.consulted log
  fingerprint : ∀ f ∈ st.fingerprint, f = fp
  known : ∃ answered, Merged c.filters c.mask (fun i => (cert i).flags) answered st.known ∧
    ∀ i, closed log i = true → i ∈ answered
  increasing : (st.pushed.map F32.val).Pairwise (· < ·)
  le_last : ∀ f ∈ st.pushed, f.val ≤ st.lastFloor.val
  below : ∀ f ∈ st.pushed,
    0 < c.k ∧ ∃ w, kthBest cmpHits c.k (arrived log) = some w ∧ f.val < w.score.val

lemma scanned_start (initialFloor : Option F32) :
    Scanned c cert fp [] (scanStart c initialFloor) where
  heap := by simp [scanStart, arrived]
  summaries := by simp [scanStart]
  remaining := by simp [scanStart, openCount]
  fingerprint := by simp [scanStart]
  known := ⟨[], merged_filterKnown _ _ _, by simp⟩
  increasing := by simp [scanStart]
  le_last := by simp [scanStart]
  below := by simp [scanStart]

section

variable (log : List (ℕ × Msg Candidate)) (i : ℕ)

lemma arrived_snoc_batch (xs : List Candidate) :
    arrived (log ++ [(i, .batch xs)]) = arrived log ++ xs.map fun x => hitOf (i, x) := by
  rw [arrived, received_snoc, map_append, map_map]
  rfl

lemma arrived_snoc_done : arrived (log ++ [(i, .done)]) = arrived log := by
  simp [arrived, received_snoc, Msg.items]

end

/-- A raise pushes one step below the `k`-th best of what the heap was offered. -/
lemma raiseFloor_cases (st : ScanState) {l : List MergedHit}
    (hheap : st.heap = topK cmpHits c.k l) :
    raiseFloor c st = st ∨ 0 < c.k ∧ ∃ w, kthBest cmpHits c.k l = some w ∧
      st.lastFloor.val < w.score.nextDown.val ∧
      raiseFloor c st =
        { st with lastFloor := w.score.nextDown, pushed := st.pushed ++ [w.score.nextDown] } := by
  unfold raiseFloor
  split
  · next hlen =>
    rcases Nat.eq_zero_or_pos c.k with hk | hk
    · -- without `k` the heap stays empty and has no worst entry
      rw [hk] at hheap
      rw [hheap]
      exact .inl rfl
    · have hl : c.k ≤ l.length := by
        rw [hheap, length_topK] at hlen
        omega
      rw [hheap, peek_topK hk hl]
      obtain ⟨w, -, hw⟩ := kthBest_eq_some hk hl
      rw [hw]
      dsimp only
      split
      · next hlt => exact .inr ⟨hk, w, rfl, hlt, rfl⟩
      · exact .inl rfl
  · exact .inl rfl

lemma Scanned.batch (h : Scanned c cert fp log st) {i : ℕ}
    (hi : i ∈ c.consulted) (hopen : closed log i = false) (xs : List Candidate) :
    ∃ st', scanStep c st i (wire cert (i, .batch xs)).2 = .ok st' ∧
      Scanned c cert fp (log ++ [(i, .batch xs)]) st' := by
  have hnone : st.summaries i = none := by
    rw [h.summaries]
    simp [hopen, Fanout.initialSummaries_of_mem hi]
  have haligned : (Packed.mk xs 0).bytes 12 % 12 = 0 := by simp [Packed.bytes]
  have hheap : xs.foldl (fun h r => offer cmpHits c.k h ⟨r.1, i, r.2⟩) st.heap =
      topK cmpHits c.k (arrived (log ++ [(i, .batch xs)])) := by
    rw [arrived_snoc_batch, h.heap, ← foldl_offer, foldl_map]
    rfl
  have hstep : scanStep c st i (wire cert (i, .batch xs)).2 =
      .ok (raiseFloor c { st with heap := topK cmpHits c.k (arrived (log ++ [(i, .batch xs)])) }) := by
    simp only [wire, scanStep, takeBatch, hnone, haligned, hheap]
    rfl
  have hbelow : ∀ f ∈ st.pushed, 0 < c.k ∧ ∃ w,
      kthBest cmpHits c.k (arrived (log ++ [(i, .batch xs)])) = some w ∧ f.val < w.score.val := by
    intro f hf
    obtain ⟨hk, w, hw, hfw⟩ := h.below f hf
    obtain ⟨w', hw', hle⟩ := exists_kthBest_append ranksByScore_cmpHits hk hw
      (xs.map fun x => hitOf (i, x))
    exact ⟨hk, w', by rw [arrived_snoc_batch]; exact hw', hfw.trans_le hle⟩
  have hsame : Scanned c cert fp (log ++ [(i, .batch xs)])
      { st with heap := topK cmpHits c.k (arrived (log ++ [(i, .batch xs)])) } :=
    { heap := rfl
      summaries := by simp only [closed_snoc_batch]; exact h.summaries
      remaining := by rw [openCount_snoc_batch]; exact h.remaining
      fingerprint := h.fingerprint
      known := by simp only [closed_snoc_batch]; exact h.known
      increasing := h.increasing
      le_last := h.le_last
      below := hbelow }
  refine ⟨_, hstep, ?_⟩
  rcases raiseFloor_cases
      { st with heap := topK cmpHits c.k (arrived (log ++ [(i, .batch xs)])) } rfl with
    hr | ⟨hk, w, hw, hlt, hr⟩
  · rw [hr]
    exact hsame
  · rw [hr]
    exact
      { heap := rfl
        summaries := hsame.summaries
        remaining := hsame.remaining
        fingerprint := h.fingerprint
        known := hsame.known
        increasing := by
          rw [map_append, pairwise_append]
          refine ⟨h.increasing, by simp, ?_⟩
          intro a ha b hb
          obtain ⟨f, hf, rfl⟩ := mem_map.1 ha
          obtain rfl : b = w.score.nextDown.val := by simpa using hb
          exact (h.le_last f hf).trans_lt hlt
        le_last := by
          intro f hf
          rcases mem_append.1 hf with hf | hf
          · exact (h.le_last f hf).trans hlt.le
          · rw [mem_singleton.1 hf]
        below := by
          intro f hf
          rcases mem_append.1 hf with hf | hf
          · exact hbelow f hf
          · rw [mem_singleton.1 hf]
            exact ⟨hk, w, hw, F32.nextDown_val_lt_of_lt hlt⟩ }

section

variable (hcert : Completes c cert fp) (h : Scanned c cert fp log st) {i : ℕ} (hi : i ∈ c.consulted)
  (hopen : closed log i = false)

include hcert h hi hopen

lemma Scanned.done : ∃ st', scanStep c st i (wire cert (i, .done)).2 = .ok st' ∧
      Scanned c cert fp (log ++ [(i, .done)]) st' := by
  have hnone : st.summaries i = none := by
    rw [h.summaries]
    simp [hopen, Fanout.initialSummaries_of_mem hi]
  have hfp := hcert.fingerprint i hi
  have hany : st.fingerprint.any (· != fp) = false := by
    rw [Option.any_eq_false]
    intro f hf
    simp [h.fingerprint f hf]
  obtain ⟨answered, hmerged, hans⟩ := h.known
  obtain ⟨known, hknown, hmerged'⟩ := hmerged.mergeShard (hcert.accepted.geo_length i hi)
    (hcert.accepted.tree_length i hi)
  have hstep : scanStep c st i (wire cert (i, .done)).2 =
      .ok { st with
        fingerprint := some (st.fingerprint.getD fp)
        known := known
        summaries := Function.update st.summaries i (some (cert i))
        remaining := st.remaining - 1 } := by
    have hknown' : st.known.mergeShard i (cert i).geoColumnsKnown (cert i).filterColumnsKnown =
        .ok known := hknown
    simp only [wire, scanStep, takeReady, hnone, hcert.completed i hi, hfp, hcert.nonempty, hany,
      hknown']
    rfl
  refine ⟨_, hstep, ?_⟩
  exact
    { heap := by rw [arrived_snoc_done]; exact h.heap
      summaries := update_noted h.summaries
      remaining := by
        have := openCount_snoc_done c.nodup_consulted hi hopen
        have hr := h.remaining
        show st.remaining - 1 = _
        omega
      fingerprint := by
        rintro f hf
        obtain rfl : st.fingerprint.getD fp = f := by simpa using hf
        cases hs : st.fingerprint with
        | none => rfl
        | some g => exact h.fingerprint g hs
      known := ⟨i :: answered, hmerged', fun j => mem_cons_of_closed_snoc hans⟩
      increasing := h.increasing
      le_last := h.le_last
      below := by rw [arrived_snoc_done]; exact h.below }

/-- One message keeps the invariant. -/
lemma Scanned.step (m : Msg Candidate) : ∃ st', scanStep c st i (wire cert (i, m)).2 = .ok st' ∧
      Scanned c cert fp (log ++ [(i, m)]) st' := by
  cases m with
  | batch xs => exact h.batch hi hopen xs
  | done => exact h.done hcert hi hopen

end

/-- **Every orderly log is read to its end**, by the loop and by the account of its pushes. -/
theorem scan_run (hcert : Completes c cert fp) (initialFloor : Option F32)
    (log : List (ℕ × Msg Candidate)) (hlog : Orderly c.consulted log) :
    ∃ st, Scanned c cert fp log st ∧ ∀ rest,
      scanLoop c (scanStart c initialFloor) (log.map (wire cert) ++ rest) = scanLoop c st rest ∧
      pushedBy c (scanStart c initialFloor) (log.map (wire cert) ++ rest) = pushedBy c st rest := by
  induction log using List.reverseRecOn with
  | nil => exact ⟨_, scanned_start initialFloor, fun rest => ⟨rfl, rfl⟩⟩
  | append_singleton log a ih =>
    obtain ⟨i, m⟩ := a
    obtain ⟨hlog, hi, hopen⟩ := hlog.snoc
    obtain ⟨st, hst, hrun⟩ := ih hlog
    obtain ⟨st', hstep, hst'⟩ := hst.step hcert hi hopen m
    refine ⟨st', hst', fun rest => ?_⟩
    have hrem : (st.remaining == 0) = false := by
      rw [hst.remaining]
      simpa using (openCount_pos hi hopen).ne'
    obtain ⟨hloop, hpush⟩ := hrun (wire cert (i, m) :: rest)
    rw [map_append, append_assoc, map_singleton, singleton_append, hloop, hpush]
    constructor
    · apply Consumer.loop_cons_of_ok
      · exact hrem
      · exact hstep
    · apply Consumer.trace_cons_of_ok
      · exact hrem
      · exact hstep

/-! ## Exactness -/

def scans (c : Fanout Identity) (cert : ℕ → StreamSearchSummary) (i : ℕ) :
    Option StreamSearchSummary :=
  if i ∈ c.consulted then some (cert i) else c.initialSummaries i

/-- The call from the end of a completed scan on. -/
lemma fanoutStreamSearch_eq (hcert : Completes c cert fp) (hnodes : 0 < c.nodes)
    (hpos : 0 < c.k) (hmax : c.k ≤ maxIdentityRows) {initialFloor : Option F32}
    (hst : Scanned c cert fp log st) (hrem : st.remaining = 0)
    (hclosed : ∀ i, closed log i = true ↔ i ∈ c.consulted)
    {items queue : List (ℕ × Item Candidate Identity)}
    (hloop : scanLoop c (scanStart c initialFloor) items = scanLoop c st queue)
    {best : List MergedHit} (hbest : sortBy cmpHits st.heap = best)
    {identities : ℕ × U64 → Option (Option Identity)}
    (hres : resolveIdentities c best (scans c cert) queue = .ok identities) :
    fanoutStreamSearch c initialFloor items = .ok {
        hits := best.map fun h => ⟨h.vectorId, h.score, ⟨0, U64.zero_lt⟩,
          (identities (h.shard, h.vectorId)).bind id⟩
        summaries := (List.range c.nodes).map (scans c cert)
        floorsSent := st.pushed.length } := by
  have hsums : st.summaries = scans c cert := by
    rw [hst.summaries]
    funext i
    simp only [hclosed, scans]
  have hknown : st.known.refuseUnknown c.filters = .ok () := by
    obtain ⟨answered, hmerged, hans⟩ := hst.known
    exact hmerged.refuseUnknown hcert.accepted fun i hi => hans i ((hclosed i).2 hi)
  have hend : scanLoop c st queue = .ok (st, queue) :=
    Consumer.loop_of_stop (by simpa using hrem) queue
  have hnodes' : (c.nodes == 0) = false := by simpa using hnodes.ne'
  have hmax' : decide (maxIdentityRows < c.k) = false := by simpa using hmax
  rw [fanoutStreamSearch, hnodes', hmax', if_neg hpos.ne', hloop, hend]
  simp only [refuseIf_false, ok_bind, hknown, hbest, hsums, hres]
  rfl

/-- **The answer of a streamed search is exact.** In every run of the protocol in which every
consulted shard emits what scores at or above its floor and completes, and the identity exchange
that follows succeeds, the search returns the `k` best of all candidates in the order of the
hits. The floors it pushes rise strictly, and stay below the score of the `k`-th best. A floor
given at the start is one that `k` candidates reach. -/
theorem fanoutStreamSearch_exact (hcert : Completes c cert fp) (hnodes : 0 < c.nodes)
    (hscoped : c.k = 0 → c.isScoped = false) (hmax : c.k ≤ maxIdentityRows)
    (initialFloor : Option F32) (all : ℕ → List Candidate)
    (hfloor : ∀ f ∈ initialFloor, IsFloor (·.score.val) c.k (union c all) f.val)
    {n : Net ℕ Candidate ℤ}
    (hrun : Reachable candidateScore (pushes c cert initialFloor) c.consulted all
      (initialFloor.getD F32.negInf).val n)
    (hdone : ∀ i ∈ c.consulted, (i, Msg.done) ∈ n.log)
    (queue : List (ℕ × Item Candidate Identity)) {identities : ℕ × U64 → Option (Option Identity)}
    (hresolve : resolveIdentities c (topK cmpHits c.k (union c all)) (scans c cert) queue =
      .ok identities) :
    (∃ r, fanoutStreamSearch c initialFloor (n.log.map (wire cert) ++ queue) = .ok r ∧
      r.hits = (topK cmpHits c.k (union c all)).map (fun h => ⟨h.vectorId, h.score, ⟨0, U64.zero_lt⟩,
        (identities (h.shard, h.vectorId)).bind id⟩) ∧
      r.floorsSent = (pushes c cert initialFloor n.log).length) ∧
    (pushes c cert initialFloor n.log).Pairwise (· < ·) ∧
    ∀ f ∈ pushes c cert initialFloor n.log,
      ∃ w, kthBest cmpHits c.k (union c all) = some w ∧ f < w.score.val := by
  have horderly := orderly_of_reachable (pushes_mono cert initialFloor) hrun
  obtain ⟨st, hst, hall⟩ := scan_run hcert initialFloor n.log horderly
  have hremaining : st.remaining = 0 := by rw [hst.remaining, openCount_eq_zero hdone]
  have hpushes : pushes c cert initialFloor n.log = st.pushed.map F32.val := by
    have := (hall []).2
    rw [append_nil] at this
    rw [pushes, this]
    rfl
  -- what did not arrive was below a floor that `k` of all the candidates reach
  obtain ⟨dropped, hperm, hbelow⟩ :=
    exists_dropped_of_done (pushes_mono cert initialFloor) c.nodup_consulted hrun hdone
  have hunion : (union c all).Perm (dropped.map hitOf ++ arrived n.log) := by
    rw [arrived, ← map_append]
    exact hperm.map hitOf
  have hsafe : ∀ f ∈ st.pushed, 0 < c.k ∧ ∃ w, kthBest cmpHits c.k (union c all) = some w ∧
      f.val < w.score.val := by
    intro f hf
    obtain ⟨hk, w, hw, hfw⟩ := hst.below f hf
    obtain ⟨w', hw', hle⟩ := exists_kthBest_append ranksByScore_cmpHits hk hw (dropped.map hitOf)
    refine ⟨hk, w', ?_, hfw.trans_le hle⟩
    rw [← hw', kthBest, kthBest, sortBy_eq_of_perm (hunion.trans perm_append_comm)]
  have htop : topK cmpHits c.k (union c all) = topK cmpHits c.k (arrived n.log) := by
    rw [topK_eq_of_perm hunion]
    refine topK_append_of_isFloor ranksByScore_cmpHits fun d hd => ?_
    obtain ⟨x, hx, rfl⟩ := mem_map.1 hd
    obtain ⟨f, hf, hlt⟩ := hbelow x hx
    refine ⟨f, hlt, IsFloor.of_perm ?_ hunion⟩
    rcases mem_cons.1 hf with rfl | hf
    · cases hinit : initialFloor with
      | none =>
        rw [hinit] at hlt
        exact absurd (F32.negInf_val_le x.2.2) (not_le.2 hlt)
      | some f => exact hfloor f hinit
    · rw [hpushes] at hf
      obtain ⟨g, hg, rfl⟩ := mem_map.1 hf
      obtain ⟨hk, w, hw, hgw⟩ := hsafe g hg
      exact (isFloor_kthBest ranksByScore_cmpHits hk hw).anti hgw.le
  refine ⟨?_, hpushes ▸ hst.increasing, fun f hf => ?_⟩
  · rcases Nat.eq_zero_or_pos c.k with hzero | hpos
    · have hnil : st.pushed = [] := eq_nil_iff_forall_not_mem.2 fun f hf =>
        absurd (hst.below f hf).1 (by omega)
      refine ⟨⟨[], [], 0⟩, ?_, by simp [hzero], by simp [hpushes, hnil]⟩
      have hnodes' : (c.nodes == 0) = false := by simpa using hnodes.ne'
      rw [fanoutStreamSearch, hnodes', if_pos hzero, hscoped hzero]
      rfl
    · exact ⟨_, fanoutStreamSearch_eq hcert hnodes hpos hmax hst hremaining
        (horderly.closed_iff hdone) ((hall queue).1) (by rw [hst.heap, sortBy_topK, htop]) hresolve,
        rfl, by rw [hpushes, length_map]⟩
  · rw [hpushes] at hf
    obtain ⟨g, hg, rfl⟩ := mem_map.1 hf
    exact (hsafe g hg).2

/-! ### A run of two shards -/

/-- Two shards, and a request for the best hit. -/
def sampleFanout : Fanout Unit where
  nodes := 2
  k := 1
  filters := ⟨[], none⟩
  mask := none
  isScoped := false
  displayStatus := Status.message
  rowBytes := fun _ => 2
  maxResponseBytes := 33554432

def sampleCert (_ : ℕ) : StreamSearchSummary :=
  { StreamSearchSummary.skipped with scoringFingerprint := "fp" }

/-- The first shard holds the better candidate. -/
def sampleAll : ℕ → List Candidate
  | 0 => [(⟨7, by decide⟩, ⟨5, by decide, by decide⟩)]
  | 1 => [(⟨9, by decide⟩, ⟨3, by decide, by decide⟩)]
  | _ => []

/-- The identity exchange after the scan. -/
def sampleQueue : List (ℕ × Item Candidate Unit) :=
  [(1, .message (some (.identities []))), (1, .message (some (.summary (sampleCert 1)))),
    (0, .message (some (.identities [⟨⟨7, by decide⟩, some ()⟩]))),
    (0, .message (some (.summary (sampleCert 0))))]

/-- The floor pushed after the first batch reaches the second shard, which skips its candidate. -/
lemma sample_reachable : ∃ n, Reachable candidateScore (pushes sampleFanout sampleCert none)
    sampleFanout.consulted sampleAll F32.negInf.val n ∧
    n.log = [(0, .batch (sampleAll 0)), (1, .batch []), (1, .done), (0, .done)] :=
  ⟨_, Relation.ReflTransGen.refl
    |>.tail (@Step.scan _ _ _ _ _ _ _ _ _ 0 (sampleAll 0) [] [] (by decide) rfl (by rfl) (by simp))
    |>.tail (.receive (i := 0) (by decide) rfl)
    |>.tail (.adopt (i := 1) (f := 4) (by decide) (by decide +kernel))
    |>.tail (@Step.scan _ _ _ _ _ _ _ _ _ 1 [] (sampleAll 1) [] (by decide) rfl (by rfl)
      (by decide +kernel))
    |>.tail (.receive (i := 1) (by decide) rfl)
    |>.tail (.finish (i := 1) (by decide) rfl rfl)
    |>.tail (.finish (i := 0) (by decide) rfl rfl)
    |>.tail (.receive (i := 1) (by decide) rfl)
    |>.tail (.receive (i := 0) (by decide) rfl), rfl⟩

lemma sample_completes : Completes sampleFanout sampleCert "fp" where
  completed _ _ := rfl
  nonempty := rfl
  fingerprint _ _ := rfl
  accepted :=
    { geo_length := fun _ _ => rfl
      tree_length := fun _ _ => rfl
      geo_known := fun _ h => absurd h (Nat.not_lt_zero _)
      tree_known := fun _ h => absurd h (Nat.not_lt_zero _) }

theorem fanoutStreamSearch_exact_sample :
    ∃ log, (∃ r, fanoutStreamSearch sampleFanout none (log.map (wire sampleCert) ++ sampleQueue) =
      .ok r ∧ r.hits = [⟨⟨7, by decide⟩, ⟨5, by decide, by decide⟩, ⟨0, U64.zero_lt⟩, some ()⟩] ∧
      r.floorsSent = 1) ∧
    pushes sampleFanout sampleCert none log = [4] := by
  obtain ⟨n, hn, hlog⟩ := sample_reachable
  have hpush : pushes sampleFanout sampleCert none n.log = [4] := by
    rw [hlog]
    decide +kernel
  have h := fanoutStreamSearch_exact sample_completes (by decide) (fun _ => rfl) (by decide) none
    sampleAll (by simp) hn (by rw [hlog]; decide) sampleQueue rfl
  refine ⟨n.log, ?_, hpush⟩
  obtain ⟨r, hr, hhits, hfloors⟩ := h.1
  exact ⟨r, hr, hhits.trans rfl, by rw [hfloors, hpush]; rfl⟩

end ProtomoltSearch.Coordinator
