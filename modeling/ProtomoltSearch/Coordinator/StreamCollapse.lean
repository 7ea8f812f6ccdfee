import ProtomoltSearch.Coordinator.StreamSearch
import ProtomoltSearch.Coordinator.Parents

/-!
# Streamed search collapsed by parent

`fanout_stream_search_collapse` of `coordinator.rs`: shards stream chunks tagged with their parent
documents, and the coordinator keeps per parent the best chunk and every chunk that arrived. The
floor it pushes is one step below the `k`-th best parent, recomputed only when a batch may have
moved it.

By `fanoutStreamSearchCollapse_exact` the answer of every run in which the shards complete is
`collapse` of the union, whatever the layout and the order of messages.
-/

namespace ProtomoltSearch.Coordinator

open TopK FloorStream List Consumer F32

variable {Identity : Type}

/-- The state of the scan. The map of parents is its keys, in the order they came, and a lookup
that gives a parent without chunks for any other key. -/
structure CollapseState where
  keys : List U64
  agg : U64 → ParentAgg
  summaries : ℕ → Option StreamSearchSummary
  remaining : ℕ
  kth : F32
  lastFloor : F32
  pushed : List F32
  known : FilterKnown

structure ParentGroup (Identity : Type) where
  parentId : U64
  chunks : List (ScoredHit Identity)

structure CollapseStreamResult (Identity : Type) where
  hits : List (ScoredHit Identity)
  groups : List (ParentGroup Identity)
  chunkFloor : F32
  summaries : List (Option StreamSearchSummary)
  floorsSent : ℕ

section

variable (c : Fanout Identity)

/-- The state before the first message. -/
def collapseStart : CollapseState where
  keys := []
  agg := fun _ => .new
  summaries := c.initialSummaries
  remaining := c.consulted.length
  kth := negInf
  lastFloor := negInf
  pushed := []
  known := filterKnown c.filters c.mask

variable (iter : List U64 → List U64) (st : CollapseState) (shard : ℕ)
  (queue : List (ℕ × Item Chunk Identity))

/-- Recompute the `k`-th best parent and push a raise of the floor. -/
def raiseParentFloor (dirty : Bool) : CollapseState :=
  if dirty && decide (c.k ≤ st.keys.length) then
    match kthBest cmpScores c.k (st.keys.map fun p => (st.agg p).bestScore) with
    | some newKth =>
      if st.kth.val < newKth.val then
        let floor := newKth.nextDown
        if st.lastFloor.val < floor.val then
          { st with kth := newKth, lastFloor := floor, pushed := st.pushed ++ [floor] }
        else { st with kth := newKth }
      else st
    | none => st
  else st

def takeCollapseBatch (b : Packed Chunk) : Except Status CollapseState := do
  refuseIf (b.bytes 20 % 20 != 0)
    (.internal ("shard " ++ toString shard ++ " sent a misaligned collapse batch of " ++
      toString (b.bytes 20) ++ " bytes"))
  let ((keys, agg), dirty) := b.records.foldl (takeRecord st.kth) ((st.keys, st.agg), false)
  return raiseParentFloor c { st with keys := keys, agg := agg } dirty

def takeSummary (summary : StreamSearchSummary) : Except Status CollapseState := do
  refuseIf (!summary.completed)
    (.internal ("shard " ++ toString shard ++ " stopped before completing its scan"))
  let known ← st.known.mergeShard shard summary.geoColumnsKnown summary.filterColumnsKnown
  let summaries := Function.update st.summaries shard (some summary)
  return { st with known := known, summaries := summaries, remaining := st.remaining - 1 }

/-- One item of the queue. -/
def collapseStep : Item Chunk Identity → Except Status CollapseState
  | .message (some (.batch b)) => takeCollapseBatch c st shard b
  | .message (some (.summary summary)) => takeSummary st shard summary
  | .message (some _) => .error (.internal "unexpected identity exchange on a legacy stream")
  | .message none => .ok st
  | .closed =>
    if (st.summaries shard).isNone then .error (Fanout.closedStatus shard) else .ok st
  | .failed e => .error (c.failedStatus shard e)

def collapseLoop : Except Status (CollapseState × List (ℕ × Item Chunk Identity)) :=
  Consumer.loop (fun st a => collapseStep c st a.1 a.2) (fun st => st.remaining == 0)
    Fanout.endedStatus st queue

/-- The floors pushed while the loop reads these items. -/
def collapsePushedBy : List F32 :=
  Consumer.trace (fun st a => collapseStep c st a.1 a.2) (fun st => st.remaining == 0)
    CollapseState.pushed st queue

/-- The collapsed search over the merged queue. The map of parents is iterated in the order `iter`. -/
def fanoutStreamSearchCollapse : Except Status (CollapseStreamResult Identity) := do
  refuseIf (c.nodes == 0) (.failedPrecondition "no shard nodes configured")
  if c.k = 0 then
    refuseIf c.isScoped (.invalidArgument "a scoped vector scan requires positive k")
    return ⟨[], [], negInf, [], 0⟩
  let (st, _) ← collapseLoop c (collapseStart c) queue
  st.known.refuseUnknown c.filters
  let ranked := sortBy (cmpParents st.agg) (iter st.keys)
  let chunkFloor := match ranked[c.k - 1]? with
    | some p => (st.agg p).bestScore.nextDown
    | none => negInf
  let top := ranked.take c.k
  return {
    hits := top.map fun p => ⟨(st.agg p).bestId, (st.agg p).bestScore, p, none⟩
    groups := top.map fun p => ⟨p,
      (sortBy cmpChunks ((st.agg p).chunks.filter fun x => chunkFloor.val ≤ x.2.val)).map
        fun x => ⟨x.1, x.2, p, none⟩⟩
    chunkFloor := chunkFloor
    summaries := (List.range c.nodes).map st.summaries
    floorsSent := st.pushed.length }

end

/-! ## Runs -/

def chunksOf (log : List (ℕ × Msg Chunk)) : List Chunk := (received log).map Prod.snd

/-- The chunks of all consulted shards. -/
def unionChunks (c : Fanout Identity) (all : ℕ → List Chunk) : List Chunk :=
  c.consulted.flatMap all

/-- A message of the protocol as the shards send it. -/
def collapseWire (cert : ℕ → StreamSearchSummary) (a : ℕ × Msg Chunk) : ℕ × Item Chunk Identity :=
  (a.1, match a.2 with
    | .batch xs => .message (some (.batch ⟨xs, 0⟩))
    | .done => .message (some (.summary (cert a.1))))

/-- The queue of a log: its messages in order, with the close of a finished stream and messages
without a payload anywhere in between. -/
inductive Woven (cert : ℕ → StreamSearchSummary) :
    List (ℕ × Msg Chunk) → List (ℕ × Item Chunk Identity) → Prop
  | nil : Woven cert [] []
  | message {log : List (ℕ × Msg Chunk)} {items : List (ℕ × Item Chunk Identity)}
      (a : ℕ × Msg Chunk) (h : Woven cert log items) :
      Woven cert (log ++ [a]) (items ++ [collapseWire cert a])
  | close {log : List (ℕ × Msg Chunk)} {items : List (ℕ × Item Chunk Identity)} {i : ℕ}
      (hclosed : closed log i = true) (h : Woven cert log items) :
      Woven cert log (items ++ [(i, .closed)])
  | blank {log : List (ℕ × Msg Chunk)} {items : List (ℕ × Item Chunk Identity)} (i : ℕ)
      (h : Woven cert log items) : Woven cert log (items ++ [(i, .message none)])

/-- Each shard certifies a completed scan, and their answers to the handshake are accepted. -/
structure CollapseCompletes (c : Fanout Identity) (cert : ℕ → StreamSearchSummary) : Prop where
  completed : ∀ i ∈ c.consulted, (cert i).completed = true
  accepted : Accepted c.filters c.mask c.consulted fun i => (cert i).flags

/-- The floors pushed after a log, by their values. -/
def collapsePushes (c : Fanout Identity) (cert : ℕ → StreamSearchSummary)
    (log : List (ℕ × Msg Chunk)) : List ℤ :=
  (collapsePushedBy c (collapseStart c) (log.map (collapseWire cert))).map val

variable {c : Fanout Identity} {cert : ℕ → StreamSearchSummary} {log : List (ℕ × Msg Chunk)}
  {st : CollapseState}

/-- A recomputation changes only the floor, and pushes one step below the `k`-th best score. -/
lemma raiseParentFloor_cases (st : CollapseState) (dirty : Bool) :
    (∃ kth, raiseParentFloor c st dirty = { st with kth := kth }) ∨
      ∃ x, kthBest cmpScores c.k (st.keys.map fun p => (st.agg p).bestScore) = some x ∧
        st.lastFloor.val < x.nextDown.val ∧
        raiseParentFloor c st dirty =
          { st with kth := x, lastFloor := x.nextDown, pushed := st.pushed ++ [x.nextDown] } := by
  unfold raiseParentFloor
  split
  · split
    · next x hx =>
      split
      · dsimp only
        split
        · next hlt => exact .inr ⟨x, hx, hlt, rfl⟩
        · exact .inl ⟨x, rfl⟩
      · exact .inl ⟨st.kth, rfl⟩
    · exact .inl ⟨st.kth, rfl⟩
  · exact .inl ⟨st.kth, rfl⟩

variable {item : Item Chunk Identity}

lemma pushed_subset_collapseStep {st st' : CollapseState} {shard : ℕ}
    (h : collapseStep c st shard item = .ok st') : st.pushed ⊆ st'.pushed := by
  unfold collapseStep at h
  split at h
  · next b =>
    obtain ⟨_, h⟩ := rest_ok h
    obtain rfl := pure_ok.1 h
    rcases raiseParentFloor_cases (c := c) { st with
      keys := (b.records.foldl (takeRecord st.kth) ((st.keys, st.agg), false)).1.1
      agg := (b.records.foldl (takeRecord st.kth) ((st.keys, st.agg), false)).1.2 }
      (b.records.foldl (takeRecord st.kth) ((st.keys, st.agg), false)).2 with
      ⟨kth, hr⟩ | ⟨x, -, -, hr⟩
    · rw [hr]
      exact List.Subset.refl _
    · rw [hr]
      exact subset_append_left _ _
  · obtain ⟨_, -, known, -, h⟩ := bind₂_ok.1 h
    obtain rfl := pure_ok.1 h
    exact List.Subset.refl _
  · cases h
  · cases h
    exact List.Subset.refl _
  · split at h
    · cases h
    · cases h
      exact List.Subset.refl _
  · cases h

lemma collapsePushes_mono (cert : ℕ → StreamSearchSummary) (log : List (ℕ × Msg Chunk))
    (a : ℕ × Msg Chunk) : collapsePushes c cert log ⊆ collapsePushes c cert (log ++ [a]) := by
  rw [collapsePushes, collapsePushes, map_append]
  exact map_subset _ (trace_subset_append (fun _ _ _ hs => pushed_subset_collapseStep hs) _ _ _)

variable (c cert) in
/-- After a prefix of a run: the map of parents holds the chunks that arrived, and every pushed
floor is one step below a score that `k` parents have reached. -/
structure Collapsed (log : List (ℕ × Msg Chunk)) (st : CollapseState) : Prop where
  gathered : Gathered (chunksOf log) st.keys st.agg
  summaries : st.summaries = fun i => if closed log i then some (cert i) else c.initialSummaries i
  remaining : st.remaining = openCount c.consulted log
  known : ∃ answered, Merged c.filters c.mask (fun i => (cert i).flags) answered st.known ∧
    ∀ i, closed log i = true → i ∈ answered
  reached : ∀ f ∈ st.pushed, ∃ x : F32, f = x.nextDown ∧
    c.k ≤ (keysAbove Chunk.parent chunkScore (chunksOf log) x.val).card

lemma collapsed_start : Collapsed c cert [] (collapseStart c) where
  gathered := gathered_nil
  summaries := by simp [collapseStart]
  remaining := by simp [collapseStart, openCount]
  known := ⟨[], merged_filterKnown _ _ _, by simp⟩
  reached := by simp [collapseStart]

lemma chunksOf_snoc_batch (log : List (ℕ × Msg Chunk)) (i : ℕ) (xs : List Chunk) :
    chunksOf (log ++ [(i, .batch xs)]) = chunksOf log ++ xs := by
  rw [chunksOf, received_snoc]
  simp [chunksOf, Msg.items]

lemma chunksOf_snoc_done (log : List (ℕ × Msg Chunk)) (i : ℕ) :
    chunksOf (log ++ [(i, .done)]) = chunksOf log := by
  simp [chunksOf, received_snoc, Msg.items]

variable {l : List Chunk}

/-- The `k`-th best score of the parents is one that `k` parents have reached. -/
lemma Gathered.reached {keys : List U64} {agg : U64 → ParentAgg} {k : ℕ}
    (h : Gathered l keys agg) (hk : 0 < k) {x : F32}
    (hx : kthBest cmpScores k (keys.map fun p => (agg p).bestScore) = some x) :
    k ≤ (keysAbove Chunk.parent chunkScore l x.val).card := by
  have hfloor := isFloor_kthBest ranksByScore_cmpScores hk hx
  rw [IsFloor, countP_map, countP_eq_length_filter] at hfloor
  refine hfloor.trans ?_
  rw [← toFinset_card_of_nodup (h.nodup.filter _)]
  refine Finset.card_le_card fun p hp => ?_
  rw [mem_toFinset, mem_filter] at hp
  have hbest := (bestOf_isChampion ((h.mem_keys p).1 hp.1)).1
  refine mem_keysAbove.2 ⟨bestOf l p, hbest, ?_, rfl⟩
  have hle := hp.2
  rw [h.agg_eq] at hle
  exact of_decide_eq_true hle

lemma Collapsed.batch (hk : 0 < c.k) (h : Collapsed c cert log st) (i : ℕ) (xs : List Chunk) :
    ∃ st', collapseStep c st i (collapseWire cert (i, .batch xs)).2 = .ok st' ∧
      Collapsed c cert (log ++ [(i, .batch xs)]) st' := by
  have haligned : (Packed.mk xs 0).bytes 20 % 20 = 0 := by simp [Packed.bytes]
  have hgath := h.gathered.foldl st.kth false xs
  rw [← chunksOf_snoc_batch log i] at hgath
  set out := xs.foldl (takeRecord st.kth) ((st.keys, st.agg), false) with hout
  have hstep : collapseStep c st i (collapseWire cert (i, .batch xs)).2 =
      .ok (raiseParentFloor c { st with keys := out.1.1, agg := out.1.2 } out.2) := by
    simp only [collapseWire, collapseStep, takeCollapseBatch, haligned]
    rfl
  have hsub : chunksOf log ⊆ chunksOf (log ++ [(i, .batch xs)]) := by
    rw [chunksOf_snoc_batch]
    exact subset_append_left _ _
  have hreached : ∀ f ∈ st.pushed, ∃ x : F32, f = x.nextDown ∧ c.k ≤
      (keysAbove Chunk.parent chunkScore (chunksOf (log ++ [(i, .batch xs)])) x.val).card := by
    intro f hf
    obtain ⟨x, hx, hcard⟩ := h.reached f hf
    exact ⟨x, hx, hcard.trans (Finset.card_le_card (keysAbove_subset hsub))⟩
  have hsums : st.summaries = fun j =>
      if closed (log ++ [(i, .batch xs)]) j then some (cert j) else c.initialSummaries j := by
    simp only [closed_snoc_batch]
    exact h.summaries
  have hrem : st.remaining = openCount c.consulted (log ++ [(i, .batch xs)]) := by
    rw [openCount_snoc_batch]
    exact h.remaining
  have hknown : ∃ answered, Merged c.filters c.mask (fun i => (cert i).flags) answered st.known ∧
      ∀ j, closed (log ++ [(i, .batch xs)]) j = true → j ∈ answered := by
    simp only [closed_snoc_batch]
    exact h.known
  refine ⟨_, hstep, ?_⟩
  rcases raiseParentFloor_cases (c := c) { st with keys := out.1.1, agg := out.1.2 } out.2 with
    ⟨kth, hr⟩ | ⟨x, hx, -, hr⟩
  · rw [hr]
    exact ⟨hgath, hsums, hrem, hknown, hreached⟩
  · rw [hr]
    refine ⟨hgath, hsums, hrem, hknown, fun f hf => ?_⟩
    rcases mem_append.1 hf with hf | hf
    · exact hreached f hf
    · exact ⟨x, mem_singleton.1 hf, hgath.reached hk hx⟩

lemma Collapsed.done (hcert : CollapseCompletes c cert) (h : Collapsed c cert log st) {i : ℕ}
    (hi : i ∈ c.consulted) (hopen : closed log i = false) :
    ∃ st', collapseStep c st i (collapseWire cert (i, .done)).2 = .ok st' ∧
      Collapsed c cert (log ++ [(i, .done)]) st' := by
  obtain ⟨answered, hmerged, hans⟩ := h.known
  obtain ⟨known, hknown, hmerged'⟩ := hmerged.mergeShard (hcert.accepted.geo_length i hi)
    (hcert.accepted.tree_length i hi)
  have hstep : collapseStep c st i (collapseWire cert (i, .done)).2 =
      .ok { st with
        known := known
        summaries := Function.update st.summaries i (some (cert i))
        remaining := st.remaining - 1 } := by
    have hknown' : st.known.mergeShard i (cert i).geoColumnsKnown (cert i).filterColumnsKnown =
        .ok known := hknown
    simp only [collapseWire, collapseStep, takeSummary, hcert.completed i hi, hknown']
    rfl
  refine ⟨_, hstep, ?_⟩
  exact
    { gathered := by rw [chunksOf_snoc_done]; exact h.gathered
      summaries := update_noted h.summaries
      remaining := by
        have := openCount_snoc_done c.nodup_consulted hi hopen
        have hr := h.remaining
        show st.remaining - 1 = _
        omega
      known := ⟨i :: answered, hmerged', fun j => mem_cons_of_closed_snoc hans⟩
      reached := by rw [chunksOf_snoc_done]; exact h.reached }

lemma Collapsed.step (hk : 0 < c.k) (hcert : CollapseCompletes c cert)
    (h : Collapsed c cert log st) {i : ℕ} (hi : i ∈ c.consulted) (hopen : closed log i = false)
    (m : Msg Chunk) : ∃ st', collapseStep c st i (collapseWire cert (i, m)).2 = .ok st' ∧
      Collapsed c cert (log ++ [(i, m)]) st' := by
  cases m with
  | batch xs => exact h.batch hk i xs
  | done => exact h.done hcert hi hopen

/-- An item that changes nothing may be read or not. -/
lemma collapseLoop_cons_idle {shard : ℕ}
    (hstep : collapseStep c st shard item = .ok st) (rest : List (ℕ × Item Chunk Identity)) :
    (collapseLoop c st ((shard, item) :: rest)).map Prod.fst =
      (collapseLoop c st rest).map Prod.fst := by
  cases hrem : st.remaining == 0 with
  | true =>
    have hend : ∀ l, collapseLoop c st l = .ok (st, l) := loop_of_stop (by simpa using hrem)
    rw [hend, hend]
    rfl
  | false =>
    refine congrArg _ ?_
    apply loop_cons_of_ok
    · exact hrem
    · exact hstep

variable {items : List (ℕ × Item Chunk Identity)}

/-- **Every queue of an orderly log is read to its end.** -/
theorem collapse_run (hk : 0 < c.k) (hcert : CollapseCompletes c cert) (hw : Woven cert log items)
    (hlog : Orderly c.consulted log) : ∃ st, Collapsed c cert log st ∧
      (∀ rest, (collapseLoop c (collapseStart c) (items ++ rest)).map Prod.fst =
        (collapseLoop c st rest).map Prod.fst) ∧
      ∀ rest, collapsePushedBy c (collapseStart c) (log.map (collapseWire cert) ++ rest) =
        collapsePushedBy c st rest := by
  induction hw with
  | nil => exact ⟨_, collapsed_start, fun _ => rfl, fun _ => rfl⟩
  | @message log items a _ ih =>
    obtain ⟨i, m⟩ := a
    obtain ⟨hlog, hi, hopen⟩ := hlog.snoc
    obtain ⟨st, hst, hloop, hpush⟩ := ih hlog
    obtain ⟨st', hstep, hst'⟩ := hst.step hk hcert hi hopen m
    have hrem : (st.remaining == 0) = false := by
      rw [hst.remaining]
      simpa using (openCount_pos hi hopen).ne'
    refine ⟨st', hst', fun rest => ?_, fun rest => ?_⟩
    · rw [append_assoc, hloop]
      refine congrArg _ ?_
      apply loop_cons_of_ok
      · exact hrem
      · exact hstep
    · rw [map_append, append_assoc, hpush]
      apply trace_cons_of_ok
      · exact hrem
      · exact hstep
  | @close log items i hclosed _ ih =>
    obtain ⟨st, hst, hloop, hpush⟩ := ih hlog
    refine ⟨st, hst, fun rest => ?_, hpush⟩
    rw [append_assoc, hloop]
    refine collapseLoop_cons_idle ?_ rest
    have hsome : st.summaries i = some (cert i) := by rw [hst.summaries]; simp [hclosed]
    simp [collapseStep, hsome]
  | @blank log items i _ ih =>
    obtain ⟨st, hst, hloop, hpush⟩ := ih hlog
    refine ⟨st, hst, fun rest => ?_, hpush⟩
    rw [append_assoc, hloop]
    exact collapseLoop_cons_idle rfl rest

/-! ## Exactness -/

def hitOfChunk (Identity : Type) (x : Chunk) : ScoredHit Identity := ⟨x.id, x.score, x.parent, none⟩

def groupOf (Identity : Type) (g : U64 × List (U64 × F32)) : ParentGroup Identity :=
  ⟨g.1, g.2.map fun x => ⟨x.1, x.2, g.1, none⟩⟩

/-- What the search returns from the parents it has gathered. -/
lemma fanoutStreamSearchCollapse_eq (hcert : CollapseCompletes c cert) (hnodes : 0 < c.nodes)
    (hk : 0 < c.k) (hst : Collapsed c cert log st) (hids : UniqueIds (chunksOf log))
    (hrem : st.remaining = 0) (hclosed : ∀ i, closed log i = true ↔ i ∈ c.consulted)
    {iter : List U64 → List U64} (hiter : ∀ l, (iter l).Perm l)
    (rest : List (ℕ × Item Chunk Identity))
    (hloop : (collapseLoop c (collapseStart c) items).map Prod.fst =
    (collapseLoop c st rest).map Prod.fst) : ∃ r, fanoutStreamSearchCollapse c iter items = .ok r ∧
    r.hits = (collapse c.k (chunksOf log)).1.map (hitOfChunk Identity) ∧
    r.groups = (collapse c.k (chunksOf log)).2.map (groupOf Identity) ∧
    r.chunkFloor = finalFloor c.k (chunksOf log) := by
  have hknown : st.known.refuseUnknown c.filters = .ok () := by
    obtain ⟨answered, hmerged, hans⟩ := hst.known
    exact hmerged.refuseUnknown hcert.accepted fun i hi => hans i ((hclosed i).2 hi)
  have hend : collapseLoop c st rest = .ok (st, rest) :=
    loop_of_stop (by simpa using hrem) rest
  obtain ⟨left, hloop⟩ : ∃ left, collapseLoop c (collapseStart c) items = .ok (st, left) := by
    rw [hend] at hloop
    cases hl : collapseLoop c (collapseStart c) items with
    | error e => rw [hl] at hloop; cases hloop
    | ok p =>
      obtain ⟨s, left⟩ := p
      rw [hl] at hloop
      exact ⟨left, by rw [show s = st from Except.ok.inj hloop]⟩
  have hnodes' : (c.nodes == 0) = false := by simpa using hnodes.ne'
  set ranked := sortBy (cmpParents st.agg) (iter st.keys) with hranked
  have hbest := hst.gathered.ranked hids (hiter st.keys)
  have hagg : ∀ p, st.agg p = aggOf (chunksOf log) p := fun p => by rw [hst.gathered.agg_eq]
  have hfloor : (match ranked[c.k - 1]? with
      | some p => (st.agg p).bestScore.nextDown
      | none => negInf) = finalFloor c.k (chunksOf log) := by
    rw [finalFloor, if_pos hk, ← hbest, getElem?_map]
    cases ranked[c.k - 1]? with
    | none => rfl
    | some p => simp [hagg, bestOf]
  refine ⟨⟨(ranked.take c.k).map fun p => ⟨(st.agg p).bestId, (st.agg p).bestScore, p, none⟩,
    (ranked.take c.k).map fun p => ⟨p, (sortBy cmpChunks ((st.agg p).chunks.filter
      fun x => (finalFloor c.k (chunksOf log)).val ≤ x.2.val)).map fun x => ⟨x.1, x.2, p, none⟩⟩,
    finalFloor c.k (chunksOf log), (List.range c.nodes).map st.summaries, st.pushed.length⟩,
    ?_, ?_, ?_, rfl⟩
  · rw [fanoutStreamSearchCollapse, hnodes', if_neg hk.ne', hloop]
    simp only [refuseIf_false, ok_bind, hknown, ← hranked, hfloor]
    rfl
  · rw [collapse, ← hbest, ← map_take, map_map]
    refine map_congr_left fun p _ => ?_
    simp [hagg, bestOf, hitOfChunk]
  · rw [collapse, ← hbest, ← map_take]
    simp only [map_map]
    refine map_congr_left fun p _ => ?_
    simp only [Function.comp_apply, groupOf, bestOf, hagg, aggOf, aggregate_chunks]
    rw [filter_map, filter_filter]
    refine congrArg (fun m : List Chunk => (⟨p, (sortBy cmpChunks (m.map fun r => (r.id, r.score))).map
      fun x => ⟨x.1, x.2, p, none⟩⟩ : ParentGroup Identity)) (filter_congr fun y _ => ?_)
    rw [Bool.eq_iff_iff, Bool.and_eq_true, decide_eq_true_iff, and_comm]
    refine Iff.trans ?_ decide_eq_true_iff.symm
    exact and_congr_right fun _ => decide_eq_true_iff

/-- **The answer of a collapsed search is exact.** In every run of the protocol in which every
consulted shard emits what scores at or above its floor and completes, the search returns the `k`
best parents by their best chunks over all shards, and each of them with every chunk at or above
the final floor. The answer is `collapse` of any list of the same chunks, whatever their layout, the
order of the messages, the times the floors arrive or the iteration order of the map. Global ids
name one chunk each. -/
theorem fanoutStreamSearchCollapse_exact (hcert : CollapseCompletes c cert) (hnodes : 0 < c.nodes)
    (hscoped : c.k = 0 → c.isScoped = false) (all : ℕ → List Chunk)
    (hids : UniqueIds (unionChunks c all)) {iter : List U64 → List U64}
    (hiter : ∀ l, (iter l).Perm l) {n : Net ℕ Chunk ℤ}
    (hrun : Reachable chunkScore (collapsePushes c cert) c.consulted all negInf.val n)
    (hdone : ∀ i ∈ c.consulted, (i, Msg.done) ∈ n.log)
    (hw : Woven cert n.log items)
    (hl : (unionChunks c all).Perm l) : ∃ r, fanoutStreamSearchCollapse c iter items = .ok r ∧
      r.hits = (collapse c.k l).1.map (hitOfChunk Identity) ∧
      r.groups = (collapse c.k l).2.map (groupOf Identity) ∧
      r.chunkFloor = finalFloor c.k l := by
  rcases Nat.eq_zero_or_pos c.k with hzero | hk
  · have hnodes' : (c.nodes == 0) = false := by simpa using hnodes.ne'
    refine ⟨⟨[], [], negInf, [], 0⟩, ?_, by simp [collapse, hzero], by simp [collapse, hzero],
      by simp [finalFloor, hzero]⟩
    rw [fanoutStreamSearchCollapse, hnodes', if_pos hzero, hscoped hzero]
    rfl
  have horderly := orderly_of_reachable (collapsePushes_mono cert) hrun
  obtain ⟨st, hst, hloop, hpush⟩ := collapse_run hk hcert hw horderly
  have hpushes : collapsePushes c cert n.log = st.pushed.map val := by
    have := hpush []
    rw [append_nil] at this
    rw [collapsePushes, this]
    rfl
  obtain ⟨dropped, hperm, hbelow⟩ :=
    exists_dropped_of_done (collapsePushes_mono cert) c.nodup_consulted hrun hdone
  have hunion : (unionChunks c all).Perm (dropped.map Prod.snd ++ chunksOf n.log) := by
    rw [chunksOf, ← map_append]
    have := hperm.map Prod.snd
    rwa [map_flatMap, show (c.consulted.flatMap fun i => ((all i).map (i, ·)).map Prod.snd) =
      unionChunks c all from by simp [unionChunks, Function.comp_def]] at this
  have hids' : UniqueIds (dropped.map Prod.snd ++ chunksOf n.log) := fun x hx y hy =>
    hids x (hunion.mem_iff.2 hx) y (hunion.mem_iff.2 hy)
  have hidsLog : UniqueIds (chunksOf n.log) := fun x hx y hy =>
    hids' x (mem_append_right _ hx) y (mem_append_right _ hy)
  -- a lost chunk was below a floor, and so below the final one
  have hlost : ∀ d ∈ dropped.map Prod.snd,
      chunkScore d < (finalFloor c.k (chunksOf n.log)).val := by
    intro d hd
    obtain ⟨x, hx, rfl⟩ := mem_map.1 hd
    obtain ⟨f, hf, hlt⟩ := hbelow x hx
    rcases mem_cons.1 hf with rfl | hf
    · exact absurd (negInf_val_le x.2.score) (not_le.2 hlt)
    · rw [hpushes] at hf
      obtain ⟨g, hg, rfl⟩ := mem_map.1 hf
      obtain ⟨y, rfl, hcard⟩ := hst.reached g hg
      have hfloor := (isFloor_champions_iff ranksByScore_cmpBest hidsLog.decided).2 hcard
      obtain ⟨w, -, hw⟩ := kthBest_eq_some hk hfloor.length_le
      have hyw := hfloor.le_kthBest ranksByScore_cmpRanked hk hw
      have hfinal : finalFloor c.k (chunksOf n.log) = w.score.nextDown := by
        rw [finalFloor, if_pos hk, show (rankedParents (chunksOf n.log))[c.k - 1]? = some w from hw]
      rw [hfinal]
      exact lt_of_lt_of_le hlt (nextDown_val_mono hyw)
  have hsame : collapse c.k l = collapse c.k (chunksOf n.log) := by
    rw [collapse_perm (hl.symm.trans hunion), collapse_append hids' hlost]
  have hsameFloor : finalFloor c.k l = finalFloor c.k (chunksOf n.log) := by
    rw [finalFloor_perm (hl.symm.trans hunion), finalFloor_append hids' hlost]
  rw [hsame, hsameFloor]
  refine fanoutStreamSearchCollapse_eq hcert hnodes hk hst hidsLog ?_ (horderly.closed_iff hdone)
    hiter [] ?_
  · rw [hst.remaining, openCount_eq_zero hdone]
  · have := hloop []
    rwa [append_nil] at this

/-! ### A run of two shards -/

/-- The candidates of the two shards, as chunks of one parent. -/
def sampleChunks (i : ℕ) : List Chunk :=
  (sampleAll i).map fun c => ⟨c.1, c.2, ⟨1, U64.one_lt⟩⟩

/-- The floor pushed after the first batch reaches the second shard, which skips its chunk. -/
lemma sampleChunks_reachable : ∃ n, Reachable chunkScore
    (collapsePushes sampleFanout sampleCert) sampleFanout.consulted sampleChunks negInf.val n ∧
    n.log = [(0, .batch (sampleChunks 0)), (0, .done), (1, .batch []), (1, .done)] :=
  ⟨_, Relation.ReflTransGen.refl
    |>.tail (@Step.scan _ _ _ _ _ _ _ _ _ 0 (sampleChunks 0) [] [] (by decide) rfl (by rfl)
      (by simp))
    |>.tail (.receive (i := 0) (by decide) rfl)
    |>.tail (.finish (i := 0) (by decide) rfl rfl)
    |>.tail (.receive (i := 0) (by decide) rfl)
    |>.tail (.adopt (i := 1) (f := 4) (by decide) (by decide +kernel))
    |>.tail (@Step.scan _ _ _ _ _ _ _ _ _ 1 [] (sampleChunks 1) [] (by decide) rfl (by rfl)
      (by decide +kernel))
    |>.tail (.receive (i := 1) (by decide) rfl)
    |>.tail (.finish (i := 1) (by decide) rfl rfl)
    |>.tail (.receive (i := 1) (by decide) rfl), rfl⟩

/-- The queue of the run: the first stream closes while the second is still open. -/
def sampleItems : List (ℕ × Item Chunk Unit) :=
  [collapseWire sampleCert (0, .batch (sampleChunks 0)), collapseWire sampleCert (0, .done),
    (0, .closed), collapseWire sampleCert (1, .batch []), collapseWire sampleCert (1, .done)]

theorem fanoutStreamSearchCollapse_exact_sample :
    ∃ r, fanoutStreamSearchCollapse sampleFanout id sampleItems = .ok r ∧
      r.hits = [⟨⟨7, by decide⟩, ⟨5, by decide, by decide⟩, ⟨1, U64.one_lt⟩, none⟩] ∧
      r.chunkFloor.val = 4 := by
  obtain ⟨n, hn, hlog⟩ := sampleChunks_reachable
  have hw : Woven sampleCert n.log sampleItems := by
    rw [hlog]
    exact .message (1, .done) (.message (1, .batch []) (.close rfl
      (.message (0, .done) (.message (0, .batch (sampleChunks 0)) .nil))))
  have hids : UniqueIds (unionChunks sampleFanout sampleChunks) := by
    unfold UniqueIds
    decide +kernel
  obtain ⟨r, hr, hhits, -, hfloor⟩ := fanoutStreamSearchCollapse_exact
    ⟨fun _ _ => rfl, sample_completes.accepted⟩ (by decide) (fun _ => rfl) sampleChunks hids
    (fun l => .refl l) hn (by rw [hlog]; decide) hw (.refl _)
  exact ⟨r, hr, hhits.trans rfl, by rw [hfloor]; decide +kernel⟩

end ProtomoltSearch.Coordinator
