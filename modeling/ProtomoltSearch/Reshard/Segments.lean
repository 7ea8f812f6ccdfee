import ProtomoltSearch.Reshard.Children

/-!
# The segments of a split

`split_logs_segmented` seals the rows of one bucket at a time. The invariant of its two loops
(`Sealed`) says what has been sealed: for every logical shard, exactly the live rows of the buckets
replayed so far that hash to it, each in one segment, in slots that no other segment has.
-/

namespace ProtomoltSearch.Reshard

open Wal List Function U64

variable {F D M C : Type}

/-- The ids sealed for a logical shard, segment by segment. -/
def shardRows (segments : List (SegmentedChildImage F D)) (shard : ℕ) : List U64 :=
  (segments.filter fun s => s.logicalShard = shard).flatMap fun s => s.image.rowParentIds

/-- What has been sealed once the ids of `q` are done. -/
structure Sealed (rq : Request) (k : ℕ) (rows : List (Row F D)) (q : U64 → Prop)
    (st : Sealing F D) : Prop where
  vectors : ∀ shard id v,
    (∃ s ∈ st.segments, s.logicalShard = shard ∧ (id, v) ∈ s.image.vectors) ↔
      LiveVector rows id v ∧ q id ∧ bucketOf id (2 ^ k) = shard
  documents : ∀ shard id d,
    (∃ s ∈ st.segments, s.logicalShard = shard ∧ (id, d) ∈ s.image.documents) ↔
      LiveDocument rows id d ∧ q id ∧ bucketOf id (2 ^ k) = shard
  mem_shardRows : ∀ shard id,
    id ∈ shardRows st.segments shard ↔ LiveId rows id ∧ q id ∧ bucketOf id (2 ^ k) = shard
  once : ∀ shard, (shardRows st.segments shard).Nodup
  physical : ∀ s ∈ st.segments, s.physicalRows = s.image.rowParentIds.length
  next : ∀ shard < 2 ^ k, (st.nextSlots shard).val =
    rq.slotBase.val + shard * rq.slotStride.val + (shardRows st.segments shard).length
  within : ∀ s ∈ st.segments,
    rq.slotBase.val + s.logicalShard * rq.slotStride.val ≤ s.image.slotOffset.val ∧
      s.image.slotOffset.val + s.physicalRows ≤ (st.nextSlots s.logicalShard).val
  bounded : ∀ s ∈ st.segments, (st.nextSlots s.logicalShard).val ≤
    rq.slotBase.val + (s.logicalShard + 1) * rq.slotStride.val
  apart : st.segments.Pairwise fun s t => s.logicalShard = t.logicalShard →
    s.image.slotOffset.val + s.physicalRows ≤ t.image.slotOffset.val

lemma card_ids (r : Replay F D) : r.ids.card = (childOrder r).length := by
  have hids : r.ids = (childOrder r).toFinset := by
    ext id
    rw [mem_toFinset, mem_childOrder]
    simp [Replay.ids]
  rw [hids, toFinset_card_of_nodup nodup_childOrder]

section

variable {rq : Request} {k : ℕ} {rows : List (Row F D)} {p q : U64 → Prop} {st : Sealing F D}

lemma shardRows_append (segments : List (SegmentedChildImage F D)) (s : SegmentedChildImage F D)
    (shard : ℕ) : shardRows (segments ++ [s]) shard =
    shardRows segments shard ++ if s.logicalShard = shard then s.image.rowParentIds else [] := by
  unfold shardRows
  split <;> rename_i h <;> simp [h]

lemma Sealed.congr (h : Sealed rq k rows q st) (hpq : ∀ id, LiveId rows id → (q id ↔ p id)) :
    Sealed rq k rows p st :=
  { h with
    vectors := fun shard id v => by
      rw [h.vectors]
      exact and_congr_right fun hl => by rw [hpq id (.inl ⟨v, hl⟩)]
    documents := fun shard id d => by
      rw [h.documents]
      exact and_congr_right fun hl => by rw [hpq id (.inr ⟨d, hl⟩)]
    mem_shardRows := fun shard id => by
      rw [h.mem_shardRows]
      exact and_congr_right fun hl => by rw [hpq id hl] }

lemma Sealed.append (h : Sealed rq k rows q st) {R : Replay F D} {shard : ℕ}
    (hR : R.IsShare rows fun id => p id ∧ bucketOf id (2 ^ k) = shard)
    (hnew : ∀ id, p id → bucketOf id (2 ^ k) = shard → ¬q id) (hshard : shard < 2 ^ k) {rowsEnd : U64}
    (hend : rowsEnd.val = (st.nextSlots shard).val + R.ids.card)
    (hfit : rowsEnd.val ≤ rq.slotBase.val + (shard + 1) * rq.slotStride.val)
    (hashLo hashHi : U64) :
    Sealed rq k rows (fun id => q id ∨ p id ∧ bucketOf id (2 ^ k) = shard)
      { st with
        nextSlots := Function.update st.nextSlots shard rowsEnd
        segmentCounts := Function.update st.segmentCounts shard (st.segmentCounts shard + 1)
        segments := st.segments ++
          [{ logicalShard := shard
             segmentOrdinal := st.segmentCounts shard
             physicalRows := R.ids.card
             image := imageOf R (st.nextSlots shard) hashLo hashHi }] } := by
  have hcard := card_ids R
  have hmono : ∀ shard', (st.nextSlots shard').val ≤
      (Function.update st.nextSlots shard rowsEnd shard').val := by
    intro shard'
    by_cases hs : shard' = shard
    · subst hs
      rw [update_self]
      omega
    · rw [update_of_ne hs]
  refine ⟨fun shard' id v => ?_, fun shard' id d => ?_, fun shard' id => ?_, fun shard' => ?_,
    fun s hs => ?_, fun shard' hs' => ?_, fun s hs => ?_, fun s hs => ?_, ?_⟩
  · simp only [mem_append, mem_singleton, or_and_right, exists_or, exists_eq_left,
      h.vectors, imageOf, hR.vectors]
    grind
  · simp only [mem_append, mem_singleton, or_and_right, exists_or, exists_eq_left,
      h.documents, imageOf, mem_orderedDocuments, hR.documents]
    grind
  · rw [shardRows_append, mem_append, h.mem_shardRows]
    split
    · rename_i heq
      rw [← heq, imageOf, hR.mem_childOrder]
      tauto
    · rename_i hne
      grind
  · rw [shardRows_append]
    split
    · rename_i heq
      refine List.Nodup.append (h.once shard') nodup_childOrder fun id hold hnew' => ?_
      obtain ⟨-, hp, hbkt⟩ := hR.mem_childOrder.1 hnew'
      exact hnew id hp hbkt ((h.mem_shardRows shard' id).1 hold).2.1
    · rw [append_nil]
      exact h.once shard'
  · rcases mem_append.1 hs with hs | hs
    · exact h.physical s hs
    · obtain rfl := mem_singleton.1 hs
      exact hcard
  · rw [shardRows_append, length_append]
    by_cases heq : shard' = shard
    · subst heq
      simp only [update_self, if_true, hend, h.next shard' hs', hcard, imageOf]
      omega
    · dsimp only
      rw [update_of_ne heq, if_neg (Ne.symm heq), h.next shard' hs']
      rfl
  · rcases mem_append.1 hs with hs | hs
    · exact ⟨(h.within s hs).1, (h.within s hs).2.trans (hmono _)⟩
    · obtain rfl := mem_singleton.1 hs
      have := h.next shard hshard
      simp only [imageOf, update_self]
      omega
  · rcases mem_append.1 hs with hs | hs
    · by_cases heq : s.logicalShard = shard
      · simp only [heq, update_self]
        exact hfit
      · simp only [update_of_ne heq]
        exact h.bounded s hs
    · obtain rfl := mem_singleton.1 hs
      simp only [update_self]
      exact hfit
  · refine pairwise_append.2 ⟨h.apart, pairwise_singleton _ _, fun s hs t ht heq => ?_⟩
    obtain rfl := mem_singleton.1 ht
    have := (h.within s hs).2
    rw [heq] at this
    exact this

end

/-! ## Sealing a shard of a bucket -/

lemma orRefuse_ok {α : Type} {e : Refusal} {x : Option α} {a : α} :
    orRefuse e x = .ok a ↔ x = some a := by
  cases x with
  | none => exact ⟨fun h => (nomatch h), fun h => (nomatch h)⟩
  | some b =>
    rw [Option.some.injEq]
    exact ⟨fun h => Except.ok.inj h, fun h => congrArg _ h⟩

lemma slotBaseOf_ok {rq : Request} {shard : ℕ} (hshard : shard < 2 ^ 64) {r : U64} :
    slotBaseOf rq shard = .ok r ↔ r.val = rq.slotBase.val + shard * rq.slotStride.val := by
  unfold slotBaseOf checkedMul checkedAdd
  simp only [bind_ok, orRefuse_ok, ofNat?_eq_some, wrap_val hshard]
  constructor
  · rintro ⟨delta, hdelta, hr⟩
    rw [hr, hdelta]
  · intro hr
    have hfit : shard * rq.slotStride.val < 2 ^ 64 := by
      have := r.upper
      omega
    exact ⟨⟨_, hfit⟩, rfl, hr⟩

/-- Every logical shard has slots for its live rows. -/
def Roomy (rq : Request) (k : ℕ) (rows : List (Row F D)) : Prop :=
  rq.slotBase.val + 2 ^ k * rq.slotStride.val < 2 ^ 64 ∧
    ∀ shard < 2 ^ k, ∀ ids : List U64, ids.Nodup →
      (∀ id ∈ ids, LiveId rows id ∧ bucketOf id (2 ^ k) = shard) → ids.length ≤ rq.slotStride.val

section Loop

variable {env : Env F D M C} {rq : Request} {first : Log F D M C} {logs : List (Log F D M C)}
  {binding : Option M} {k shard : ℕ} {p q : U64 → Prop} {st st' : Sealing F D} {R : Replay F D}

lemma Replay.IsShare.partition {rows : List (Row F D)} (h : R.IsShare rows p) (n shard : ℕ) :
    (R.partition n shard).IsShare rows fun id => p id ∧ bucketOf id n = shard :=
  ⟨(h.share n shard).vectors, (h.share n shard).documents⟩

/-- The hash range of a logical shard is computed in every build. -/
lemma sealShard_hashes (hn : rq.n = 2 ^ k) (hk : k ≤ 63) (hshard : shard < 2 ^ k) :
    (∃ hashLo, hashLoOf env rq shard = .ok hashLo) ∧
      ∃ hashHi, hashHiOf env rq shard (shard + 1) (segmentShift rq) = .ok hashHi := by
  unfold hashLoOf segmentShift
  by_cases h1 : rq.n = 1
  · rw [if_pos h1]
    refine ⟨⟨_, rfl⟩, max, if_pos ?_⟩
    omega
  · have hk0 : k ≠ 0 := by
      rintro rfl
      exact h1 hn
    have hlog : rq.n.log2 = k := by rw [hn, Nat.log2_two_pow]
    rw [if_neg h1, if_neg h1, hlog]
    obtain ⟨hashLo, hlo, -⟩ := shl_bucket (hk.trans (by norm_num)) hk0 hshard
    obtain ⟨hashHi, hhi, -⟩ := hashHiOf_ok hn le_rfl (hk.trans (by norm_num)) hshard
    rw [Nat.sub_self, Nat.pow_zero, Nat.mul_one] at hhi
    exact ⟨⟨hashLo, hlo⟩, hashHi, hhi⟩

section

variable (hfirst : first ∈ logs) (hn : rq.n = 2 ^ k) (hk : k ≤ 63)
  (henc : Encodes env logs rq.vectorsOnly) (hR : R.IsShare (allRows rq.vectorsOnly logs) p)
  (hshard : shard < 2 ^ k)
include hfirst hn hk henc hR hshard

/-- A shard with rows in the bucket is sealed if its slots suffice. -/
lemma sealShard_eq (hrows : (R.partition rq.n shard).ids.card ≠ 0) :
    ∃ hashLo hashHi, sealShard env rq first binding R st shard =
      slotBaseOf rq (shard + 1) >>= fun logicalEnd =>
        orRefuse .slotOverflow
          (ofNat? ((st.nextSlots shard).val + (R.partition rq.n shard).ids.card)) >>=
        fun rowsEnd => refuseIf (decide (logicalEnd < rowsEnd))
          (.refused (.slotsExhausted shard rowsEnd logicalEnd)) >>=
        fun _ => .ok
          { st with
            nextSlots := Function.update st.nextSlots shard rowsEnd
            segmentCounts := Function.update st.segmentCounts shard (st.segmentCounts shard + 1)
            segments := st.segments ++
              [{ logicalShard := shard
                 segmentOrdinal := st.segmentCounts shard
                 physicalRows := (R.partition rq.n shard).ids.card
                 image := imageOf (R.partition rq.n shard) (st.nextSlots shard) hashLo hashHi }] } := by
  have hcompact : (R.partition rq.n shard).compact = R.partition rq.n shard :=
    compact_of_deleted_empty rfl
  have hshare := hR.partition rq.n shard
  rw [← hcompact] at hshare
  obtain ⟨⟨hashLo, hlo⟩, hashHi, hhi⟩ : (∃ r, hashLoOf env rq shard = .ok r) ∧
    ∃ r, hashHiOf env rq shard (shard + 1) (segmentShift rq) = .ok r :=
    sealShard_hashes hn hk hshard
  refine ⟨hashLo, hashHi, ?_⟩
  simp only [sealShard, if_neg hrows, hlo, hhi, ok_bind, henc.finishChild_eq hfirst hshare, hcompact]
  rfl

section

variable (h : Sealed rq k (allRows rq.vectorsOnly logs) q st)
  (hnew : ∀ id, p id → bucketOf id (2 ^ k) = shard → ¬q id)

include h hnew

lemma Sealed.sealShard (hok : sealShard env rq first binding R st shard = .ok st') :
    Sealed rq k (allRows rq.vectorsOnly logs)
      (fun id => q id ∨ p id ∧ bucketOf id (2 ^ k) = shard) st' := by
  have hshare : (R.partition rq.n shard).IsShare (allRows rq.vectorsOnly logs)
      fun id => p id ∧ bucketOf id (2 ^ k) = shard := by
    simpa only [hn] using hR.partition rq.n shard
  by_cases hrows : (R.partition rq.n shard).ids.card = 0
  · rw [Reshard.sealShard, if_pos hrows] at hok
    obtain rfl := Except.ok.inj hok
    refine h.congr fun id hl => ⟨.inl, fun h' => h'.resolve_right fun hp => ?_⟩
    have := hshare.mem_ids.2 ⟨hl, hp⟩
    rw [Finset.card_eq_zero.1 hrows] at this
    exact Finset.notMem_empty id this
  · obtain ⟨hashLo, hashHi, heq⟩ := sealShard_eq hfirst hn hk henc hR hshard hrows
    rw [heq] at hok
    obtain ⟨logicalEnd, hlogical, rowsEnd, hend, _, hfit, hok⟩ := bind₃_ok.1 hok
    rw [orRefuse_ok, ofNat?_eq_some] at hend
    have hbound : shard + 1 < 2 ^ 64 := by
      have : (2 : ℕ) ^ k ≤ 2 ^ 63 := Nat.pow_le_pow_right (by norm_num) hk
      omega
    rw [slotBaseOf_ok hbound] at hlogical
    have hle : rowsEnd.val ≤ logicalEnd.val := by
      simpa [lt_iff] using refuseIf_ok.1 hfit
    rw [← Except.ok.inj hok]
    exact h.append hshare hnew hshard hend (hle.trans hlogical.le) hashLo hashHi

lemma Sealed.sealShard_returns (hroomy : Roomy rq k (allRows rq.vectorsOnly logs)) :
    ∃ st', Reshard.sealShard env rq first binding R st shard = .ok st' := by
  have hshare : (R.partition rq.n shard).IsShare (allRows rq.vectorsOnly logs)
      fun id => p id ∧ bucketOf id (2 ^ k) = shard := by
    simpa only [hn] using hR.partition rq.n shard
  by_cases hrows : (R.partition rq.n shard).ids.card = 0
  · exact ⟨st, by rw [Reshard.sealShard, if_pos hrows]; rfl⟩
  -- the ids sealed so far and those of this bucket are distinct live rows of the shard
  have hcnt : (shardRows st.segments shard ++ childOrder (R.partition rq.n shard)).length ≤
      rq.slotStride.val := by
    refine hroomy.2 shard hshard _ (List.Nodup.append (h.once shard) nodup_childOrder ?_) ?_
    · intro id hold hnew'
      obtain ⟨-, hp, hbkt⟩ := hshare.mem_childOrder.1 hnew'
      exact hnew id hp hbkt ((h.mem_shardRows shard id).1 hold).2.1
    · intro id hid
      rcases mem_append.1 hid with hid | hid
      · obtain ⟨hl, -, hbkt⟩ := (h.mem_shardRows shard id).1 hid
        exact ⟨hl, hbkt⟩
      · obtain ⟨hl, -, hbkt⟩ := hshare.mem_childOrder.1 hid
        exact ⟨hl, hbkt⟩
  rw [length_append, ← card_ids] at hcnt
  have hnext := h.next shard hshard
  have hspan : (shard + 1) * rq.slotStride.val ≤ 2 ^ k * rq.slotStride.val :=
    Nat.mul_le_mul_right _ hshard
  have hlimit := hroomy.1
  have hk64 : (2 : ℕ) ^ k ≤ 2 ^ 63 := Nat.pow_le_pow_right (by norm_num) hk
  have hstep : (shard + 1) * rq.slotStride.val = shard * rq.slotStride.val + rq.slotStride.val :=
    Nat.succ_mul _ _
  have hlogical : slotBaseOf rq (shard + 1) =
      .ok ⟨rq.slotBase.val + (shard + 1) * rq.slotStride.val, by omega⟩ :=
    (slotBaseOf_ok (by omega)).2 rfl
  have hend : ofNat? ((st.nextSlots shard).val + (R.partition rq.n shard).ids.card) =
      some ⟨(st.nextSlots shard).val + (R.partition rq.n shard).ids.card, by omega⟩ :=
    ofNat?_eq_some.2 rfl
  obtain ⟨_, _, heq⟩ := sealShard_eq hfirst hn hk henc hR hshard hrows
  rw [heq, hlogical, ok_bind, hend]
  refine ⟨_, bind_ok.2 ⟨_, rfl, bind_ok.2 ⟨(), refuseIf_ok.2 (decide_eq_false ?_), rfl⟩⟩⟩
  rw [lt_iff]
  simp only
  omega

end

end

/-! ## The loops -/

section

variable (hfirst : first ∈ logs) (hn : rq.n = 2 ^ k) (hk : k ≤ 63)
  (henc : Encodes env logs rq.vectorsOnly)
include hfirst hn hk henc

/-- The shards of one bucket, one after the other. -/
lemma Sealed.shards (hR : R.IsShare (allRows rq.vectorsOnly logs) p)
    (h : Sealed rq k (allRows rq.vectorsOnly logs) q st) (hnew : ∀ id, p id → ¬q id) :
    (∀ st', (List.range rq.n).foldlM (Reshard.sealShard env rq first binding R) st = .ok st' →
      Sealed rq k (allRows rq.vectorsOnly logs) (fun id => q id ∨ p id) st') ∧
    (Roomy rq k (allRows rq.vectorsOnly logs) →
      ∃ st', (List.range rq.n).foldlM (Reshard.sealShard env rq first binding R) st = .ok st') := by
  have hmem : ∀ shard ∈ range rq.n, shard < 2 ^ k := fun shard h => hn ▸ mem_range.1 h
  have hfresh : ∀ (done : List ℕ) (shard : ℕ), shard ∉ done → ∀ id, p id →
      bucketOf id (2 ^ k) = shard → ¬(q id ∨ p id ∧ bucketOf id (2 ^ k) ∈ done) := by
    rintro done shard hdone id hp rfl (hq | ⟨-, hbkt⟩)
    exacts [hnew id hp hq, hdone hbkt]
  have hloop := foldlM_distinct (J := fun st done => Sealed rq k (allRows rq.vectorsOnly logs)
      (fun id => q id ∨ p id ∧ bucketOf id (2 ^ k) ∈ done) st)
    (f := Reshard.sealShard env rq first binding R) (s := st)
    (Q := Roomy rq k (allRows rq.vectorsOnly logs)) (nodup_range (n := rq.n))
    (fun shard hs s t done hdone hJ ht => ?_)
    (fun shard hs s done hdone hJ hroomy => hJ.sealShard_returns hfirst hn hk henc hR
      (hmem shard hs) (hfresh done shard hdone) hroomy) ?_
  · refine ⟨fun st' hst' => (hloop.1 st' hst').congr fun id _ => ?_, hloop.2⟩
    have : bucketOf id (2 ^ k) ∈ range rq.n := by
      rw [hn, mem_range]
      exact bucketOf_lt (hk.trans (by norm_num))
    tauto
  · refine (hJ.sealShard hfirst hn hk henc hR (hmem shard hs) (hfresh done shard hdone)
      ht).congr fun id _ => ?_
    rw [mem_append, mem_singleton]
    tauto
  · exact h.congr fun id _ => by simp

lemma Sealed.sealBucket (hwf : WellFormed env logs) {bucket : ℕ} {done : List ℕ}
    (hbkt : bucket < first.bucketCount) (hdone : bucket ∉ done)
    (h : Sealed rq k (allRows rq.vectorsOnly logs)
      (fun id => bucketOf id first.bucketCount ∈ done) st) :
    (∀ st', Reshard.sealBucket env rq first logs binding st bucket = .ok st' →
      Sealed rq k (allRows rq.vectorsOnly logs)
        (fun id => bucketOf id first.bucketCount ∈ done ++ [bucket]) st') ∧
    (Roomy rq k (allRows rq.vectorsOnly logs) →
      ∃ st', Reshard.sealBucket env rq first logs binding st bucket = .ok st') := by
  have hsub := singleton_sublist.2 (mem_range.2 hbkt)
  obtain ⟨R, hR⟩ := hwf.replayLogs_returns hfirst hsub
  have hshare := hwf.replayLogs_isShare hfirst (fun b hb => mem_range.1 (hsub.subset hb)) hR
  -- the count of rows held at once is the only other thing the loop carries
  have hpeak : Sealed rq k (allRows rq.vectorsOnly logs)
      (fun id => bucketOf id first.bucketCount ∈ done)
      { st with peakReplayRows := max st.peakReplayRows R.compact.ids.card } :=
    ⟨h.vectors, h.documents, h.mem_shardRows, h.once, h.physical, h.next, h.within, h.bounded,
      h.apart⟩
  rw [Reshard.sealBucket, hR, ok_bind]
  simp only [mem_append]
  by_cases hempty : R.compact.ids = ∅
  · rw [if_pos hempty]
    refine ⟨fun st' hst' => ?_, fun _ => ⟨_, rfl⟩⟩
    rw [← Except.ok.inj hst']
    refine hpeak.congr fun id hl => ⟨.inl, fun h' => h'.resolve_right fun hid => ?_⟩
    have := hshare.mem_ids.2 ⟨hl, hid⟩
    rw [hempty] at this
    exact Finset.notMem_empty id this
  · rw [if_neg hempty]
    refine hpeak.shards hfirst hn hk henc hshare fun id hid => ?_
    rw [mem_singleton.1 hid]
    exact hdone

end

end Loop

/-! ## The whole run -/

/-- The segments of a split: every logical shard has exactly the live rows that hash to it, each
once, and no two segments share a slot. -/
structure SegmentsOf (rows : List (Row F D)) (k : ℕ)
    (segments : List (SegmentedChildImage F D)) : Prop where
  vectors : ∀ shard id v,
    (∃ s ∈ segments, s.logicalShard = shard ∧ (id, v) ∈ s.image.vectors) ↔
      LiveVector rows id v ∧ bucketOf id (2 ^ k) = shard
  documents : ∀ shard id d,
    (∃ s ∈ segments, s.logicalShard = shard ∧ (id, d) ∈ s.image.documents) ↔
      LiveDocument rows id d ∧ bucketOf id (2 ^ k) = shard
  ids : ∀ shard id, id ∈ shardRows segments shard ↔ LiveId rows id ∧ bucketOf id (2 ^ k) = shard
  once : ∀ shard, (shardRows segments shard).Nodup
  physical : ∀ s ∈ segments, s.physicalRows = s.image.rowParentIds.length
  disjoint : segments.Pairwise fun s t =>
    s.image.slotOffset.val + s.physicalRows ≤ t.image.slotOffset.val ∨
      t.image.slotOffset.val + t.physicalRows ≤ s.image.slotOffset.val

section

variable {rq : Request} {k : ℕ} {rows : List (Row F D)} {q : U64 → Prop} {st : Sealing F D}

lemma Sealed.segmentsOf (h : Sealed rq k rows q st) (hq : ∀ id, q id) :
    SegmentsOf rows k st.segments where
  vectors shard id v := by rw [h.vectors, and_iff_right (hq id)]
  documents shard id d := by rw [h.documents, and_iff_right (hq id)]
  ids shard id := by rw [h.mem_shardRows, and_iff_right (hq id)]
  once := h.once
  physical := h.physical
  disjoint := by
    -- segments of two shards lie in the two shards' slots
    have hacross : ∀ s ∈ st.segments, ∀ t ∈ st.segments, s.logicalShard < t.logicalShard →
        s.image.slotOffset.val + s.physicalRows ≤ t.image.slotOffset.val := by
      intro s hs t ht hlt
      calc s.image.slotOffset.val + s.physicalRows ≤ (st.nextSlots s.logicalShard).val :=
            (h.within s hs).2
        _ ≤ rq.slotBase.val + (s.logicalShard + 1) * rq.slotStride.val := h.bounded s hs
        _ ≤ rq.slotBase.val + t.logicalShard * rq.slotStride.val :=
            Nat.add_le_add_left (Nat.mul_le_mul_right _ hlt) _
        _ ≤ t.image.slotOffset.val := (h.within t ht).1
    refine h.apart.imp_of_mem fun {s t} hs ht hst => ?_
    rcases lt_trichotomy s.logicalShard t.logicalShard with hlt | heq | hgt
    exacts [.inl (hacross s hs t ht hlt), .inl (hst heq), .inr (hacross t ht s hs hgt)]

lemma sealed_nil {nextSlots : ℕ → U64} (hnext : ∀ shard < 2 ^ k, (nextSlots shard).val =
      rq.slotBase.val + shard * rq.slotStride.val) :
    Sealed rq k rows (fun _ => False) ⟨nextSlots, fun _ => 0, [], 0⟩ where
  vectors := by simp
  documents := by simp
  mem_shardRows := by simp [shardRows]
  once _ := nodup_nil
  physical := by simp
  next := hnext
  within := by simp
  bounded := by simp
  apart := List.Pairwise.nil

lemma topGeneration_lt {first : Log F D M C} {logs : List (Log F D M C)} (hfirst : first ∈ logs)
    {b : ℕ} : (topGeneration first logs).val < b ↔ ∀ l ∈ logs, l.generation.val < b := by
  have hfold : ∀ (ls : List (Log F D M C)) (top : U64),
      (ls.foldl (fun top l => max top l.generation) top).val < b ↔
        top.val < b ∧ ∀ l ∈ ls, l.generation.val < b := by
    intro ls
    induction ls with
    | nil => simp
    | cons l ls ih =>
      intro top
      rw [foldl_cons, ih, forall_mem_cons, ← and_assoc]
      refine and_congr_left fun _ => ?_
      rcases le_total top l.generation with h | h
      · rw [max_eq_right h]
        exact ⟨fun h' => ⟨lt_of_le_of_lt (le_iff.1 h) h', h'⟩, And.right⟩
      · rw [max_eq_left h]
        exact ⟨fun h' => ⟨h', lt_of_le_of_lt (le_iff.1 h) h'⟩, And.left⟩
  rw [topGeneration, hfold]
  exact ⟨And.right, fun h => ⟨h first hfirst, h⟩⟩

variable [DecidableEq M] [DecidableEq C] {env : Env F D M C} {logs : List (Log F D M C)}

/-- **`split_logs_segmented`**: what it returns, and that it returns when the slots suffice. -/
theorem splitLogsSegmented_spec (hwf : WellFormed env logs) (hn : rq.n = 2 ^ k) (hk : k ≤ 63)
    (henc : Encodes env logs rq.vectorsOnly) : (∀ out, splitLogsSegmented env logs rq = .ok out →
      SegmentsOf (allRows rq.vectorsOnly logs) k out.segments) ∧
    (rq.slotStride.val ≠ 0 → Roomy rq k (allRows rq.vectorsOnly logs) →
      (∀ l ∈ logs, l.generation.val + 1 < 2 ^ 64) →
        ∃ out, splitLogsSegmented env logs rq = .ok out) := by
  cases logs with
  | nil => exact absurd rfl hwf.nonempty
  | cons first tail =>
  have hfirst : first ∈ first :: tail := mem_cons_self
  obtain ⟨binding, hbind⟩ := hwf.readGensBinding_returns
  have hchecks := mapM_ok fun l hl => hwf.checkLog_ok hfirst hl
  have hloop : ∀ nextSlots : ℕ → U64, (∀ shard < 2 ^ k, (nextSlots shard).val =
      rq.slotBase.val + shard * rq.slotStride.val) →
      (∀ st, (range first.bucketCount).foldlM (sealBucket env rq first (first :: tail) binding)
        ⟨nextSlots, fun _ => 0, [], 0⟩ = .ok st →
        Sealed rq k (allRows rq.vectorsOnly (first :: tail))
          (fun id => bucketOf id first.bucketCount ∈ range first.bucketCount) st) ∧
      (Roomy rq k (allRows rq.vectorsOnly (first :: tail)) → ∃ st,
        (range first.bucketCount).foldlM (sealBucket env rq first (first :: tail) binding)
          ⟨nextSlots, fun _ => 0, [], 0⟩ = .ok st) := by
    intro nextSlots hnext
    refine foldlM_distinct (J := fun st done =>
        Sealed rq k (allRows rq.vectorsOnly (first :: tail))
          (fun id => bucketOf id first.bucketCount ∈ done) st) nodup_range
      (fun bucket hb s t done hdone hJ => ?_) (fun bucket hb s done hdone hJ => ?_) ?_
    · exact (hJ.sealBucket hfirst hn hk henc hwf (mem_range.1 hb) hdone).1 t
    · exact (hJ.sealBucket hfirst hn hk henc hwf (mem_range.1 hb) hdone).2
    · exact (sealed_nil hnext).congr fun id _ => by simp
  have hk64 : (2 : ℕ) ^ k < 2 ^ 64 := Nat.pow_lt_pow_right (by norm_num) (by omega)
  have hslots : ∀ slots, (range rq.n).mapM (slotBaseOf rq) = .ok slots →
      ∀ shard < 2 ^ k, (slots.getD shard (wrap 0)).val =
        rq.slotBase.val + shard * rq.slotStride.val := by
    intro slots h shard hshard
    obtain ⟨hlen, hget⟩ := mapM_getElem? h
    have hlt : shard < slots.length := by rwa [hlen, length_range, hn]
    obtain ⟨x, hx, hok⟩ := hget shard _ (getElem?_eq_getElem hlt)
    rw [getElem?_range (by rwa [hn]), Option.some.injEq] at hx
    subst hx
    rw [getD_eq_getElem?_getD, getElem?_eq_getElem hlt]
    exact (slotBaseOf_ok (hshard.trans hk64)).1 hok
  have hrun : splitLogsSegmented env (first :: tail) rq =
      refuseIf (decide (rq.slotStride.val = 0)) (.refused .zeroStride) >>= fun _ =>
        (range rq.n).mapM (slotBaseOf rq) >>= fun slots =>
        (range first.bucketCount).foldlM (sealBucket env rq first (first :: tail) binding)
          ⟨fun shard => slots.getD shard (wrap 0), fun _ => 0, [], 0⟩ >>= fun st =>
        orRefuse .generationOverflow
          (checkedAdd (topGeneration first (first :: tail)) (wrap 1)) >>= fun generation =>
        .ok ⟨generation, rq.n, st.segments, st.peakReplayRows⟩ := by
    simp only [splitLogsSegmented, hn, isPowerOfTwo_two_pow, Bool.not_true, refuseIf_false, ok_bind,
      hchecks, hbind]
    rfl
  rw [hrun]
  constructor
  · intro out hout
    obtain ⟨_, -, slots, hs, hout⟩ := bind₂_ok.1 hout
    obtain ⟨st, hst, generation, -, hout⟩ := bind₂_ok.1 hout
    rw [← Except.ok.inj hout]
    refine ((hloop _ (hslots slots hs)).1 st hst).segmentsOf fun id => mem_range.2 ?_
    exact bucketOf_lt (first.bucketBits_le.trans (by norm_num))
  · intro hstride hroomy hgen
    obtain ⟨slots, hs⟩ : ∃ slots, (range rq.n).mapM (slotBaseOf rq) = .ok slots := by
      refine mapM_returns_iff.2 fun shard hshard => ?_
      have hlt : shard < 2 ^ k := hn ▸ mem_range.1 hshard
      have hspan := Nat.mul_le_mul_right rq.slotStride.val hlt.le
      have hlimit := hroomy.1
      exact ⟨⟨rq.slotBase.val + shard * rq.slotStride.val, by omega⟩,
        (slotBaseOf_ok (hlt.trans hk64)).2 rfl⟩
    obtain ⟨st, hst⟩ := (hloop _ (hslots slots hs)).2 hroomy
    have htop : (topGeneration first (first :: tail)).val < 2 ^ 64 - 1 :=
      (topGeneration_lt hfirst).2 fun l hl => by
        have := hgen l hl
        omega
    have hnext : checkedAdd (topGeneration first (first :: tail)) (wrap 1) =
        some ⟨(topGeneration first (first :: tail)).val + 1, by omega⟩ :=
      ofNat?_eq_some.2 rfl
    rw [decide_eq_false hstride, refuseIf_false, ok_bind, hs, ok_bind, hst, hnext]
    exact ⟨_, rfl⟩

end

end ProtomoltSearch.Reshard
