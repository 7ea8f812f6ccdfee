import ProtomoltSearch.Reshard.Live

/-!
# The children of a split

Whichever path runs, a child of a split of well-formed logs is the image of the live rows that hash
to it, with the hash range of its bucket (`ChildOf`). Building one can only fail to return where the
build checks overflow: a log of one bucket shifts by the whole width, and slot offsets may not fit.
-/

namespace ProtomoltSearch.Reshard

open Wal List U64 Nat

variable {F D M C : Type}

lemma isPowerOfTwo_two_pow (k : ℕ) : isPowerOfTwo (2 ^ k) = true := by
  simp [isPowerOfTwo, log2_two_pow]

section

variable {env : Env F D M C} {logs : List (Log F D M C)} {first : Log F D M C}

lemma WellFormed.checkLog_ok [DecidableEq C] (hwf : WellFormed env logs) (hfirst : first ∈ logs)
    {l : Log F D M C} (hl : l ∈ logs) : checkLog env first l = .ok () := by
  obtain ⟨hdim, husable⟩ := hwf.configured l hl
  obtain ⟨hpv, hpd⟩ := hwf.complete l hl
  obtain ⟨hcoll, hsame, hconfig, hbits⟩ := hwf.uniform first hfirst l hl
  simp [checkLog, requireBackendConfig, requireCompleteHistory, sameBackendConfig, hdim, husable,
    hpv, hpd, hcoll, hsame, hconfig, hbits]

/-- The binding noted so far is that of some marker. -/
def Noted (logs : List (Log F D M C)) (bound : Option M) : Prop :=
  ∀ b ∈ bound, ∃ l ∈ logs, ∃ r ∈ l.markers, r.op = some (.bind b)

lemma WellFormed.noteBinding_returns [DecidableEq M] (hwf : WellFormed env logs) {l : Log F D M C} (hl : l ∈ logs)
    {r : WalRecord F D M} (hr : r ∈ l.markers) {bound : Option M} (hbound : Noted logs bound) :
    ∃ bound', noteBinding env bound r = .ok bound' ∧ Noted logs bound' := by
  unfold noteBinding
  split
  · rename_i binding hop
    rw [hwf.validBindings l hl r hr binding hop]
    cases bound with
    | none =>
      refine ⟨some binding, rfl, fun b hb => ⟨l, hl, r, hr, ?_⟩⟩
      rwa [← Option.some.inj hb]
    | some first =>
      obtain ⟨l', hl', r', hr', hop'⟩ := hbound first rfl
      have heq : first = binding := hwf.oneBinding l' hl' r' hr' first hop' l hl r hr binding hop
      refine ⟨some first, if_neg ?_, hbound⟩
      simp [heq]
  · exact ⟨bound, rfl, hbound⟩

/-- One valid binding across the markers is read. -/
lemma WellFormed.readGensBinding_returns [DecidableEq M] (hwf : WellFormed env logs) :
    ∃ binding, readGensBinding env logs = .ok binding := by
  have hnone : Noted logs none := fun b hb => nomatch hb
  obtain ⟨binding, h, -⟩ := foldlM_keeps (fun l hl bound hbound =>
    foldlM_keeps (fun r hr bound hbound => hwf.noteBinding_returns hl hr hbound) hbound) hnone
  exact ⟨binding, h⟩

end

section

variable {env : Env F D M C} {rq : Request} {k b i : ℕ}

lemma two_pow_split (hb : b ≤ 64) : 2 ^ b * 2 ^ (64 - b) = (2 : ℕ) ^ 64 := by
  rw [← Nat.pow_add, Nat.add_sub_cancel' hb]

/-- A bucket number shifted to the top of the hash space. -/
lemma shl_bucket {E : Type} {checks : Bool} {x : ℕ} (hb : b ≤ 64) (hb0 : b ≠ 0) (hx : x < 2 ^ b) :
    ∃ r : U64, (U64.shl checks (U64.wrap x) (64 - b) : Except (Failure E) U64) = .ok r ∧
      r.val = x * 2 ^ (64 - b) := by
  have hfit : x * 2 ^ (64 - b) < 2 ^ 64 := by
    rw [← two_pow_split hb]
    exact mul_lt_mul_of_pos_right hx (by positivity)
  have hval : (wrap x).val = x :=
    wrap_val (hx.trans_le (Nat.pow_le_pow_right (by norm_num) hb))
  have hshl : ∃ r : U64, (shl checks (wrap x) (64 - b) : Except (Failure E) U64) = .ok r ∧
      r.val = (wrap x).val * 2 ^ (64 - b) := shl_of_lt (by omega) (by rwa [hval])
  rwa [hval] at hshl

/-- Child `i` of `2 ^ k` starts where its first bucket of `2 ^ b` does. -/
lemma bucket_start (hk : k ≤ b) (hb : b ≤ 64) :
    i * 2 ^ (b - k) * 2 ^ (64 - b) = i * 2 ^ (64 - k) := by
  rw [mul_assoc, ← pow_add]
  congr 2
  omega

lemma hashHiOf_ok (hn : rq.n = 2 ^ k) (hk : k ≤ b) (hb : b ≤ 64) (hi : i < 2 ^ k) :
    ∃ r, hashHiOf env rq i ((i + 1) * 2 ^ (b - k)) (64 - b) = .ok r ∧
      r.val + 1 = (i + 1) * 2 ^ (64 - k) := by
  unfold hashHiOf
  rw [hn]
  split
  · rename_i hlast
    refine ⟨max, rfl, ?_⟩
    rw [hlast, two_pow_split (hk.trans hb)]
    rfl
  · have hlt : i + 1 < 2 ^ k := by omega
    have hb0 : b ≠ 0 := by
      rintro rfl
      obtain rfl : k = 0 := by omega
      omega
    have hx : (i + 1) * 2 ^ (b - k) < 2 ^ b := by
      calc (i + 1) * 2 ^ (b - k) < 2 ^ k * 2 ^ (b - k) :=
            mul_lt_mul_of_pos_right hlt (by positivity)
        _ = 2 ^ b := by rw [← Nat.pow_add, Nat.add_sub_cancel' hk]
    obtain ⟨h, hshl, hval⟩ := shl_bucket hb hb0 hx
    rw [bucket_start hk hb] at hval
    have hpos : 0 < (i + 1) * 2 ^ (64 - k) := by positivity
    obtain ⟨r, hsub, _⟩ : ∃ r : U64, (sub env.checks h (wrap 1) : Outcome U64) = .ok r ∧
        r.val = h.val - 1 := sub_of_le (by rw [hval]; exact hpos)
    refine ⟨r, ?_, ?_⟩
    · rw [hshl]
      exact hsub
    · omega

/-- A slot offset is computed unless it overflows in a build that checks. -/
lemma slotOffsetOf_returns_iff (hi : i < 2 ^ 64) : (∃ r, slotOffsetOf env rq i = .ok r) ↔
      env.checks = false ∨ rq.slotBase.val + i * rq.slotStride.val < 2 ^ 64 := by
  unfold slotOffsetOf mul add
  rw [wrap_val hi]
  cases env.checks with
  | false => exact iff_of_true ⟨_, rfl⟩ (.inl rfl)
  | true =>
    constructor
    · rintro ⟨r, hr⟩
      obtain ⟨delta, hdelta, hr⟩ := bind_ok.1 hr
      obtain ⟨hfit, rfl⟩ := exactly_checked_ok.1 hdelta
      obtain ⟨hsum, -⟩ := exactly_checked_ok.1 hr
      rw [wrap_val hfit] at hsum
      exact .inr hsum
    · rintro (h | h)
      · cases h
      · have hfit : i * rq.slotStride.val < 2 ^ 64 := by omega
        refine ⟨wrap (rq.slotBase.val + i * rq.slotStride.val), ?_⟩
        rw [exactly_of_lt hfit, ok_bind, wrap_val hfit, exactly_of_lt h]

end

/-- The provider, the analyzer and the file formats take the live rows of every share. -/
def Encodes (env : Env F D M C) (logs : List (Log F D M C)) (vectorsOnly : Bool) : Prop :=
  ∀ log ∈ logs, ∀ (binding : Option M) (R : Replay F D) (p : U64 → Prop),
    R.IsShare (allRows vectorsOnly logs) p →
      env.encode log binding R.vectors.entries (orderedDocuments R) = none

/-- Child `i` of `2 ^ k`: the live rows that hash to it, with its hash range. -/
def ChildOf (rows : List (Row F D)) (k i : ℕ) (c : ChildImage F D) : Prop :=
  ∃ (R : Replay F D) (slotOffset hashLo hashHi : U64),
    R.IsShare rows (fun id => bucketOf id (2 ^ k) = i) ∧
    hashLo.val = i * 2 ^ (64 - k) ∧ hashHi.val + 1 = (i + 1) * 2 ^ (64 - k) ∧
    c = imageOf R slotOffset hashLo hashHi

/-- Child `i` is computed without a panic: the build does not check overflow, or neither the shift of
a single bucket nor the slot offset overflows. -/
def Computes (env : Env F D M C) (rq : Request) (bucketBits k i : ℕ) : Prop :=
  env.checks = false ∨
    ¬(bucketBits = 0 ∧ k = 0) ∧ rq.slotBase.val + i * rq.slotStride.val < 2 ^ 64

section Child

variable {env : Env F D M C} {logs : List (Log F D M C)} {first : Log F D M C} {rq : Request}
  {binding : Option M} {k i : ℕ}

lemma Encodes.finishChild_eq (henc : Encodes env logs rq.vectorsOnly) (hfirst : first ∈ logs)
    {R : Replay F D} {p : U64 → Prop} (hR : R.compact.IsShare (allRows rq.vectorsOnly logs) p)
    (ordinal : ℕ) (slotOffset hashLo hashHi : U64) :
    finishChild env first binding R ordinal slotOffset hashLo hashHi =
      .ok (imageOf R.compact slotOffset hashLo hashHi) := by
  rw [Reshard.finishChild_eq, henc first hfirst binding _ p hR]

/-- The buckets of child `i` are those of the ids that hash to it. -/
lemma mem_childBuckets {b : ℕ} (hk : k ≤ b) (hb : b ≤ 64) (id : U64) :
    bucketOf id (2 ^ b) ∈ List.range' (i * (2 ^ b / 2 ^ k)) (2 ^ b / 2 ^ k) ↔
      bucketOf id (2 ^ k) = i := by
  rw [← bucketOf_div hk hb, Nat.pow_div hk (by norm_num), Nat.div_eq_iff (by positivity),
    mem_range'_1]
  have : 0 < 2 ^ (b - k) := by positivity
  omega

lemma childBuckets_end {b : ℕ} (hk : k ≤ b) (hi : i < 2 ^ k) :
    i * (2 ^ b / 2 ^ k) + 2 ^ b / 2 ^ k ≤ 2 ^ b := by
  rw [Nat.pow_div hk (by norm_num)]
  calc i * 2 ^ (b - k) + 2 ^ (b - k) = (i + 1) * 2 ^ (b - k) := by rw [add_mul, one_mul]
    _ ≤ 2 ^ k * 2 ^ (b - k) := mul_le_mul_right _ hi
    _ = 2 ^ b := by rw [← Nat.pow_add, Nat.add_sub_cancel' hk]

lemma range'_sublist_range {s n m : ℕ} (h : s + n ≤ m) :
    (List.range' s n).Sublist (List.range m) := by
  obtain ⟨rest, rfl⟩ := le.dest h
  rw [range_eq_range', ← List.range'_append_1, ← List.range'_append_1, zero_add, append_assoc]
  exact (sublist_append_left _ _).trans (sublist_append_right _ _)

/-- The lower end of a range of whole buckets: a log of one bucket shifts by the whole width. -/
lemma shl_firstBucket_returns_iff {b : ℕ} :
    (∃ r, (U64.shl env.checks (U64.wrap (i * (2 ^ b / 2 ^ k))) (64 - b) : Outcome U64) = .ok r) ↔
      env.checks = false ∨ b ≠ 0 := by
  constructor
  · rintro ⟨r, hr⟩
    by_contra hno
    obtain ⟨hchecks, rfl⟩ : env.checks = true ∧ b = 0 := by simpa using hno
    rw [hchecks] at hr
    cases hr
  · intro h
    refine ⟨_, if_neg ?_⟩
    rcases h with h | h
    · simp [h]
    · have : ¬64 ≤ 64 - b := by omega
      simp [this]

lemma shl_firstBucket_val {b : ℕ} (hk : k ≤ b) (hb : b ≤ 64) (hi : i < 2 ^ k) {r : U64}
    (hr : (U64.shl env.checks (U64.wrap (i * (2 ^ b / 2 ^ k))) (64 - b) : Outcome U64) = .ok r) :
    r.val = i * 2 ^ (64 - k) := by
  by_cases hb0 : b = 0
  · subst hb0
    obtain rfl : k = 0 := by omega
    obtain rfl : i = 0 := by omega
    unfold shl at hr
    split at hr
    · cases hr
    · rw [← Except.ok.inj hr]
      rfl
  · have hend := childBuckets_end hk hi
    have hpos : 0 < 2 ^ b / 2 ^ k := Nat.div_pos (Nat.pow_le_pow_right (by norm_num) hk) (by positivity)
    obtain ⟨r', hr', hval⟩ : ∃ r', (shl env.checks (wrap (i * (2 ^ b / 2 ^ k))) (64 - b) :
        Outcome U64) = .ok r' ∧ r'.val = i * (2 ^ b / 2 ^ k) * 2 ^ (64 - b) :=
      shl_bucket hb hb0 (by omega)
    rw [hr] at hr'
    rw [Except.ok.inj hr', hval, Nat.pow_div hk (by norm_num), bucket_start hk hb]

/-- Children `0, 1, …` of `2 ^ k`. -/
def ChildrenOf (rows : List (Row F D)) (k : ℕ) (children : List (ChildImage F D)) : Prop :=
  children.length = 2 ^ k ∧ ∀ i c, children[i]? = some c → ChildOf rows k i c

lemma childrenOf_mapM {f : ℕ → Outcome (ChildImage F D)} {rows : List (Row F D)} {P : ℕ → Prop}
    (hf : ∀ i < 2 ^ k, (∀ c, f i = .ok c → ChildOf rows k i c) ∧ ((∃ c, f i = .ok c) ↔ P i)) :
    (∀ children, (List.range (2 ^ k)).mapM f = .ok children → ChildrenOf rows k children) ∧
      ((∃ children, (List.range (2 ^ k)).mapM f = .ok children) ↔ ∀ i < 2 ^ k, P i) := by
  constructor
  · intro children h
    obtain ⟨hlen, hget⟩ := mapM_getElem? h
    refine ⟨hlen.trans length_range, fun i c hc => ?_⟩
    obtain ⟨j, hj, hfj⟩ := hget i c hc
    have hlt : i < 2 ^ k := by simpa using (List.getElem?_eq_some_iff.1 hj).1
    rw [getElem?_range hlt] at hj
    exact (hf i hlt).1 c (Option.some.inj hj ▸ hfj)
  · rw [mapM_returns_iff]
    refine forall_congr' fun i => ?_
    rw [mem_range]
    exact forall_congr' fun hi => (hf i hi).2

section

variable (hwf : WellFormed env logs) (hfirst : first ∈ logs) (hn : rq.n = 2 ^ k)
  (henc : Encodes env logs rq.vectorsOnly)
include hwf hfirst hn henc

/-- A child of the cheap path. -/
lemma bucketChild_spec (hk : k ≤ first.bucketBits) (hi : i < 2 ^ k) :
    (∀ c, bucketChild env rq first logs binding i = .ok c →
      ChildOf (allRows rq.vectorsOnly logs) k i c) ∧
    ((∃ c, bucketChild env rq first logs binding i = .ok c) ↔
      Computes env rq first.bucketBits k i) := by
  have hb : first.bucketBits ≤ 64 := first.bucketBits_le.trans (by norm_num)
  have hi64 : i < 2 ^ 64 := hi.trans_le (Nat.pow_le_pow_right (by norm_num) (hk.trans hb))
  have hsub := range'_sublist_range (childBuckets_end hk hi)
  obtain ⟨R, hR⟩ : ∃ R, replayLogs (replaying env.checks first rq.vectorsOnly) logs _ = .ok R :=
    hwf.replayLogs_returns hfirst hsub
  have hshare := (hwf.replayLogs_isShare hfirst (fun bucket hbkt =>
    mem_range.1 (hsub.subset hbkt)) hR).congr (mem_childBuckets hk hb)
  obtain ⟨hashHi, hhi, hhival⟩ : ∃ r, hashHiOf env rq i _ _ = .ok r ∧ _ :=
    hashHiOf_ok hn hk hb hi
  have hnext : i * (2 ^ first.bucketBits / 2 ^ k) + 2 ^ first.bucketBits / 2 ^ k =
      (i + 1) * 2 ^ (first.bucketBits - k) := by
    rw [Nat.pow_div hk (by norm_num), Nat.add_mul, Nat.one_mul]
  have hrun : bucketChild env rq first logs binding i =
      shl env.checks (wrap (i * (2 ^ first.bucketBits / 2 ^ k))) (64 - first.bucketBits) >>=
        fun hashLo => slotOffsetOf env rq i >>=
        fun slotOffset => .ok (imageOf R.compact slotOffset hashLo hashHi) := by
    simp only [bucketChild, hn, Log.bucketCount, hR, ok_bind, hnext, hhi,
      henc.finishChild_eq hfirst hshare]
  have hone : ¬(first.bucketBits = 0 ∧ k = 0) ↔ first.bucketBits ≠ 0 := by omega
  rw [hrun, Computes, hone]
  refine ⟨fun c hc => ?_, ?_⟩
  · obtain ⟨hashLo, hlo, slotOffset, -, hc⟩ := bind₂_ok.1 hc
    exact ⟨R.compact, slotOffset, hashLo, hashHi, hshare, shl_firstBucket_val hk hb hi hlo, hhival,
      (Except.ok.inj hc).symm⟩
  · constructor
    · rintro ⟨c, hc⟩
      obtain ⟨hashLo, hlo, hc⟩ := bind_ok.1 hc
      obtain ⟨slotOffset, hslot, -⟩ := bind_ok.1 hc
      rcases shl_firstBucket_returns_iff.1 ⟨hashLo, hlo⟩ with h | h
      · exact .inl h
      · exact ((slotOffsetOf_returns_iff hi64).1 ⟨slotOffset, hslot⟩).imp_right fun h' => ⟨h, h'⟩
    · intro h
      obtain ⟨hashLo, hlo⟩ := shl_firstBucket_returns_iff.2 (h.imp_right And.left)
      obtain ⟨slotOffset, hslot⟩ := (slotOffsetOf_returns_iff hi64).2 (h.imp_right And.right)
      exact ⟨_, by rw [hlo, ok_bind, hslot, ok_bind]⟩

/-- A child of the re-partitioning path. -/
lemma shareChild_spec {R : Replay F D} (hk0 : k ≠ 0) (hk : k ≤ 64) (hi : i < 2 ^ k)
    (hR : replayLogs (replaying env.checks first rq.vectorsOnly) logs
      (List.range first.bucketCount) = .ok R) :
    (∀ c, shareChild env rq first binding R.compact i = .ok c →
      ChildOf (allRows rq.vectorsOnly logs) k i c) ∧
    ((∃ c, shareChild env rq first binding R.compact i = .ok c) ↔
      Computes env rq first.bucketBits k i) := by
  have hi64 : i < 2 ^ 64 := hi.trans_le (Nat.pow_le_pow_right (by norm_num) hk)
  have hb : first.bucketBits ≤ 64 := first.bucketBits_le.trans (by norm_num)
  have hall := (hwf.replayLogs_isShare hfirst (fun _ => mem_range.1) hR).share rq.n i
  have hshare : (R.compact.share rq.n i).compact.IsShare (allRows rq.vectorsOnly logs)
      fun id => bucketOf id (2 ^ k) = i := by
    rw [compact_of_deleted_empty rfl]
    refine hall.congr fun id => ?_
    rw [hn]
    exact and_iff_right (mem_range.2 (bucketOf_lt hb))
  obtain ⟨hashLo, hlo, hloval⟩ : ∃ r, (shl env.checks (wrap i) (64 - k) : Outcome U64) =
      .ok r ∧ r.val = i * 2 ^ (64 - k) := shl_bucket hk hk0 hi
  obtain ⟨hashHi, hhi, hhival⟩ : ∃ r, hashHiOf env rq i ((i + 1) * 2 ^ (k - k)) (64 - k) = .ok r ∧
      r.val + 1 = (i + 1) * 2 ^ (64 - k) := hashHiOf_ok hn le_rfl hk hi
  rw [Nat.sub_self, Nat.pow_zero, Nat.mul_one] at hhi
  have hrun : shareChild env rq first binding R.compact i = slotOffsetOf env rq i >>=
      fun slotOffset => .ok (imageOf (R.compact.share rq.n i).compact slotOffset hashLo hashHi) := by
    have hlog : rq.n.log2 = k := by rw [hn, log2_two_pow]
    simp only [shareChild, hlog, hlo, hhi, ok_bind, henc.finishChild_eq hfirst hshare]
  have hone : ¬(first.bucketBits = 0 ∧ k = 0) := fun h => hk0 h.2
  rw [hrun, Computes, and_iff_right hone]
  refine ⟨fun c hc => ?_, ?_⟩
  · obtain ⟨slotOffset, -, hc⟩ := bind_ok.1 hc
    exact ⟨_, slotOffset, hashLo, hashHi, hshare, hloval, hhival, (Except.ok.inj hc).symm⟩
  · rw [← slotOffsetOf_returns_iff hi64]
    constructor
    · rintro ⟨c, hc⟩
      obtain ⟨slotOffset, hslot, -⟩ := bind_ok.1 hc
      exact ⟨slotOffset, hslot⟩
    · rintro ⟨slotOffset, hslot⟩
      exact ⟨_, by rw [hslot, ok_bind]⟩

/-- **The children of a split**, on either path: images of the live rows that hash to them. -/
theorem splitChildren_spec (hk : k ≤ 63) :
    (∀ children, splitChildren env rq first logs binding = .ok children →
      ChildrenOf (allRows rq.vectorsOnly logs) k children) ∧
    ((∃ children, splitChildren env rq first logs binding = .ok children) ↔
      ∀ i < 2 ^ k, Computes env rq first.bucketBits k i) := by
  have hcheap : (rq.n ≤ first.bucketCount ∧ rq.n ∣ first.bucketCount) ↔ k ≤ first.bucketBits := by
    rw [hn, Log.bucketCount, Nat.pow_le_pow_iff_right (by norm_num),
      pow_dvd_pow_iff_le_right (by norm_num), and_self]
  unfold splitChildren
  by_cases hcase : k ≤ first.bucketBits
  · rw [if_pos (hcheap.2 hcase), hn]
    exact childrenOf_mapM fun i hi => bucketChild_spec hwf hfirst hn henc hcase hi
  · rw [if_neg (mt hcheap.1 hcase), hn]
    obtain ⟨R, hR⟩ := hwf.replayLogs_returns hfirst (List.Sublist.refl _)
    rw [hR]
    exact childrenOf_mapM fun i hi =>
      shareChild_spec hwf hfirst hn henc (by omega) (hk.trans (by norm_num)) hi hR

end

end Child

end ProtomoltSearch.Reshard
