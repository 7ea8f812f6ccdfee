import ProtomoltSearch.ControlPlane.Invariants
import ProtomoltSearch.ControlPlane.Routes

/-!
# Completions conserve the primaries

The primaries of a state are weighed (`weigh`): by the hashes their ranges cover, or by their live
rows. When the primaries a completion removes are the only ones of their shards and no output is stored
over another shard's primary, the weights of the outputs replace theirs. So a tiling of the hash space
stays one and the live rows stay the same (`completion_conserves`).

The check of a split's ranges counts over past the last hash, so children that all cover the whole hash
space are accepted (`not_completion_conserves`).
-/

namespace ProtomoltSearch.ControlPlane

open List OrderedMap U64 Replica

/-! ## Weighing primaries -/

section

variable {f : Replica → ℕ} {l l' : List Replica} {r : Replica}

def weigh (f : Replica → ℕ) (l : List Replica) : ℕ :=
  ((l.filter fun r => r.role = .primary).map f).sum

lemma weigh_perm (h : l.Perm l') : weigh f l = weigh f l' := ((h.filter _).map f).sum_eq

lemma weigh_cons_primary (h : r.role = .primary) : weigh f (r :: l) = f r + weigh f l := by
  rw [weigh, filter_cons_of_pos (by simpa using h), map_cons, sum_cons, weigh]

lemma weigh_cons_of_ne (h : r.role ≠ .primary) : weigh f (r :: l) = weigh f l := by
  rw [weigh, filter_cons_of_neg (by simpa using h), weigh]

lemma weigh_filter_add (p : Replica → Bool) :
    weigh f (l.filter p) + weigh f (l.filter fun r => !p r) = weigh f l := by
  have hperm := filter_append_perm p l
  rw [← weigh_perm hperm, weigh, weigh, weigh, filter_append, map_append, sum_append]

/-- The weight of a list whose only primary is known. -/
lemma weigh_of_sole (hl : l.Nodup) (hr : r ∈ l) (hrole : r.role = .primary)
    (hsole : ∀ q ∈ l, q.role = .primary → q = r) : weigh f l = f r := by
  have hone : (l.filter fun r => r.role = .primary) = [r] := by
    refine perm_singleton.1 ((perm_ext_iff_of_nodup (hl.filter _) (nodup_singleton r)).2
      fun q => ?_)
    rw [mem_filter, decide_eq_true_eq, mem_singleton]
    exact ⟨fun h => hsole q h.1 h.2, fun h => h ▸ ⟨hr, hrole⟩⟩
  rw [weigh, hone, map_singleton, sum_singleton]

end

/-! ## Storing and removing copies -/

section

variable {f : Replica → ℕ} {m : OrderedMap String Replica} {s : StoredState} {r : Replica}

lemma WellStored.nodup_values (h : WellStored m) : m.values.Nodup := by
  refine (nodup_map_iff_inj_on m.nodup_entries).2 fun e he e' he' heq => Prod.ext ?_ heq
  rw [(h e he).1, (h e' he').1, heq]

/-- Removing what is no primary keeps the weight. -/
lemma weigh_erase {k : String} (p : Replica → Bool)
    (hk : ∀ held, m.get? k = some held → held.role ≠ .primary) :
    weigh f ((m.erase k).values.filter p) = weigh f (m.values.filter p) := by
  cases hheld : m.get? k with
  | none => rw [erase_eq_self hheld]
  | some held =>
    rw [weigh_perm ((values_perm_erase hheld).filter p), filter_cons]
    split
    · rw [weigh_cons_of_ne (hk held hheld)]
    · rfl

/-- A copy stored over no primary adds its weight. -/
lemma weigh_insert {k : String} (hk : ∀ held, m.get? k = some held → held.role ≠ .primary) :
    weigh f (m.insert k r).values = weigh f (r :: m.values) := by
  rw [weigh_perm values_insert_perm]
  have herase : weigh f (m.erase k).values = weigh f m.values := by
    simpa only [filter_true] using weigh_erase (f := f) (fun _ => true) hk
  by_cases hrole : r.role = .primary
  · rw [weigh_cons_primary hrole, weigh_cons_primary hrole, herase]
  · rw [weigh_cons_of_ne hrole, weigh_cons_of_ne hrole, herase]

/-- Primaries stored under different keys, over no primary, add their weights. -/
lemma weigh_inserts {outputs : List Replica} (hkeys : (outputs.map key).Nodup)
    (hroles : ∀ output ∈ outputs, output.role = .primary)
    (hfree : ∀ output ∈ outputs, ∀ held, s.replicas.get? output.key = some held →
    held.role ≠ .primary) : weigh f (outputs.foldl insertReplica s).replicas.values =
    (outputs.map f).sum + weigh f s.replicas.values := by
  induction outputs generalizing s with
  | nil => exact (Nat.zero_add _).symm
  | cons output outputs ih =>
    obtain ⟨hrole, hroles⟩ := forall_mem_cons.1 hroles
    obtain ⟨hfst, hfree⟩ := forall_mem_cons.1 hfree
    obtain ⟨hnew, hkeys⟩ := nodup_cons.1 hkeys
    have hstored := weigh_insert (f := f) (r := output) hfst
    rw [weigh_cons_primary hrole] at hstored
    rw [foldl_cons, ih hkeys hroles ?_, map_cons, sum_cons]
    · rw [insertReplica, hstored]
      omega
    · intro later hlater held hheld
      have hne : later.key ≠ output.key := fun heq => hnew (heq ▸ mem_map_of_mem hlater)
      rw [insertReplica, get?_insert_of_ne hne] at hheld
      exact hfree later hlater held hheld

/-- The copy is the only primary of its shard. -/
def SolePrimary (s : StoredState) (r : Replica) : Prop :=
  r.role = .primary ∧ ∀ q ∈ s.replicas.values, q.shardId = r.shardId → q.role = .primary → q = r

/-- Removing the copies of a shard removes the weight of its only primary. -/
lemma weigh_retain (hs : WellStored m) (hr : r ∈ m.values) (hrole : r.role = .primary)
    (hsole : ∀ q ∈ m.values, q.shardId = r.shardId → q.role = .primary → q = r) :
    f r + weigh f (m.retain fun held => held.shardId ≠ r.shardId).values = weigh f m.values := by
  rw [← weigh_filter_add (f := f) (l := m.values) fun held => decide (held.shardId = r.shardId),
    values_retain]
  have hshard : weigh f (m.values.filter fun held => decide (held.shardId = r.shardId)) = f r := by
    refine weigh_of_sole (hs.nodup_values.filter _) ?_ hrole fun q hq => ?_
    · exact mem_filter.2 ⟨hr, decide_eq_true rfl⟩
    · exact hsole q (mem_filter.1 hq).1 (of_decide_eq_true (mem_filter.1 hq).2)
  rw [hshard]
  simp only [ne_eq, decide_not]

section

variable (hf : ∀ (r : Replica) role, f { r with role := role } = f r)

include hf

/-- After a promotion the shard weighs what the promoted copy does. -/
lemma weigh_promote (hs : WellStored m) (hr : r ∈ m.values) :
    weigh f (promote m r.shardId r.nodeId).values =
      f r + weigh f (m.retain fun held => held.shardId ≠ r.shardId).values := by
  have hrole : { r with role := .primary } ∈ (promote m r.shardId r.nodeId).values := by
    rw [promote, values_mapValues]
    refine mem_map.2 ⟨r, hr, ?_⟩
    rw [if_pos rfl, if_pos rfl]
  have hsole : ∀ q ∈ (promote m r.shardId r.nodeId).values, q.shardId = r.shardId →
      q.role = .primary → q = { r with role := .primary } := by
    intro q hq hshard hqrole
    rw [promote, values_mapValues] at hq
    obtain ⟨held, hheld, rfl⟩ := mem_map.1 hq
    by_cases hheldShard : held.shardId = r.shardId
    · rw [if_pos hheldShard] at hqrole ⊢
      have hnode : held.nodeId = r.nodeId := by
        by_contra hne
        rw [if_neg hne] at hqrole
        cases hqrole
      -- copies of one shard on one node have one key
      have hkey : held.key = r.key := by rw [key, key, hheldShard, hnode]
      have heq := hs.get?_key hheld
      rw [hkey, hs.get?_key hr] at heq
      cases heq
      rw [if_pos rfl]
    · rw [if_neg hheldShard] at hshard
      exact absurd hshard hheldShard
  have hoth : ((promote m r.shardId r.nodeId).retain fun held => held.shardId ≠ r.shardId).values =
      (m.retain fun held => held.shardId ≠ r.shardId).values := by
    rw [values_retain, values_retain, promote, values_mapValues, filter_map]
    have hkept : ∀ held ∈ m.values, (decide (held.shardId ≠ r.shardId)) =
        ((fun held : Replica => decide (held.shardId ≠ r.shardId)) ∘ fun held =>
          if held.shardId = r.shardId then
            { held with role := if held.nodeId = r.nodeId then .primary else .replica }
          else held) held := by
      intro held _
      rw [Function.comp_apply]
      split
      · rfl
      · rfl
    rw [← filter_congr hkept]
    refine (map_congr_left fun held hheld => ?_).trans (map_id _)
    exact if_neg (of_decide_eq_true (mem_filter.1 hheld).2)
  have hweigh := weigh_retain (f := f) (hs.promote r.shardId r.nodeId) hrole rfl hsole
  rw [← hoth, ← hweigh, hf]

/-- A copy that takes over: it is stored, and promoted over the only primary of its shard. -/
lemma weigh_takeOver {source output : Replica} (hs : WellStored s.replicas)
    (hnamed : isBlank output.shardId = false) (hsource : source ∈ s.replicas.values)
    (hsole : SolePrimary s source) (hshard : output.shardId = source.shardId)
    (hfree : ∀ held, s.replicas.get? output.key = some held → held.role ≠ .primary)
    (hweight : f output = f source) :
    weigh f (promote (insertReplica s output).replicas source.shardId output.nodeId).values =
      weigh f s.replicas.values := by
  have hstored : output ∈ (insertReplica s output).replicas.values :=
    mem_values_of_get? get?_insert_self
  have hwell : WellStored (insertReplica s output).replicas := hs.insert hnamed
  have hoth : weigh f ((insertReplica s output).replicas.retain fun held =>
        held.shardId ≠ source.shardId).values =
      weigh f (s.replicas.retain fun held => held.shardId ≠ source.shardId).values := by
    rw [values_retain, values_retain, insertReplica,
      weigh_perm (values_insert_perm.filter _), filter_cons_of_neg (by simpa using hshard),
      weigh_erase _ hfree]
  rw [← hshard, weigh_promote hf hwell hstored, hweight, hshard, hoth]
  exact weigh_retain hs hsource hsole.1 hsole.2

end

end

/-! ## The ranges of a split -/

/-- Ranges in order that chain without starting over tile up to the end of one of them. -/
lemma tiles_of_tileFrom {rs : List (U64 × U64)} {expected last : U64}
    (h : tileFrom expected rs = .ok last) (hne : rs ≠ [])
    (hsort : rs.Pairwise fun a b => a.1 ≤ b.1) (hfull : ∀ r ∈ rs, ¬ IsFull r.1 r.2) :
    ∃ r ∈ rs, Tiles expected.val (rs.map fun r => (r.1.val, r.2.val)) (r.2.val + 1) := by
  induction rs generalizing expected with
  | nil => exact absurd rfl hne
  | cons r rest ih =>
    unfold tileFrom at h
    split at h
    · cases h
    rename_i hchain
    obtain ⟨hlo, hrange⟩ := not_or.1 hchain
    obtain rfl := not_not.1 hlo
    obtain ⟨hfst, hsort⟩ := pairwise_cons.1 hsort
    obtain ⟨hnotFull, hfull⟩ := forall_mem_cons.1 hfull
    have hle := not_lt.1 hrange
    cases rest with
    | nil => exact ⟨r, mem_cons_self, rfl, hle, rfl⟩
    | cons after rest =>
      -- a range that ends at the last hash would be followed by one that starts at zero
      have hhi : r.2.val + 1 < 2 ^ 64 := by
        by_contra hmax
        have hupper := r.2.upper
        refine hnotFull ⟨?_, val_injective (show _ = 2 ^ 64 - 1 by omega)⟩
        have haft : after.1 = wrap (r.2.val + 1) := by
          unfold tileFrom at h
          split at h
          · cases h
          · rename_i hnext
            exact not_not.1 (not_or.1 hnext).1
        have hstart := hfst after mem_cons_self
        rw [haft, show r.2.val + 1 = 2 ^ 64 by omega] at hstart
        exact Nat.le_zero.1 hstart
      obtain ⟨q, hq, htiles⟩ := ih h (cons_ne_nil _ _) hsort hfull
      rw [wrap_val hhi] at htiles
      exact ⟨q, mem_cons_of_mem _ hq, rfl, hle, htiles⟩

lemma pairLe_iff {a b : U64 × U64} : pairLe a b = true ↔ toLex a ≤ toLex b := by
  rw [pairLe, Prod.Lex.toLex_le_toLex]
  simp

instance : Std.Total fun a b : U64 × U64 => pairLe a b = true :=
  ⟨fun a b => by simpa only [pairLe_iff] using le_total (toLex a) (toLex b)⟩

instance : IsTrans (U64 × U64) fun a b => pairLe a b = true :=
  ⟨fun _ _ _ hab hbc => pairLe_iff.2 ((pairLe_iff.1 hab).trans (pairLe_iff.1 hbc))⟩

lemma pairwise_insertionSort_pairLe (rs : List (U64 × U64)) :
    (rs.insertionSort fun a b => pairLe a b).Pairwise fun a b => a.1 ≤ b.1 := by
  refine (pairwise_insertionSort (fun a b => pairLe a b = true) rs).imp fun {a b} hab => ?_
  rcases Prod.Lex.toLex_le_toLex.1 (pairLe_iff.1 hab) with h | h
  · exact h.le
  · exact h.1.le

variable (hash : U64) (s : StoredState) (req : CompletePlacementActionRequest)

/-- The hash lies in the copy's range. -/
def Replica.coversHash (r : Replica) : Bool := decide (r.hashLo ≤ hash ∧ hash ≤ r.hashHi)

/-- **Accepted children cover what their parent covers**, each hash once, if none covers everything. -/
theorem countP_coversHash_of_tiling {outputs : List Replica} {source : Replica}
    (h : requireRangeTiling outputs source.hashLo source.hashHi = .ok ())
    (hfull : ∀ output ∈ outputs, ¬ IsFull output.hashLo output.hashHi) (hash : U64) :
    outputs.countP (coversHash hash) = if source.coversHash hash then 1 else 0 := by
  obtain ⟨last, hlast, h⟩ := bind_ok.1 h
  have hchk := refuseIf_ok.1 h
  rw [Bool.or_eq_false_iff, Bool.or_eq_false_iff, decide_eq_false_iff_not, not_not] at hchk
  obtain ⟨⟨hne, hmax⟩, -⟩ := hchk
  have hperm := perm_insertionSort (fun a b : U64 × U64 => pairLe a b = true)
    (outputs.map fun o => (o.hashLo, o.hashHi))
  have hnonempty : ((outputs.map fun o => (o.hashLo, o.hashHi)).insertionSort
      fun a b => pairLe a b) ≠ [] := by
    intro hnil
    rw [hnil, nil_perm, map_eq_nil_iff] at hperm
    rw [hperm] at hne
    cases hne
  obtain ⟨r, hr, htiles⟩ := tiles_of_tileFrom hlast hnonempty (pairwise_insertionSort_pairLe _) (by
    intro q hq
    obtain ⟨output, houtput, rfl⟩ := mem_map.1 (hperm.mem_iff.1 hq)
    exact hfull output houtput)
  -- the largest end is the end of the tiling
  have hend : r.2 = source.hashHi := by
    obtain ⟨hmem, hle⟩ := max?_eq_some_iff.1 hmax
    refine le_antisymm ?_ ?_
    · obtain ⟨output, houtput, rfl⟩ := mem_map.1 (hperm.mem_iff.1 hr)
      exact hle _ (mem_map_of_mem houtput)
    · obtain ⟨output, houtput, hhi⟩ := mem_map.1 hmem
      have hmem : (output.hashLo, output.hashHi) ∈ (outputs.map fun o => (o.hashLo, o.hashHi)) :=
        mem_map_of_mem houtput
      have hlt := (htiles.range_le _ (mem_map_of_mem (hperm.mem_iff.2 hmem))).2.2
      rw [← hhi]
      exact le_iff.2 (Nat.lt_succ_iff.1 hlt)
  have hcnt := htiles.countP_covers hash.val
  rw [hend, countP_map, hperm.countP_eq, countP_map] at hcnt
  refine hcnt.trans ?_
  simp [coversHash, le_iff]

/-! ## The weights of outputs -/

/-- One for a copy whose range has the hash. -/
def coverWeight (r : Replica) : ℕ := if r.coversHash hash then 1 else 0

lemma sum_coverWeight (l : List Replica) :
    (l.map (coverWeight hash)).sum = l.countP (coversHash hash) := by
  induction l with
  | nil => rfl
  | cons r l ih => rw [map_cons, sum_cons, ih, countP_cons, coverWeight, Nat.add_comm]

/-- The weights that completions conserve. -/
def IsMeasure (f : Replica → ℕ) : Prop := (∃ hash, f = coverWeight hash) ∨ f = liveRows

section

variable {f : Replica → ℕ} {s : StoredState} {action : Action} {source output peer : Replica}
  {outputs : List Replica}

lemma IsMeasure.role (h : IsMeasure f) (r : Replica) (role : Role) : f { r with role := role } = f r := by
  rcases h with ⟨_, rfl⟩ | rfl
  · rfl
  · rfl

/-- Copies with one range and as many live rows weigh the same. -/
lemma IsMeasure.eq_of (h : IsMeasure f) (hlo : output.hashLo = source.hashLo)
    (hhi : output.hashHi = source.hashHi) (hlive : output.liveRows = source.liveRows) :
    f output = f source := by
  rcases h with ⟨_, rfl⟩ | rfl
  · rw [coverWeight, coverWeight, coversHash, coversHash, hlo, hhi]
  · exact hlive

/-- The merged copy weighs what its inputs weigh together. -/
lemma IsMeasure.merge (h : IsMeasure f) (hmerge : mergeDiffers output source peer = false)
    (hrows : output.rows.val = source.liveRows + peer.liveRows) : f output = f source + f peer := by
  obtain ⟨_, -, hlo, hhi, htomb⟩ := mergeDiffers_eq_false hmerge
  have hsource : source.hashLo.val ≤ source.hashHi.val := source.range_le
  have hpeer : peer.hashLo.val ≤ peer.hashHi.val := peer.range_le
  rcases h with ⟨_, rfl⟩ | rfl
  · simp only [coverWeight, coversHash, decide_eq_true_eq, hlo, hhi, le_iff]
    split <;> split <;> split <;> omega
  · rw [liveRows, hrows, htomb, Nat.sub_zero]

/-- The children of a split are primaries without tombstones, and have the parent's live rows. -/
lemma splitRows_steps {rows total : U64} (h : outputs.foldlM (splitRows action source) rows = .ok total) :
    (∀ output ∈ outputs, output.role = .primary ∧ output.tombstones.val = 0) ∧
      total.val = rows.val + (outputs.map liveRows).sum := by
  induction outputs generalizing rows with
  | nil =>
    cases h
    exact ⟨fun _ h => absurd h not_mem_nil, rfl⟩
  | cons output outputs ih =>
    obtain ⟨next, hnext, h⟩ := foldlM_cons_ok.1 h
    obtain ⟨_, -, _, hdense, hnext⟩ := bind₂_ok.1 hnext
    have hdense : output.role = .primary ∧ output.tombstones.val = 0 := by
      simpa using refuseIf_ok.1 hdense
    have hval := ofNat?_eq_some.1 (okOr_ok.1 hnext)
    obtain ⟨hall, _⟩ := ih h
    refine ⟨forall_mem_cons.2 ⟨hdense, hall⟩, ?_⟩
    rw [map_cons, sum_cons, liveRows]
    omega

lemma checkSplit_ok (h : checkSplit s action source outputs = .ok ()) :
    requireRangeTiling outputs source.hashLo source.hashHi = .ok () ∧
      (∀ output ∈ outputs, output.role = .primary) ∧
        (outputs.map liveRows).sum = source.liveRows := by
  obtain ⟨_, -, ⟨⟩, htiling, rows, hrows, h⟩ := bind₃_ok.1 h
  obtain ⟨_, hlive, -⟩ := bind_ok.1 h
  have hlive : rows.val = source.liveRows := by simpa using refuseIf_ok.1 hlive
  obtain ⟨hdense, htotal⟩ := splitRows_steps hrows
  refine ⟨htiling, fun output houtput => (hdense output houtput).1, ?_⟩
  rw [← hlive, htotal]
  exact (Nat.zero_add _).symm

/-- The children weigh what their parent does. -/
lemma IsMeasure.split (h : IsMeasure f) (hsplit : checkSplit s action source outputs = .ok ())
    (hfull : ∀ output ∈ outputs, ¬ IsFull output.hashLo output.hashHi) :
    (outputs.map f).sum = f source := by
  obtain ⟨htiling, -, hlive⟩ := checkSplit_ok hsplit
  rcases h with ⟨hash, rfl⟩ | rfl
  · rw [sum_coverWeight, coverWeight, countP_coversHash_of_tiling htiling hfull hash]
  · exact hlive

end

/-! ## Completions -/

section

variable {f : Replica → ℕ} {s t : StoredState} {action : Action} {source : Replica}
  {outputs : List Replica} {nodeId : String}

/-- No output is stored over a primary of a shard that stays. -/
def StoredFree (s : StoredState) (outputs : List Replica) (removed : List String) : Prop :=
  ∀ output ∈ outputs, ∀ held, s.replicas.get? output.key = some held → held.role = .primary →
    held.shardId ∈ removed

lemma weigh_completeCopy (hf : IsMeasure f) (hs : WellStored s.replicas)
    (hgood : GoodOutputs nodeId outputs) (hsource : source ∈ s.replicas.values)
    (hsole : takesOver s action source = true → SolePrimary s source)
    (hfree : StoredFree s outputs []) (h : completeCopy s action source outputs = .ok t) :
    weigh f t.replicas.values = weigh f s.replicas.values := by
  obtain ⟨output, rfl, -, hsame, htakes⟩ := completeCopy_ok h
  obtain ⟨hrole, hshard, hlo, hhi, hrows, htomb⟩ := copyDiffers_eq_false hsame
  have hheld (held : Replica) (hheld : s.replicas.get? output.key = some held) :
      held.role ≠ .primary := fun hprim =>
    not_mem_nil (hfree output mem_cons_self held hheld hprim)
  rcases htakes with ⟨-, rfl⟩ | ⟨htakes, hprom⟩
  · rw [insertReplica, weigh_insert hheld, weigh_cons_of_ne (by rw [hrole]; decide)]
  · rw [pushAction_replicas (refusing_ok.1 hprom)]
    have hlive : output.liveRows = source.liveRows := by
      rw [liveRows, liveRows, hrows, htomb]
    exact weigh_takeOver hf.role hs (hgood.named output mem_cons_self) hsource (hsole htakes)
      hshard hheld (hf.eq_of hlo hhi hlive)

/-- Replacing the copies of a shard by outputs that weigh as much. -/
lemma weigh_replaceShard (hs : WellStored s.replicas) (hgood : GoodOutputs nodeId outputs)
    (hsource : source ∈ s.replicas.values) (hsole : SolePrimary s source)
    (hroles : ∀ output ∈ outputs, output.role = .primary)
    (hfree : StoredFree s outputs [source.shardId]) (hweight : (outputs.map f).sum = f source) :
    weigh f (replaceShard s source.shardId outputs).replicas.values = weigh f s.replicas.values := by
  have hkeys : (outputs.map key).Nodup := by
    refine (nodup_map_iff_inj_on (List.Nodup.of_map _ hgood.distinct)).2 fun a ha b hb hkey => ?_
    rw [key, key, (hgood.placed a ha).1, (hgood.placed b hb).1] at hkey
    exact inj_on_of_nodup_map hgood.distinct ha hb (replicaKey_inj_left hkey)
  rw [replaceShard, weigh_inserts hkeys hroles, hweight]
  · exact weigh_retain hs hsource hsole.1 hsole.2
  · intro output houtput held hheld hprim
    have hent := mem_retain.1 (get?_eq_some.1 hheld)
    have hshard := hfree output houtput held (get?_eq_some.2 hent.1) hprim
    exact of_decide_eq_true hent.2 (mem_singleton.1 hshard)

section

variable (hf : IsMeasure f) (hs : WellStored s.replicas) (hgood : GoodOutputs nodeId outputs)
  (hsource : source ∈ s.replicas.values) (hsole : SolePrimary s source)
  (hfree : StoredFree s outputs [source.shardId])

include hf hs hgood hsource hsole hfree

lemma weigh_completeCompact (h : completeCompact s action source outputs = .ok t) :
    weigh f t.replicas.values = weigh f s.replicas.values := by
  obtain ⟨output, rfl, -, hsame, rfl⟩ := completeCompact_ok h
  obtain ⟨hrole, -, hlo, hhi, hrows, htomb⟩ := compactionDiffers_eq_false hsame
  have hlive : output.liveRows = source.liveRows := by
    rw [liveRows, hrows, htomb, Nat.sub_zero]
  refine weigh_replaceShard hs hgood hsource hsole ?_ hfree ?_
  · exact fun o ho => mem_singleton.1 ho ▸ hrole
  · rw [map_singleton, sum_singleton, hf.eq_of hlo hhi hlive]

lemma weigh_completeSplit (hfull : ∀ output ∈ outputs, ¬ IsFull output.hashLo output.hashHi)
    (h : completeSplit s action source outputs = .ok t) :
    weigh f t.replicas.values = weigh f s.replicas.values := by
  obtain ⟨hchk, rfl⟩ := completeSplit_ok h
  exact weigh_replaceShard hs hgood hsource hsole (checkSplit_ok hchk).2.1 hfree
    (hf.split hchk hfull)

end

lemma weigh_completeMerge (hf : IsMeasure f) (hs : WellStored s.replicas)
    (hsource : source ∈ s.replicas.values) (hsole : SolePrimary s source)
    (hpeer : ∀ peer, mergePeer s action = some peer →
      SolePrimary s peer ∧ StoredFree s outputs [source.shardId, peer.shardId])
    (h : completeMerge s action source outputs = .ok t) :
    weigh f t.replicas.values = weigh f s.replicas.values := by
  obtain ⟨output, peer, rfl, hchk, rfl⟩ := completeMerge_ok h
  obtain ⟨hfound, hmerge, hrows⟩ := checkMerge_ok hchk
  obtain ⟨hpeerSole, hfree⟩ := hpeer peer hfound
  obtain ⟨_, hrole, -, -, -⟩ := mergeDiffers_eq_false hmerge
  have hpeerMem := mem_of_find?_eq_some hfound
  -- one shard's only primary does not end before it starts
  have hne : peer.shardId ≠ source.shardId := by
    intro heq
    obtain rfl := hsole.2 peer hpeerMem heq hpeerSole.1
    have hle : peer.hashLo.val ≤ peer.hashHi.val := peer.range_le
    omega
  have hretain : s.replicas.retain (fun held =>
        held.shardId ≠ source.shardId && held.shardId ≠ peer.shardId) =
      (s.replicas.retain fun held => held.shardId ≠ source.shardId).retain fun held =>
        held.shardId ≠ peer.shardId := by
    refine ext_mem fun e => ?_
    simp only [mem_retain, Bool.and_eq_true, and_assoc]
  have hpeerLeft : peer ∈ (s.replicas.retain fun held => held.shardId ≠ source.shardId).values := by
    rw [values_retain]
    exact mem_filter.2 ⟨hpeerMem, decide_eq_true hne⟩
  have hwithoutPeer := weigh_retain (f := f) (hs.retain fun held => held.shardId ≠ source.shardId)
    hpeerLeft hpeerSole.1 fun q hq => by
      rw [values_retain] at hq
      exact hpeerSole.2 q (mem_filter.1 hq).1
  have hwithoutSource := weigh_retain (f := f) hs hsource hsole.1 hsole.2
  rw [insertReplica, weigh_insert, weigh_cons_primary hrole, hf.merge hmerge hrows, hretain]
  · dsimp only
    omega
  · intro held hheld hprim
    have hent := mem_retain.1 (get?_eq_some.1 hheld)
    have hshard := hfree output mem_cons_self held (get?_eq_some.2 hent.1) hprim
    have hkept := hent.2
    simp only [Bool.and_eq_true, decide_eq_true_eq] at hkept
    rcases mem_cons.1 hshard with h | h
    · exact hkept.1 h
    · exact hkept.2 (mem_singleton.1 h)

end

/-! ## Runs -/

def primaries : List Replica := s.replicas.values.filter fun r => r.role = .primary

/-- Every hash lies in the range of exactly one primary. -/
def TilesSpace : Prop :=
  ∀ hash : U64, (primaries s).countP (coversHash hash) = 1

def liveTotal : ℕ := ((primaries s).map liveRows).sum

/-- The request completes a pending copy, compaction, split or merge. -/
def CompletesRearrangement : Prop :=
  ∃ action ∈ s.actions, action.actionId = req.actionId ∧
    action.kind ∈ [.copyReplica, .compactShard, .splitShard, .mergeShards]

/-- No output is stored over the primary of a shard that stays. -/
def FreeKeys (removed : List String) : Prop :=
  ∀ wire ∈ req.outputs, ∀ held ∈ s.replicas.get? (replicaKey wire.shardId req.nodeId),
    held.role = .primary → held.shardId ∈ removed

/-- What each kind of completion must find: the copies it replaces are the only primaries of their
shards, its outputs are stored over no other primary, and no child of a split covers everything. -/
def Conserves (action : Action) (source : Replica) : ActionKind → Prop
  | .copyReplica => (takesOver s action source = true → SolePrimary s source) ∧ FreeKeys s req []
  | .compactShard => SolePrimary s source ∧ FreeKeys s req [source.shardId]
  | .splitShard => SolePrimary s source ∧ FreeKeys s req [source.shardId] ∧
      ∀ wire ∈ req.outputs, ¬ IsFull wire.hashLo wire.hashHi
  | .mergeShards => SolePrimary s source ∧ ∀ peer ∈ mergePeer s action,
      SolePrimary s peer ∧ FreeKeys s req [source.shardId, peer.shardId]
  | .dropReplica | .promoteReplica | .unspecified => True

/-- The condition on the state and the request of a completion. -/
def ConservationCondition : Prop :=
  ∀ action ∈ s.actions, action.actionId = req.actionId → ∀ source ∈ sourceOf s action,
    Conserves s req action source action.kind

section

variable (s : StoredState) (req : CompletePlacementActionRequest)

instance (r : Replica) : Decidable (SolePrimary s r) :=
  inferInstanceAs (Decidable (_ ∧ ∀ q ∈ s.replicas.values, _))

instance (removed : List String) : Decidable (FreeKeys s req removed) :=
  inferInstanceAs (Decidable (∀ wire ∈ req.outputs, ∀ held ∈ s.replicas.get? _, _))

instance : Decidable (CompletesRearrangement s req) :=
  inferInstanceAs (Decidable (∃ action ∈ s.actions, _))

instance decidableConserves (action : Action) (source : Replica) :
    ∀ kind, Decidable (Conserves s req action source kind)
  | .copyReplica => inferInstanceAs (Decidable ((_ → SolePrimary s source) ∧ FreeKeys s req []))
  | .compactShard => inferInstanceAs (Decidable (SolePrimary s source ∧ FreeKeys s req _))
  | .splitShard => inferInstanceAs
      (Decidable (SolePrimary s source ∧ FreeKeys s req _ ∧ ∀ wire ∈ req.outputs, ¬ IsFull _ _))
  | .mergeShards => inferInstanceAs
      (Decidable (SolePrimary s source ∧ ∀ peer ∈ mergePeer s action, SolePrimary s peer ∧ _))
  | .dropReplica | .promoteReplica | .unspecified => isTrue trivial

instance : Decidable (ConservationCondition s req) :=
  inferInstanceAs (Decidable (∀ action ∈ s.actions, _ → ∀ source ∈ sourceOf s action, _))

end

section

variable {f : Replica → ℕ} {s t : StoredState} {req : CompletePlacementActionRequest} {now : U64}

lemma mem_of_sourceOf {action : Action} {source : Replica} (h : sourceOf s action = some source) :
    source ∈ s.replicas.values := by
  rcases Option.or_eq_some_iff.1 h with h | ⟨-, h⟩
  · exact mem_values_of_get? h
  · exact mem_of_find?_eq_some h

lemma storedFree_of_freeKeys {removed : List String} {outputs : List Replica}
    (houts : req.outputs.mapM (checkedOutput s req.nodeId) = .ok outputs)
    (h : FreeKeys s req removed) : StoredFree s outputs removed := by
  intro output houtput held hheld hprim
  obtain ⟨wire, hwire, hchk⟩ := exists_wire houts houtput
  obtain ⟨-, c, addr, rfl, rfl⟩ := checkedOutput_ok hchk
  exact h c.wire hwire held hheld hprim

/-- The weight of the primaries is the same after an accepted completion. -/
lemma weigh_completeAction (hf : IsMeasure f) (hs : Consistent s)
    (hkind : CompletesRearrangement s req) (hC : ConservationCondition s req)
    (h : completeAction s req now = .ok t) : weigh f t.replicas.values = weigh f s.replicas.values := by
  rcases completeAction_ok h with rfl | ⟨c, u, hc, hu, rfl⟩
  · rfl
  obtain ⟨hfind, -, hsource, -, houts, hgood, -⟩ := checkCompletion_ok hc
  obtain ⟨action, hact, hid, hkinds⟩ := hkind
  have hfound : c.action = action := by
    rw [← hid, hs.actions.find?_eq hact] at hfind
    exact (Option.some.inj hfind).symm
  subst hfound
  have hmem := mem_of_sourceOf hsource
  have hcons := hC c.action hact hid c.source hsource
  show weigh f u.replicas.values = weigh f s.replicas.values
  unfold mutate at hu
  simp only [mem_cons, not_mem_nil, or_false] at hkinds
  rcases hkinds with hkind | hkind | hkind | hkind <;> rw [hkind] at hcons hu
  · exact weigh_completeCopy hf hs.copies hgood hmem hcons.1
      (storedFree_of_freeKeys houts hcons.2) hu
  · exact weigh_completeCompact hf hs.copies hgood hmem hcons.1
      (storedFree_of_freeKeys houts hcons.2) hu
  · refine weigh_completeSplit hf hs.copies hgood hmem hcons.1
      (storedFree_of_freeKeys houts hcons.2.1) (fun output houtput => ?_) hu
    obtain ⟨wire, hwire, hchk⟩ := exists_wire houts houtput
    obtain ⟨-, copy, addr, rfl, rfl⟩ := checkedOutput_ok hchk
    exact hcons.2.2 copy.wire hwire
  · refine weigh_completeMerge hf hs.copies hmem hcons.1 (fun peer hpeer => ?_) hu
    obtain ⟨hsole, hfree⟩ := hcons.2 peer hpeer
    exact ⟨hsole, storedFree_of_freeKeys houts hfree⟩

lemma weigh_coverWeight (s : StoredState) (hash : U64) :
    weigh (coverWeight hash) s.replicas.values = (primaries s).countP (coversHash hash) :=
  sum_coverWeight hash _

end

/-- **Completions conserve the tiling and the live rows of the primaries**, in every state of every run
from an empty store in which the completion meets the condition. -/
theorem completion_conserves (policy : ControlPolicy) (ops : List Op)
    (req : CompletePlacementActionRequest) (now : U64) (t : StoredState)
    (h : completeAction (run policy .default ops) req now = .ok t)
    (hkind : CompletesRearrangement (run policy .default ops) req)
    (hC : ConservationCondition (run policy .default ops) req) :
    (TilesSpace (run policy .default ops) → TilesSpace t) ∧
      liveTotal t = liveTotal (run policy .default ops) := by
  have hs := consistent_run policy ops
  refine ⟨fun htiles hash => ?_, weigh_completeAction (.inr rfl) hs hkind hC h⟩
  rw [← weigh_coverWeight, weigh_completeAction (.inl ⟨hash, rfl⟩) hs hkind hC h, weigh_coverWeight]
  exact htiles hash

/-- A shard over the whole hash space that is large enough to be split. -/
def growsShard : List Op :=
  [.joins "A" 0, .reports "A" 1 1 (smallCopy "a" 1 200 1 fullRange .primary),
    .reconcile false (U64.wrap 2)]

/-- A completion of the split. -/
def splitRequest (left right : U64 × U64) : CompletePlacementActionRequest :=
  ⟨"A", U64.wrap 1, U64.wrap 1,
    [smallCopy "a" 2 100 1 left .primary, smallCopy "b" 2 100 1 right .primary]⟩

theorem completion_conserves_halves :
    ∃ t, completeAction (run smallPolicy .default growsShard) (splitRequest lowerHalf upperHalf)
        (U64.wrap 3) = .ok t ∧
      (TilesSpace (run smallPolicy .default growsShard) → TilesSpace t) ∧
        liveTotal t = liveTotal (run smallPolicy .default growsShard) := by
  have haccepted : ((completeAction (run smallPolicy .default growsShard)
      (splitRequest lowerHalf upperHalf) (wrap 3)).toOption).isSome = true := by decide +kernel
  obtain ⟨t, ht⟩ := Option.isSome_iff_exists.1 haccepted
  exact ⟨t, toOption_eq_some.1 ht, completion_conserves smallPolicy growsShard _ _ t
    (toOption_eq_some.1 ht) (by decide +kernel) (by decide +kernel)⟩

/-- **Without the condition a split may cover every hash twice.** -/
theorem not_completion_conserves :
    ∃ (ops : List Op) (req : CompletePlacementActionRequest) (now : U64),
      let s := run smallPolicy .default ops
      CompletesRearrangement s req ∧ TilesSpace s ∧
        ∃ t, completeAction s req now = .ok t ∧ ¬ TilesSpace t := by
  refine ⟨growsShard, splitRequest fullRange fullRange, wrap 3, by decide +kernel, ?_, ?_⟩
  · have hone : ∃ r, primaries (run smallPolicy .default growsShard) = [r] ∧
        IsFull r.hashLo r.hashHi := by
      have hlength : (primaries (run smallPolicy .default growsShard)).length = 1 ∧
          ∀ r ∈ primaries (run smallPolicy .default growsShard), IsFull r.hashLo r.hashHi := by
        decide +kernel
      obtain ⟨r, hr⟩ := length_eq_one_iff.1 hlength.1
      exact ⟨r, hr, hlength.2 r (hr ▸ mem_cons_self)⟩
    obtain ⟨r, hone, hlo, hhi⟩ := hone
    intro hash
    have hcovers : r.coversHash hash = true := by
      refine decide_eq_true ⟨le_iff.2 (hlo ▸ Nat.zero_le _), le_iff.2 ?_⟩
      rw [hhi]
      exact Nat.le_sub_one_of_lt hash.upper
    rw [hone, countP_singleton, if_pos hcovers]
  · have haccepted : (((completeAction (run smallPolicy .default growsShard)
        (splitRequest fullRange fullRange) (wrap 3)).toOption).any fun t =>
          (primaries t).countP (coversHash (wrap 0)) = 2) = true := by decide +kernel
    obtain ⟨t, ht, htwo⟩ := (Option.any_eq_true _ _).1 haccepted
    refine ⟨t, toOption_eq_some.1 ht, fun htiles => ?_⟩
    have hone := htiles (wrap 0)
    rw [of_decide_eq_true htwo] at hone
    cases hone

end ProtomoltSearch.ControlPlane
