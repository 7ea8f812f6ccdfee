import ProtomoltSearch.Placement.Mask

/-!
# The known-column handshake

Every shard answers which of the request's filter columns it can resolve. A column counts as known
when some shard resolves it, or when the placement mask already decided it, and a request that
names a column nobody knows is refused (`FilterKnown` in `coordinator.rs`).

`Accepted` says what the handshake asks of the shards' answers; it then passes, whatever order they
come in (`Merged.mergeShard`, `Merged.refuseUnknown`).
-/

namespace ProtomoltSearch.Coordinator

open ProtomoltSearch.Filter Placement List

/-- A request's filters: the columns of the geo filters, and the compiled tree. -/
structure RequestFilters where
  geo : List String
  tree : Option FilterExpr

/-- The handshake so far. -/
structure FilterKnown where
  geo : List Bool
  tree : List Bool
  leaves : ℕ
  /-- Per shard, the clauses its tree keeps, when some were dropped. -/
  kept : List (Option (List ℕ))

def markKnown (flags : List Bool) (leaves : List ℕ) : List Bool :=
  leaves.foldl (fun flags leaf => flags.set leaf true) flags

/-- Refuse a geo column no shard knows. -/
def refuseUnknownGeoColumns (filters : List String) (known : List Bool) : Except Status Unit :=
  let unknown := ((filters.zip known).filter fun p => !p.2).map fun p => debug p.1
  refuseIf (!unknown.isEmpty)
    (.invalidArgument ("no shard has geo column " ++ ", ".intercalate unknown ++
      ": filtering on an unknown column would remove every document and read as an empty " ++
      "result set. Check the spelling, or the nodes' --geo-fields."))

def refuseUnknownFilterLeaves (filter : Option FilterExpr) (known : List Bool) :
    Except Status Unit :=
  match filter with
  | none => .ok ()
  | some expr =>
    let unknown := ((expr.walkLeaves.zip known).filter fun p => !p.2).map fun p => p.1.describe
    refuseIf (!unknown.isEmpty)
      (.invalidArgument ("no shard can resolve filter " ++ ", ".intercalate unknown ++
        ": filtering on an unknown name would read as an empty result set. Check the spelling " ++
        "and the literal's type (a string literal selects the facet tables, a number the " ++
        "i64/u64/f64 tables), or the nodes' --facet-fields / --numeric-fields / " ++
        "--integer-fields / --unsigned-integer-fields / --map-facet-fields / " ++
        "--map-numeric-fields / --geo-fields."))

namespace FilterKnown

variable (known : FilterKnown) (filters : RequestFilters)

def new : FilterKnown :=
  let leaves := (filters.tree.map FilterExpr.leafCount).getD 0
  { geo := List.replicate filters.geo.length false
    tree := List.replicate leaves false
    leaves := leaves
    kept := [] }

/-- Fold one answer in; its tree flags are over the leaves `kept`, or over all of them. -/
def mergeKept (geo tree : List Bool) (kept : Option (List ℕ)) : Except Status FilterKnown := do
  refuseIf (geo.length != known.geo.length)
    (.internal ("shard answered " ++ toString geo.length ++ " geo-column flags for " ++
      toString known.geo.length ++ " filters"))
  let geo := List.zipWith or known.geo geo
  match kept with
  | some kept =>
    refuseIf (tree.length != kept.length)
      (.internal ("shard answered " ++ toString tree.length ++ " filter-leaf flags for the " ++
        toString kept.length ++ " leaves it was sent (of " ++ toString known.leaves ++ ")"))
    let tree := (kept.zip tree).foldl (fun flags p => flags.modify p.1 (· || p.2)) known.tree
    return { known with geo := geo, tree := tree }
  | none =>
    refuseIf (tree.length != known.leaves)
      (.internal ("shard answered " ++ toString tree.length ++ " filter-leaf flags for " ++
        toString known.leaves ++ " leaves"))
    return { known with geo := geo, tree := List.zipWith or known.tree tree }

def mergeShard (shard : ℕ) (geo tree : List Bool) : Except Status FilterKnown :=
  known.mergeKept geo tree (known.kept[shard]?.bind id)

/-- Count what the mask decided as resolved, and note the leaves each shard was sent. -/
def mergePruned (mask : Option ShardMask) : FilterKnown :=
  match mask with
  | none => known
  | some mask =>
    { known with
      tree := markKnown known.tree mask.known
      kept := mask.implied.map fun dropped =>
        if dropped.isEmpty then none
        else some ((List.range known.leaves).filter fun i => !dropped.contains i) }

def refuseUnknown : Except Status Unit := do
  refuseUnknownGeoColumns filters.geo known.geo
  refuseUnknownFilterLeaves filters.tree known.tree

end FilterKnown

/-- The handshake before any answer. -/
def filterKnown (filters : RequestFilters) (mask : Option ShardMask) : FilterKnown :=
  (FilterKnown.new filters).mergePruned mask

def On (flags : List Bool) (i : ℕ) : Prop := flags[i]? = some true

lemma On.zipWith_or {a b : List Bool} (hlen : b.length = a.length) {i : ℕ} :
    On (List.zipWith or a b) i ↔ On a i ∨ On b i := by
  simp only [On, getElem?_zipWith]
  rcases Nat.lt_or_ge i a.length with h | h
  · rw [getElem?_eq_getElem h, getElem?_eq_getElem (hlen ▸ h)]
    simp
  · simp [getElem?_eq_none h, getElem?_eq_none (hlen ▸ h)]

lemma On.modify_or {flags : List Bool} {j i : ℕ} {k : Bool} :
    On (flags.modify j (· || k)) i ↔ On flags i ∨ (j = i ∧ i < flags.length ∧ k = true) := by
  simp only [On, getElem?_modify]
  by_cases hji : j = i
  · subst hji
    rcases Nat.lt_or_ge j flags.length with h | h
    · cases hf : flags[j] <;> simp [h, hf]
    · simp [Nat.not_lt.2 h]
  · simp [hji]

lemma length_foldl_modify (ps : List (ℕ × Bool)) (flags : List Bool) :
    (ps.foldl (fun flags p => flags.modify p.1 (· || p.2)) flags).length = flags.length := by
  induction ps generalizing flags with
  | nil => rfl
  | cons p ps ih => rw [foldl_cons, ih, length_modify]

lemma On.foldl_modify {ps : List (ℕ × Bool)} {flags : List Bool} {i : ℕ} :
    On (ps.foldl (fun flags p => flags.modify p.1 (· || p.2)) flags) i ↔
      On flags i ∨ (i < flags.length ∧ (i, true) ∈ ps) := by
  induction ps generalizing flags with
  | nil => simp
  | cons p ps ih =>
    obtain ⟨j, k⟩ := p
    rw [foldl_cons, ih, On.modify_or, length_modify, mem_cons, Prod.mk.injEq]
    constructor
    · rintro ((h | ⟨rfl, hi, rfl⟩) | ⟨hi, hmem⟩)
      · exact .inl h
      · exact .inr ⟨hi, .inl ⟨rfl, rfl⟩⟩
      · exact .inr ⟨hi, .inr hmem⟩
    · rintro (h | ⟨hi, ⟨rfl, rfl⟩ | hmem⟩)
      · exact .inl (.inl h)
      · exact .inl (.inr ⟨rfl, hi, rfl⟩)
      · exact .inr ⟨hi, hmem⟩

lemma length_markKnown (flags : List Bool) (leaves : List ℕ) :
    (markKnown flags leaves).length = flags.length := by
  induction leaves generalizing flags with
  | nil => rfl
  | cons l ls ih =>
    exact (ih _).trans (length_set ..)

/-- A shard's answer. -/
structure KnownFlags where
  geo : List Bool
  tree : List Bool

/-- The leaves a shard was sent, by their place in the request's tree. -/
def FilterKnown.sent (known : FilterKnown) (shard : ℕ) : List ℕ :=
  (known.kept[shard]?.bind id).getD (List.range known.leaves)

/-- What the handshake asks of the answers of the consulted shards: as many flags as columns
asked about, and every column resolved by some shard or by the mask. -/
structure Accepted (filters : RequestFilters) (mask : Option ShardMask) (shards : List ℕ)
    (answer : ℕ → KnownFlags) : Prop where
  geo_length : ∀ i ∈ shards, (answer i).geo.length = filters.geo.length
  tree_length : ∀ i ∈ shards,
    (answer i).tree.length = ((filterKnown filters mask).sent i).length
  geo_known : ∀ j < filters.geo.length, ∃ i ∈ shards, On (answer i).geo j
  tree_known : ∀ j < (filterKnown filters mask).leaves, On (filterKnown filters mask).tree j ∨
    ∃ i ∈ shards, (j, true) ∈ ((filterKnown filters mask).sent i).zip (answer i).tree

/-- The handshake after the answers of some shards. -/
structure Merged (filters : RequestFilters) (mask : Option ShardMask) (answer : ℕ → KnownFlags)
    (answered : List ℕ) (known : FilterKnown) : Prop where
  kept : known.kept = (filterKnown filters mask).kept
  leaves : known.leaves = (filterKnown filters mask).leaves
  geo_length : known.geo.length = filters.geo.length
  tree_length : known.tree.length = known.leaves
  geo_on : ∀ i ∈ answered, ∀ j, On (answer i).geo j → On known.geo j
  tree_on : ∀ j < known.leaves, (On (filterKnown filters mask).tree j ∨
    ∃ i ∈ answered, (j, true) ∈ (known.sent i).zip (answer i).tree) → On known.tree j

variable {filters : RequestFilters} {mask : Option ShardMask} {answer : ℕ → KnownFlags}
  {answered : List ℕ} {known : FilterKnown}

open FilterKnown

lemma merged_filterKnown (filters : RequestFilters) (mask : Option ShardMask)
    (answer : ℕ → KnownFlags) : Merged filters mask answer [] (filterKnown filters mask) where
  kept := rfl
  leaves := rfl
  geo_length := by
    cases mask <;> simp [filterKnown, mergePruned, new]
  tree_length := by
    cases mask <;> simp [filterKnown, mergePruned, new, length_markKnown]
  geo_on := by simp
  tree_on j _ h := by simpa using h

/-- **One more answer keeps the handshake**, when it has the right number of flags. -/
theorem Merged.mergeShard (h : Merged filters mask answer answered known) {i : ℕ}
    (hgeo : (answer i).geo.length = filters.geo.length)
    (htree : (answer i).tree.length = ((filterKnown filters mask).sent i).length) :
    ∃ known', known.mergeShard i (answer i).geo (answer i).tree = .ok known' ∧
      Merged filters mask answer (i :: answered) known' := by
  have hsent : known.sent i = (filterKnown filters mask).sent i := by
    rw [sent, sent, h.kept, h.leaves]
  have hgeo' := hgeo.trans h.geo_length.symm
  rw [FilterKnown.mergeShard, FilterKnown.mergeKept, hgeo']
  have hgeo_on : ∀ s ∈ i :: answered, ∀ j, On (answer s).geo j →
      On (List.zipWith or known.geo (answer i).geo) j := by
    intro s hs j hj
    rw [On.zipWith_or hgeo']
    rcases mem_cons.1 hs with rfl | hs
    · exact .inr hj
    · exact .inl (h.geo_on s hs j hj)
  have hgeo_len : (List.zipWith or known.geo (answer i).geo).length = filters.geo.length := by
    rw [length_zipWith, hgeo', Nat.min_self, h.geo_length]
  cases hk : known.kept[i]?.bind id with
  | some kept =>
    have hkept : known.sent i = kept := by rw [sent, hk]; rfl
    rw [← hsent, hkept] at htree
    simp only [htree, bne_self_eq_false, refuseIf_false, ok_bind]
    refine ⟨_, rfl, ⟨h.kept, h.leaves, hgeo_len, ?_, hgeo_on, ?_⟩⟩
    · exact (length_foldl_modify _ _).trans h.tree_length
    · intro j hj hcase
      rw [On.foldl_modify, h.tree_length]
      rcases hcase with hon | ⟨s, hs, hmem⟩
      · exact .inl (h.tree_on j hj (.inl hon))
      · rcases mem_cons.1 hs with rfl | hs
        · exact .inr ⟨hj, by rw [← hkept]; exact hmem⟩
        · exact .inl (h.tree_on j hj (.inr ⟨s, hs, hmem⟩))
  | none =>
    have hkept : known.sent i = List.range known.leaves := by rw [sent, hk]; rfl
    rw [← hsent, hkept, length_range] at htree
    simp only [htree, bne_self_eq_false, refuseIf_false, ok_bind]
    refine ⟨_, rfl, ⟨h.kept, h.leaves, hgeo_len, ?_, hgeo_on, ?_⟩⟩
    · rw [length_zipWith, htree, h.tree_length, Nat.min_self]
    · intro j hj hcase
      rw [On.zipWith_or (htree.trans h.tree_length.symm)]
      rcases hcase with hon | ⟨s, hs, hmem⟩
      · exact .inl (h.tree_on j hj (.inl hon))
      · rcases mem_cons.1 hs with rfl | hs
        · refine .inr ?_
          have hmem : (j, true) ∈ (known.sent s).zip (answer s).tree := hmem
          rw [hkept] at hmem
          obtain ⟨n, _, hget⟩ := getElem_of_mem hmem
          rw [getElem_zip, Prod.mk.injEq, getElem_range] at hget
          rw [On, ← hget.1, ← hget.2]
          exact getElem?_eq_getElem _
        · exact .inl (h.tree_on j hj (.inr ⟨s, hs, hmem⟩))

lemma filter_zip_eq_nil {β : Type*} {l : List β} {flags : List Bool}
    (h : ∀ i < l.length, On flags i) : ((l.zip flags).filter fun p => !p.2) = [] := by
  rw [filter_eq_nil_iff]
  rintro ⟨b, k⟩ hmem
  obtain ⟨n, hn, hget⟩ := getElem_of_mem hmem
  rw [getElem_zip, Prod.mk.injEq] at hget
  have hlt : n < l.length := by rw [length_zip] at hn; omega
  have := h n hlt
  rw [On, getElem?_eq_getElem (by rw [length_zip] at hn; omega), hget.2] at this
  simpa using this

/-- **When every consulted shard has answered, the handshake passes.** -/
theorem Merged.refuseUnknown {shards : List ℕ} (hacc : Accepted filters mask shards answer)
    (h : Merged filters mask answer answered known) (hall : ∀ i ∈ shards, i ∈ answered) :
    known.refuseUnknown filters = .ok () := by
  have hgeo : refuseUnknownGeoColumns filters.geo known.geo = .ok () := by
    rw [refuseUnknownGeoColumns, filter_zip_eq_nil]
    · rfl
    · intro j hj
      obtain ⟨i, hi, hon⟩ := hacc.geo_known j hj
      exact h.geo_on i (hall i hi) j hon
  rw [FilterKnown.refuseUnknown, hgeo]
  unfold refuseUnknownFilterLeaves
  split
  · rfl
  · next expr htree =>
    have hleaves : known.leaves = expr.walkLeaves.length := by
      rw [h.leaves]
      cases mask <;> simp [filterKnown, mergePruned, new, htree,
        FilterExpr.leafCount]
    rw [filter_zip_eq_nil]
    · rfl
    · intro j hj
      rw [← hleaves] at hj
      refine h.tree_on j hj ?_
      rcases hacc.tree_known j (h.leaves ▸ hj) with hon | ⟨i, hi, _⟩
      · exact .inl hon
      · refine .inr ⟨i, hall i hi, ?_⟩
        rwa [sent, h.kept, h.leaves]

end ProtomoltSearch.Coordinator
