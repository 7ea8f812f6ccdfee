import ProtomoltSearch.Placement.Tree

/-!
# Where a document goes

In a tree a walk accepts, a document takes a path to a leaf whose predicates are all true on it
(`exists_route`), and the code of that path belongs to no other leaf (`nodup_encode`). So the leaf
found by the code is the leaf the document was routed to (`evaluateColumns_spec`).

No leaf lies above a node (`above_of_hasNode`), so the leaves below a node are those whose codes are in
the range of its path (`leaves_by_code`).
-/

namespace ProtomoltSearch.Placement

open ProtomoltSearch.Filter List

variable {levelBits : ℕ}

variable (doc : DocColumns) (path : List ℕ)

/-- Whether a tree has a node at a path. The empty path is its root. -/
def hasNode : List CompiledNode → List ℕ → Bool
  | _, [] => true
  | chain, i :: path => chain[i]?.any fun node => hasNode node.children path

lemma nodePaths_eq (own : List FilterExpr) (node : CompiledNode) : nodePaths path own node =
      if node.children.isEmpty then [(path, own ++ node.predicate.toList)]
      else chainPaths path (own ++ node.predicate.toList) 0 node.children := by
  cases node
  rw [nodePaths]

lemma routeNode_eq (node : CompiledNode) : routeNode doc path node =
      if node.children.isEmpty then some path else routeChain doc path 0 node.children := by
  cases node
  rw [routeNode]

variable {chain : List CompiledNode} {node : CompiledNode} {own : List FilterExpr}
  {x : List ℕ × List FilterExpr} {level : ℕ}

lemma chainPaths_eq {path : List ℕ} {index : ℕ} : chainPaths path own index chain =
      (chain.zipIdx index).flatMap fun node => nodePaths (path ++ [node.2]) own node.1 := by
  induction chain generalizing index with
  | nil => rw [chainPaths, zipIdx_nil, flatMap_nil]
  | cons first rest ih => rw [chainPaths, ih, zipIdx_cons, flatMap_cons]

lemma mem_chainPaths {path : List ℕ} : x ∈ chainPaths path own 0 chain ↔
      ∃ j node, chain[j]? = some node ∧ x ∈ nodePaths (path ++ [j]) own node := by
  simp only [chainPaths_eq, mem_flatMap, Prod.exists, mk_mem_zipIdx_iff_getElem?]
  exact exists_comm

lemma hasNode_cons {j : ℕ} (hj : chain[j]? = some node) :
    hasNode chain (j :: path) = hasNode node.children path := by
  rw [hasNode, hj, Option.any_some]

/-- The leaves of an accepted chain have paths that fit the code and go through its nodes. -/
lemma fits_of_mem_chainPaths (h : ChainOk levelBits level chain) :
    ∀ {path : List ℕ} {own : List FilterExpr}, path.length = level →
      (∀ i ∈ path, i < 2 ^ levelBits) → ∀ {j : ℕ} {node : CompiledNode}, chain[j]? = some node →
      ∀ x ∈ nodePaths (path ++ [j]) own node,
        Fits levelBits x.1 ∧ ∃ rest, x.1 = path ++ j :: rest ∧ hasNode node.children rest := by
  induction h with
  | @mk level chain fits count tail numeric children ih =>
    intro path own hlen hlt j node hj x hx
    obtain ⟨hjlt, hnode⟩ := List.getElem?_eq_some_iff.1 hj
    have hmem : node ∈ chain := hnode ▸ List.getElem_mem hjlt
    have hlt' := forall_mem_append.2 ⟨hlt, forall_mem_singleton.2 (hjlt.trans_le count)⟩
    have hlen' : (path ++ [j]).length = level + 1 := by simp [hlen]
    rw [nodePaths_eq] at hx
    split at hx
    · obtain rfl := mem_singleton.1 hx
      exact ⟨⟨hlt', by rw [hlen', Nat.mul_comm]; exact fits⟩, [], rfl, rfl⟩
    · next hc =>
      obtain ⟨j', node', hj', hx⟩ := mem_chainPaths.1 hx
      obtain ⟨hfit, rest, hrest, hbelow⟩ := ih node hmem (by simpa using hc) hlen' hlt' hj' x hx
      refine ⟨hfit, j' :: rest, by rw [hrest, append_assoc, singleton_append], ?_⟩
      rwa [hasNode_cons rest hj']

/-- A leaf above a node goes through the same node of each level. -/
lemma mem_nodePaths_above (h : ChainOk levelBits level chain) {above path : List ℕ}
    (hlen : above.length = level) (hlt : ∀ i ∈ above, i < 2 ^ levelBits) {i : ℕ}
    (hi : chain[i]? = some node)
    (hx : x ∈ chainPaths above own 0 chain) (hpre : x.1 <+: above ++ [i] ++ path) :
    x ∈ nodePaths (above ++ [i]) own node := by
  obtain ⟨j, node', hj, hx⟩ := mem_chainPaths.1 hx
  obtain ⟨-, rest, hrest, -⟩ := fits_of_mem_chainPaths h hlen hlt hj x hx
  rw [hrest, append_assoc, prefix_append_right_inj, singleton_append, cons_prefix_cons] at hpre
  obtain ⟨rfl, -⟩ := hpre
  cases hi.symm.trans hj
  exact hx

/-- The path of a node fits the code, and no leaf lies above the node. -/
lemma above_of_hasNode (h : ChainOk levelBits level chain) :
    ∀ {above : List ℕ}, above.length = level → (∀ i ∈ above, i < 2 ^ levelBits) →
      ∀ {path : List ℕ}, hasNode chain path → Fits levelBits (above ++ path) ∧
        ∀ own, ∀ x ∈ chainPaths above own 0 chain, x.1 <+: above ++ path → x.1 = above ++ path := by
  induction h with
  | @mk level chain fits count tail numeric children ih =>
    intro above hlen hlt path hpath
    have hchain : ChainOk levelBits level chain := .mk fits count tail numeric children
    rw [Nat.mul_comm] at fits
    cases path with
    | nil =>
      refine ⟨⟨by simpa using hlt, ?_⟩, fun own x hx hpre => ?_⟩
      · rw [append_nil, hlen]
        exact (Nat.mul_le_mul_left _ (Nat.le_succ _)).trans fits
      · obtain ⟨j, node, hj, hx⟩ := mem_chainPaths.1 hx
        obtain ⟨-, rest, hrest, -⟩ := fits_of_mem_chainPaths hchain hlen hlt hj x hx
        have := hpre.length_le
        simp [hrest] at this
    | cons i path =>
      obtain ⟨node, hi⟩ : ∃ node, chain[i]? = some node := by
        rw [hasNode] at hpath
        cases hi : chain[i]? with
        | none => rw [hi] at hpath; cases hpath
        | some node => exact ⟨node, rfl⟩
      rw [hasNode_cons path hi] at hpath
      obtain ⟨hilt, hnode⟩ := List.getElem?_eq_some_iff.1 hi
      have hlt' := forall_mem_append.2 ⟨hlt, forall_mem_singleton.2 (hilt.trans_le count)⟩
      have hlen' : (above ++ [i]).length = level + 1 := by simp [hlen]
      rw [← singleton_append, ← append_assoc]
      cases hc : node.children with
      | nil =>
        cases path with
        | nil =>
          refine ⟨⟨by simpa using hlt', by rw [append_nil, hlen']; exact fits⟩, fun own x hx hpre => ?_⟩
          have hx := mem_nodePaths_above hchain hlen hlt hi hx hpre
          simp only [nodePaths_eq, hc, isEmpty_nil, if_true, mem_singleton] at hx
          rw [hx, append_nil]
        | cons k path =>
          rw [hc, hasNode] at hpath
          cases hpath
      | cons first others =>
        have hne : node.children ≠ [] := by simp [hc]
        obtain ⟨hfits, habove⟩ := ih node (hnode ▸ List.getElem_mem hilt) hne hlen' hlt' hpath
        refine ⟨hfits, fun own x hx hpre => habove (own ++ node.predicate.toList) x ?_ hpre⟩
        have hx := mem_nodePaths_above hchain hlen hlt hi hx hpre
        rwa [nodePaths_eq, if_neg (by simpa using hne)] at hx

/-- No two leaves share a code. -/
lemma nodup_encode (h : ChainOk levelBits level chain) :
    ∀ {path : List ℕ} {own : List FilterExpr}, path.length = level →
      (∀ i ∈ path, i < 2 ^ levelBits) →
      ((chainPaths path own 0 chain).map fun x => encode x.1 levelBits).Nodup := by
  induction h with
  | @mk level chain fits count tail numeric children ih =>
    intro path own hlen hlt
    rw [chainPaths_eq, map_flatMap, nodup_flatMap]
    constructor
    · rintro ⟨node, i⟩ hi
      obtain ⟨hilt, hnode⟩ := List.getElem?_eq_some_iff.1 (mk_mem_zipIdx_iff_getElem?.1 hi)
      rw [nodePaths_eq]
      split
      · exact nodup_singleton _
      · next hc =>
        exact ih node (hnode ▸ List.getElem_mem hilt) (by simpa using hc) (by simp [hlen])
          (forall_mem_append.2 ⟨hlt, forall_mem_singleton.2 (hilt.trans_le count)⟩)
    · -- the codes tell two nodes of this level apart
      have hchain : ChainOk levelBits level chain := .mk fits count tail numeric children
      have hidx := pairwise_map.1 (nodup_zipIdx_map_snd chain)
      refine hidx.imp_of_mem fun {a b} ha hb hne code hcx hcy => hne ?_
      obtain ⟨x, hx, rfl⟩ := mem_map.1 hcx
      obtain ⟨y, hy, hcode⟩ := mem_map.1 hcy
      obtain ⟨hxfit, rx, hxp, -⟩ :=
        fits_of_mem_chainPaths hchain hlen hlt (mk_mem_zipIdx_iff_getElem?.1 ha) x hx
      obtain ⟨hyfit, ry, hyp, -⟩ :=
        fits_of_mem_chainPaths hchain hlen hlt (mk_mem_zipIdx_iff_getElem?.1 hb) y hy
      have hx' : path.length < x.1.length := by simp [hxp]
      have hy' : path.length < y.1.length := by simp [hyp]
      simpa [hxp, hyp] using eq_of_encode_eq hxfit hyfit hcode.symm hx' hy'

/-- In a chain that ends with its default, the document goes on in a node that takes it. -/
lemma exists_taken : ∀ (chain : List CompiledNode) (index : ℕ),
      (∃ node, chain.getLast? = some node ∧ node.predicate = none) →
      ∃ j node, chain[j]? = some node ∧ node.takes doc = true ∧
        routeChain doc path index chain = routeNode doc (path ++ [index + j]) node := by
  intro chain
  induction chain with
  | nil => rintro index ⟨node, h, -⟩; cases h
  | cons first rest ih =>
    rintro index ⟨last, hlast, hnone⟩
    rw [routeChain]
    cases htakes : first.takes doc with
    | true => exact ⟨0, first, rfl, htakes, by simp⟩
    | false =>
      cases rest with
      | nil =>
        obtain rfl : first = last := by simpa using hlast
        simp [CompiledNode.takes, hnone] at htakes
      | cons second rest =>
        obtain ⟨j, node, hj, htk, heq⟩ := ih (index + 1) ⟨last, hlast, hnone⟩
        refine ⟨j + 1, node, hj, htk, ?_⟩
        rw [if_neg (by simp), heq, Nat.add_right_comm, Nat.add_assoc]

/-- A predicate that is true on a document and bounded by numbers. -/
def Owns (e : FilterExpr) : Prop :=
  evalDocument doc e = .true ∧ e.NumericBounds

lemma owns_of_takes {doc : DocColumns} (h : node.takes doc = true)
    (hnum : ∀ e ∈ node.predicate, e.NumericBounds) : ∀ e ∈ node.predicate.toList, Owns doc e := by
  intro e he
  rw [Option.mem_toList] at he
  refine ⟨?_, hnum e he⟩
  rw [CompiledNode.takes, Option.mem_def.1 he] at h
  simpa using h

/-- A document reaches a leaf whose predicates are all true on it. -/
lemma exists_route (h : ChainOk levelBits level chain) :
    ∀ (path : List ℕ) (own : List FilterExpr), (∀ e ∈ own, Owns doc e) →
      ∃ x ∈ chainPaths path own 0 chain, routeChain doc path 0 chain = some x.1 ∧
        ∀ e ∈ x.2, Owns doc e := by
  induction h with
  | @mk level chain fits count tail numeric children ih =>
    intro path own hown
    obtain ⟨j, node, hj, htakes, hroute⟩ := exists_taken doc path chain 0 tail
    have hmem : node ∈ chain := mem_of_getElem? hj
    have hown' : ∀ e ∈ own ++ node.predicate.toList, Owns doc e := by
      intro e he
      exact (mem_append.1 he).elim (hown e) (owns_of_takes htakes (numeric node hmem) e)
    rw [hroute, routeNode_eq]
    cases hc : node.children.isEmpty with
    | true =>
      refine ⟨(path ++ [0 + j], own ++ node.predicate.toList), ?_, rfl, hown'⟩
      exact mem_chainPaths.2 ⟨j, node, hj, by simp [nodePaths_eq, hc]⟩
    | false =>
      obtain ⟨x, hx, hxroute, hxown⟩ :=
        ih node hmem (by simpa using hc) (path ++ [0 + j]) (own ++ node.predicate.toList) hown'
      refine ⟨x, mem_chainPaths.2 ⟨j, node, hj, ?_⟩, by simpa using hxroute, hxown⟩
      rw [nodePaths_eq, hc]
      rwa [Nat.zero_add] at hx

variable {parse : String → Except Status FilterExpr} {config : PlacementTreeConfig}
  {p : PlacementTree}

/-- **The leaf a document goes to**: its predicates are true on the document, and its bounds are
those of its predicates with the placement column pinned to its code. -/
theorem evaluateColumns_spec (h : validate parse config = .ok p) (doc : DocColumns) :
    ∃ leaf ∈ p.leaves, p.evaluateColumns doc = some leaf ∧ p.leafByCode leaf.code = some leaf ∧
      leaf.Derived p.column p.levelBits ∧ ∀ e ∈ leaf.own, Owns doc e := by
  obtain ⟨-, hchain, hleaves, hder⟩ := validate_spec h
  obtain ⟨x, hx, hroute, hown⟩ := exists_route doc hchain [] [] (by simp)
  have hpath : ∀ l ∈ p.leaves, (l.path, l.own) ∈ chainPaths [] [] 0 p.compiled := fun l hl =>
    hleaves ▸ mem_map_of_mem hl
  obtain ⟨target, htarget, htargetx⟩ := mem_map.1 (hleaves ▸ hx)
  have hcode : target.code = encode x.1 p.levelBits := by
    rw [(hder target htarget).code, ← htargetx]
  -- the search by code stops at a leaf with this code, so with this path and these predicates
  obtain ⟨leaf, hleaf⟩ : ∃ leaf, p.leafByCode (encode x.1 p.levelBits) = some leaf := by
    refine Option.isSome_iff_exists.1 (find?_isSome.2 ⟨target, htarget, ?_⟩)
    simp [hcode]
  have hmem : leaf ∈ p.leaves := mem_of_find?_eq_some hleaf
  have hleafcode : leaf.code = encode x.1 p.levelBits := by simpa using find?_some hleaf
  have hsame : (leaf.path, leaf.own) = x := by
    refine inj_on_of_nodup_map (nodup_encode hchain rfl (by simp)) (hpath leaf hmem) hx ?_
    rw [← (hder leaf hmem).code, hleafcode]
  refine ⟨leaf, hmem, ?_, hleafcode ▸ hleaf, hder leaf hmem, ?_⟩
  · rw [PlacementTree.evaluateColumns, hroute]
    exact hleaf
  · rw [← hsame] at hown
    exact hown

/-- **What the codes of a validated tree say**: they are distinct, hold the indices of their paths,
put the leaves below a node in the range of its path, and every document has one leaf. No leaf is
below another. -/
theorem leaves_by_code (h : validate parse config = .ok p) : (p.leaves.map Leaf.code).Nodup ∧
    (∀ path, hasNode p.compiled path →
      ∀ l ∈ p.leaves, path <+: l.path ↔ (subtreeRange path p.levelBits).1 ≤ l.code ∧
        l.code ≤ (subtreeRange path p.levelBits).2) ∧
    (∀ l ∈ p.leaves, hasNode p.compiled l.path ∧ ∀ l' ∈ p.leaves, l.path <+: l'.path → l = l') ∧
    (∀ l ∈ p.leaves, ∀ k (hk : k < l.path.length), indexAt l.code k p.levelBits = l.path[k]) ∧
    ∀ doc, ∃! l, l ∈ p.leaves ∧ p.evaluateColumns doc = some l := by
  obtain ⟨hbits, hchain, hleaves, hderived⟩ := validate_spec h
  have hpath : ∀ l ∈ p.leaves, (l.path, l.own) ∈ chainPaths [] [] 0 p.compiled := fun l hl =>
    hleaves ▸ mem_map_of_mem hl
  have hnode : ∀ l ∈ p.leaves, Fits p.levelBits l.path ∧ hasNode p.compiled l.path := by
    intro l hl
    obtain ⟨j, node, hj, hmem⟩ := mem_chainPaths.1 (hpath l hl)
    obtain ⟨hfits, rest, hrest, hbelow⟩ :=
      fits_of_mem_chainPaths hchain rfl (by simp) hj _ hmem
    change l.path = j :: rest at hrest
    exact ⟨hfits, by rwa [hrest, hasNode_cons rest hj]⟩
  have habove {path : List ℕ} (hpath : hasNode p.compiled path) :=
    above_of_hasNode hchain (rfl : ([] : List ℕ).length = 0) (by simp) hpath
  have hnodup : (p.leaves.map Leaf.code).Nodup := by
    have hnodup : ((chainPaths [] [] 0 p.compiled).map fun x => encode x.1 p.levelBits).Nodup :=
      nodup_encode hchain rfl (by simp)
    rw [← hleaves, map_map] at hnodup
    rwa [map_congr_left fun l hl => (hderived l hl).code]
  refine ⟨hnodup, fun path hnode' l hl => ?_, fun l hl => ⟨(hnode l hl).2, fun l' hl' hpre => ?_⟩,
    fun l hl k hk => ?_, fun doc => ?_⟩
  · obtain ⟨hfits, hbeyond⟩ := habove hnode'
    rw [(hderived l hl).code]
    exact initial_iff_mem_subtreeRange hfits (hnode l hl).1 (hbeyond [] _ (hpath l hl))
  · have hsame : l.path = l'.path := (habove (hnode l' hl').2).2 [] _ (hpath l hl) hpre
    refine inj_on_of_nodup_map hnodup hl hl' ?_
    rw [(hderived l hl).code, (hderived l' hl').code, hsame]
  · rw [(hderived l hl).code]
    exact indexAt_encode (hnode l hl).1 hbits hk
  · obtain ⟨leaf, hmem, hleaf, -⟩ := evaluateColumns_spec h doc
    exact ⟨leaf, ⟨hmem, hleaf⟩, fun l hl => Option.some.inj (hl.2.symm.trans hleaf)⟩

def sampleParse (_ : String) : Except Status FilterExpr :=
  .ok (.leaf (.number ⟨"year", some ⟨some (.int ⟨2000, by decide, by decide⟩), false⟩, none⟩))

/-- A tree whose first node has two leaves. -/
def twoLevels : PlacementTreeConfig where
  column := "leaf"
  levelBits := 0
  nodes := [⟨"new", some "year >= 2000", 0, [], [⟨"hot", some "year >= 2000", 0, [], []⟩,
    ⟨"warm", none, 0, [], []⟩]⟩, ⟨"old", none, 0, [], []⟩]

theorem leaves_by_code_twoLevels : ∃ p, validate sampleParse twoLevels = .ok p ∧
    p.leaves.map Leaf.path = [[0, 0], [0, 1], [1]] ∧ ∀ l ∈ p.leaves, [0] <+: l.path ↔
      (subtreeRange [0] p.levelBits).1 ≤ l.code ∧ l.code ≤ (subtreeRange [0] p.levelBits).2 := by
  have hvalid : validate sampleParse twoLevels = .ok _ := rfl
  exact ⟨_, hvalid, rfl, (leaves_by_code hvalid).2.1 [0] rfl⟩

end ProtomoltSearch.Placement
