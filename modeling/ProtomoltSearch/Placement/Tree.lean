import ProtomoltSearch.Foundations.Refusals
import ProtomoltSearch.Placement.Bounds
import ProtomoltSearch.Placement.Code

/-!
# The placement tree

A configured tree is validated into its leaves and its compiled predicates, and a document is
routed down the compiled tree: at each level the first node whose predicate is true, the level's
default last (`placement.rs`).

* `validate` compiles the text of a predicate by a parser left as a parameter, followed by the
  source's own validation; `ChainOk` is what its walk guarantees about a compiled chain.
* `evaluateColumns_spec`: a document reaches a leaf of the tree, its predicates are all true on
  the document, and the leaf's bounds are those of its predicates and its code.
-/

namespace ProtomoltSearch.Placement

open List

open ProtomoltSearch.Filter

/-! ## Text -/

/-- The white space of Unicode. -/
def isWhitespace (c : Char) : Bool :=
  let n := c.toNat
  (9 ≤ n && n ≤ 13) || n == 0x20 || n == 0x85 || n == 0xA0 || n == 0x1680
    || (0x2000 ≤ n && n ≤ 0x200A) || n == 0x2028 || n == 0x2029 || n == 0x202F || n == 0x205F
    || n == 0x3000

/-- A string without the white space around it. -/
def trim (s : String) : String :=
  .ofList ((s.toList.dropWhile isWhitespace).reverse.dropWhile isWhitespace).reverse

variable (parse : String → Except Status FilterExpr)

/-- Compile and validate a filter's text; blank text is no filter. -/
def compileFilter (text : String) : Except Status (Option FilterExpr) := do
  let trimmed := trim text
  if trimmed.isEmpty then return none
  let expr ← parse trimmed
  validateFilter expr
  return some expr

/-! ## Trees -/

structure PlacementNodeConfig where
  name : String
  cel : Option String
  shards : ℕ
  nodes : List String
  children : List PlacementNodeConfig

structure PlacementTreeConfig where
  column : String
  levelBits : ℕ
  nodes : List PlacementNodeConfig

structure Leaf where
  name : String
  code : I64
  path : List ℕ
  shards : ℕ
  nodes : List String
  own : List FilterExpr
  isDefault : Bool
  /-- What `own` says per column, with the placement column pinned to the code. -/
  bounds : ColumnBounds

/-- A node of a validated tree; no predicate marks the level's default. -/
structure CompiledNode where
  name : String
  cel : String
  predicate : Option FilterExpr
  children : List CompiledNode

/-- What a walk accumulates. -/
structure Walked where
  leaves : List Leaf
  depth : ℕ

structure PlacementTree where
  column : String
  levelBits : ℕ
  depth : ℕ
  leaves : List Leaf
  config : PlacementTreeConfig
  compiled : List CompiledNode

/-! ## Validation -/

/-- The text of a node's predicate. -/
def celOf (cel : Option String) : String := (cel.map trim).getD ""

/-- The checks made on a chain before its nodes. -/
def checkChain (levelBits : ℕ) (stem : String) (level count : ℕ) : Except String Unit := do
  refuseIf (codeBits < level * levelBits)
    ("placement: level " ++ toString level ++ " at " ++ toString levelBits ++
      " bits per level exceeds " ++ toString codeBits ++ " bits under " ++ debug stem)
  refuseIf (2 ^ levelBits < count)
    ("placement: " ++ toString count ++ " nodes under " ++ debug stem ++ " exceed " ++
      toString (2 ^ levelBits) ++ " at " ++ toString levelBits ++ " bits per level")

/-- The check made on a chain after its nodes: the last is the default. -/
def checkTail (stem : String) (chain : List PlacementNodeConfig) : Except String Unit :=
  refuseIf (!(celOf (chain.getLast?.bind (·.cel))).isEmpty)
    ("placement: the chain under " ++ debug stem ++ " has no default (a last node with no cel)")

def checkName (stem : String) (index : ℕ) (names : List String) (name : String) :
    Except String String := do
  let trimmed := trim name
  refuseIf (trimmed.isEmpty || trimmed.toList.contains '.' || trimmed.toList.any isWhitespace)
    ("placement: node " ++ toString index ++ " under " ++ debug stem ++ " has an invalid name " ++
      debug name ++ " (non-empty, no dots, no whitespace)")
  refuseIf (names.contains trimmed)
    ("placement: node name " ++ debug trimmed ++ " repeats under " ++ debug stem)
  return trimmed

def compilePredicate (full cel : String) : Except String (Option FilterExpr) :=
  if cel.isEmpty then .ok none
  else match compileFilter parse cel with
    | .error status => .error ("placement: node " ++ debug full ++ ": " ++ status.message)
    | .ok none => .error ("placement: node " ++ debug full ++ " compiles to no filter")
    | .ok (some expr) => .ok (some expr)

/-- The leaf a node without children makes. -/
def leafOf (column : String) (levelBits : ℕ) (full cel : String) (path : List ℕ) (shards : ℕ)
    (nodes : List String) (own : List FilterExpr) : Leaf where
  name := full
  code := encode path levelBits
  path := path
  shards := max shards 1
  nodes := nodes
  own := own
  isDefault := cel.isEmpty
  bounds := (ColumnBounds.ofConjunction own).pinInt column (encode path levelBits)

section

variable (parse : String → Except Status FilterExpr) (column : String) (levelBits : ℕ)

mutual

def walkNode (stem : String) (path : List ℕ) (own : List FilterExpr) (last index : ℕ)
    (names : List String) (w : Walked) :
    PlacementNodeConfig → Except String (String × CompiledNode × Walked)
  | ⟨nodeName, nodeCel, shards, nodes, children⟩ => do
    let name ← checkName stem index names nodeName
    let full := if stem.isEmpty then name else stem ++ "." ++ name
    let cel := celOf nodeCel
    refuseIf (cel.isEmpty && index != last)
      ("placement: default node " ++ debug full ++ " must be last in its chain")
    let predicate ← compilePredicate parse full cel
    let ownHere := own ++ predicate.toList
    let pathHere := path ++ [index]
    if children.isEmpty then
      let leaf := leafOf column levelBits full cel pathHere shards nodes ownHere
      return (name, ⟨full, cel, predicate, []⟩, ⟨w.leaves ++ [leaf], w.depth⟩)
    else
      refuseIf (shards != 0 || !nodes.isEmpty)
        ("placement: node " ++ debug full ++
          " has children and also shards or nodes; size the leaves")
      let level := pathHere.length + 1
      checkChain levelBits full level children.length
      let (kids, w) ← walkNodes full pathHere ownHere (children.length - 1) 0 []
        ⟨w.leaves, max w.depth level⟩ children
      checkTail full children
      return (name, ⟨full, cel, predicate, kids⟩, w)

def walkNodes (stem : String) (path : List ℕ) (own : List FilterExpr) (last index : ℕ)
    (names : List String) (w : Walked) :
    List PlacementNodeConfig → Except String (List CompiledNode × Walked)
  | [] => return ([], w)
  | node :: rest => do
    let (name, compiled, w) ← walkNode stem path own last index names w node
    let (more, w) ← walkNodes stem path own last (index + 1) (name :: names) w rest
    return (compiled :: more, w)

end

/-- Validate and compile the chain at the root. -/
def walk (chain : List PlacementNodeConfig) : Except String (List CompiledNode × Walked) := do
  checkChain levelBits "" 1 chain.length
  let out ← walkNodes parse column levelBits "" [] [] (chain.length - 1) 0 [] ⟨[], 1⟩ chain
  checkTail "" chain
  return out

end

def validate (config : PlacementTreeConfig) : Except String PlacementTree := do
  let column := trim config.column
  refuseIf column.isEmpty "placement: column is empty"
  refuseIf (column.toList.any isWhitespace)
    ("placement: column " ++ debug column ++ " holds whitespace")
  let levelBits := if config.levelBits = 0 then defaultLevelBits else config.levelBits
  refuseIf (!(1 ≤ levelBits && levelBits ≤ 32))
    ("placement: level_bits " ++ toString levelBits ++ " is outside 1..=32")
  refuseIf config.nodes.isEmpty "placement: the root has no nodes"
  let (compiled, w) ← walk parse column levelBits config.nodes
  return ⟨column, levelBits, w.depth, w.leaves, config, compiled⟩

/-! ## Routing -/

/-- Whether a document goes into a node, reached in its chain. -/
def CompiledNode.takes (node : CompiledNode) (doc : DocColumns) : Bool :=
  match node.predicate with
  | none => true
  | some expr => evalDocument doc expr == .true

mutual

def routeNode (doc : DocColumns) (path : List ℕ) : CompiledNode → Option (List ℕ)
  | ⟨_, _, _, children⟩ => if children.isEmpty then some path else routeChain doc path 0 children

/-- The path a document takes in a chain: the first node that takes it, else the last. -/
def routeChain (doc : DocColumns) (path : List ℕ) (index : ℕ) : List CompiledNode → Option (List ℕ)
  | [] => none
  | node :: rest =>
    if node.takes doc || rest.isEmpty then routeNode doc (path ++ [index]) node
    else routeChain doc path (index + 1) rest

end

namespace PlacementTree

def leafByCode (p : PlacementTree) (code : I64) : Option Leaf :=
  p.leaves.find? fun leaf => leaf.code = code

/-- The leaf a document goes to. The source expects the leaf to be there. -/
def evaluateColumns (p : PlacementTree) (doc : DocColumns) : Option Leaf :=
  (routeChain doc [] 0 p.compiled).bind fun path => p.leafByCode (encode path p.levelBits)

end PlacementTree

/-! ## What a walk guarantees -/

mutual

/-- The leaves under a compiled node: their paths and predicates. -/
def nodePaths (path : List ℕ) (own : List FilterExpr) :
    CompiledNode → List (List ℕ × List FilterExpr)
  | ⟨_, _, predicate, children⟩ =>
    if children.isEmpty then [(path, own ++ predicate.toList)]
    else chainPaths path (own ++ predicate.toList) 0 children

/-- The leaves under a compiled chain. -/
def chainPaths (path : List ℕ) (own : List FilterExpr) (index : ℕ) :
    List CompiledNode → List (List ℕ × List FilterExpr)
  | [] => []
  | node :: rest => nodePaths (path ++ [index]) own node ++ chainPaths path own (index + 1) rest

end

/-- A chain that a walk accepts `level` levels below the root. -/
inductive ChainOk (levelBits : ℕ) : ℕ → List CompiledNode → Prop
  | mk {level : ℕ} {chain : List CompiledNode}
    (fits : (level + 1) * levelBits ≤ codeBits)
    (count : chain.length ≤ 2 ^ levelBits)
    (tail : ∃ node, chain.getLast? = some node ∧ node.predicate = none)
    (numeric : ∀ node ∈ chain, ∀ e ∈ node.predicate, e.NumericBounds)
    (children : ∀ node ∈ chain, node.children ≠ [] → ChainOk levelBits (level + 1) node.children) :
    ChainOk levelBits level chain

/-- A leaf whose code and bounds are those of its path and predicates. -/
structure Leaf.Derived (column : String) (levelBits : ℕ) (l : Leaf) : Prop where
  code : l.code = encode l.path levelBits
  bounds : l.bounds = (ColumnBounds.ofConjunction l.own).pinInt column l.code

/-- What a walk adds: derived leaves with these paths and predicates. -/
def AddsLeaves (column : String) (levelBits : ℕ) (w w' : Walked)
    (paths : List (List ℕ × List FilterExpr)) : Prop :=
  ∃ new, w'.leaves = w.leaves ++ new ∧ new.map (fun l => (l.path, l.own)) = paths ∧
    ∀ l ∈ new, l.Derived column levelBits

/-- What a walk guarantees about one compiled node. -/
structure NodeOk (levelBits level : ℕ) (node : CompiledNode) : Prop where
  tail : node.cel.isEmpty → node.predicate = none
  numeric : ∀ e ∈ node.predicate, e.NumericBounds
  children : node.children ≠ [] → ChainOk levelBits (level + 1) node.children

lemma AddsLeaves.append {column : String} {levelBits : ℕ} {w w' w'' : Walked}
    {ps qs : List (List ℕ × List FilterExpr)} (h : AddsLeaves column levelBits w w' ps)
    (h' : AddsLeaves column levelBits w' w'' qs) :
    AddsLeaves column levelBits w w'' (ps ++ qs) := by
  obtain ⟨new, hw, hp, hd⟩ := h
  obtain ⟨new', hw', hp', hd'⟩ := h'
  refine ⟨new ++ new', by rw [hw', hw, append_assoc], by rw [map_append, hp, hp'], ?_⟩
  intro l hl
  exact (mem_append.1 hl).elim (hd l) (hd' l)

section

variable {parse : String → Except Status FilterExpr}

/-- A compiled filter has passed validation. -/
lemma numericBounds_of_compileFilter {text : String} {e : FilterExpr}
    (h : compileFilter parse text = .ok (some e)) : e.NumericBounds := by
  unfold compileFilter at h
  dsimp only at h
  split at h
  · exact absurd (pure_ok.1 h) (by simp)
  · obtain ⟨expr, -, ⟨⟩, hv, h⟩ := bind₂_ok.1 h
    obtain rfl := Option.some.inj (pure_ok.1 h)
    exact numericBounds_of_validate hv

lemma compilePredicate_spec {full cel : String} {predicate : Option FilterExpr}
    (h : compilePredicate parse full cel = .ok predicate) :
    (cel.isEmpty → predicate = none) ∧ ∀ e ∈ predicate, e.NumericBounds := by
  unfold compilePredicate at h
  split at h
  · cases h
    exact ⟨fun _ => rfl, by simp⟩
  · next hcel =>
    split at h
    · cases h
    · cases h
    · next expr hc =>
      cases h
      refine ⟨fun hempty => absurd hempty hcel, ?_⟩
      rintro e ⟨⟩
      exact numericBounds_of_compileFilter hc

lemma checkChain_ok {levelBits : ℕ} {stem : String} {level count : ℕ}
    (h : checkChain levelBits stem level count = .ok ()) :
    level * levelBits ≤ codeBits ∧ count ≤ 2 ^ levelBits := by
  obtain ⟨⟨⟩, h₁, h₂⟩ := bind_ok.1 h
  rw [refuseIf_ok, decide_eq_false_iff_not, Nat.not_lt] at h₁ h₂
  exact ⟨h₁, h₂⟩

/-- The checks around a chain and the guarantees of its nodes make it a chain a walk accepts. -/
lemma chainOk_of_checks {levelBits level : ℕ} {stem : String} {chain : List PlacementNodeConfig}
    {compiled : List CompiledNode} (hne : chain ≠ [])
    (hchk : checkChain levelBits stem (level + 1) chain.length = .ok ())
    (hcels : compiled.map (·.cel) = chain.map (fun node => celOf node.cel))
    (hnodes : ∀ node ∈ compiled, NodeOk levelBits level node)
    (htail : checkTail stem chain = .ok ()) : ChainOk levelBits level compiled := by
  obtain ⟨hfits, hcnt⟩ := checkChain_ok hchk
  have hlen : compiled.length = chain.length := by simpa using congrArg List.length hcels
  obtain ⟨last, hlast⟩ := Option.ne_none_iff_exists'.1 (mt getLast?_eq_none_iff.1 hne)
  have hcel : (celOf last.cel).isEmpty = true := by
    rw [checkTail, hlast] at htail
    simpa using htail
  obtain ⟨node, hnode, hnodecel⟩ : ∃ node, compiled.getLast? = some node ∧
      node.cel = celOf last.cel := by
    have := congrArg getLast? hcels
    rw [getLast?_map, getLast?_map, hlast] at this
    exact Option.map_eq_some_iff.1 this
  have hmem : node ∈ compiled := mem_of_getLast? hnode
  exact .mk hfits (hlen ▸ hcnt)
    ⟨node, hnode, (hnodes node hmem).tail (by rw [hnodecel]; exact hcel)⟩
    (fun n hn => (hnodes n hn).numeric) (fun n hn => (hnodes n hn).children)

variable {column : String} {levelBits : ℕ}

mutual

lemma walkNode_spec : ∀ (node : PlacementNodeConfig) {stem : String} {path : List ℕ}
    {own : List FilterExpr} {last index : ℕ} {names : List String} {w w' : Walked} {name : String}
    {compiled : CompiledNode},
    walkNode parse column levelBits stem path own last index names w node =
      .ok (name, compiled, w') →
    compiled.cel = celOf node.cel ∧ NodeOk levelBits path.length compiled ∧
      AddsLeaves column levelBits w w' (nodePaths (path ++ [index]) own compiled)
  | ⟨nodeName, nodeCel, shards, nodes, children⟩, stem, path, own, last, index, names, w, w', name,
      compiled, h => by
    unfold walkNode at h
    obtain ⟨name', -, _, -, predicate, hpred, h⟩ := bind₃_ok.1 h
    obtain ⟨htail, hnum⟩ := compilePredicate_spec hpred
    cases hc : children.isEmpty with
    | true =>
      rw [hc, if_pos rfl] at h
      obtain ⟨⟩ := pure_ok.1 h
      refine ⟨rfl, ⟨htail, hnum, fun hne => absurd rfl hne⟩, _, rfl, ?_, ?_⟩
      · simp [nodePaths, leafOf]
      · intro l hl
        obtain rfl := mem_singleton.1 hl
        exact ⟨rfl, rfl⟩
    | false =>
      rw [hc, if_neg (by simp)] at h
      obtain ⟨_, -, ⟨⟩, hchk, h⟩ := bind₂_ok.1 h
      obtain ⟨⟨kids, w₁⟩, hkids, ⟨⟩, htailOk, h⟩ := bind₂_ok.1 h
      obtain ⟨⟩ := pure_ok.1 h
      obtain ⟨hcels, hnodes, hadds⟩ := walkNodes_spec children hkids
      have hne : children ≠ [] := by
        rintro rfl
        cases hc
      have hchain := chainOk_of_checks hne hchk hcels hnodes htailOk
      have hkne : kids.isEmpty = false := by
        cases kids with
        | nil => exact absurd (map_eq_nil_iff.1 hcels.symm) hne
        | cons _ _ => rfl
      rw [length_append] at hchain
      refine ⟨rfl, ⟨htail, hnum, fun _ => hchain⟩, ?_⟩
      rw [nodePaths, hkne]
      exact hadds

lemma walkNodes_spec : ∀ (chain : List PlacementNodeConfig) {stem : String} {path : List ℕ}
    {own : List FilterExpr} {last index : ℕ} {names : List String} {w w' : Walked}
    {compiled : List CompiledNode},
    walkNodes parse column levelBits stem path own last index names w chain = .ok (compiled, w') →
    compiled.map (·.cel) = chain.map (fun node => celOf node.cel) ∧
      (∀ node ∈ compiled, NodeOk levelBits path.length node) ∧
      AddsLeaves column levelBits w w' (chainPaths path own index compiled)
  | [], stem, path, own, last, index, names, w, w', compiled, h => by
    obtain ⟨⟩ := pure_ok.1 h
    exact ⟨rfl, by simp, [], by simp, by simp [chainPaths], by simp⟩
  | node :: rest, stem, path, own, last, index, names, w, w', compiled, h => by
    obtain ⟨⟨name, first, w₁⟩, hnode, ⟨more, w₂⟩, hrest, h⟩ := bind₂_ok.1 h
    obtain ⟨⟩ := pure_ok.1 h
    obtain ⟨hcel, hok, hadds⟩ := walkNode_spec node hnode
    obtain ⟨hcels, hoks, haddsRest⟩ := walkNodes_spec rest hrest
    refine ⟨by rw [map_cons, map_cons, hcel, hcels], ?_, ?_⟩
    · exact forall_mem_cons.2 ⟨hok, hoks⟩
    · exact hadds.append haddsRest

end

/-- **A validated tree is an accepted chain and the list of its leaves.** -/
theorem validate_spec {config : PlacementTreeConfig} {p : PlacementTree}
    (h : validate parse config = .ok p) : p.levelBits ≤ 32 ∧ ChainOk p.levelBits 0 p.compiled ∧
      p.leaves.map (fun l => (l.path, l.own)) = chainPaths [] [] 0 p.compiled ∧
      ∀ l ∈ p.leaves, l.Derived p.column p.levelBits := by
  obtain ⟨_, -, _, -, ⟨⟩, hbits, h⟩ := bind₃_ok.1 h
  obtain ⟨⟨⟩, hne, ⟨compiled, w⟩, hwalk, h⟩ := bind₂_ok.1 h
  obtain ⟨⟩ := pure_ok.1 h
  obtain ⟨⟨⟩, hchk, out, hnodes, ⟨⟩, htail, hwalk⟩ := bind₃_ok.1 hwalk
  obtain rfl := pure_ok.1 hwalk
  obtain ⟨hcels, hoks, new, hleaves, hpaths, hder⟩ := walkNodes_spec config.nodes hnodes
  have hne' : config.nodes ≠ [] := by simpa using hne
  rw [nil_append] at hleaves
  rw [refuseIf_ok] at hbits
  refine ⟨?_, chainOk_of_checks hne' hchk hcels hoks htail, ?_, ?_⟩
  · simp only [Bool.not_eq_false', Bool.and_eq_true, decide_eq_true_eq] at hbits
    exact hbits.2
  · rw [hleaves, hpaths]
  · rw [hleaves]
    exact hder

end

end ProtomoltSearch.Placement
