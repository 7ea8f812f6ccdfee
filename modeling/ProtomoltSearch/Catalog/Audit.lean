import ProtomoltSearch.Catalog.Chain
import ProtomoltSearch.Foundations.Within

/-!
# The checkpoint audit

Before a catalog is backed up or sealed, the journal is compared with the accepted history. A first pass
reads the state of every index and compares its last document decision with the accepted version
(`checkpointStates`); a second walks the whole chain of every index by its epochs and compares every
decision (`verifyCheckpointChain`).

Both are bounded by the sizes of the records they read, which are a parameter (`Sizes`). A chain whose
decisions all name accepted versions as they are stored passes the walk, unless a record is too large.
-/

namespace ProtomoltSearch.Catalog

open List Table

variable {D S : Type}

structure Sizes (D : Type) where
  header : DocumentCatalogHeader → ℕ
  state : ProjectionJournalState D → ℕ
  version : DocumentVersion D → ℕ
  intent : ProjectionIntent D → ℕ
  maintenance : MaintenanceIntent D → ℕ

/-- The tables of the journal a checkpoint copies. -/
inductive JournalTable where
  | states
  | decisions
  | maintenance
  deriving DecidableEq

section

variable [DecidableEq D] (sizes : Sizes D) (sha : Sha256 D S) (db : Database D) (state : ProjectionJournalState D)
  (limit : ℕ)

/-! ## The states -/

/-- The last document decision of an index is the accepted version it names. -/
def checkAnchor : Option (ProjectionIntent D) → Except Status Unit
  | none => .ok ()
  | some intent => do
    -- `validate_tip` has checked that there is a source
    let source ← okOr intent.source (Status.dataLoss "projection intent source missing")
    let accepted ← okOr (db.versions.lookup source.key)
      (Status.dataLoss "checkpoint journal anchor has no accepted source version")
    refuseIf (decide (limit < sizes.version accepted))
      (.resourceExhausted "checkpoint source anchor exceeds metadata budget")
    refuseIf (accepted != source || db.changes.lookup source.acceptedSequence != some source.key)
      (.dataLoss "checkpoint journal anchor differs from accepted source history")

/-- The loop body of `checkpoint_states`, with the size used and the states read so far. -/
def checkpointState
    (read : ℕ × List (ProjectionJournalState D)) (row : Bytes × ProjectionJournalState D) :
    Except Status (ℕ × List (ProjectionJournalState D)) := do
  let used ← okOr ((checkedAdd read.1 (sizes.state row.2)).bind (checkedAdd · 64))
    (Status.resourceExhausted "checkpoint metadata size overflow")
  refuseIf (decide (limit < used)) (.resourceExhausted "checkpoint metadata budget exceeded")
  (indexKey row.1).mapError fun e => .dataLoss e.message
  validateState sha row.2 row.1 db.header.historyId
  refuseIf (row.2.pending.isSome || row.2.pendingMaintenance.isSome) (.failedPrecondition
    "resolve pending source/index decisions before checkpoint capture")
  refuseIf (decide (db.header.acceptedSequence < row.2.committedSequence))
    (.dataLoss "checkpoint index is ahead of accepted source history")
  let tip ← validateTip sha db.decisionTable db.maintenance row.2 db.header.collection
  checkAnchor sizes db limit tip
  return (used, read.2 ++ [row.2])

/-- The tables a checkpoint of a journal copies. -/
def journalTables : List JournalTable :=
  if db.maintenance.isSome then [.states, .decisions, .maintenance] else [.states, .decisions]

/-- `publication::checkpoint_states`. -/
def checkpointStates (metadataLimit : ℕ) :
    Except Status (List (ProjectionJournalState D) × List JournalTable) := do
  let journal ← journalHeader db db.header.historyId
  if !journal then return ([], [])
  let read ← db.stateTable.rows.foldlM (checkpointState sizes sha db metadataLimit)
    (sizes.header db.header, [])
  return (read.2, journalTables db)

/-! ## The walk -/

/-- `audit::damaged`. -/
def damaged (message : String) : Status := .dataLoss ("source/index journal audit: " ++ message)

/-- `audit::required`: a row, no larger than the limit. -/
def required {V : Type} (row : Option V) (size : V → ℕ) (limit : ℕ) : Except Status V := do
  let value ← okOr row (damaged "immutable decision or accepted version is missing")
  refuseIf (decide (limit < size value))
    (.resourceExhausted "journal audit record exceeds source_batch_bytes")
  return value

/-- `audit::Chain`: where the walk has come to. -/
structure PhysicalChain (D : Type) where
  epoch : ℕ
  hash : D
  sourceSequence : ℕ
  sourceId : Option D
  maintenance : Option (MaintenanceCursor D)
  maintenanceCount : ℕ

/-- One round of `Chain::advance`: the rewrite that leads to the next epoch. -/
def PhysicalChain.advanceOnce (chain : PhysicalChain D) : Except Status (PhysicalChain D) := do
  let table ← okOr db.maintenance (damaged "physical history gap has no maintenance table")
  let afterEpoch ← okOr (checkedAdd chain.epoch 1) (damaged "physical epoch overflow")
  let intent ← okOr (table.lookup ⟨state.indexKey, afterEpoch⟩)
    (damaged "immutable maintenance decision is missing")
  refuseIf (decide (limit < sizes.maintenance intent))
    (.resourceExhausted "journal audit record exceeds source_batch_bytes")
  validateMaintenance sha intent state.indexKey state.historyId db.header.collection
  refuseIf (intent.beforeEpoch != chain.epoch || intent.afterEpoch != afterEpoch ||
      intent.beforeManifestSha256 != chain.hash ||
      intent.acceptedSequence != chain.sourceSequence || intent.sourceIntentId != chain.sourceId ||
      intent.previous != chain.maintenance)
    (damaged "maintenance does not compose with the preceding source and physical decisions")
  let count ← okOr (checkedAdd chain.maintenanceCount 1)
    (damaged "maintenance decision count overflow")
  return { chain with
    maintenance := some (cursor intent)
    epoch := intent.afterEpoch
    hash := intent.afterManifestSha256
    maintenanceCount := count }

def PhysicalChain.rounds : ℕ → PhysicalChain D → Except Status (PhysicalChain D)
  | 0, chain => .ok chain
  | n + 1, chain => do
    let next ← chain.advanceOnce sizes sha db state limit
    PhysicalChain.rounds n next

/-- `Chain::advance`. Each round raises the epoch by one, so that the loop until the target takes as
many rounds as the target is ahead. -/
def PhysicalChain.advance (limit target : ℕ) (chain : PhysicalChain D) :
    Except Status (PhysicalChain D) := do
  refuseIf (decide (target < chain.epoch)) (damaged "physical epoch regressed")
  chain.rounds sizes sha db state limit (target - chain.epoch)

def walkSource (chain : PhysicalChain D) (sequence : ℕ) : Except Status (PhysicalChain D) := do
  let intent ← required (db.decisionTable.lookup ⟨state.indexKey, sequence⟩) sizes.intent limit
  validateIntent sha intent state.indexKey state.historyId
  -- `validate_intent` has checked that there is a source
  let source ← okOr intent.source (Status.dataLoss "projection intent source missing")
  let version ← required (db.versions.lookup source.key) sizes.version limit
  refuseIf (source.acceptedSequence != sequence || source != version ||
      db.changes.lookup sequence != some source.key)
    (damaged "historical source decision differs from accepted history")
  let chain ← chain.advance sizes sha db state limit intent.beforeEpoch
  refuseIf (chain.hash != intent.beforeManifestSha256)
    (damaged "source decision does not follow the preceding physical manifest")
  return { chain with
    epoch := intent.afterEpoch
    hash := intent.afterManifestSha256
    sourceSequence := sequence
    sourceId := intent.intentId }

/-- The walk along the chain of an index with committed decisions, and how many rewrites it met. -/
def walkIndex : Except Status ℕ := do
  let first ← required (db.decisionTable.lookup ⟨state.indexKey, 1⟩) sizes.intent limit
  validateIntent sha first state.indexKey state.historyId
  let chain ← (List.range' 1 state.committedSequence).foldlM (walkSource sizes sha db state limit)
    ⟨first.beforeEpoch, first.beforeManifestSha256, 0, none, none, 0⟩
  let lastEpoch := state.maintenanceTip.elim chain.epoch fun tip => max tip.afterEpoch chain.epoch
  let chain ← chain.advance sizes sha db state limit lastEpoch
  refuseIf (chain.hash != state.committedManifestSha256 ||
      chain.maintenance != state.maintenanceTip)
    (damaged "committed index tip differs from its complete physical history")
  return chain.maintenanceCount

/-- The loop body of `verify_checkpoint_chain`, with the rewrites met so far. -/
def verifyIndex (limit count : ℕ) (state : ProjectionJournalState D) : Except Status ℕ := do
  validateState sha state state.indexKey db.header.historyId
  refuseIf (state.pending.isSome || state.pendingMaintenance.isSome ||
      decide (db.header.acceptedSequence < state.committedSequence))
    (damaged "index state is pending or ahead of accepted history")
  if state.committedSequence = 0 then
    refuseIf state.maintenanceTip.isSome (damaged "unpublished index has maintenance")
    return count
  let met ← walkIndex sizes sha db state limit
  okOr (checkedAdd count met) (damaged "maintenance decision count overflow")

/-- `audit::verify_checkpoint_chain`, with the states of `checkpoint_states`. -/
def verifyCheckpointChain
    (states : List (ProjectionJournalState D)) (recordLimit : ℕ) : Except Status Unit :=
  if db.journal.isNone then
    refuseIf (!states.isEmpty) (damaged "index states have no journal header")
  else do
    let expected ← states.foldlM (fun sum state => okOr (checkedAdd sum state.committedSequence)
      (damaged "source decision count overflow")) 0
    refuseIf (db.decisionTable.len != expected)
      (damaged "source decision count differs from committed index sequences")
    let count ← states.foldlM (verifyIndex sizes sha db recordLimit) 0
    refuseIf ((db.maintenance.elim 0 (·.len)) != count)
      (damaged "maintenance decisions are outside the committed physical history")

end

/-! ## What passes the audit -/

/-- The records of a catalog are within the limits of an audit. -/
structure Fits (sizes : Sizes D) (metadataLimit recordLimit : ℕ) (db : Database D) : Prop where
  metadata : sizes.header db.header + (db.stateTable.rows.map fun row => sizes.state row.2 + 64).sum ≤
    metadataLimit
  word : metadataLimit < 2 ^ 64
  anchors : ∀ key version, db.versions.lookup key = some version → sizes.version version ≤ metadataLimit
  versions : ∀ key version, db.versions.lookup key = some version → sizes.version version ≤ recordLimit
  intents : ∀ key intent, db.decisionTable.lookup key = some intent → sizes.intent intent ≤ recordLimit
  maintenance : ∀ key intent, (db.maintenance.bind fun t => t.lookup key) = some intent →
    sizes.maintenance intent ≤ recordLimit

/-- The audit stops at a limit that a record really exceeds. -/
def Exceeds (sizes : Sizes D) (metadataLimit recordLimit : ℕ) (db : Database D) (e : Status) : Prop :=
  e.code = .resourceExhausted ∧ ¬Fits sizes metadataLimit recordLimit db

/-- A document decision names an accepted version as it is stored, in its place of the history. -/
def Anchors (db : Database D) (intent : ProjectionIntent D) : Prop :=
  ∃ source, intent.source = some source ∧ db.versions.lookup source.key = some source ∧
    db.changes.lookup source.acceptedSequence = some source.key ∧
    source.acceptedSequence ≤ db.header.acceptedSequence

def Link.rewrite : Link D → Option (MaintenanceIntent D)
  | .source _ => none
  | .maintenance intent => some intent

def rewrites (links : List (Link D)) : List (MaintenanceIntent D) := links.filterMap Link.rewrite

@[simp] lemma rewrites_source (links : List (Link D)) (i : ProjectionIntent D) :
    rewrites (links ++ [.source i]) = rewrites links := by
  simp [rewrites, Link.rewrite]

@[simp] lemma rewrites_maintenance (links : List (Link D)) (m : MaintenanceIntent D) :
    rewrites (links ++ [.maintenance m]) = rewrites links ++ [m] := by
  simp [rewrites, Link.rewrite]

lemma mem_rewrites {links : List (Link D)} {m : MaintenanceIntent D} :
    m ∈ rewrites links ↔ .maintenance m ∈ links := by
  rw [rewrites, mem_filterMap]
  constructor
  · rintro ⟨_ | n, hmem, heq⟩
    · cases heq
    · obtain rfl := Option.some.inj heq
      exact hmem
  · exact fun h => ⟨_, h, rfl⟩

section Walk

variable [DecidableEq D] {sizes : Sizes D} {sha : Sha256 D S} {db : Database D} {key : Bytes}
  {state : ProjectionJournalState D} {metadataLimit recordLimit : ℕ} {base : SegmentSetManifest S}
  {links all : List (Link D)} {tip : Tip D}

variable {scope : Scope}

section

variable (h : Chain sha scope base links tip)

include h

lemma Chain.rewrites_nodup : ((rewrites links).map (·.afterEpoch)).Nodup := by
  induction h with
  | nil => exact nodup_nil
  | source _ _ ih => rwa [rewrites_source]
  | @maintenance links tip rewrite chain follows ih =>
    rw [rewrites_maintenance, map_append, map_singleton, nodup_append]
    refine ⟨ih, nodup_singleton _, fun n hn n' hn' heq => ?_⟩
    obtain ⟨m, hm, rfl⟩ := mem_map.1 hn
    rw [mem_singleton.1 hn', follows.afterEpoch] at heq
    have hle := chain.epoch_le.2 m (mem_rewrites.1 hm)
    omega

lemma Chain.eq_base (hzero : tip.sequence = 0) :
    links = [] ∧ tip = .base (sha.manifest base) base.epoch := by
  cases h with
  | nil => exact ⟨rfl, rfl⟩
  | source => exact absurd hzero (Nat.succ_ne_zero _)
  | maintenance chain follows =>
    obtain ⟨i, hi, -⟩ := follows.source
    rw [(chain.sound.unpublished hzero).1] at hi
    cases hi

/-- The first document decision starts from the manifest the index began with. -/
lemma Chain.first : ∀ i, .source i ∈ links → i.sequence = some 1 →
      i.beforeEpoch = base.epoch ∧ i.beforeManifestSha256 = sha.manifest base := by
  induction h with
  | nil => exact fun _ hmem => absurd hmem not_mem_nil
  | source chain follows ih =>
    intro i hmem hi
    rcases source_mem_source.1 hmem with hmem | rfl
    · exact ih i hmem hi
    · obtain ⟨-, rfl⟩ := chain.eq_base (Nat.succ.inj (Option.some.inj (follows.sequence_eq.symm.trans hi)))
      exact ⟨follows.epoch, follows.manifest⟩
  | maintenance _ _ ih => exact fun i hmem => ih i (source_mem_maintenance.1 hmem)

end

/-- Where the walk is at the tip of a chain. -/
def PhysicalChain.ofTip (tip : Tip D) (count : ℕ) : PhysicalChain D where
  epoch := tip.epoch
  hash := tip.manifest
  sourceSequence := tip.sequence
  sourceId := tip.source.bind (·.intentId)
  maintenance := tip.maintenance.map cursor
  maintenanceCount := count

lemma within_required {V : Type} {T : Status → Prop} {row : Option V} {size : V → ℕ} {limit : ℕ}
    {value : V} (hrow : row = some value)
    (hT : limit < size value → T (.resourceExhausted "journal audit record exceeds source_batch_bytes")) :
    Within T (· = value) (required row size limit) := by
  rw [hrow]
  exact within_allowed (fun hc => hT (of_decide_eq_true hc)) fun _ => rfl

omit [DecidableEq D] in
lemma exceeds_intent {row : ProjectionDecisionKey} {intent : ProjectionIntent D} {message : String}
    (hrow : db.decisionTable.lookup row = some intent) (hlt : recordLimit < sizes.intent intent) :
    Exceeds sizes metadataLimit recordLimit db (.resourceExhausted message) :=
  ⟨rfl, fun hfits => absurd (hfits.intents _ _ hrow) (Nat.not_le.2 hlt)⟩

omit [DecidableEq D] in
lemma exceeds_version {row : DocumentVersionKey} {version : DocumentVersion D} {message : String}
    (hrow : db.versions.lookup row = some version) (hlt : recordLimit < sizes.version version) :
    Exceeds sizes metadataLimit recordLimit db (.resourceExhausted message) :=
  ⟨rfl, fun hfits => absurd (hfits.versions _ _ hrow) (Nat.not_le.2 hlt)⟩

variable {count : ℕ} {rewrite : MaintenanceIntent D}

open PhysicalChain

/-- One round takes the walk over the rewrite that follows. -/
lemma PhysicalChain.within_advanceOnce
    (hkey : state.indexKey = key) (hhist : state.historyId = db.header.historyId)
    (hholds : HoldsChain db.decisionTable db.maintenance key all)
    (hmem : .maintenance rewrite ∈ all) (hfol : MaintenanceFollows sha (db.scope key) tip rewrite)
    (hcnt : count + 1 < 2 ^ 64) : Within (Exceeds sizes metadataLimit recordLimit db)
      (· = PhysicalChain.ofTip (tip.maintain rewrite) (count + 1))
      ((PhysicalChain.ofTip tip count).advanceOnce sizes sha db state recordLimit) := by
  have hlook := (hholds.maintenance rewrite.afterEpoch rewrite).2 ⟨hmem, rfl⟩
  obtain ⟨table, htab⟩ : ∃ table, db.maintenance = some table := by
    cases hm : db.maintenance with
    | none =>
      rw [hm] at hlook
      cases hlook
    | some table => exact ⟨table, rfl⟩
  have hrow : table.lookup ⟨state.indexKey, rewrite.afterEpoch⟩ = some rewrite := by
    rw [htab] at hlook
    rw [hkey]
    exact hlook
  have hep : checkedAdd tip.epoch 1 = some rewrite.afterEpoch := by
    rw [← hfol.epoch]
    obtain ⟨_, -, _, -, h⟩ := bind₂_ok.1 hfol.valid
    have h := refuseIf_ok.1 h
    simp only [Bool.or_eq_false_iff, beq_eq_false_iff_ne, bne_eq_false_iff_eq, and_assoc] at h
    obtain ⟨-, -, -, -, -, -, -, -, hep, -⟩ := h
    exact hep
  obtain ⟨source, hsrc, hid⟩ := hfol.source
  have hvalid : validateMaintenance sha rewrite state.indexKey state.historyId db.header.collection =
      .ok () := by
    rw [hkey, hhist]
    exact hfol.valid
  refine within_step (b := table) (by rw [htab]; rfl) ?_
  refine within_step (b := rewrite.afterEpoch) (okOr_ok.2 hep) ?_
  refine within_step (b := rewrite) (okOr_ok.2 hrow) ?_
  refine within_allowed (fun hc => ⟨rfl, fun hfits => ?_⟩) fun _ => ?_
  · exact absurd (hfits.maintenance _ _ hlook) (Nat.not_le.2 (of_decide_eq_true hc))
  refine within_step (b := ()) hvalid ?_
  refine within_check ?_ ?_
  · simp [ofTip, hfol.epoch, hfol.manifest, hfol.sequence, hfol.previous, hsrc, hid]
  refine within_step (b := count + 1) (okOr_ok.2 (checkedAdd_eq_some.2 ⟨hcnt, rfl⟩)) ?_
  exact within_pure rfl

lemma PhysicalChain.rounds_succ (n : ℕ) (chain : PhysicalChain D) :
    chain.rounds sizes sha db state recordLimit (n + 1) =
      chain.rounds sizes sha db state recordLimit n >>= fun next =>
        next.advanceOnce sizes sha db state recordLimit := by
  induction n generalizing chain with
  | zero =>
    rw [rounds, rounds, ok_bind]
    cases chain.advanceOnce sizes sha db state recordLimit <;> rfl
  | succ n ih =>
    conv_rhs => rw [rounds, bind_assoc]
    exact bind_congr fun next => ih next

/-- The walk from where it is to the tip of a chain. -/
structure Reaches (sizes : Sizes D) (sha : Sha256 D S) (db : Database D)
    (state : ProjectionJournalState D) (metadataLimit recordLimit : ℕ) (tip : Tip D) (count : ℕ)
    (chain : PhysicalChain D) : Prop where
  behind : chain.epoch ≤ tip.epoch
  last : (tip.maintenance.map cursor).elim chain.epoch (fun tip => max tip.afterEpoch chain.epoch) =
    tip.epoch
  within : Within (Exceeds sizes metadataLimit recordLimit db) (· = PhysicalChain.ofTip tip count)
    (chain.advance sizes sha db state recordLimit tip.epoch)

/-- A rewrite more is one round more. -/
lemma Reaches.maintain {chain : PhysicalChain D}
    (h : Reaches sizes sha db state metadataLimit recordLimit tip count chain)
    (hkey : state.indexKey = key) (hhist : state.historyId = db.header.historyId)
    (hholds : HoldsChain db.decisionTable db.maintenance key all)
    (hmem : .maintenance rewrite ∈ all) (hfol : MaintenanceFollows sha (db.scope key) tip rewrite)
    (hcnt : count + 1 < 2 ^ 64) :
    Reaches sizes sha db state metadataLimit recordLimit (tip.maintain rewrite) (count + 1) chain := by
  have hep : (tip.maintain rewrite).epoch = tip.epoch + 1 := hfol.afterEpoch
  have hbehind := h.behind
  refine ⟨by omega, ?_, ?_⟩
  · have hcursor : (cursor rewrite).afterEpoch = tip.epoch + 1 := hfol.afterEpoch
    change max (cursor rewrite).afterEpoch chain.epoch = _
    omega
  · have hwithin := h.within
    have hround : tip.epoch + 1 - chain.epoch = tip.epoch - chain.epoch + 1 := by omega
    rw [PhysicalChain.advance, decide_eq_false (Nat.not_lt.2 hbehind)] at hwithin
    rw [PhysicalChain.advance, hep, decide_eq_false (by omega), refuseIf_false, ok_bind, hround,
      rounds_succ]
    refine hwithin.bind fun next hnext => ?_
    rw [hnext]
    exact within_advanceOnce hkey hhist hholds hmem hfol hcnt

lemma reaches_self (hlast : ∀ m, tip.maintenance = some m → m.afterEpoch ≤ tip.epoch) :
    Reaches sizes sha db state metadataLimit recordLimit tip count (.ofTip tip count) := by
  refine ⟨Nat.le_refl _, ?_, ?_⟩
  · cases hm : tip.maintenance with
    | none => rfl
    | some m => exact Nat.max_eq_right (hlast m hm)
  · rw [PhysicalChain.advance, show (ofTip tip count).epoch = tip.epoch from rfl,
      decide_eq_false (Nat.lt_irrefl _), refuseIf_false, ok_bind, Nat.sub_self]
    exact within_ok rfl

/-- The walk comes to the next document decision. -/
lemma Reaches.publish {intent : ProjectionIntent D} {chain : PhysicalChain D}
    (h : Reaches sizes sha db state metadataLimit recordLimit tip count chain)
    (hkey : state.indexKey = key) (hhist : state.historyId = db.header.historyId)
    (hholds : HoldsChain db.decisionTable db.maintenance key all) (hmem : .source intent ∈ all)
    (hfol : SourceFollows sha (db.scope key) tip intent) (hanch : Anchors db intent) :
    Within (Exceeds sizes metadataLimit recordLimit db) (· = .ofTip (tip.publish intent) count)
      (walkSource sizes sha db state recordLimit chain (tip.sequence + 1)) := by
  obtain ⟨source, hsrc, hver, hchange, -⟩ := hanch
  have hlook := (hholds.source (tip.sequence + 1) intent).2 ⟨hmem, hfol.sequence_eq⟩
  have hseq : source.acceptedSequence = tip.sequence + 1 := by
    have heq := hfol.sequence_eq
    rw [ProjectionIntent.sequence, hsrc] at heq
    exact Option.some.inj heq
  have hvalid : validateIntent sha intent state.indexKey state.historyId = .ok () := by
    rw [hkey, hhist]
    exact hfol.valid
  have hrow : db.decisionTable.lookup ⟨state.indexKey, tip.sequence + 1⟩ = some intent := by
    rw [hkey]
    exact hlook
  refine (within_required hrow (exceeds_intent hlook)).bind fun _ heq => ?_
  rw [heq]
  refine within_step (b := ()) hvalid ?_
  refine within_step (b := source) (okOr_ok.2 hsrc) ?_
  refine (within_required hver (exceeds_version hver)).bind fun _ heq => ?_
  rw [heq]
  refine within_check ?_ ?_
  · rw [← hseq, hchange]
    simp
  rw [hfol.epoch]
  refine h.within.bind fun next hnext => ?_
  rw [hnext]
  refine within_check ?_ ?_
  · simp [ofTip, hfol.manifest]
  exact within_pure rfl

/-- The walk along a chain comes to its tip; the tables may hold more of it. -/
lemma Chain.walk (h : Chain sha (db.scope key) base links tip) (hsub : ∀ link ∈ links, link ∈ all)
    (hkey : state.indexKey = key) (hhist : state.historyId = db.header.historyId)
    (hholds : HoldsChain db.decisionTable db.maintenance key all)
    (hanch : ∀ i, .source i ∈ all → Anchors db i) (hcnt : (rewrites links).length < 2 ^ 64) :
    Within (Exceeds sizes metadataLimit recordLimit db)
      (Reaches sizes sha db state metadataLimit recordLimit tip (rewrites links).length)
      ((List.range' 1 tip.sequence).foldlM (walkSource sizes sha db state recordLimit)
        (.ofTip (.base (sha.manifest base) base.epoch) 0)) := by
  induction h with
  | nil => exact within_ok (reaches_self fun _ hm => nomatch hm)
  | @source links tip intent chain follows ih =>
    rw [rewrites_source] at hcnt ⊢
    have hmem := hsub (.source intent) (mem_append_right _ (mem_singleton_self _))
    have hbdd := (chain.source follows).sound.bounded
    rw [show (tip.publish intent).sequence = tip.sequence + 1 from rfl, List.range'_1_concat,
      foldlM_append, Nat.add_comm 1 tip.sequence]
    refine (ih (fun link hlink => hsub link (mem_append_left _ hlink)) hcnt).bind
      fun next hreaches => ?_
    refine (hreaches.publish hkey hhist hholds hmem follows (hanch _ hmem)).bind fun _ heq => ?_
    rw [heq]
    exact within_pure (reaches_self hbdd)
  | @maintenance links tip rewrite chain follows ih =>
    rw [rewrites_maintenance, length_append] at hcnt ⊢
    have hmem := hsub (.maintenance rewrite) (mem_append_right _ (mem_singleton_self _))
    exact (ih (fun link hlink => hsub link (mem_append_left _ hlink)) (by omega)).mono
      fun next hreaches => hreaches.maintain hkey hhist hholds hmem follows hcnt

/-- What is so of an index whose chain is audited. -/
structure Auditable (sha : Sha256 D S) (db : Database D) (key : Bytes)
    (state : ProjectionJournalState D) (base : SegmentSetManifest S) (links : List (Link D))
    (tip : Tip D) : Prop where
  key_valid : indexKey key = .ok ()
  chain : Chain sha (db.scope key) base links tip
  holds : HoldsChain db.decisionTable db.maintenance key links
  at_tip : AtTip sha (db.scope key) state tip
  idle : state.pending = none ∧ state.pendingMaintenance = none
  anchors : ∀ i, .source i ∈ links → Anchors db i

section

variable (h : Auditable sha db key state base links tip)

include h

lemma Auditable.sequence_le : state.committedSequence ≤ db.header.acceptedSequence := by
  rw [h.at_tip.sequence]
  rcases Nat.eq_zero_or_pos tip.sequence with _ | hpos
  · omega
  · obtain ⟨i, hmem, hi⟩ := (h.chain.sequence_iff tip.sequence).2 ⟨hpos, Nat.le_refl _⟩
    obtain ⟨source, hsrc, -, -, hle⟩ := h.anchors i hmem
    rw [ProjectionIntent.sequence, hsrc] at hi
    exact (Option.some.inj hi) ▸ hle

lemma Auditable.within_walkIndex
    (hcom : state.committedSequence ≠ 0) (hcnt : (rewrites links).length < 2 ^ 64) :
    Within (Exceeds sizes metadataLimit recordLimit db) (· = (rewrites links).length)
      (walkIndex sizes sha db state recordLimit) := by
  have hpos : 1 ≤ tip.sequence := by
    rw [h.at_tip.sequence] at hcom
    omega
  have hkey := h.at_tip.key
  have hhist := h.at_tip.history
  obtain ⟨first, hmem, hfst⟩ := (h.chain.sequence_iff 1).2 ⟨Nat.one_pos, hpos⟩
  obtain ⟨hep, hman⟩ := h.chain.first first hmem hfst
  have hlook := (h.holds.source 1 first).2 ⟨hmem, hfst⟩
  have hrow : db.decisionTable.lookup ⟨state.indexKey, 1⟩ = some first := by
    rw [hkey]
    exact hlook
  have hvalid : validateIntent sha first state.indexKey state.historyId = .ok () := by
    rw [hkey, hhist]
    exact h.chain.valid.1 first hmem
  refine (within_required hrow (exceeds_intent hlook)).bind fun _ heq => ?_
  rw [heq]
  refine within_step (b := ()) hvalid ?_
  rw [hep, hman, h.at_tip.sequence, h.at_tip.cursor, h.at_tip.manifest]
  refine Within.bind (h.chain.walk (fun _ hlink => hlink) hkey hhist h.holds h.anchors hcnt)
    fun chain hreaches => ?_
  rw [hreaches.last]
  refine hreaches.within.bind fun _ heq => ?_
  rw [heq]
  exact within_check (by simp [ofTip]) (within_pure rfl)

/-- An index whose chain is audited passes `verify_checkpoint_chain`. -/
lemma Auditable.within_verifyIndex {count : ℕ} (hcnt : count + (rewrites links).length < 2 ^ 64) :
    Within (Exceeds sizes metadataLimit recordLimit db) (· = count + (rewrites links).length)
      (verifyIndex sizes sha db recordLimit count state) := by
  have hvalid : validateState sha state state.indexKey db.header.historyId = .ok () := by
    rw [h.at_tip.key]
    exact h.at_tip.validateState
  refine within_step (b := ()) hvalid ?_
  refine within_check ?_ ?_
  · rw [h.idle.1, h.idle.2, decide_eq_false (Nat.not_lt.2 h.sequence_le)]
    rfl
  split
  · rename_i hzero
    rw [h.at_tip.sequence] at hzero
    obtain ⟨hlinks, htip⟩ := h.chain.eq_base hzero
    refine within_check ?_ ?_
    · rw [h.at_tip.cursor, htip]
      rfl
    · rw [hlinks]
      exact within_pure rfl
  · rename_i hcom
    refine (h.within_walkIndex hcom (by omega)).bind fun _ heq => ?_
    rw [heq, okOr_ok.2 (checkedAdd_eq_some.2 ⟨hcnt, rfl⟩)]
    exact within_ok rfl

/-- An index whose chain is audited passes `checkpoint_states`. -/
lemma Auditable.within_checkAnchor :
    Within (Exceeds sizes metadataLimit recordLimit db) (fun _ => True)
      (checkAnchor sizes db metadataLimit tip.source) := by
  cases htip : tip.source with
  | none => exact within_ok trivial
  | some intent =>
    obtain ⟨source, hsrc, hver, hchange, -⟩ := h.anchors intent (h.chain.last.1 intent htip).1
    refine within_step (b := source) (okOr_ok.2 hsrc) ?_
    refine within_step (b := source) (okOr_ok.2 hver) ?_
    refine within_allowed (fun hc => ⟨rfl, fun hfits => ?_⟩) fun _ => ?_
    · exact absurd (hfits.anchors _ _ hver) (Nat.not_le.2 (of_decide_eq_true hc))
    · rw [hchange, bne_self_eq_false, bne_self_eq_false]
      exact within_ok trivial

end

/-! ## What an audit accepts -/

/-- Every index of the catalog is at the tip of a chain that names accepted versions, with nothing
pending. The tables have no more rows than a 64-bit count holds. -/
structure Audited (sha : Sha256 D S) (db : Database D) : Prop where
  journal : ∃ exist, journalHeader db db.header.historyId = .ok exist
  indexes : ∀ key state, db.stateTable.lookup key = some state →
    ∃ base links tip, Auditable sha db key state base links tip
  unregistered : ∀ key, db.stateTable.lookup key = none →
    HoldsChain db.decisionTable db.maintenance key []
  decisions : db.decisionTable.len < 2 ^ 64
  maintenance : (db.maintenance.getD ∅).len < 2 ^ 64

omit [DecidableEq D] in
lemma lookup_maintenance (row : MaintenanceDecisionKey) :
    (db.maintenance.getD ∅).lookup row = db.maintenance.bind fun t => t.lookup row := by
  cases db.maintenance with
  | none => exact AList.lookup_empty row
  | some table => rfl

/-- The document decisions of an index are as many as its sequence says. -/
lemma Auditable.fiber_decisions (h : Auditable sha db key state base links tip) :
    db.decisionTable.fiber (·.indexKey) key = state.committedSequence := by
  have hlist : ((List.range' 1 tip.sequence).map (ProjectionDecisionKey.mk key)).Nodup := by
    refine List.Nodup.map (fun a b heq => congrArg ProjectionDecisionKey.acceptedSequence heq) ?_
    exact nodup_range'
  rw [fiber_eq hlist, length_map, length_range', h.at_tip.sequence]
  rintro ⟨index, n⟩
  rw [mem_map, ← AList.lookup_isSome, Option.isSome_iff_exists]
  constructor
  · rintro ⟨_, hn, heq⟩
    obtain ⟨rfl, rfl⟩ := ProjectionDecisionKey.mk.inj heq
    rw [mem_range'_1] at hn
    obtain ⟨i, hi⟩ := (h.chain.sequence_iff _).2 ⟨hn.1, by omega⟩
    exact ⟨⟨i, (h.holds.source _ i).2 hi⟩, rfl⟩
  · rintro ⟨⟨i, hi⟩, rfl⟩
    obtain ⟨hpos, _⟩ := (h.chain.sequence_iff n).1 ⟨i, (h.holds.source n i).1 hi⟩
    exact ⟨n, mem_range'_1.2 ⟨hpos, by omega⟩, rfl⟩

/-- The rewrites of an index are as many as its chain has. -/
lemma Auditable.fiber_maintenance (h : Auditable sha db key state base links tip) :
    (db.maintenance.getD ∅).fiber (·.indexKey) key = (rewrites links).length := by
  have hlist : (((rewrites links).map (·.afterEpoch)).map (MaintenanceDecisionKey.mk key)).Nodup :=
    h.chain.rewrites_nodup.map fun a b heq => congrArg MaintenanceDecisionKey.afterEpoch heq
  rw [fiber_eq hlist, length_map, length_map]
  rintro ⟨index, n⟩
  rw [map_map, mem_map, ← AList.lookup_isSome, Option.isSome_iff_exists, lookup_maintenance]
  constructor
  · rintro ⟨m, hm, heq⟩
    obtain ⟨rfl, rfl⟩ := MaintenanceDecisionKey.mk.inj heq
    exact ⟨⟨m, (h.holds.maintenance _ m).2 ⟨mem_rewrites.1 hm, rfl⟩⟩, rfl⟩
  · rintro ⟨⟨m, hm⟩, rfl⟩
    obtain ⟨hmem, rfl⟩ := (h.holds.maintenance n m).1 hm
    exact ⟨m, mem_rewrites.2 hmem, rfl⟩

/-- Every decision is of an index with a state, so that the decisions are counted by the states. -/
lemma Audited.len_decisions (h : Audited sha db) :
    db.decisionTable.len = (db.stateTable.rows.map fun row => row.2.committedSequence).sum := by
  rw [len_eq_sum_fiber (u := db.stateTable) (f := (·.indexKey))]
  · refine congrArg List.sum (map_congr_left fun row hrow => ?_)
    obtain ⟨base, links, tip, hat⟩ := h.indexes _ _ (mem_rows.1 hrow)
    exact hat.fiber_decisions
  · rintro ⟨key, n⟩ hrow
    by_contra hnone
    obtain ⟨i, hi⟩ := Option.isSome_iff_exists.1 (AList.lookup_isSome.2 hrow)
    have hholds := h.unregistered key (AList.lookup_eq_none.2 hnone)
    exact absurd ((hholds.source n i).1 hi).1 not_mem_nil

lemma Audited.len_maintenance (h : Audited sha db) : (db.maintenance.getD ∅).len =
      (db.stateTable.rows.map fun row => (db.maintenance.getD ∅).fiber (·.indexKey) row.1).sum := by
  refine len_eq_sum_fiber ?_
  rintro ⟨key, n⟩ hrow
  by_contra hnone
  obtain ⟨m, hm⟩ := Option.isSome_iff_exists.1 (AList.lookup_isSome.2 hrow)
  have hholds := h.unregistered key (AList.lookup_eq_none.2 hnone)
  rw [lookup_maintenance] at hm
  exact absurd ((hholds.maintenance n m).1 hm).1 not_mem_nil

lemma sum_map_prefix_le {γ : Type} {f : γ → ℕ} {l done rest : List γ} {a : γ}
    (hl : l = done ++ a :: rest) : (done.map f).sum + f a ≤ (l.map f).sum := by
  rw [hl, map_append, sum_append, map_cons, sum_cons]
  omega

lemma Auditable.within_checkpointState {used : ℕ} {read : List (ProjectionJournalState D)}
    (h : Auditable sha db key state base links tip)
    (hused : Fits sizes metadataLimit recordLimit db → used + sizes.state state + 64 ≤ metadataLimit) :
    Within (Exceeds sizes metadataLimit recordLimit db)
      (· = (used + sizes.state state + 64, read ++ [state]))
      (checkpointState sizes sha db metadataLimit (used, read) (key, state)) := by
  have hholds := h.holds
  have hvalid := h.at_tip.validateState
  have htip :=
    hholds.validateTip h.chain h.at_tip fun hsome => by rw [h.idle.2] at hsome; cases hsome
  have hkey : (indexKey key).mapError (fun e => Status.dataLoss e.message) = .ok () := by
    rw [h.key_valid]
    rfl
  -- the size that is used fits a word, as it fits the limit
  have hsum (hfits : Fits sizes metadataLimit recordLimit db) :
      (checkedAdd used (sizes.state state)).bind (checkedAdd · 64) =
        some (used + sizes.state state + 64) := by
    have hle := hused hfits
    have hword := hfits.word
    rw [checkedAdd_eq_some.2 ⟨by omega, rfl⟩]
    exact checkedAdd_eq_some.2 ⟨by omega, rfl⟩
  refine (within_okOr fun hnone => ⟨rfl, fun hfits => nomatch hnone.symm.trans (hsum hfits)⟩).bind
    fun used' hused' => ?_
  obtain ⟨_, hst, hpad⟩ := Option.bind_eq_some_iff.1 hused'
  obtain rfl := (checkedAdd_eq_some.1 hst).2
  obtain rfl := (checkedAdd_eq_some.1 hpad).2
  refine within_allowed (fun hc => ⟨rfl, fun hfits => ?_⟩) fun _ => ?_
  · exact absurd (hused hfits) (Nat.not_le.2 (of_decide_eq_true hc))
  refine within_step hkey ?_
  refine within_step hvalid ?_
  refine within_check (by rw [h.idle.1, h.idle.2]; rfl) ?_
  refine within_check (decide_eq_false (Nat.not_lt.2 h.sequence_le)) ?_
  refine within_step htip ?_
  exact h.within_checkAnchor.bind fun _ _ => within_pure rfl

/-- `checkpoint_states` accepts, and reads the state of every index. -/
lemma Audited.within_checkpointStates (h : Audited sha db) :
    Within (Exceeds sizes metadataLimit recordLimit db)
      (fun read => read.1 = db.stateTable.rows.map (·.2))
      (checkpointStates sizes sha db metadataLimit) := by
  obtain ⟨exist, hjour⟩ := h.journal
  refine within_step hjour ?_
  rcases journalHeader_ok.1 hjour with ⟨rfl, -, hnone, -⟩ | ⟨rfl, -⟩
  · rw [Database.stateTable, hnone]
    rfl
  let size (row : Bytes × ProjectionJournalState D) : ℕ := sizes.state row.2 + 64
  let reading (done : List (Bytes × ProjectionJournalState D))
      (read : ℕ × List (ProjectionJournalState D)) : Prop :=
    read = (sizes.header db.header + (done.map size).sum, done.map (·.2))
  have hloop : Within (Exceeds sizes metadataLimit recordLimit db) (reading db.stateTable.rows)
      (db.stateTable.rows.foldlM (checkpointState sizes sha db metadataLimit)
        (sizes.header db.header, [])) := by
    refine within_foldlM rfl fun done row rest read hrows hread => ?_
    have hmem : row ∈ db.stateTable.rows := by
      rw [hrows]
      exact mem_append_right _ mem_cons_self
    have hle : (done.map size).sum + size row ≤ (db.stateTable.rows.map size).sum := sum_map_prefix_le hrows
    obtain ⟨base, links, tip, hat⟩ := h.indexes _ _ (mem_rows.1 hmem)
    rw [hread]
    refine (hat.within_checkpointState fun hfits => ?_).mono fun next hnext => ?_
    · have hmetadata : sizes.header db.header + (db.stateTable.rows.map size).sum ≤ metadataLimit :=
        hfits.metadata
      have hsize : size row = sizes.state row.2 + 64 := rfl
      omega
    · refine hnext.trans (Prod.ext ?_ ?_)
      · rw [map_append, sum_append]
        change _ = sizes.header db.header + ((done.map size).sum + (sizes.state row.2 + 64))
        omega
      · change done.map (·.2) ++ [row.2] = (done ++ [row]).map (·.2)
        rw [map_append, map_singleton]
  exact hloop.bind fun read hread => within_pure (congrArg Prod.snd hread)

/-- **`verify_checkpoint_chain` accepts** what `checkpoint_states` has read. -/
theorem Audited.within_verifyCheckpointChain (h : Audited sha db) :
    Within (Exceeds sizes metadataLimit recordLimit db) (fun _ => True)
      (verifyCheckpointChain sizes sha db (db.stateTable.rows.map (·.2)) recordLimit) := by
  obtain ⟨exist, hjour⟩ := h.journal
  unfold verifyCheckpointChain
  rcases journalHeader_ok.1 hjour with ⟨-, hnone, hstates, -⟩ | ⟨-, _, hhdr, -⟩
  · rw [hnone, Database.stateTable, hstates]
    exact within_ok trivial
  rw [hhdr, foldlM_map, foldlM_map]
  have hdecs := h.len_decisions
  let met (row : Bytes × ProjectionJournalState D) : ℕ :=
    (db.maintenance.getD ∅).fiber (·.indexKey) row.1
  have hmaint : (db.maintenance.getD ∅).len = (db.stateTable.rows.map met).sum := h.len_maintenance
  refine Within.bind (within_foldlM (I := fun done sum => sum = (done.map
    fun row : Bytes × ProjectionJournalState D => row.2.committedSequence).sum) rfl ?_) fun sum hsum => ?_
  · intro done row rest sum hrows hsum
    have hle := sum_map_prefix_le (f := fun row : Bytes × ProjectionJournalState D =>
      row.2.committedSequence) hrows
    have hlt := h.decisions
    rw [okOr_ok.2 (checkedAdd_eq_some.2 ⟨by omega, rfl⟩), hsum]
    exact within_ok (by rw [map_append, sum_append, map_singleton, sum_singleton])
  refine within_check (by rw [hsum, hdecs, bne_self_eq_false]) ?_
  refine Within.bind (within_foldlM (I := fun done count => count = (done.map met).sum) rfl ?_)
    fun count hcnt => ?_
  · intro done row rest count hrows hcnt
    have hmem : row ∈ db.stateTable.rows := by
      rw [hrows]
      exact mem_append_right _ mem_cons_self
    have hle : (done.map met).sum + met row ≤ (db.stateTable.rows.map met).sum := sum_map_prefix_le hrows
    have hlt := h.maintenance
    obtain ⟨base, links, tip, hat⟩ := h.indexes _ _ (mem_rows.1 hmem)
    have hmet : met row = (rewrites links).length := hat.fiber_maintenance
    refine (hat.within_verifyIndex (by omega)).mono fun next hnext => ?_
    rw [hnext, hcnt, ← hmet, map_append, sum_append, map_singleton, sum_singleton]
  · have hlen : db.maintenance.elim 0 (·.len) = (db.maintenance.getD ∅).len := by
      cases db.maintenance <;> rfl
    rw [hlen, hcnt, hmaint, bne_self_eq_false]
    exact within_ok trivial

end Walk

end ProtomoltSearch.Catalog
