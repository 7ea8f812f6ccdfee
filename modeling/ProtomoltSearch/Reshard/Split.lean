import ProtomoltSearch.Reshard.Child

/-!
# Splitting logs

`split_logs` of `reshard.rs` rewrites full-history logs into `n` child images. With no more children
than buckets a child replays a range of whole bucket files; a finer split replays everything and
partitions the rows by hash. `split_logs_segmented` replays one bucket at a time and seals a segment
for every logical shard the bucket has rows of.
-/

namespace ProtomoltSearch.Reshard

open Wal U64

variable {F D M C : Type} [DecidableEq M] [DecidableEq C]

/-- What the caller asks for. -/
structure Request where
  n : ℕ
  slotBase : U64
  slotStride : U64
  vectorsOnly : Bool

structure ReshardOutput (F D : Type) where
  generation : U64
  children : List (ChildImage F D)

def isPowerOfTwo (n : ℕ) : Bool := decide (n ≠ 0 ∧ 2 ^ n.log2 = n)

variable (checks : Bool) (first : Log F D M C) (cx : Replaying) (env : Env F D M C)
  (logs : List (Log F D M C))

def requireBackendConfig (l : Log F D M C) : Outcome Unit :=
  refuseIf (decide (l.dim = 0) || !(l.backendConfig.any (env.usable l.dim)))
    (.refused (.noBackendConfig l.dim))

def requireCompleteHistory (l : Log F D M C) : Outcome Unit :=
  refuseIf (decide (0 < l.preexistingVectors ∨ 0 < l.preexistingDocuments))
    (.refused (.preexisting l.preexistingVectors l.preexistingDocuments))

def sameBackendConfig (a b : Log F D M C) : Bool :=
  a.collection == b.collection && a.dim == b.dim && a.backendConfig == b.backendConfig

def checkLog (first l : Log F D M C) : Outcome Unit := do
  requireBackendConfig env l
  requireCompleteHistory l
  refuseIf (!sameBackendConfig first l) (.refused .configDiffers)
  refuseIf (decide (l.bucketBits ≠ first.bucketBits))
    (.refused (.bucketCountDiffers l.bucketCount first.bucketCount))

/-- The binding a marker record carries must be valid and agree with the others. -/
def noteBinding (bound : Option M) (record : WalRecord F D M) : Outcome (Option M) :=
  match record.op with
  | some (.bind binding) =>
    match env.badBinding binding with
    | some reason => refuse (.badBinding reason)
    | none =>
      if bound.any fun first => first ≠ binding then refuse .bindingsDiffer
      else .ok (some (bound.getD binding))
  | _ => .ok bound

def readGensBinding : Outcome (Option M) :=
  logs.foldlM (fun bound l => l.markers.foldlM (noteBinding env) bound) none

def topGeneration : U64 :=
  logs.foldl (fun top l => max top l.generation) first.generation

/-- How a split replays: unbounded, with every record checked against its file. -/
def replaying (vectorsOnly : Bool) : Replaying where
  checks := checks
  bucketCount := first.bucketCount
  dim := first.dim
  vectorsOnly := vectorsOnly
  uptoClock := none
  checkRouting := true

def replayLogs (buckets : List ℕ) : Outcome (Replay F D) :=
  logs.foldlM (fun out l => replayBucketsRouted cx l.file buckets out) Replay.empty

section

variable (env : Env F D M C) (rq : Request) (first : Log F D M C) (logs : List (Log F D M C))
  (binding : Option M)

/-- The inclusive upper end of a child's hash range: the next child's lower end less one. -/
def hashHiOf (i next shift : ℕ) : Outcome U64 :=
  if i + 1 = rq.n then pure max
  else do
    let h ← shl env.checks (wrap next) shift
    sub env.checks h (wrap 1)

def slotOffsetOf (i : ℕ) : Outcome U64 := do
  let delta ← mul env.checks (wrap i) rq.slotStride
  add env.checks rq.slotBase delta

/-- A child of the cheap path: a range of whole bucket files. -/
def bucketChild (i : ℕ) : Outcome (ChildImage F D) := do
  let perChild := first.bucketCount / rq.n
  let firstBucket := i * perChild
  let replay ← replayLogs (replaying env.checks first rq.vectorsOnly) logs
    (List.range' firstBucket perChild)
  let hashLo ← shl env.checks (wrap firstBucket) (64 - first.bucketBits)
  let hashHi ← hashHiOf env rq i (firstBucket + perChild) (64 - first.bucketBits)
  let slotOffset ← slotOffsetOf env rq i
  finishChild env first binding replay i slotOffset hashLo hashHi

/-- The share of a replay whose ids hash to one of `n` buckets. -/
def Replay.share (replay : Replay F D) (n i : ℕ) : Replay F D where
  vectors := replay.vectors.filter fun id => bucketOf id n = i
  documents := replay.documents.filter fun id => bucketOf id n = i
  deleted := ∅
  stableKeys := .empty

def shareChild (replay : Replay F D) (i : ℕ) : Outcome (ChildImage F D) := do
  let shift := 64 - rq.n.log2
  let hashLo ← shl env.checks (wrap i) shift
  let hashHi ← hashHiOf env rq i (i + 1) shift
  let slotOffset ← slotOffsetOf env rq i
  finishChild env first binding (replay.share rq.n i) i slotOffset hashLo hashHi

def splitChildren : Outcome (List (ChildImage F D)) :=
  if rq.n ≤ first.bucketCount ∧ rq.n ∣ first.bucketCount then
    (List.range rq.n).mapM (bucketChild env rq first logs binding)
  else do
    let replay ← replayLogs (replaying env.checks first rq.vectorsOnly) logs
      (List.range first.bucketCount)
    (List.range rq.n).mapM (shareChild env rq first binding replay.compact)

end

def splitLogs (rq : Request) : Outcome (ReshardOutput F D) := do
  refuseIf (!isPowerOfTwo rq.n) (.refused (.notPowerOfTwo rq.n))
  match logs with
  | [] => refuse .noInput
  | first :: _ => do
    let _ ← logs.mapM (checkLog env first)
    let binding ← readGensBinding env logs
    let children ← splitChildren env rq first logs binding
    let generation ← add env.checks (topGeneration first logs) (wrap 1)
    pure { generation, children }

structure SegmentedChildImage (F D : Type) where
  logicalShard : ℕ
  segmentOrdinal : ℕ
  physicalRows : ℕ
  image : ChildImage F D

structure SegmentedReshardOutput (F D : Type) where
  generation : U64
  logicalShards : ℕ
  segments : List (SegmentedChildImage F D)
  peakReplayRows : ℕ

/-- What the loop over buckets carries. -/
structure Sealing (F D : Type) where
  nextSlots : ℕ → U64
  segmentCounts : ℕ → ℕ
  segments : List (SegmentedChildImage F D)
  peakReplayRows : ℕ

def Replay.ids (r : Replay F D) : Finset U64 := (r.vectors.keys ++ r.documents.keys).toFinset

/-- The part of a bucket's replay that belongs to one logical shard. -/
def Replay.partition (replay : Replay F D) (n shard : ℕ) : Replay F D :=
  { replay.share n shard with
    stableKeys := replay.stableKeys.filter fun id => id ∈ replay.ids ∧ bucketOf id n = shard }

section

variable (env : Env F D M C) (rq : Request) (first : Log F D M C) (logs : List (Log F D M C))
  (binding : Option M)

/-- An optional value, refused when absent. -/
def orRefuse {α : Type} (e : Refusal) : Option α → Outcome α
  | some a => .ok a
  | none => refuse e

def slotBaseOf (shard : ℕ) : Outcome U64 := do
  let delta ← orRefuse .slotOverflow (checkedMul (wrap shard) rq.slotStride)
  orRefuse .slotOverflow (checkedAdd rq.slotBase delta)

/-- The shift of a logical shard's hash range, and its lower end: one shard has the whole space. -/
def segmentShift : ℕ := if rq.n = 1 then 0 else 64 - rq.n.log2

def hashLoOf (shard : ℕ) : Outcome U64 :=
  if rq.n = 1 then pure (wrap 0) else shl env.checks (wrap shard) (segmentShift rq)

/-- Seal the segment one bucket contributes to one logical shard. -/
def sealShard (replay : Replay F D) (st : Sealing F D) (shard : ℕ) : Outcome (Sealing F D) := do
  let part := replay.partition rq.n shard
  let physicalRows := part.ids.card
  if physicalRows = 0 then pure st
  else do
    let logicalEnd ← slotBaseOf rq (shard + 1)
    let rowsEnd ← orRefuse .slotOverflow
      (ofNat? ((st.nextSlots shard).val + physicalRows))
    refuseIf (decide (logicalEnd < rowsEnd)) (.refused (.slotsExhausted shard rowsEnd logicalEnd))
    let hashLo ← hashLoOf env rq shard
    let hashHi ← hashHiOf env rq shard (shard + 1) (segmentShift rq)
    let image ← finishChild env first binding part st.segments.length (st.nextSlots shard) hashLo
      hashHi
    pure
      { st with
        nextSlots := Function.update st.nextSlots shard rowsEnd
        segmentCounts := Function.update st.segmentCounts shard (st.segmentCounts shard + 1)
        segments := st.segments ++
          [{ logicalShard := shard, segmentOrdinal := st.segmentCounts shard, physicalRows, image }] }

/-- Replay one bucket of every input and seal its segments. -/
def sealBucket (st : Sealing F D) (bucket : ℕ) : Outcome (Sealing F D) := do
  let replay ← replayLogs (replaying env.checks first rq.vectorsOnly) logs [bucket]
  let replay := replay.compact
  let st := { st with peakReplayRows := max st.peakReplayRows replay.ids.card }
  if replay.ids = ∅ then pure st
  else (List.range rq.n).foldlM (sealShard env rq first binding replay) st

end

def splitLogsSegmented (rq : Request) : Outcome (SegmentedReshardOutput F D) := do
  refuseIf (!isPowerOfTwo rq.n) (.refused (.notPowerOfTwo rq.n))
  refuseIf (decide (rq.slotStride.val = 0)) (.refused .zeroStride)
  match logs with
  | [] => refuse .noInput
  | first :: _ => do
    let _ ← logs.mapM (checkLog env first)
    let binding ← readGensBinding env logs
    let nextSlots ← (List.range rq.n).mapM (slotBaseOf rq)
    let st ← (List.range first.bucketCount).foldlM (sealBucket env rq first logs binding)
      { nextSlots := fun shard => nextSlots.getD shard (wrap 0)
        segmentCounts := fun _ => 0
        segments := []
        peakReplayRows := 0 }
    let generation ← orRefuse .generationOverflow
      (checkedAdd (topGeneration first logs) (wrap 1))
    pure
      { generation
        logicalShards := rq.n
        segments := st.segments
        peakReplayRows := st.peakReplayRows }

end ProtomoltSearch.Reshard
