import ProtomoltSearch.Raft.LogStore
import ProtomoltSearch.Status

/-!
# Snapshot generations

The snapshots of a control node (`raft/state_machine.rs`): immutable images of the store's file, each
in a directory of its own with a meta file; one pointer file names the published one. A build copies
the node's own store, an install first puts a received image in its place; both then move the
pointer and drop the other generations. A start sweeps everything but the published one.

Both are sequences of file operations (`Op`). Renames are atomic; a write, a copy or the removal of
directories that stops part way leaves what it leaves (`Torn`).

The content of a store's file, its checksum and its validation are parameters (`Files`).
-/

namespace ProtomoltSearch.Raft.Snapshots

/-! ## Numbers and bytes as text -/

/-- The decimal digits of a number, most significant first; `fuel` bounds their count. -/
def digits : ℕ → ℕ → List ℕ
  | 0, _ => []
  | fuel + 1, n => if n < 10 then [n] else digits fuel (n / 10) ++ [n % 10]

def digitByte (d : ℕ) : UInt8 := UInt8.ofNat (48 + d)

/-- A number as decimal text. -/
def decimal (n : ℕ) : List UInt8 := (digits (n + 1) n).map digitByte

def isDigit (b : UInt8) : Bool := decide (48 ≤ b.toNat) && decide (b.toNat ≤ 57)

/-- The number a text of digits names. -/
def digitsValue (text : List UInt8) : ℕ := text.foldl (fun n b => 10 * n + (b.toNat - 48)) 0

/-- The number a text names: digits, after a sign at most. -/
def parseDecimal (text : List UInt8) : Option ℕ :=
  let unsigned := if text.head? = some 43 then text.tail else text
  if unsigned ≠ [] ∧ unsigned.all isDigit then some (digitsValue unsigned) else none

def hexDigit (n : ℕ) : UInt8 := UInt8.ofNat (if n < 10 then 48 + n else 87 + n)

/-- Bytes as lowercase hexadecimal text. -/
def hex (bytes : List UInt8) : List UInt8 :=
  bytes.flatMap fun b => [hexDigit (b.toNat / 16), hexDigit (b.toNat % 16)]

/-- The value of a lowercase hexadecimal digit. -/
def nibble (c : UInt8) : Option ℕ :=
  if 48 ≤ c.toNat ∧ c.toNat ≤ 57 then some (c.toNat - 48)
  else if 97 ≤ c.toNat ∧ c.toNat ≤ 102 then some (c.toNat - 97 + 10)
  else none

/-- The bytes of a text of pairs of hexadecimal digits. -/
def parseHex : List UInt8 → Option (List UInt8)
  | [] => some []
  | [_] => none
  | hi :: lo :: rest => do
    let h ← nibble hi
    let l ← nibble lo
    let bytes ← parseHex rest
    some (UInt8.ofNat (16 * h + l) :: bytes)

/-- A text up to its first separator, and what follows it. -/
def cut (sep : UInt8) : List UInt8 → List UInt8 × Option (List UInt8)
  | [] => ([], none)
  | b :: text => if b = sep then ([], some text) else
      let (first, rest) := cut sep text
      (b :: first, rest)

/-! ## Records -/

abbrev Digest := { bytes : List UInt8 // bytes.length = 32 }

structure ImageSignature where
  length : U64
  sha256 : Digest
  deriving DecidableEq

structure Applied (M : Type) where
  lastApplied : Option LogId
  membership : Option M

/-- What the library knows of a snapshot. The id is the bytes of its text. -/
structure SnapshotMeta (M : Type) where
  lastLogId : Option LogId
  lastMembership : M
  snapshotId : List UInt8

structure RaftSnapshotMeta (M G : Type) where
  formatVersion : ℕ
  group : Option G
  lastLogId : Option LogId
  membership : Option M
  snapshotId : List UInt8
  length : U64
  sha256 : List UInt8

/-- What a node takes from its files: the checksum of an image, the position a store records, and its
validation, which keeps the position. -/
structure Files (I M : Type) where
  imageSignature : I → ImageSignature
  raftApplied : I → Option (Applied M)
  opened : I → Option I
  raftApplied_opened : ∀ image image', opened image = some image' →
    raftApplied image' = raftApplied image

/-- The identity of the group a node is of, and its bound on received images. -/
structure Config (G : Type) where
  group : G
  maxImageBytes : U64

/-- A generation, or a directory that is to become one. A meta file may be unreadable. -/
structure Dir (I M G : Type) where
  image : Option I
  metaFile : Option (Option (RaftSnapshotMeta M G))

/-- The directories a build and a receive work in. -/
inductive Scratch where
  | build (nanos : ℕ)
  | incoming (nanos counter : ℕ)
  deriving DecidableEq

/-- What the files of a node hold. -/
structure Disk (I M G : Type) where
  store : I
  pointer : Option U64
  /-- The pointer's temporary file, which may be unreadable. -/
  tmp : Option (Option U64)
  generations : OrderedMap U64 (Dir I M G)
  staged : Option I
  scratch : Scratch → Option (Dir I M G)

variable {I M G : Type}

/-! ## Snapshot ids -/

/-- `<index>-<length>-<sha256 hex>`. -/
def formatSnapshotId (lastLogId : Option LogId) (signature : ImageSignature) : List UInt8 :=
  decimal (lastLogId.elim 0 fun id => id.index.val) ++ 45 ::
    (decimal signature.length.val ++ 45 :: hex signature.sha256.1)

def parseSnapshotId (id : List UInt8) : Except Status ImageSignature := do
  let rest ← okOr (cut 45 id).2 (.dataLoss "snapshot id carries no length")
  let length ← okOr ((parseDecimal (cut 45 rest).1).bind U64.ofNat?)
    (.dataLoss "snapshot id carries no length")
  let hex ← okOr (cut 45 rest).2 (.dataLoss "snapshot id carries no digest")
  refuseIf (decide (hex.length ≠ 64)) (.dataLoss "snapshot id digest is not 64 hex digits")
  let bytes ← okOr (parseHex hex) (.dataLoss "snapshot id digest is not lowercase hex")
  if h : bytes.length = 32 then .ok ⟨length, bytes, h⟩
  else .error (.dataLoss "snapshot id digest is not 64 hex digits")

/-! ## Reading generations -/

def position (id : Option LogId) : WithBot U64 := id.map LogId.index

def io (error : String) : Status := .internal ("raft snapshot storage: " ++ error)

section

variable [DecidableEq M] [DecidableEq G] (F : Files I M) (config : Config G)

def storePosition (image : I) : WithBot U64 :=
  position ((F.raftApplied image).bind Applied.lastApplied)

def verifyImage (image : I) (expected : ImageSignature) (maxBytes : U64) : Except Status Unit := do
  let signature := F.imageSignature image
  refuseIf (decide (signature.length ≠ expected.length)) (.dataLoss
    s!"snapshot image length {signature.length.val} differs from the announced {expected.length.val}")
  refuseIf (decide (maxBytes < signature.length))
    (.resourceExhausted s!"snapshot image exceeds the {maxBytes.val} byte bound")
  refuseIf (decide (signature ≠ expected))
    (.dataLoss "snapshot image digest differs from the announced digest")

def metaToProto (snapshot : SnapshotMeta M) (signature : ImageSignature) : RaftSnapshotMeta M G where
  formatVersion := 1
  group := some config.group
  lastLogId := snapshot.lastLogId
  membership := some snapshot.lastMembership
  snapshotId := snapshot.snapshotId
  length := signature.length
  sha256 := signature.sha256.1

variable (d : Disk I M G) (dir : Option (Dir I M G))

def readGenerationWith (check : Option I → ImageSignature → Except Status Unit) :
    Except Status (SnapshotMeta M × ImageSignature) := do
  let bytes ← okOr (dir.bind Dir.metaFile) (io "no such file")
  let value ← okOr bytes (.dataLoss "snapshot meta")
  refuseIf (decide (value.formatVersion ≠ 1)) (.dataLoss "snapshot meta format or digest is invalid")
  if h : value.sha256.length = 32 then do
    refuseIf (decide (value.group ≠ some config.group))
      (.dataLoss "snapshot meta names another group")
    let signature : ImageSignature := ⟨value.length, value.sha256, h⟩
    check (dir.bind Dir.image) signature
    refuseIf (decide (value.snapshotId ≠ formatSnapshotId value.lastLogId signature))
      (.dataLoss "snapshot meta id differs from its image")
    let membership ← okOr value.membership (.dataLoss "snapshot meta has no membership")
    .ok (⟨value.lastLogId, membership, value.snapshotId⟩, signature)
  else .error (.dataLoss "snapshot meta format or digest is invalid")

def readGeneration : Except Status (SnapshotMeta M × ImageSignature) :=
  readGenerationWith config dir fun image signature => do
    let image ← okOr image (io "no such file")
    verifyImage F image signature U64.max

/-- Read one generation, its image checked by length only. -/
def readGenerationByLength : Except Status (SnapshotMeta M × ImageSignature) :=
  readGenerationWith config dir fun image signature => do
    let image ← okOr image (io "no such file")
    let length := (F.imageSignature image).length
    refuseIf (decide (length ≠ signature.length)) (.dataLoss
      s!"snapshot image length {length.val} differs from the announced {signature.length.val}")

/-- Validate a received image against a meta. -/
def verify (image : Option I) (snapshot : SnapshotMeta M) : Except Status ImageSignature := do
  let signature ← parseSnapshotId snapshot.snapshotId
  refuseIf (decide (config.maxImageBytes < signature.length)) (.resourceExhausted
    (s!"snapshot image of {signature.length.val} bytes exceeds the " ++
      s!"{config.maxImageBytes.val} byte bound"))
  let image ← okOr image (io "no such file")
  verifyImage F image signature config.maxImageBytes
  -- a separate copy is opened: opening may rewrite it
  let probe ← okOr (F.opened image) (.dataLoss "snapshot image")
  let applied ← okOr (F.raftApplied probe) (.dataLoss "snapshot image carries no applied position")
  refuseIf (decide (applied.lastApplied ≠ snapshot.lastLogId))
    (.dataLoss "snapshot image applied position differs from the snapshot meta")
  let membership ← okOr applied.membership (.dataLoss "snapshot image carries no membership")
  refuseIf (decide (membership ≠ snapshot.lastMembership))
    (.dataLoss "snapshot image membership differs from the snapshot meta")
  .ok signature

def getCurrentSnapshot : Except Status (Option (SnapshotMeta M × I)) :=
  match d.pointer with
  | none => .ok none
  | some generation => do
    let dir := d.generations.get? generation
    let (snapshot, _) ← readGenerationByLength F config dir
    let image ← okOr (dir.bind Dir.image) (io "no such file")
    .ok (some (snapshot, image))

def positionText (position : WithBot U64) : String :=
  position.recBotCoe "none" fun index => s!"{index.val}"

/-- What a sweep leaves: nothing but the published generation. -/
def Disk.swept : Disk I M G :=
  { d with
    generations := d.generations.filter fun generation => decide (some generation = d.pointer)
    staged := none
    scratch := fun _ => none }

def sweep : Disk I M G × Except Status Unit :=
  (d.swept,
    match d.pointer with
    | none => .ok ()
    | some generation => do
      let (snapshot, _) ← readGeneration F config (d.swept.generations.get? generation)
      let claimed := position snapshot.lastLogId
      let applied := storePosition F d.store
      refuseIf (decide (applied < claimed)) (.dataLoss
        (s!"published snapshot generation {generation.val} claims position " ++
          positionText claimed ++ " past the store's applied position " ++ positionText applied)))

end

/-! ## Builds and installs -/

def nextGeneration (d : Disk I M G) : Except Status U64 :=
  let highest := d.generations.keys.foldl max (d.pointer.getD (U64.wrap 0))
  okOr (U64.checkedAdd highest (U64.wrap 1))
    (.resourceExhausted "snapshot generations exhausted")

inductive Kind where
  | build
  | install
  deriving DecidableEq

/-- The file operations of builds and installs. -/
inductive Op where
  | createDir
  | copyStore
  | writeMeta
  | intoGeneration
  | stage
  | replaceStore
  | writeTmp
  | movePointer
  | dropOthers
  deriving DecidableEq

/-- The operations of a build, and of an install from its verified receive on. -/
def Kind.script : Kind → List Op
  | .build => [.createDir, .copyStore, .writeMeta, .intoGeneration, .writeTmp, .movePointer,
      .dropOthers]
  | .install => [.writeMeta, .intoGeneration, .stage, .replaceStore, .writeTmp, .movePointer,
      .dropOthers]

def Kind.after (kind : Kind) (op : Op) : Option Op := (kind.script.dropWhile (· ≠ op)).tail.head?

/-- A build or an install that is running, before its operation `op`. -/
structure Job (M : Type) where
  kind : Kind
  dir : Scratch
  snapshot : Option (SnapshotMeta M × ImageSignature)
  generation : Option U64
  op : Op

def Disk.setScratch (d : Disk I M G) (dir : Scratch) (content : Option (Dir I M G)) : Disk I M G :=
  { d with scratch := Function.update d.scratch dir content }

section

variable [DecidableEq M] [DecidableEq G] (F : Files I M) (config : Config G) (d : Disk I M G)
  (job : Job M)

/-- Image the store, and name the image. -/
def copyStore : Except Status (Disk I M G × Job M) := do
  let applied ← okOr (F.raftApplied d.store)
    (.failedPrecondition "no applied position; nothing to snapshot")
  let membership ← okOr applied.membership (.dataLoss "applied position has no membership")
  let signature := F.imageSignature d.store
  let snapshot : SnapshotMeta M :=
    ⟨applied.lastApplied, membership, formatSnapshotId applied.lastApplied signature⟩
  let dir ← okOr (d.scratch job.dir) (io "no such file")
  .ok (d.setScratch job.dir (some { dir with image := some d.store }),
    { job with snapshot := some (snapshot, signature) })

def writeMeta : Except Status (Disk I M G × Job M) := do
  let (snapshot, signature) ← okOr job.snapshot (io "no snapshot")
  let dir ← okOr (d.scratch job.dir) (io "no such file")
  .ok (d.setScratch job.dir (some { dir with metaFile := some (metaToProto config snapshot signature) }),
    job)

/-- Rename the directory into the next generation. -/
def intoGeneration : Except Status (Disk I M G × Job M) := do
  let generation ← nextGeneration d
  let dir ← okOr (d.scratch job.dir) (io "no such file")
  .ok ({ d.setScratch job.dir none with generations := d.generations.insert generation dir },
    { job with generation := some generation })

/-- Copy the generation's image beside the store. -/
def stage : Except Status (Disk I M G × Job M) := do
  let generation ← okOr job.generation (io "no generation")
  let dir ← okOr (d.generations.get? generation) (io "no such file")
  let image ← okOr dir.image (io "no such file")
  .ok ({ d with staged := some image }, job)

/-- Open and validate the staged file, and rename it over the store. -/
def replaceStore : Except Status (Disk I M G × Job M) := do
  let image ← okOr d.staged (io "no such file")
  let store ← okOr (F.opened image) (.dataLoss "staged store")
  .ok ({ d with store := store, staged := none }, job)

/-- One operation of a build or an install. -/
def exec : Except Status (Disk I M G × Job M) :=
  match job.op with
  | .createDir =>
    match d.scratch job.dir with
    | some _ => .error (io "file exists")
    | none => .ok (d.setScratch job.dir (some ⟨none, none⟩), job)
  | .copyStore => copyStore F d job
  | .writeMeta => writeMeta config d job
  | .intoGeneration => intoGeneration d job
  | .stage => stage d job
  | .replaceStore => replaceStore F d job
  | .writeTmp => .ok ({ d with tmp := some job.generation }, job)
  | .movePointer => do
    let content ← okOr d.tmp (io "no such file")
    .ok ({ d with pointer := content, tmp := none }, job)
  | .dropOthers =>
    .ok ({ d with
      generations := d.generations.filter fun generation => decide (some generation = job.generation) },
      job)

/-- What a build or an install removes when an operation of it is refused. -/
def cleanup : Disk I M G :=
  match job.kind, job.op with
  | .build, .createDir => d
  | .install, .replaceStore =>
    { d.setScratch job.dir none with
      staged := none
      generations := d.generations.filter fun generation => decide (some generation ≠ job.generation) }
  | _, _ => d.setScratch job.dir none

end

/-! ## Runs -/

/-- What a receive has validated: the id of the snapshot its image was checked against. -/
structure Receive where
  dir : Scratch
  verified : Option (List UInt8)

structure Node (I M G : Type) where
  disk : Disk I M G
  running : Bool
  receiving : Option Receive
  counter : ℕ
  job : Option (Job M)

/-- What operations that stop part way leave. -/
structure Torn (I M G : Type) where
  tmp : Option (Option U64)
  staged : Option I
  scratch : Scratch → Option (Dir I M G)
  generations : OrderedMap U64 (Dir I M G)

/-- What the removal of all generations but one leaves when it stops part way: that one, and some of
the others with what is left in them. -/
def leave (keep : Option U64) (left generations : OrderedMap U64 (Dir I M G)) :
    OrderedMap U64 (Dir I M G) :=
  let others := left.filter fun generation => decide (generation ∈ generations.keys)
  match keep.bind fun generation => (generations.get? generation).map (generation, ·) with
  | some (generation, dir) => others.insert generation dir
  | none => others

/-- What the process leaves when it ends in an operation. -/
def interrupted (d : Disk I M G) (torn : Torn I M G) (job : Option (Job M)) : Disk I M G :=
  let d' := { d with scratch := torn.scratch }
  match job with
  | none => d'
  | some job =>
    match job.op with
    | .stage | .replaceStore => { d' with staged := torn.staged }
    | .writeTmp => { d' with tmp := torn.tmp }
    | .dropOthers => { d' with generations := leave job.generation torn.generations d.generations }
    | _ => d'

/-- What happens to a node. -/
inductive Event (I M G : Type) where
  | begin (nanos : ℕ) (empty : I)
  /-- The image received so far, until it is validated. -/
  | write (image : I)
  | verify (snapshot : SnapshotMeta M)
  | discard
  | install (snapshot : SnapshotMeta M)
  | build (nanos : ℕ)
  | step
  | store (image : I)
  | crash (torn : Torn I M G)
  | start
  | startInterrupted (torn : Torn I M G)

section

variable [DecidableEq M] [DecidableEq G] (F : Files I M) (config : Config G)

namespace Node

variable (s : Node I M G)

/-- The receive is dropped with its bytes. -/
def discard : Node I M G :=
  match s.receiving with
  | none => s
  | some receive => { s with receiving := none, disk := s.disk.setScratch receive.dir none }

def begin (nanos : ℕ) (empty : I) : Node I M G :=
  let s := s.discard
  let dir := Scratch.incoming nanos s.counter
  match s.disk.scratch dir with
  | some _ => { s with counter := s.counter + 1 }
  | none =>
    { s with
      counter := s.counter + 1
      disk := s.disk.setScratch dir (some ⟨some empty, none⟩)
      receiving := some ⟨dir, none⟩ }

def receivedImage (receive : Receive) : Option I :=
  (s.disk.scratch receive.dir).bind Dir.image

/-- The checksum an install goes by: a receive that was validated under this id is not read again. -/
def installSignature (receive : Receive) (snapshot : SnapshotMeta M) :
    Except Status ImageSignature :=
  if receive.verified = some snapshot.snapshotId then parseSnapshotId snapshot.snapshotId
  else verify F config (s.receivedImage receive) snapshot

def install (snapshot : SnapshotMeta M) : Node I M G :=
  match s.job, s.receiving with
  | none, some receive =>
    match s.installSignature F config receive snapshot with
    | .error _ => s.discard
    | .ok signature =>
      { s with
        receiving := none
        job := some ⟨.install, receive.dir, some (snapshot, signature), none, .writeMeta⟩ }
  | _, _ => s

/-- The next operation of the build or install that is running. -/
def step : Node I M G :=
  match s.job with
  | none => s
  | some job =>
    match exec F config s.disk job with
    | .error _ => { s with disk := cleanup s.disk job, job := none }
    | .ok (disk, job) =>
      { s with disk := disk, job := (job.kind.after job.op).map fun op => { job with op := op } }

end Node

/-- The node after an event. -/
def next (s : Node I M G) : Event I M G → Node I M G
  | .begin nanos empty => if s.running then s.begin nanos empty else s
  | .write image =>
    match s.receiving with
    | some ⟨dir, none⟩ =>
      { s with
        disk := s.disk.setScratch dir ((s.disk.scratch dir).map ({ · with image := some image })) }
    | _ => s
  | .verify snapshot =>
    match s.receiving with
    | none => s
    | some receive =>
      match verify F config (s.receivedImage receive) snapshot with
      | .error _ => s.discard
      | .ok _ => { s with receiving := some { receive with verified := some snapshot.snapshotId } }
  | .discard => s.discard
  | .install snapshot => if s.running then s.install F config snapshot else s
  | .build nanos =>
    match s.running, s.job with
    | true, none => { s with job := some ⟨.build, .build nanos, none, none, .createDir⟩ }
    | _, _ => s
  | .step => s.step F config
  | .store image => { s with disk := { s.disk with store := image } }
  | .crash torn => ⟨interrupted s.disk torn s.job, false, none, 0, none⟩
  | .start =>
    if s.running then s
    else { s with disk := (sweep F config s.disk).1, running := (sweep F config s.disk).2.isOk }
  | .startInterrupted torn =>
    if s.running then s
    else
      { s with
        disk := { s.disk with
          scratch := torn.scratch
          staged := torn.staged
          generations := leave s.disk.pointer torn.generations s.disk.generations } }

/-- A node that has never published a snapshot. -/
def Node.create (store : I) : Node I M G :=
  ⟨⟨store, none, none, .empty, none, fun _ => none⟩, false, none, 0, none⟩

end

end ProtomoltSearch.Raft.Snapshots
