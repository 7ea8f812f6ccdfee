import ProtomoltSearch.Foundations.Counting
import ProtomoltSearch.Foundations.Framing
import ProtomoltSearch.Foundations.TopK
import ProtomoltSearch.Reshard.Hash
import ProtomoltSearch.Wal.Frame

/-!
# A generation of the write-ahead log

One generation is a directory of append-only files: a file per hash bucket and one for markers
(`wal.rs`). Sequence numbers count the records of one file; the clock counts those of the whole
generation. Appends are buffered, and a flush makes every file durable.

Reopening after a crash cuts each bucket file at its first add at or above the applied tip, drops
torn tails, and continues the sequences and the clock. Reading back merges the files by clock and
refuses a gap.

The encoding of a record and the checks an append makes on it are parameters.
-/

namespace ProtomoltSearch.Wal

open TopK Reshard

abbrev Key := Bytes

/-- A logged mutation: rows of floats `F`, documents `D` and bindings `M`. -/
inductive Op (F D M : Type) where
  | addVectors (firstId : U64) (vectors : List F) (stableRoutingKeys : List Key)
  | addDocuments (firstId : U64) (documents : List D) (stableRoutingKeys : List Key)
  | deleteDocument (docId : U64)
  | replacement (oldDocId newDocId : U64)
  | flush
  | snapshot (sourceGeneration : U64)
  | bind (binding : M)
  deriving DecidableEq

structure WalRecord (F D M : Type) where
  seq : ℕ
  clock : ℕ
  op : Option (Op F D M)
  deriving DecidableEq

/-- The wire encoding of records. -/
structure Codec (F D M : Type) where
  encode : WalRecord F D M → Bytes
  decode : Bytes → Option (WalRecord F D M)

/-- What a generation is opened with: its buckets, the wire encoding, and the checks of an append. -/
structure Generation (F D M : Type) where
  bucketBits : ℕ
  codec : Codec F D M
  admits : Op F D M → Bool
  bucketBits_le : bucketBits ≤ 31

inductive FileId where
  | bucket (b : ℕ)
  | markers
  deriving DecidableEq

variable {F D M : Type}

namespace Generation

variable (g : Generation F D M) (order : List ℕ) (cutoff : U64) (disk : FileId → Bytes)

def bucketCount : ℕ := 2 ^ g.bucketBits

/-- The bytes of one record in a file. -/
def frameOf (r : WalRecord F D M) : Bytes := writeFrame (g.codec.encode r)

/-- The records from `offset` on, with the offsets they start at, and the offset where the whole
frames end. `check` refuses records one by one. -/
def readRecords (check : WalRecord F D M → Option WalError) :
    ℕ → ℕ → ℕ → Bytes → Except WalError (List (ℕ × WalRecord F D M) × ℕ)
  | 0, offset, _, _ => .ok ([], offset)
  | fuel + 1, offset, nextSeq, bytes =>
    match readFrame offset bytes with
    | .error e => .error e
    | .ok .done => .ok ([], offset)
    | .ok .torn => .ok ([], offset)
    | .ok (.frame payload rest) =>
      match g.codec.decode payload with
      | none => .error (.undecodable offset)
      | some record =>
        if record.seq ≠ nextSeq then .error (.seqGap offset nextSeq record.seq)
        else
          match check record with
          | some e => .error e
          | none =>
            match readRecords check fuel (offset + 8 + payload.length) (nextSeq + 1) rest with
            | .error e => .error e
            | .ok r => .ok ((offset, record) :: r.1, r.2)

def readFile (check : WalRecord F D M → Option WalError) (bytes : Bytes) :
    Except WalError (List (ℕ × WalRecord F D M) × ℕ) :=
  g.readRecords check (bytes.length + 1) 0 1 bytes

structure RecordScan where
  lastSeq : ℕ
  validLen : ℕ
  maxClock : ℕ

def scanRecords (bytes : Bytes) : Except WalError RecordScan := do
  let r ← g.readFile (fun _ => none) bytes
  pure
    { lastSeq := (r.1.getLast?.map fun e => e.2.seq).getD 0
      validLen := r.2
      maxClock := Counting.greatest (r.1.map fun e => e.2.clock) }

def legacyCheck (r : WalRecord F D M) : Option WalError :=
  if r.clock = 0 then some .legacyUnclocked else none

/-- Check that clocks count on from `expected`. -/
def checkClocks : ℕ → List (WalRecord F D M) → Except WalError Unit
  | _, [] => .ok ()
  | expected, r :: rs =>
    if r.clock ≠ expected then .error (.clockGap expected r.clock) else checkClocks (expected + 1) rs

/-- Read a generation as one stream: the markers, then the bucket files in directory order, merged
by clock; the records after `afterClock`. -/
def readClockedRecords (afterClock : ℕ) (disk : FileId → Bytes) :
    Except WalError (List (WalRecord F D M)) := do
  let files ← (FileId.markers :: order.map FileId.bucket).mapM fun f =>
    g.readFile legacyCheck (disk f)
  let records := sortBy (compareOn WalRecord.clock) (files.flatMap fun r => r.1.map Prod.snd)
  checkClocks 1 records
  pure (records.filter fun r => afterClock < r.clock)

/-- One open file: everything appended to it, the next sequence number, and how much is synced. -/
structure BucketWriter where
  content : Bytes
  nextSeq : ℕ
  durable : ℕ

/-- The writer of a generation. A bucket whose file does not exist yet has an empty one. -/
structure WalWriter where
  files : FileId → BucketWriter
  nextClock : ℕ

variable (w : WalWriter)

/-- A new generation. -/
def create : WalWriter := ⟨fun _ => ⟨[], 1, 0⟩, 1⟩

/-- The bucket an operation hashes to; markers have none. -/
def hashed : Op F D M → Option ℕ
  | .addVectors firstId _ _ => some (bucketOf firstId g.bucketCount)
  | .addDocuments firstId _ _ => some (bucketOf firstId g.bucketCount)
  | .deleteDocument docId => some (bucketOf docId g.bucketCount)
  | .replacement oldDocId _ => some (bucketOf oldDocId g.bucketCount)
  | .flush | .snapshot _ | .bind _ => none

/-- The file an operation is appended to: a forced bucket applies to records, not to markers. -/
def fileOf (op : Op F D M) (forced : Option ℕ) : FileId :=
  match forced, g.hashed op with
  | some b, some _ => .bucket b
  | _, some b => .bucket b
  | _, none => .markers

/-- Whether an append is accepted: a forced bucket must exist, and the operation pass its checks. -/
def accepts (op : Op F D M) (forced : Option ℕ) : Bool :=
  (forced.all fun b => decide (b < g.bucketCount)) && g.admits op

/-- Append one operation; a refused one changes nothing. -/
def appendRouted (op : Op F D M) (forced : Option ℕ) : WalWriter :=
  if g.accepts op forced then
    let f := g.fileOf op forced
    let file := w.files f
    { files := Function.update w.files f
        { file with
          content := file.content ++ g.frameOf ⟨file.nextSeq, w.nextClock, some op⟩
          nextSeq := file.nextSeq + 1 }
      nextClock := w.nextClock + 1 }
  else w

/-- Sync every file. -/
def flush : WalWriter :=
  { w with files := fun f => { w.files f with durable := (w.files f).content.length } }

/-- What a node asks of its log. -/
inductive Event (F D M : Type) where
  | append (op : Op F D M) (forced : Option ℕ)
  | flush

def apply : Event F D M → WalWriter
  | .append op forced => g.appendRouted w op forced
  | .flush => flush w

def run (events : List (Event F D M)) : WalWriter := events.foldl g.apply w

/-- An add at or above the cutoff. -/
def cuts (r : WalRecord F D M) : Bool :=
  match r.op with
  | some (.addVectors firstId _ _) => decide (cutoff ≤ firstId)
  | some (.addDocuments firstId _ _) => decide (cutoff ≤ firstId)
  | _ => false

/-- Cut a bucket file at its first add at or above the cutoff. -/
def truncateFile (bytes : Bytes) : Except WalError Bytes := do
  let r ← g.readFile (fun _ => none) bytes
  pure (match r.1.find? fun e => cuts cutoff e.2 with
    | some e => bytes.take e.1
    | none => bytes)

/-- Cut every bucket file; the markers are untouched. -/
def truncateRecordsAtOrAbove : Except WalError (FileId → Bytes) :=
  order.foldlM (fun disk b => do
    let bytes ← g.truncateFile cutoff (disk (.bucket b))
    pure (Function.update disk (.bucket b) bytes)) disk

/-- Continue a file after its last whole frame. -/
def openAppend (bytes : Bytes) (scan : RecordScan) : BucketWriter :=
  ⟨bytes.take scan.validLen, scan.lastSeq + 1, 0⟩

/-- Adopt one file of a directory. -/
def resumeFile (f : FileId) : Except WalError WalWriter := do
  let scan ← g.scanRecords (disk f)
  pure
    { files := Function.update w.files f (openAppend (disk f) scan)
      nextClock := max w.nextClock (scan.maxClock + 1) }

/-- Resume a generation: every bucket file, then the markers. -/
def resume : Except WalError WalWriter :=
  (order.map FileId.bucket ++ [FileId.markers]).foldlM (g.resumeFile disk) create

def openExisting : Except WalError WalWriter := do
  let disk ← g.truncateRecordsAtOrAbove order cutoff disk
  g.resume order disk

end Generation

end ProtomoltSearch.Wal
