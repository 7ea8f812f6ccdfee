import ProtomoltSearch.Foundations.OrderedMap
import ProtomoltSearch.Foundations.Overflow
import ProtomoltSearch.Wal.Generation

/-!
# Replaying bucket files

A split reads the rows of a log back out of its bucket files (`replay_buckets_routed` of
`reshard.rs`): vectors and documents keyed by id, the ids that deletes and replacements hide, and
the stable keys. A record that does not route to the file it was read from, an id added twice and
two keys for one id are refused.

A replay that returns holds exactly the rows of the records it read (`Replay.Holds`). Records that
pass the checks one by one (`OpOk`) and whose rows agree (`Consistent`) are never refused.
-/

namespace ProtomoltSearch.Reshard

open Wal List U64

inductive Refusal where
  | legacyUnclocked (bucket : ℕ) (uptoClock : ℕ)
  | vectorMisrouted (bucket : ℕ) (id : U64)
  | notMultiple (bucket : ℕ) (floats dim : ℕ)
  | vectorKeyCount (bucket : ℕ)
  | vectorStraddles (bucket : ℕ) (id : U64)
  | duplicateVector (bucket : ℕ) (id : U64)
  | documentMisrouted (bucket : ℕ) (id : U64)
  | documentKeyCount (bucket : ℕ)
  | documentStraddles (bucket : ℕ) (id : U64)
  | duplicateDocument (bucket : ℕ) (id : U64)
  | keysDisagree (bucket : ℕ) (id : U64)
  | bindInBucket (bucket : ℕ)
  | deleteMisrouted (bucket : ℕ) (id : U64)
  | replacementMisrouted (bucket : ℕ) (id : U64)
  | notPowerOfTwo (n : ℕ)
  | noInput
  | noBackendConfig (dim : ℕ)
  | preexisting (vectors documents : ℕ)
  | configDiffers
  | bucketCountDiffers (found expected : ℕ)
  | badBinding (reason : String)
  | bindingsDiffer
  | slotOrder (ordinal : ℕ)
  | build (reason : String)
  | zeroStride
  | slotOverflow
  | slotsExhausted (shard : ℕ) (needed reserved : U64)
  | generationOverflow
  | clocks (e : WalError)
  | missingStableKey (id : U64)
  | badRanges (reason : String)
  | unroutable (id : U64)
  deriving DecidableEq

abbrev Outcome := Except (Failure Refusal)

/-! ## The replayed state -/

/-- Vectors and documents replayed out of bucket files, in id order. -/
structure Replay (F D : Type) where
  vectors : OrderedMap U64 (List F)
  documents : OrderedMap U64 D
  deleted : Finset U64
  stableKeys : OrderedMap U64 Key

/-- What one row of a record does to the replayed state. -/
inductive Row (F D : Type) where
  | vector (id : U64) (vector : List F) (key : Option Key)
  | document (id : U64) (document : D) (key : Option Key)
  | deleted (id : U64)
  deriving DecidableEq

variable {F D M : Type}

namespace Replay

def empty : Replay F D := ⟨.empty, .empty, ∅, .empty⟩

/-- Drop the hidden rows. -/
def compact (r : Replay F D) : Replay F D where
  vectors := r.vectors.filter fun id => id ∉ r.deleted
  documents := r.documents.filter fun id => id ∉ r.deleted
  deleted := ∅
  stableKeys := r.stableKeys.filter fun id => id ∉ r.deleted

/-- Learn the stable key of a row; two keys for one id are refused. -/
def learnKey (out : Replay F D) (bucket : ℕ) (id : U64) : Option Key → Outcome (Replay F D)
  | none => .ok out
  | some key =>
    if (out.stableKeys.get? id).any fun existing => existing ≠ key then
      refuse (.keysDisagree bucket id)
    else .ok { out with stableKeys := out.stableKeys.insert id key }

def applyRow (bucket : ℕ) (out : Replay F D) : Row F D → Outcome (Replay F D)
  | .vector id vector key =>
    if (out.vectors.get? id).isSome then refuse (.duplicateVector bucket id)
    else learnKey { out with vectors := out.vectors.insert id vector } bucket id key
  | .document id document key =>
    if (out.documents.get? id).isSome then refuse (.duplicateDocument bucket id)
    else learnKey { out with documents := out.documents.insert id document } bucket id key
  | .deleted id => .ok { out with deleted := insert id out.deleted }

end Replay

/-! ## Replaying records -/

/-- What a replay is called with: whether the build checks overflow, the log's geometry, and the
bound on the clock (`none` reads everything). -/
structure Replaying where
  checks : Bool
  bucketCount : ℕ
  dim : ℕ
  vectorsOnly : Bool
  uptoClock : Option ℕ
  checkRouting : Bool

/-- The rows of a flat batch. -/
def chunksExact (dim : ℕ) (l : List F) : List (List F) :=
  (List.range (l.length / dim)).map fun i => (l.drop (i * dim)).take dim

variable (cx : Replaying) (bucket : ℕ)

/-- Whether an id fails the routing check of the file it was read from. -/
def Replaying.strays (id : U64) : Bool :=
  cx.checkRouting && decide (bucketOf id cx.bucketCount ≠ bucket)

def replayVectorRow (firstId : U64) (rows : ℕ) (keys : List Key) (out : Replay F D)
    (row : List F × ℕ) : Outcome (Replay F D) := do
  refuseIf (decide (keys ≠ [] ∧ keys.length ≠ rows)) (.refused (.vectorKeyCount bucket))
  let id ← add cx.checks firstId (wrap row.2)
  refuseIf (cx.strays bucket id) (.refused (.vectorStraddles bucket id))
  out.applyRow bucket (.vector id row.1 keys[row.2]?)

def replayDocumentRow (firstId : U64) (keys : List Key) (out : Replay F D) (row : D × ℕ) :
    Outcome (Replay F D) := do
  let id ← add cx.checks firstId (wrap row.2)
  refuseIf (cx.strays bucket id) (.refused (.documentStraddles bucket id))
  out.applyRow bucket (.document id row.1 keys[row.2]?)

def replayOp (out : Replay F D) : Option (Op F D M) → Outcome (Replay F D)
  | some (.addVectors firstId vectors keys) => do
    refuseIf (cx.strays bucket firstId) (.refused (.vectorMisrouted bucket firstId))
    refuseIf (decide (cx.dim = 0 ∨ ¬cx.dim ∣ vectors.length))
      (.refused (.notMultiple bucket vectors.length cx.dim))
    (chunksExact cx.dim vectors).zipIdx.foldlM
      (replayVectorRow cx bucket firstId (vectors.length / cx.dim) keys) out
  | some (.addDocuments firstId documents keys) => do
    refuseIf (cx.strays bucket firstId) (.refused (.documentMisrouted bucket firstId))
    if cx.vectorsOnly then pure out
    else do
      refuseIf (decide (keys ≠ [] ∧ keys.length ≠ documents.length))
        (.refused (.documentKeyCount bucket))
      documents.zipIdx.foldlM (replayDocumentRow cx bucket firstId keys) out
  | some (.bind _) => refuse (.bindInBucket bucket)
  | some (.deleteDocument docId) => do
    refuseIf (decide (bucketOf docId cx.bucketCount ≠ bucket))
      (.refused (.deleteMisrouted bucket docId))
    out.applyRow bucket (.deleted docId)
  | some (.replacement oldDocId _) => do
    refuseIf (decide (bucketOf oldDocId cx.bucketCount ≠ bucket))
      (.refused (.replacementMisrouted bucket oldDocId))
    out.applyRow bucket (.deleted oldDocId)
  | some .flush => .ok out
  | some (.snapshot _) => .ok out
  | none => .ok out

def replayRecord (out : Replay F D) (record : WalRecord F D M) : Outcome (Replay F D) :=
  match cx.uptoClock with
  | none => replayOp cx bucket out record.op
  | some upto =>
    if record.clock = 0 then refuse (.legacyUnclocked bucket upto)
    else if upto < record.clock then .ok out
    else replayOp cx bucket out record.op

def replayBucketsRouted (file : ℕ → List (WalRecord F D M)) (buckets : List ℕ) (out : Replay F D) :
    Outcome (Replay F D) :=
  buckets.foldlM (fun out bucket => (file bucket).foldlM (replayRecord cx bucket) out) out

/-! ## The rows of a record -/

def rowId (firstId : U64) (i : ℕ) : U64 := wrap (firstId.val + i)

def rowsOf (dim : ℕ) (vectorsOnly : Bool) : Option (Op F D M) → List (Row F D)
  | some (.addVectors firstId vectors keys) =>
    (chunksExact dim vectors).zipIdx.map fun row => .vector (rowId firstId row.2) row.1 keys[row.2]?
  | some (.addDocuments firstId documents keys) =>
    if vectorsOnly then []
    else documents.zipIdx.map fun row => .document (rowId firstId row.2) row.1 keys[row.2]?
  | some (.deleteDocument docId) => [.deleted docId]
  | some (.replacement oldDocId _) => [.deleted oldDocId]
  | _ => []

namespace Row

/-- The id a row is about. -/
def id : Row F D → U64
  | .vector id _ _ => id
  | .document id _ _ => id
  | .deleted id => id

def vectorId? : Row F D → Option U64
  | .vector id _ _ => some id
  | _ => none

def documentId? : Row F D → Option U64
  | .document id _ _ => some id
  | _ => none

/-- The stable key a row teaches. -/
def keyed : Row F D → Option (U64 × Key)
  | .vector id _ key => key.map (id, ·)
  | .document id _ key => key.map (id, ·)
  | .deleted _ => none

lemma map_mk_eq_some {key : Option Key} {id id' : U64} {k : Key} :
    key.map (id, ·) = some (id', k) ↔ id' = id ∧ key = some k := by
  cases key <;> simp [eq_comm]

end Row

/-- Rows that agree: no id is added twice on one side, and no id has two keys. -/
structure Consistent (rows : List (Row F D)) : Prop where
  vectors : (rows.filterMap Row.vectorId?).Nodup
  documents : (rows.filterMap Row.documentId?).Nodup
  keys : ∀ row ∈ rows, ∀ row' ∈ rows, ∀ id k k',
    row.keyed = some (id, k) → row'.keyed = some (id, k') → k = k'

lemma Consistent.sublist {rows rows' : List (Row F D)} (h : Consistent rows)
    (hs : rows'.Sublist rows) : Consistent rows' where
  vectors := h.vectors.sublist (hs.filterMap _)
  documents := h.documents.sublist (hs.filterMap _)
  keys row hrow row' hrow' := h.keys row (hs.subset hrow) row' (hs.subset hrow')

namespace Replay

/-- The replayed state holds exactly these rows. -/
structure Holds (R : Replay F D) (rows : List (Row F D)) : Prop where
  vectors : ∀ id v, (id, v) ∈ R.vectors.entries ↔ ∃ key, Row.vector id v key ∈ rows
  documents : ∀ id d, (id, d) ∈ R.documents.entries ↔ ∃ key, Row.document id d key ∈ rows
  deleted : ∀ id, id ∈ R.deleted ↔ Row.deleted id ∈ rows
  keys : ∀ id k, (id, k) ∈ R.stableKeys.entries ↔ ∃ row ∈ rows, row.keyed = some (id, k)

lemma holds_empty : (empty : Replay F D).Holds [] := by
  constructor <;> simp [empty, OrderedMap.empty]

variable {R R' : Replay F D} {done : List (Row F D)} {bucket : ℕ}

lemma learnKey_spec {id : U64} {key : Option Key} (h : R.learnKey bucket id key = .ok R') :
    R'.vectors = R.vectors ∧ R'.documents = R.documents ∧ R'.deleted = R.deleted ∧
      ∀ id' k, (id', k) ∈ R'.stableKeys.entries ↔
        (id', k) ∈ R.stableKeys.entries ∨ (id' = id ∧ key = some k) := by
  cases key with
  | none =>
    obtain rfl := Except.ok.inj h
    simp
  | some key =>
    rw [learnKey] at h
    split at h
    · cases h
    rename_i hagree
    obtain rfl := Except.ok.inj h
    -- an id that already has a key has this one, so inserting changes nothing else
    have hold : ∀ k, (id, k) ∈ R.stableKeys.entries → k = key := by
      intro k hk
      rw [OrderedMap.get?_eq_some.2 hk] at hagree
      simpa using hagree
    refine ⟨rfl, rfl, rfl, fun id' k => ?_⟩
    rw [OrderedMap.mem_insert, Prod.mk.injEq, Option.some.injEq]
    constructor
    · rintro (⟨rfl, rfl⟩ | ⟨hmem, _⟩)
      exacts [.inr ⟨rfl, rfl⟩, .inl hmem]
    · rintro (hmem | ⟨rfl, rfl⟩)
      · by_cases hid : id' = id
        · subst hid
          exact .inl ⟨rfl, hold k hmem⟩
        · exact .inr ⟨hmem, hid⟩
      · exact .inl ⟨rfl, rfl⟩

lemma learnKey_returns {id : U64} {key : Option Key}
    (h : ∀ k k', key = some k → (id, k') ∈ R.stableKeys.entries → k' = k) :
    ∃ R', R.learnKey bucket id key = .ok R' := by
  cases key with
  | none => exact ⟨R, rfl⟩
  | some key =>
    refine ⟨_, if_neg fun hany => ?_⟩
    cases hget : R.stableKeys.get? id with
    | none =>
      rw [hget] at hany
      exact Bool.false_ne_true hany
    | some existing =>
      rw [hget] at hany
      exact of_decide_eq_true hany (h key existing rfl (OrderedMap.get?_eq_some.1 hget))

lemma Holds.applyRow (h : R.Holds done) {row : Row F D} (hrow : R.applyRow bucket row = .ok R') :
    R'.Holds (done ++ [row]) := by
  cases row with
  | vector id v key =>
    rw [Replay.applyRow] at hrow
    split at hrow
    · cases hrow
    · rename_i hnew
      have hget : R.vectors.get? id = none := by simpa using hnew
      have hfresh : id ∉ R.vectors.keys := OrderedMap.get?_eq_none.1 hget
      obtain ⟨hv, hd, hdel, hk⟩ := learnKey_spec hrow
      refine ⟨fun id' v' => ?_, fun id' d => ?_, fun id' => ?_, fun id' k => ?_⟩
      · rw [hv, (OrderedMap.insert_perm hfresh).mem_iff, mem_cons, h.vectors]
        simp only [mem_append, mem_singleton, Row.vector.injEq, Prod.mk.injEq]
        constructor
        · rintro (⟨rfl, rfl⟩ | ⟨key', h'⟩)
          exacts [⟨key, .inr ⟨rfl, rfl, rfl⟩⟩, ⟨key', .inl h'⟩]
        · rintro ⟨key', h' | ⟨rfl, rfl, rfl⟩⟩
          exacts [.inr ⟨key', h'⟩, .inl ⟨rfl, rfl⟩]
      · rw [hd, h.documents]
        simp
      · rw [hdel, h.deleted]
        simp
      · rw [hk, h.keys]
        simp only [mem_append, mem_singleton, or_and_right, exists_or, exists_eq_left,
          Row.keyed, Row.map_mk_eq_some]
  | document id d key =>
    rw [Replay.applyRow] at hrow
    split at hrow
    · cases hrow
    · rename_i hnew
      have hget : R.documents.get? id = none := by simpa using hnew
      have hfresh : id ∉ R.documents.keys := OrderedMap.get?_eq_none.1 hget
      obtain ⟨hv, hd, hdel, hk⟩ := learnKey_spec hrow
      refine ⟨fun id' v => ?_, fun id' d' => ?_, fun id' => ?_, fun id' k => ?_⟩
      · rw [hv, h.vectors]
        simp
      · rw [hd, (OrderedMap.insert_perm hfresh).mem_iff, mem_cons, h.documents]
        simp only [mem_append, mem_singleton, Row.document.injEq, Prod.mk.injEq]
        constructor
        · rintro (⟨rfl, rfl⟩ | ⟨key', h'⟩)
          exacts [⟨key, .inr ⟨rfl, rfl, rfl⟩⟩, ⟨key', .inl h'⟩]
        · rintro ⟨key', h' | ⟨rfl, rfl, rfl⟩⟩
          exacts [.inr ⟨key', h'⟩, .inl ⟨rfl, rfl⟩]
      · rw [hdel, h.deleted]
        simp
      · rw [hk, h.keys]
        simp only [mem_append, mem_singleton, or_and_right, exists_or, exists_eq_left,
          Row.keyed, Row.map_mk_eq_some]
  | deleted id =>
    obtain rfl := Except.ok.inj hrow
    refine ⟨fun id' v => ?_, fun id' d => ?_, fun id' => ?_, fun id' k => ?_⟩
    · rw [h.vectors]
      simp
    · rw [h.documents]
      simp
    · rw [Finset.mem_insert, h.deleted]
      simp [or_comm]
    · rw [h.keys]
      simp [Row.keyed, or_false]

lemma applyRow_returns (h : R.Holds done) {row : Row F D} (hc : Consistent (done ++ [row])) :
    ∃ R', R.applyRow bucket row = .ok R' := by
  have hkeys : ∀ id key, row.keyed = key.map (id, ·) → ∀ k k', key = some k →
      (id, k') ∈ R.stableKeys.entries → k' = k := by
    intro id key hrow k k' hk hmem
    obtain ⟨row', hrow', hkeyed⟩ := (h.keys id k').1 hmem
    refine hc.keys row' (mem_append_left _ hrow') row (by simp) id k' k hkeyed ?_
    rw [hrow, hk, Option.map_some]
  cases row with
  | vector id v key =>
    have hfresh : R.vectors.get? id = none := by
      refine Option.eq_none_iff_forall_ne_some.2 fun v' hv' => ?_
      obtain ⟨key', hmem⟩ := (h.vectors id v').1 (OrderedMap.get?_eq_some.1 hv')
      have hnd := hc.vectors
      rw [filterMap_append] at hnd
      exact (nodup_append.1 hnd).2.2 id (mem_filterMap.2 ⟨_, hmem, rfl⟩) id
        (by simp [Row.vectorId?]) rfl
    rw [Replay.applyRow, hfresh]
    exact learnKey_returns (hkeys id key rfl)
  | document id d key =>
    have hfresh : R.documents.get? id = none := by
      refine Option.eq_none_iff_forall_ne_some.2 fun d' hd' => ?_
      obtain ⟨key', hmem⟩ := (h.documents id d').1 (OrderedMap.get?_eq_some.1 hd')
      have hnd := hc.documents
      rw [filterMap_append] at hnd
      exact (nodup_append.1 hnd).2.2 id (mem_filterMap.2 ⟨_, hmem, rfl⟩) id
        (by simp [Row.documentId?]) rfl
    rw [Replay.applyRow, hfresh]
    exact learnKey_returns (hkeys id key rfl)
  | deleted id => exact ⟨_, rfl⟩

end Replay

/-! ## Replays that return -/

section

variable {cx : Replaying} {bucket : ℕ} {out out' : Replay F D}

lemma add_rowId {firstId id : U64} {i : ℕ}
    (h : (add cx.checks firstId (wrap i) : Outcome U64) = .ok id) : id = rowId firstId i := by
  rw [exactly_ok h, rowId]
  simp [wrap, Nat.add_mod]

lemma replayVectorRow_ok {firstId : U64} {rows : ℕ} {keys : List Key} {row : List F × ℕ}
    (h : replayVectorRow cx bucket firstId rows keys out row = .ok out') :
    out.applyRow bucket (.vector (rowId firstId row.2) row.1 keys[row.2]?) = .ok out' := by
  obtain ⟨_, _, id, hid, _, _, h⟩ := bind₃_ok.1 h
  rwa [add_rowId hid] at h

lemma replayDocumentRow_ok {firstId : U64} {keys : List Key} {row : D × ℕ}
    (h : replayDocumentRow cx bucket firstId keys out row = .ok out') :
    out.applyRow bucket (.document (rowId firstId row.2) row.1 keys[row.2]?) = .ok out' := by
  obtain ⟨id, hid, _, _, h⟩ := bind₂_ok.1 h
  rwa [add_rowId hid] at h

lemma replayOp_ok {op : Option (Op F D M)} (h : replayOp cx bucket out op = .ok out') :
    (rowsOf cx.dim cx.vectorsOnly op).foldlM (Replay.applyRow bucket) out = .ok out' := by
  match op with
  | some (.addVectors firstId vectors keys) =>
    obtain ⟨_, _, _, _, h⟩ := bind₂_ok.1 h
    rw [rowsOf, foldlM_map]
    exact foldlM_ok_mono (fun _ _ _ _ => replayVectorRow_ok) h
  | some (.addDocuments firstId documents keys) =>
    obtain ⟨_, _, h⟩ := bind_ok.1 h
    rw [rowsOf]
    by_cases hv : cx.vectorsOnly = true
    · rw [if_pos hv] at h ⊢
      exact h
    · rw [if_neg hv] at h ⊢
      obtain ⟨_, _, h⟩ := bind_ok.1 h
      rw [foldlM_map]
      exact foldlM_ok_mono (fun _ _ _ _ => replayDocumentRow_ok) h
  | some (.bind _) => cases h
  | some (.deleteDocument docId) | some (.replacement oldDocId _) =>
    obtain ⟨_, _, h⟩ := bind_ok.1 h
    exact foldlM_cons_ok.2 ⟨out', h, rfl⟩
  | some .flush | some (.snapshot _) | none => exact h

lemma Replay.Holds.replayOp {done : List (Row F D)} (hI : out.Holds done)
    {op : Option (Op F D M)} (h : replayOp cx bucket out op = .ok out') :
    out'.Holds (done ++ rowsOf cx.dim cx.vectorsOnly op) := by
  rw [← flatMap_singleton' (rowsOf cx.dim cx.vectorsOnly op)]
  exact foldlM_rows (fun row _ s t done hs ht => hs.applyRow ht) hI (replayOp_ok h)

/-- The rows of some bucket files of a log. -/
def fileRows (dim : ℕ) (vectorsOnly : Bool) (file : ℕ → List (WalRecord F D M))
    (buckets : List ℕ) : List (Row F D) :=
  buckets.flatMap fun bucket => (file bucket).flatMap fun record => rowsOf dim vectorsOnly record.op

/-- A replay that returns has added exactly the rows of the files. -/
lemma Replay.Holds.replayBucketsRouted {done : List (Row F D)} (hI : out.Holds done)
    (hcx : cx.uptoClock = none) {file : ℕ → List (WalRecord F D M)} {buckets : List ℕ}
    (h : replayBucketsRouted cx file buckets out = .ok out') :
    out'.Holds (done ++ fileRows cx.dim cx.vectorsOnly file buckets) := by
  refine foldlM_rows (fun bucket _ s t done hs ht => ?_) hI h
  refine foldlM_rows (fun record _ s t done hs ht => ?_) hs ht
  rw [replayRecord, hcx] at ht
  exact hs.replayOp ht

end

/-! ## Records that are not refused -/

/-- A record that passes the checks of the bucket file it is read from. -/
def OpOk (bucketCount dim bucket : ℕ) : Option (Op F D M) → Prop
  | some (.addVectors firstId vectors keys) =>
    bucketOf firstId bucketCount = bucket ∧ dim ∣ vectors.length ∧
      (keys = [] ∨ keys.length = vectors.length / dim) ∧
      ∀ i < vectors.length / dim,
        firstId.val + i < 2 ^ 64 ∧ bucketOf (rowId firstId i) bucketCount = bucket
  | some (.addDocuments firstId documents keys) =>
    bucketOf firstId bucketCount = bucket ∧ (keys = [] ∨ keys.length = documents.length) ∧
      ∀ i < documents.length,
        firstId.val + i < 2 ^ 64 ∧ bucketOf (rowId firstId i) bucketCount = bucket
  | some (.deleteDocument docId) => bucketOf docId bucketCount = bucket
  | some (.replacement oldDocId _) => bucketOf oldDocId bucketCount = bucket
  | some (.bind _) => False
  | _ => True

section

variable {cx : Replaying} {bucket : ℕ} {out : Replay F D}

lemma add_rowId_of_lt {firstId : U64} {i : ℕ} (h : firstId.val + i < 2 ^ 64) :
    (add cx.checks firstId (wrap i) : Outcome U64) = .ok (rowId firstId i) := by
  unfold add
  rw [wrap_val (by omega), exactly_of_lt h, rowId]

lemma strays_eq_false {id : U64} (h : bucketOf id cx.bucketCount = bucket) :
    cx.strays bucket id = false := by
  simp [Replaying.strays, h]

lemma snd_lt_of_mem_zipIdx {α : Type*} {l : List α} {row : α × ℕ} (h : row ∈ l.zipIdx) :
    row.2 < l.length := by
  obtain ⟨-, h, -⟩ := mem_zipIdx (x := row.1) (i := row.2) h
  simpa using h

@[simp] lemma length_chunksExact {dim : ℕ} {l : List F} :
    (chunksExact dim l).length = l.length / dim := by
  simp [chunksExact]

/-- A record in order adds its rows and nothing else stops it. -/
lemma replayOp_of_ok {op : Option (Op F D M)} (hdim : cx.dim ≠ 0)
    (h : OpOk cx.bucketCount cx.dim bucket op) {out' : Replay F D}
    (hrows : (rowsOf cx.dim cx.vectorsOnly op).foldlM (Replay.applyRow bucket) out = .ok out') :
    replayOp cx bucket out op = .ok out' := by
  match op with
  | some (.addVectors firstId vectors keys) =>
    obtain ⟨hfst, _, hkeys, hrow⟩ := h
    have hcnt : ¬(keys ≠ [] ∧ keys.length ≠ vectors.length / cx.dim) := by tauto
    rw [rowsOf, foldlM_map] at hrows
    rw [replayOp, strays_eq_false hfst, decide_eq_false (by tauto)]
    refine foldlM_ok_mono (fun row hmem s t hs => ?_) hrows
    obtain ⟨hlt, hroute⟩ := hrow row.2 (by simpa using snd_lt_of_mem_zipIdx hmem)
    rw [replayVectorRow, decide_eq_false hcnt, add_rowId_of_lt hlt]
    simp only [refuseIf_false, ok_bind, strays_eq_false hroute]
    exact hs
  | some (.addDocuments firstId documents keys) =>
    obtain ⟨hfst, hkeys, hrow⟩ := h
    have hcnt : ¬(keys ≠ [] ∧ keys.length ≠ documents.length) := by tauto
    rw [rowsOf] at hrows
    rw [replayOp, strays_eq_false hfst]
    by_cases hv : cx.vectorsOnly = true
    · rw [if_pos hv] at hrows ⊢
      exact hrows
    · rw [if_neg hv, foldlM_map] at hrows
      rw [if_neg hv, decide_eq_false hcnt]
      refine foldlM_ok_mono (fun row hmem s t hs => ?_) hrows
      obtain ⟨hlt, hroute⟩ := hrow row.2 (snd_lt_of_mem_zipIdx hmem)
      rw [replayDocumentRow, add_rowId_of_lt hlt]
      simp only [refuseIf_false, ok_bind, strays_eq_false hroute]
      exact hs
  | some (.bind _) => exact h.elim
  | some (.deleteDocument docId) | some (.replacement docId _) =>
    obtain ⟨t, ht, hend⟩ := foldlM_cons_ok.1 hrows
    obtain rfl := Except.ok.inj hend
    have hroute : bucketOf docId cx.bucketCount = bucket := h
    rw [replayOp, decide_eq_false (not_not.2 hroute)]
    exact ht
  | some .flush | some (.snapshot _) | none => exact hrows

lemma consistent_of_append {a b : List (Row F D)} (h : Consistent (a ++ b)) : Consistent a :=
  h.sublist (sublist_append_left a b)

lemma replayOp_returns {done : List (Row F D)} (hI : out.Holds done) {op : Option (Op F D M)}
    (hdim : cx.dim ≠ 0) (h : OpOk cx.bucketCount cx.dim bucket op)
    (hc : Consistent (done ++ rowsOf cx.dim cx.vectorsOnly op)) :
    ∃ out', replayOp cx bucket out op = .ok out' := by
  rw [← flatMap_singleton' (rowsOf cx.dim cx.vectorsOnly op)] at hc
  obtain ⟨out', hout'⟩ := foldlM_returns consistent_of_append
    (fun row _ s t done hs (ht : s.applyRow bucket row = .ok t) => hs.applyRow ht)
    (fun row _ s done hs hc => Replay.applyRow_returns hs hc) hI hc
  exact ⟨out', replayOp_of_ok hdim h hout'⟩

/-- **Files of records in order, with consistent rows, are replayed.** -/
theorem replayBucketsRouted_returns {done : List (Row F D)} (hI : out.Holds done)
    (hcx : cx.uptoClock = none) (hdim : cx.dim ≠ 0) {file : ℕ → List (WalRecord F D M)}
    {buckets : List ℕ}
    (hok : ∀ bucket ∈ buckets, ∀ record ∈ file bucket, OpOk cx.bucketCount cx.dim bucket record.op)
    (hc : Consistent (done ++ fileRows cx.dim cx.vectorsOnly file buckets)) :
    ∃ out', replayBucketsRouted cx file buckets out = .ok out' := by
  have hstep : ∀ bucket, ∀ record : WalRecord F D M, ∀ s t : Replay F D, ∀ done, s.Holds done →
      replayRecord cx bucket s record = .ok t →
      t.Holds (done ++ rowsOf cx.dim cx.vectorsOnly record.op) := by
    intro bucket record s t done hs ht
    rw [replayRecord, hcx] at ht
    exact hs.replayOp ht
  refine foldlM_returns consistent_of_append (fun bucket _ s t done hs ht =>
      foldlM_rows (fun record _ s t done hs ht => hstep bucket record s t done hs ht) hs ht)
    (fun bucket hb s done hs hc => ?_) hI hc
  refine foldlM_returns consistent_of_append
    (fun record _ s t done hs ht => hstep bucket record s t done hs ht)
    (fun record hr s done hs hc => ?_) hs hc
  rw [replayRecord, hcx]
  exact replayOp_returns hs hdim (hok bucket hb record hr) hc

end

end ProtomoltSearch.Reshard
