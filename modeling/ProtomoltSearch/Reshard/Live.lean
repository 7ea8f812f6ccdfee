import ProtomoltSearch.Reshard.Split

/-!
# The live rows of logs

A row is live when a record adds it and no record deletes or replaces its id. In well-formed logs
every record of an id is in one bucket file, so replaying some of the files of every log and
dropping the hidden rows leaves the live rows of those buckets (`replayLogs_isShare`), and the
replay is not refused (`replayLogs_returns`).
-/

namespace ProtomoltSearch.Reshard

open Wal List

variable {F D M C : Type}

def allRows (vectorsOnly : Bool) (logs : List (Log F D M C)) : List (Row F D) :=
  logs.flatMap fun l => fileRows l.dim vectorsOnly l.file (List.range l.bucketCount)

def LiveVector (rows : List (Row F D)) (id : U64) (v : List F) : Prop :=
  (∃ key, Row.vector id v key ∈ rows) ∧ Row.deleted id ∉ rows

def LiveDocument (rows : List (Row F D)) (id : U64) (d : D) : Prop :=
  (∃ key, Row.document id d key ∈ rows) ∧ Row.deleted id ∉ rows

def LiveId (rows : List (Row F D)) (id : U64) : Prop :=
  (∃ v, LiveVector rows id v) ∨ ∃ d, LiveDocument rows id d

/-- Well-formed full-history logs of one dataset: one configuration, geometry and binding, records
in the files they route to, and rows that agree. -/
structure WellFormed (env : Env F D M C) (logs : List (Log F D M C)) : Prop where
  nonempty : logs ≠ []
  configured : ∀ l ∈ logs, l.dim ≠ 0 ∧ l.backendConfig.any (env.usable l.dim) = true
  complete : ∀ l ∈ logs, l.preexistingVectors = 0 ∧ l.preexistingDocuments = 0
  uniform : ∀ l ∈ logs, ∀ l' ∈ logs, l.collection = l'.collection ∧ l.dim = l'.dim ∧
    l.backendConfig = l'.backendConfig ∧ l.bucketBits = l'.bucketBits
  validBindings : ∀ l ∈ logs, ∀ r ∈ l.markers, ∀ b, r.op = some (.bind b) → env.badBinding b = none
  oneBinding : ∀ l ∈ logs, ∀ r ∈ l.markers, ∀ b, r.op = some (.bind b) →
    ∀ l' ∈ logs, ∀ r' ∈ l'.markers, ∀ b', r'.op = some (.bind b') → b = b'
  records : ∀ l ∈ logs, ∀ bucket < l.bucketCount, ∀ r ∈ l.file bucket,
    OpOk l.bucketCount l.dim bucket r.op
  consistent : Consistent (allRows false logs)

/-- Every row of a record in order is about an id of the file's bucket. -/
lemma bucketOf_of_mem_rowsOf {bucketCount dim bucket : ℕ} {vectorsOnly : Bool}
    {op : Option (Op F D M)} (h : OpOk bucketCount dim bucket op) {row : Row F D}
    (hrow : row ∈ rowsOf dim vectorsOnly op) : bucketOf row.id bucketCount = bucket := by
  match op with
  | some (.addVectors firstId vectors keys) =>
    obtain ⟨-, -, -, hroute⟩ := h
    obtain ⟨p, hp, rfl⟩ := mem_map.1 hrow
    exact (hroute p.2 (by simpa using snd_lt_of_mem_zipIdx hp)).2
  | some (.addDocuments firstId documents keys) =>
    obtain ⟨-, -, hroute⟩ := h
    rw [rowsOf] at hrow
    split at hrow
    · exact absurd hrow not_mem_nil
    · obtain ⟨p, hp, rfl⟩ := mem_map.1 hrow
      exact (hroute p.2 (snd_lt_of_mem_zipIdx hp)).2
  | some (.deleteDocument docId) | some (.replacement oldDocId _) =>
    obtain rfl := mem_singleton.1 hrow
    exact h
  | some (.bind _) => exact h.elim
  | some .flush | some (.snapshot _) | none => exact absurd hrow not_mem_nil

lemma rowsOf_sublist (dim : ℕ) (vectorsOnly : Bool) (op : Option (Op F D M)) :
    (rowsOf dim vectorsOnly op).Sublist (rowsOf dim false op) := by
  cases vectorsOnly with
  | false => exact List.Sublist.refl _
  | true =>
    match op with
    | some (.addDocuments _ _ _) => exact nil_sublist _
    | some (.addVectors _ _ _) | some (.deleteDocument _) | some .flush => exact List.Sublist.refl _
    | some (.replacement _ _) | some (.bind _) | some (.snapshot _) => exact List.Sublist.refl _
    | none => exact List.Sublist.refl _

lemma flatMap_sublist {α β : Type*} {l l' : List α} {f g : α → List β} (hl : l.Sublist l')
    (h : ∀ x ∈ l, (f x).Sublist (g x)) : (l.flatMap f).Sublist (l'.flatMap g) := by
  induction hl with
  | slnil => exact List.Sublist.refl _
  | cons a _ ih => exact (ih h).trans (sublist_append_right _ _)
  | cons_cons a _ ih =>
    exact (h a mem_cons_self).append (ih fun x hx => h x (mem_cons_of_mem _ hx))

section

variable {env : Env F D M C} {logs : List (Log F D M C)} {first : Log F D M C} {vectorsOnly : Bool}
  {checks : Bool} {buckets : List ℕ}

def bucketRows (dim : ℕ) (vectorsOnly : Bool) (logs : List (Log F D M C)) (buckets : List ℕ) :
    List (Row F D) :=
  logs.flatMap fun l => fileRows dim vectorsOnly l.file buckets

/-- In well-formed logs, the rows of some buckets are the rows of the ids that hash to them. -/
lemma WellFormed.mem_bucketRows (hwf : WellFormed env logs) (hfst : first ∈ logs)
    (hb : ∀ bucket ∈ buckets, bucket < first.bucketCount) {row : Row F D} :
    row ∈ bucketRows first.dim vectorsOnly logs buckets ↔
      row ∈ allRows vectorsOnly logs ∧ bucketOf row.id first.bucketCount ∈ buckets := by
  have hcnt : ∀ l ∈ logs, l.dim = first.dim ∧ l.bucketCount = first.bucketCount := by
    intro l hl
    obtain ⟨-, hdim, -, hbits⟩ := hwf.uniform l hl first hfst
    exact ⟨hdim, by rw [Log.bucketCount, hbits, Log.bucketCount]⟩
  simp only [bucketRows, allRows, fileRows, mem_flatMap, mem_range]
  constructor
  · rintro ⟨l, hl, bucket, hbkt, r, hr, hrow⟩
    have hlt := hb bucket hbkt
    have hok := hwf.records l hl bucket ((hcnt l hl).2 ▸ hlt) r hr
    rw [(hcnt l hl).1, (hcnt l hl).2] at hok
    rw [bucketOf_of_mem_rowsOf hok hrow]
    exact ⟨⟨l, hl, bucket, (hcnt l hl).2 ▸ hlt, r, hr, (hcnt l hl).1 ▸ hrow⟩, hbkt⟩
  · rintro ⟨⟨l, hl, bucket, hlt, r, hr, hrow⟩, hmem⟩
    have hok := hwf.records l hl bucket hlt r hr
    rw [← (hcnt l hl).2, bucketOf_of_mem_rowsOf hok hrow] at hmem
    exact ⟨l, hl, bucket, hmem, r, hr, (hcnt l hl).1 ▸ hrow⟩

/-- Some buckets of consistent logs are consistent. -/
lemma WellFormed.consistent_bucketRows (hwf : WellFormed env logs) (hfst : first ∈ logs)
    (hb : buckets.Sublist (List.range first.bucketCount)) :
    Consistent (bucketRows first.dim vectorsOnly logs buckets) := by
  refine hwf.consistent.sublist (flatMap_sublist (List.Sublist.refl _) fun l hl => ?_)
  obtain ⟨-, hdim, -, hbits⟩ := hwf.uniform l hl first hfst
  rw [Log.bucketCount, ← hbits] at hb
  rw [← hdim]
  exact flatMap_sublist hb fun bucket _ =>
    flatMap_sublist (List.Sublist.refl _) fun r _ => rowsOf_sublist _ _ _

lemma replayLogs_holds {cx : Replaying} (hcx : cx.uptoClock = none) {R : Replay F D}
    (h : replayLogs cx logs buckets = .ok R) :
    R.Holds (bucketRows cx.dim cx.vectorsOnly logs buckets) := by
  exact foldlM_rows (fun _ _ _ _ _ hs ht => hs.replayBucketsRouted hcx ht) Replay.holds_empty h

lemma WellFormed.replayLogs_returns (hwf : WellFormed env logs) (hfst : first ∈ logs)
    (hb : buckets.Sublist (List.range first.bucketCount)) :
    ∃ R, replayLogs (replaying checks first vectorsOnly) logs buckets = .ok R := by
  have hc : Consistent ([] ++ bucketRows first.dim vectorsOnly logs buckets) :=
    hwf.consistent_bucketRows hfst hb
  refine foldlM_returns consistent_of_append
    (fun _ _ _ _ _ hs ht => hs.replayBucketsRouted rfl ht) (fun l hl s done hs hc => ?_)
    Replay.holds_empty hc
  obtain ⟨-, hdim, -, hbits⟩ := hwf.uniform l hl first hfst
  refine replayBucketsRouted_returns hs rfl (hwf.configured first hfst).1 ?_ hc
  intro bucket hbkt r hr
  have hlt := mem_range.1 (hb.subset hbkt)
  have hcnt : l.bucketCount = first.bucketCount := by rw [Log.bucketCount, hbits, Log.bucketCount]
  have := hwf.records l hl bucket (hcnt ▸ hlt) r hr
  rwa [hcnt, hdim] at this

end

/-- A share: exactly the live rows whose ids pass the test. -/
structure Replay.IsShare (R : Replay F D) (rows : List (Row F D)) (p : U64 → Prop) : Prop where
  vectors : ∀ id v, (id, v) ∈ R.vectors.entries ↔ LiveVector rows id v ∧ p id
  documents : ∀ id d, (id, d) ∈ R.documents.entries ↔ LiveDocument rows id d ∧ p id

namespace Replay.IsShare

variable {R R' : Replay F D} {rows rows' : List (Row F D)} {p : U64 → Prop}

section

variable (h : R.IsShare rows p)

include h

lemma mem_childOrder {id : U64} : id ∈ childOrder R ↔ LiveId rows id ∧ p id := by
  rw [Reshard.mem_childOrder, OrderedMap.mem_keys, OrderedMap.mem_keys, LiveId]
  simp only [h.vectors, h.documents]
  grind

lemma mem_ids {id : U64} : id ∈ R.ids ↔ LiveId rows id ∧ p id := by
  rw [← h.mem_childOrder, Reshard.mem_childOrder]
  simp [Replay.ids]

/-- Shares of the same live rows have the same rows in the same order. -/
lemma image_eq (h' : R'.IsShare rows' p)
    (hv : ∀ id v, LiveVector rows id v ↔ LiveVector rows' id v)
    (hd : ∀ id d, LiveDocument rows id d ↔ LiveDocument rows' id d) (slotOffset hashLo hashHi : U64) :
    imageOf R slotOffset hashLo hashHi = imageOf R' slotOffset hashLo hashHi := by
  have hvecs : R.vectors = R'.vectors := OrderedMap.ext_mem fun e => by
    rw [h.vectors, h'.vectors, hv]
  have hdocs : R.documents = R'.documents := OrderedMap.ext_mem fun e => by
    rw [h.documents, h'.documents, hd]
  simp only [imageOf, orderedDocuments, childOrder, hvecs, hdocs]

/-- A share of a share. -/
lemma share (n i : ℕ) : (R.share n i).IsShare rows fun id => p id ∧ bucketOf id n = i where
  vectors id v := by
    rw [Replay.share, OrderedMap.mem_filter, h.vectors, decide_eq_true_eq, and_assoc]
  documents id d := by
    rw [Replay.share, OrderedMap.mem_filter, h.documents, decide_eq_true_eq, and_assoc]

lemma congr {q : U64 → Prop} (hpq : ∀ id, p id ↔ q id) : R.IsShare rows q where
  vectors id v := by rw [h.vectors, hpq]
  documents id d := by rw [h.documents, hpq]

end

end Replay.IsShare

lemma compact_of_deleted_empty {R : Replay F D} (h : R.deleted = ∅) : R.compact = R := by
  unfold Replay.compact
  cases R
  simp_all [OrderedMap.filter_eq_self]

/-- Dropping the hidden rows leaves the live ones. -/
lemma Replay.Holds.compact {R : Replay F D} {rows : List (Row F D)} (h : R.Holds rows) :
    R.compact.IsShare rows fun _ => True where
  vectors id v := by
    rw [Replay.compact, OrderedMap.mem_filter, h.vectors, decide_eq_true_eq, h.deleted, LiveVector,
      and_true]
  documents id d := by
    rw [Replay.compact, OrderedMap.mem_filter, h.documents, decide_eq_true_eq, h.deleted,
      LiveDocument, and_true]

/-- **A replay of some buckets is a share of the live rows.** -/
theorem WellFormed.replayLogs_isShare {env : Env F D M C} {logs : List (Log F D M C)}
    {first : Log F D M C} {checks vectorsOnly : Bool} {buckets : List ℕ} (hwf : WellFormed env logs)
    (hfst : first ∈ logs) (hb : ∀ bucket ∈ buckets, bucket < first.bucketCount) {R : Replay F D}
    (h : replayLogs (replaying checks first vectorsOnly) logs buckets = .ok R) :
    R.compact.IsShare (allRows vectorsOnly logs)
    fun id => bucketOf id first.bucketCount ∈ buckets := by
  have hshare := (replayLogs_holds rfl h).compact
  have hmem : ∀ row, row ∈ bucketRows first.dim vectorsOnly logs buckets ↔
      row ∈ allRows vectorsOnly logs ∧ bucketOf row.id first.bucketCount ∈ buckets :=
    fun _ => hwf.mem_bucketRows hfst hb
  change R.compact.IsShare (bucketRows first.dim vectorsOnly logs buckets) _ at hshare
  refine ⟨fun id v => ?_, fun id d => ?_⟩
  · rw [hshare.vectors, LiveVector, LiveVector]
    simp only [hmem, Row.id]
    grind
  · rw [hshare.documents, LiveDocument, LiveDocument]
    simp only [hmem, Row.id]
    grind

end ProtomoltSearch.Reshard
