import ProtomoltSearch.Catalog.History

/-!
# Reading the accepted history

`read_accepted` returns a prefix of the accepted history from a cursor on, as much as a page may
hold. Whether a document fits is judged by a lower bound on its size and then by its encoded length,
so it is left for the next page only when it does not fit (`readDocument_eq`). Pages that may hold any
one document, read one after the other with writes in between, give the history to the fence
(`Calls.readPages_eq`).
-/

namespace ProtomoltSearch.Catalog

open List Accepted

variable {D S : Type} [DecidableEq D]

/-! ## Encoded lengths -/

/-- The bytes of a varint: seven bits each. -/
def varintLen (n : ℕ) : ℕ := (Nat.log2 (n ||| 1) * 9 + 73) / 64

/-- A field with a length, left out when it is empty. The field numbers all fit one byte. -/
def bytesField (length : ℕ) : ℕ := if length = 0 then 0 else 1 + varintLen length + length

/-- A number, left out when it is zero. -/
def uintField (n : ℕ) : ℕ := if n = 0 then 0 else 1 + varintLen n

def ProtobufSource.encodedLen (source : ProtobufSource) : ℕ :=
  bytesField source.descriptorSet.length + bytesField source.messageType.utf8ByteSize +
    bytesField source.payload.length

/-- A source record holds the 32 bytes of its descriptor's digest. -/
def SourceRecord.encodedLen (record : SourceRecord D) : ℕ :=
  bytesField 32 + bytesField record.messageType.utf8ByteSize + bytesField record.payload.length

/-- What a page says of one accepted version; a deletion has no source. -/
structure AcceptedDocumentVersion where
  documentKey : Bytes
  version : ℕ
  acceptedSequence : ℕ
  mutation : Option ProtobufSource
  writeEpoch : ℕ
  fenced : Bool
  fencedAtRevision : ℕ
  deriving DecidableEq

def AcceptedDocumentVersion.encodedLen (document : AcceptedDocumentVersion) : ℕ :=
  bytesField document.documentKey.length + uintField document.version +
    uintField document.acceptedSequence +
    (match document.mutation with
      | some source => 1 + varintLen source.encodedLen + source.encodedLen
      | none => 2) +
    uintField document.writeEpoch + (if document.fenced then 2 else 0) +
    uintField document.fencedAtRevision

structure ReadAcceptedDocumentsRequest where
  afterSequence : ℕ
  limit : ℕ
  throughSequence : Option ℕ
  maxBytes : ℕ
  historyId : Bytes

structure ReadAcceptedDocumentsResponse where
  documents : List AcceptedDocumentVersion
  throughSequence : ℕ
  nextSequence : ℕ
  complete : Bool
  historyId : Bytes
  deriving DecidableEq

/-! ## Reading -/

/-- `DocumentCatalog::source_fits`. -/
def sourceFits (db : Database D) (version : DocumentVersion D) (budget : ℕ) :
    Except Status Bool := do
  let record ← okOr (version.sourceSha256.bind (db.sources.lookup ·))
    (Status.dataLoss "document source missing")
  let lowerBound := record.encodedLen - 34
  if budget < lowerBound then return false
  let descriptor ← okOr (db.descriptors.lookup record.descriptorSha256)
    (Status.dataLoss "document descriptor missing")
  return decide (min (lowerBound + descriptor.length) (2 ^ 64 - 1) ≤ budget)

def loadSource (sha : Sha256 D S) (db : Database D) (sourceSha256 : Option D) :
    Except Status ProtobufSource := do
  let record ← okOr (sourceSha256.bind (db.sources.lookup ·))
    (Status.dataLoss "document source missing")
  refuseIf (some (sha.source record) != sourceSha256)
    (.dataLoss "document source checksum mismatch")
  let descriptor ← okOr (db.descriptors.lookup record.descriptorSha256)
    (Status.dataLoss "document descriptor missing")
  refuseIf (sha.descriptor descriptor != record.descriptorSha256)
    (.dataLoss "document descriptor checksum mismatch")
  return ⟨descriptor, record.messageType, record.payload⟩

/-- `DocumentCatalog::get_from`: the head of a key, or one of its versions. -/
def getFrom (sha : Sha256 D S) (db : Database D) (key : Bytes) (version : Option ℕ) :
    Except Status (Option (DocumentVersion D × Option ProtobufSource)) :=
  match version.elim (db.heads.lookup key) fun version => db.versions.lookup ⟨key, version⟩ with
  | none => .ok none
  | some document => do
    refuseIf (document.documentKey != key || version.any (document.version != ·))
      (.dataLoss "document key/version mismatch")
    if document.deleted then return some (document, none)
    let source ← loadSource sha db document.sourceSha256
    return some (document, some source)

/-- A version that is found is the one asked for. -/
lemma getFrom_eq_some {sha : Sha256 D S} {db : Database D} {key : Bytes} {version : ℕ}
    {document : DocumentVersion D} {source : Option ProtobufSource}
    (h : getFrom sha db key (some version) = .ok (some (document, source))) :
    db.versions.lookup ⟨key, version⟩ = some document ∧ document.key = ⟨key, version⟩ := by
  unfold getFrom at h
  cases hlook : db.versions.lookup ⟨key, version⟩ with
  | none =>
    simp only [Option.elim_some, hlook] at h
    cases h
  | some held =>
    simp only [Option.elim_some, hlook] at h
    obtain ⟨⟨⟩, hsame, h⟩ := bind_ok.1 h
    obtain ⟨hkey, hver⟩ : held.documentKey = key ∧ held.version = version := by
      simpa using refuseIf_ok.1 hsame
    have hheld : held = document := by
      split at h
      · exact (Prod.mk.inj (Option.some.inj (pure_ok.1 h))).1
      · obtain ⟨_, h⟩ := rest_ok h
        exact (Prod.mk.inj (Option.some.inj (pure_ok.1 h))).1
    subst hheld
    exact ⟨rfl, by rw [DocumentVersion.key, hkey, hver]⟩

/-- The first test of a version: a deletion always passes. -/
def mayFit (db : Database D) (metadata : DocumentVersion D) (remaining : ℕ) : Except Status Bool :=
  if metadata.deleted then .ok true else sourceFits db metadata remaining

/-- The version a sequence names, if it fits what is left of the page. -/
def readDocument (sha : Sha256 D S) (db : Database D) (sequence remaining : ℕ) :
    Except Status (Option AcceptedDocumentVersion) := do
  let key ← okOr (db.changes.lookup sequence) (Status.dataLoss "accepted history sequence missing")
  let metadata ← okOr (db.versions.lookup key) (Status.dataLoss "accepted history version missing")
  let fits ← mayFit db metadata remaining
  if !fits then return none
  let found ← getFrom sha db key.documentKey (some key.version)
  let (version, source) ← okOr found (Status.dataLoss "accepted history version missing")
  refuseIf (version.acceptedSequence != sequence)
    (.dataLoss "accepted history sequence/version mismatch")
  let document : AcceptedDocumentVersion :=
    { documentKey := version.documentKey
      version := version.version
      acceptedSequence := sequence
      mutation := source
      writeEpoch := version.writeEpoch
      fenced := version.outcome == .fenced
      fencedAtRevision := version.fencedAtRevision }
  return if remaining < document.encodedLen then none else some document

/-- The page from a sequence on: so many sequences are left to the fence. -/
def readLoop (sha : Sha256 D S) (db : Database D) (limit : ℕ) :
    ℕ → ℕ → ℕ → List AcceptedDocumentVersion → ℕ → Except Status (List AcceptedDocumentVersion × ℕ)
  | 0, _, _, documents, next => .ok (documents, next)
  | left + 1, sequence, remaining, documents, next =>
    if documents.length = limit then .ok (documents, next)
    else do
      match ← readDocument sha db sequence remaining with
      | none =>
        refuseIf documents.isEmpty (.resourceExhausted "accepted version exceeds max_bytes")
        return (documents, next)
      | some document =>
        readLoop sha db limit left (sequence + 1) (remaining - document.encodedLen)
          (documents ++ [document]) sequence

/-- The cursor of a page belongs to this history. -/
def checkCursor (header : DocumentCatalogHeader) (request : ReadAcceptedDocumentsRequest) :
    Except Status Unit :=
  if request.historyId.isEmpty then
    refuseIf (request.afterSequence != 0 || request.throughSequence.any (· != 0))
      (.invalidArgument "resuming accepted history requires history_id")
  else do
    refuseIf (!validHistoryId request.historyId)
      (.invalidArgument "history_id must be a nonzero 16-byte value")
    refuseIf (request.historyId != header.historyId)
      (.failedPrecondition "accepted cursor belongs to another catalog history")

/-- `DocumentCatalog::read_accepted`. -/
def readAccepted (sha : Sha256 D S) (db : Database D) (request : ReadAcceptedDocumentsRequest) :
    Except Status ReadAcceptedDocumentsResponse := do
  refuseIf (!(decide (1 ≤ request.limit ∧ request.limit ≤ 1000)))
    (.invalidArgument "accepted history limit must be 1 to 1000")
  refuseIf (!(decide (1 ≤ request.maxBytes ∧ request.maxBytes ≤ 64 * 1024 * 1024)))
    (.invalidArgument "accepted history max_bytes must be 1 to 64 MiB")
  validateCurrentHeader db.header
  checkCursor db.header request
  let fence := request.throughSequence.getD db.header.acceptedSequence
  refuseIf (decide (db.header.acceptedSequence < fence) || decide (fence < request.afterSequence))
    (.invalidArgument "accepted history cursor exceeds its fence or committed history")
  let (documents, next) ← readLoop sha db request.limit (fence - request.afterSequence)
    (request.afterSequence + 1) request.maxBytes [] request.afterSequence
  return ⟨documents, fence, next, next == fence, db.header.historyId⟩

/-! ## What is read of an accepted write -/

/-- What a page says of an accepted write. -/
def Accepted.page (a : Accepted) : AcceptedDocumentVersion where
  documentKey := a.receipt.documentKey
  version := a.receipt.version
  acceptedSequence := a.receipt.acceptedSequence
  mutation := a.request.mutation.bind fun m => match m with
    | .source source => some source
    | .delete _ => none
  writeEpoch := a.receipt.writeEpoch
  fenced := false
  fencedAtRevision := 0

variable {catalog : DocumentCatalog} {sha : Sha256 D S} {db : Database D} {log : List Accepted}
  {a : Accepted} {source : ProtobufSource}

omit [DecidableEq D] in
/-- The lower bound is below the encoded length. -/
lemma lowerBound_le (sha : Sha256 D S) (hsrc : a.request.mutation = some (.source source)) :
    (sourceRecord sha source).encodedLen - 34 + source.descriptorSet.length ≤ a.page.encodedLen := by
  have hrec : (sourceRecord sha source).encodedLen - 34 =
      bytesField source.messageType.utf8ByteSize + bytesField source.payload.length := by
    have h34 : bytesField 32 = 34 := by decide
    simp only [SourceRecord.encodedLen, sourceRecord, h34]
    omega
  have hdesc : source.descriptorSet.length ≤ bytesField source.descriptorSet.length := by
    unfold bytesField
    split <;> omega
  have hpage : source.encodedLen ≤ a.page.encodedLen := by
    simp only [AcceptedDocumentVersion.encodedLen, page, hsrc, Option.bind_some]
    omega
  have hlen : source.encodedLen = bytesField source.descriptorSet.length +
    bytesField source.messageType.utf8ByteSize + bytesField source.payload.length := rfl
  omega

variable {version : DocumentVersion D}

/-- A source that does not pass the first test does not pass the second. -/
lemma sourceFits_eq {budget : ℕ} (hsrc : a.request.mutation = some (.source source))
    (hsha : version.sourceSha256 = some (sha.source (sourceRecord sha source)))
    (hstored : Stored sha db a.request.mutation) : ∃ fits, sourceFits db version budget = .ok fits ∧
      (fits = false → budget < a.page.encodedLen) := by
  obtain ⟨hrec, hdesc⟩ := hstored source hsrc
  have hle := lowerBound_le sha hsrc
  have hdesc : db.descriptors.lookup (sourceRecord sha source).descriptorSha256 =
      some source.descriptorSet := hdesc
  unfold sourceFits
  simp only [hsha, Option.bind_some, hrec, okOr, ok_bind, hdesc]
  split
  · exact ⟨false, rfl, fun _ => by omega⟩
  · refine ⟨_, rfl, fun hfits => ?_⟩
    have hlt := of_decide_eq_false hfits
    omega

omit [DecidableEq D] in
/-- A request that was accepted brings a source or deletes. -/
lemma mutation_of_validateRequest {request : AcceptDocumentRequest}
    (h : validateRequest request = .ok ()) :
    (∃ source, request.mutation = some (.source source)) ∨ request.mutation = some (.delete true) := by
  simp only [validateRequest, check_bind_ok, refuseIf_ok] at h
  have h := h.2.2.2
  unfold validateRequest.mutationValid at h
  split at h
  · exact .inl ⟨_, ‹_›⟩
  · rename_i flag hm
    obtain rfl : flag = true := by simpa using h
    exact .inr hm
  · cases h

omit [DecidableEq D] in
lemma Accepted.document_source (sha : Sha256 D S)
    (hm : a.request.mutation = some (.source source)) : (a.document sha).deleted = false ∧
      (a.document sha).sourceSha256 = some (sha.source (sourceRecord sha source)) := by
  simp [document, newDocument, hm, deletes, sourceSha]

omit [DecidableEq D] in
lemma Accepted.document_deleted (sha : Sha256 D S)
    (hm : a.request.mutation = some (.delete true)) : (a.document sha).deleted = true := by
  simp [document, newDocument, hm, deletes]

lemma Stored.loadSource {mutation : Option Mutation}
    (h : Stored sha db mutation) (hsrc : mutation = some (.source source)) :
    loadSource sha db (some (sha.source (sourceRecord sha source))) = .ok source := by
  obtain ⟨hrec, hdesc⟩ := h source hsrc
  have hdesc : db.descriptors.lookup (sourceRecord sha source).descriptorSha256 =
      some source.descriptorSet := hdesc
  have hsha : (sha.descriptor source.descriptorSet != (sourceRecord sha source).descriptorSha256) =
      false := by simp [sourceRecord]
  simp only [Catalog.loadSource, Option.bind_some, hrec, okOr, ok_bind, bne_self_eq_false,
    refuseIf_false, hdesc, hsha]
  rfl

section

variable (h : Represents catalog sha db log)

include h

/-- A version and its source are found where they were recorded. -/
lemma Represents.getFrom_eq (ha : a ∈ log) :
    getFrom sha db a.receipt.documentKey (some a.receipt.version) =
      .ok (some (a.document sha, a.page.mutation)) := by
  have hrecd := h.recorded a ha
  have hver : db.versions.lookup ⟨a.receipt.documentKey, a.receipt.version⟩ =
      some (a.document sha) :=
    h.versions.eq_some_of_mem ha fun _ hb hk => h.numbered.version_unique ha hb hk
  have hmatch : ((a.document sha).documentKey != a.receipt.documentKey ||
      (some a.receipt.version).any ((a.document sha).version != ·)) = false := by
    simp [document, newDocument]
  unfold getFrom
  simp only [Option.elim_some, hver, hmatch, refuseIf_false, ok_bind]
  rcases mutation_of_validateRequest hrecd.request with ⟨source, hm⟩ | hm
  · obtain ⟨hdel, hsha⟩ := document_source sha hm
    have hmut : a.page.mutation = some source := by simp [page, hm]
    rw [hdel, hsha, hrecd.stored.loadSource hm, hmut]
    rfl
  · have hdel := document_deleted sha hm
    have hmut : a.page.mutation = none := by simp [page, hm]
    rw [hdel, hmut]
    rfl

/-- The first test passes unless the document does not fit. -/
lemma Represents.mayFit_eq (ha : a ∈ log) (remaining : ℕ) :
    ∃ fits, mayFit db (a.document sha) remaining = .ok fits ∧
      (fits = false → remaining < a.page.encodedLen) := by
  unfold mayFit
  have hrecd := h.recorded a ha
  rcases mutation_of_validateRequest hrecd.request with ⟨source, hm⟩ | hm
  · obtain ⟨hdel, hsha⟩ := document_source sha hm
    rw [hdel]
    exact sourceFits_eq hm hsha hrecd.stored
  · have hdel := document_deleted sha hm
    rw [hdel]
    exact ⟨true, rfl, fun hfalse => nomatch hfalse⟩

/-- A document is left out of a page only when it does not fit. -/
lemma Represents.readDocument_eq {i : ℕ} (hi : log[i]? = some a) (remaining : ℕ) :
    readDocument sha db (i + 1) remaining =
      .ok (if remaining < a.page.encodedLen then none else some a.page) := by
  have ha : a ∈ log := mem_of_getElem? hi
  have hseq := h.numbered.getElem?_sequence hi
  have hchange : db.changes.lookup (i + 1) = some a.versionKey := by
    rw [← hseq]
    exact h.changes.eq_some_of_mem ha fun _ hb hs => h.numbered.sequence_unique ha hb hs
  have hver := h.versions.eq_some_of_mem ha fun _ hb hk => h.numbered.version_unique ha hb hk
  obtain ⟨fits, hfits, hskip⟩ := h.mayFit_eq ha remaining
  unfold readDocument
  simp only [hchange, hver, okOr, ok_bind, hfits]
  cases fits with
  | false =>
    rw [if_pos (hskip rfl)]
    rfl
  | true =>
    have hnumber : ((a.document sha).acceptedSequence != a.receipt.acceptedSequence) = false := by
      simp [document, newDocument]
    have hget : getFrom sha db a.versionKey.documentKey (some a.versionKey.version) =
        .ok (some (a.document sha, a.page.mutation)) := h.getFrom_eq ha
    simp only [Bool.not_true, Bool.false_eq_true, if_false, hget, ok_bind, ← hseq, hnumber,
      refuseIf_false]
    rfl

/-! ## Pages -/

/-- The loop reads a stretch of the history, and at least one document if the first one fits. -/
lemma Represents.readLoop_eq (limit left i remaining next : ℕ)
    (documents : List AcceptedDocumentVersion) (hleft : i + left ≤ log.length)
    (hfst : documents = [] → left ≠ 0 →
      limit ≠ 0 ∧ ∀ a, log[i]? = some a → a.page.encodedLen ≤ remaining) :
    ∃ k ≤ left, (documents = [] → left ≠ 0 → k ≠ 0) ∧
      readLoop sha db limit left (i + 1) remaining documents next =
        .ok (documents ++ ((log.drop i).take k).map page, if k = 0 then next else i + k) := by
  induction left generalizing i remaining documents next with
  | zero => exact ⟨0, le_rfl, fun _ hne => absurd rfl hne, by simp [readLoop]⟩
  | succ left ih =>
    have hstop : documents ≠ [] → ∃ k ≤ left + 1, (documents = [] → left + 1 ≠ 0 → k ≠ 0) ∧
        Except.ok (documents, next) = (Except.ok (documents ++ ((log.drop i).take k).map page,
          if k = 0 then next else i + k) : Except Status _) := fun hne =>
      ⟨0, Nat.zero_le _, fun hnil => absurd hnil hne, by simp⟩
    unfold readLoop
    by_cases hfull : documents.length = limit
    · rw [if_pos hfull]
      refine hstop fun hnil => ?_
      rw [hnil] at hfull
      exact (hfst hnil (Nat.succ_ne_zero _)).1 hfull.symm
    rw [if_neg hfull]
    obtain ⟨a, ha⟩ : ∃ a, log[i]? = some a := ⟨_, getElem?_eq_getElem (by omega)⟩
    rw [h.readDocument_eq ha, ok_bind]
    by_cases hfits : remaining < a.page.encodedLen
    · rw [if_pos hfits]
      have hne : documents ≠ [] := fun hnil => by
        have := (hfst hnil (Nat.succ_ne_zero _)).2 a ha
        omega
      have hempty : documents.isEmpty = false := by simpa using hne
      simp only [hempty, refuseIf_false, ok_bind]
      exact hstop hne
    · rw [if_neg hfits]
      obtain ⟨k, _, -, hloop⟩ := ih (i + 1) (remaining - a.page.encodedLen) (i + 1)
        (documents ++ [a.page]) (by omega) (fun hnil => absurd hnil (by simp))
      refine ⟨k + 1, by omega, fun _ _ => Nat.succ_ne_zero _, ?_⟩
      have hdrop : log.drop i = a :: log.drop (i + 1) := by
        rw [drop_eq_getElem_cons (by omega)]
        exact congrArg (· :: _) (Option.some.inj ((getElem?_eq_getElem (by omega)).symm.trans ha))
      simp only [hloop, hdrop, take_succ_cons, map_cons, append_assoc,
        singleton_append, Nat.succ_ne_zero, if_false]
      congr 2
      split <;> omega

end

/-- The limits of a page under which any one of the documents fits. -/
def Allows (documents : List Accepted) (limit maxBytes : ℕ) : Prop :=
  (1 ≤ limit ∧ limit ≤ 1000) ∧ (1 ≤ maxBytes ∧ maxBytes ≤ 64 * 1024 * 1024) ∧
    ∀ a ∈ documents, a.page.encodedLen ≤ maxBytes

variable {after fence : ℕ}

/-- A page that may hold any one document makes progress. -/
lemma Represents.readAccepted_eq (h : Represents catalog sha db log)
    {limit maxBytes : ℕ} (haft : after ≤ fence) (hfence : fence ≤ log.length)
    (hallows : Allows (log.take fence) limit maxBytes) :
    ∃ k, (after < fence → k ≠ 0) ∧ after + k ≤ fence ∧
      readAccepted sha db ⟨after, limit, some fence, maxBytes, db.header.historyId⟩ =
        .ok ⟨((log.drop after).take k).map page, fence, after + k,
          after + k == fence, db.header.historyId⟩ := by
  obtain ⟨hlimit, hbytes, hfits⟩ := hallows
  obtain ⟨-, hvalid, -, -⟩ := headerFrom_ok.1 h.opened
  obtain ⟨⟨-, -, hid, -⟩, -⟩ := validateCurrentHeader_ok.1 hvalid
  have hcursor : checkCursor db.header ⟨after, limit, some fence, maxBytes, db.header.historyId⟩ =
      .ok () := by
    have hne : db.header.historyId.isEmpty = false := by
      cases hnil : db.header.historyId with
      | nil => simp [hnil, validHistoryId] at hid
      | cons b rest => rfl
    simp [checkCursor, hne, hid, refuseIf_false, ok_bind]
  obtain ⟨k, _, hprog, hloop⟩ := h.readLoop_eq limit (fence - after) after
    maxBytes after [] (by omega) (fun _ hleft => by
      refine ⟨by omega, fun a ha => hfits a ?_⟩
      refine mem_of_getElem? (i := after) ?_
      rw [getElem?_take, if_pos (by omega), ha])
  refine ⟨k, fun hlt => hprog rfl (by omega), by omega, ?_⟩
  have hnext : (if k = 0 then after else after + k) = after + k := by split <;> omega
  have hrange : (decide (db.header.acceptedSequence < fence) || decide (fence < after)) = false := by
    rw [h.sequence]
    simp only [Bool.or_eq_false_iff, decide_eq_false_iff_not]
    omega
  simp only [readAccepted, decide_eq_true hlimit, decide_eq_true hbytes, Bool.not_true,
    refuseIf_false, ok_bind, hvalid, hcursor, Option.getD_some, hrange, hloop, nil_append, hnext]
  rfl

/-- The history to a fence, page by page, each with its own limits and other calls before it. -/
def Calls.readPages (catalog : DocumentCatalog) (sha : Sha256 D S) (fence : ℕ) (historyId : Bytes) :
    Calls D → List (List Call × ℕ × ℕ) → ℕ → Except Status (List AcceptedDocumentVersion)
  | _, [], _ => .ok []
  | s, (calls, limit, maxBytes) :: pages, after => do
    let page ← readAccepted sha (s.run catalog sha calls).db
      ⟨after, limit, some fence, maxBytes, historyId⟩
    if page.complete then return page.documents
    let rest ← Calls.readPages catalog sha fence historyId (s.run catalog sha calls) pages
      page.nextSequence
    return page.documents ++ rest

variable (s : Calls D)

lemma Calls.historyId_next (call : Call) :
    (s.next catalog sha call).db.header.historyId = s.db.header.historyId := by
  cases call with
  | lookup request principal =>
    dsimp only [Calls.next]
    split <;> rfl
  | write i fence writeEpoch =>
    dsimp only [Calls.next]
    split
    · rfl
    · split
      · rfl
      · rename_i hwrite
        obtain ⟨-, -, ⟨previous, -, -, rfl⟩ | ⟨-, hnew⟩⟩ := acceptWrite_ok hwrite
        · rfl
        · obtain ⟨-, -, -, happ⟩ := writeNew_ok hnew
          exact congrArg (·.historyId) happ.header

lemma Calls.historyId_run (calls : List Call) :
    (s.run catalog sha calls).db.header.historyId = s.db.header.historyId := by
  induction calls generalizing s with
  | nil => rfl
  | cons call calls ih => exact (ih (s.next catalog sha call)).trans (s.historyId_next call)

/-- A stretch from a place to a fence, cut in two. -/
lemma take_append_stretch {α : Type} (l : List α) {i k : ℕ} (h : i + k ≤ fence) :
    (l.drop i).take k ++ (l.take fence).drop (i + k) = (l.take fence).drop i := by
  have hfst : (l.drop i).take k = ((l.take fence).drop i).take k := by
    rw [drop_take, take_take, Nat.min_eq_left (by omega)]
  rw [hfst, ← drop_drop, take_append_drop]

/-- **Pages give the history to the fence**, in order, whatever is accepted between them. -/
theorem Calls.Inv.readPages_eq {s : Calls D} (h : s.Inv catalog sha)
    {pages : List (List Call × ℕ × ℕ)} (hfence : fence ≤ s.log.length) (haft : after ≤ fence)
    (hpages : fence - after ≤ pages.length)
    (hallows : ∀ page ∈ pages, Allows (s.log.take fence) page.2.1 page.2.2) :
    s.readPages catalog sha fence s.db.header.historyId pages after =
      .ok (((s.log.take fence).drop after).map page) := by
  induction pages generalizing s after with
  | nil =>
    have hdone : (s.log.take fence).drop after = [] := by
      rw [drop_eq_nil_iff, length_take]
      simp only [length_nil] at hpages
      omega
    rw [hdone]
    rfl
  | cons page pages ih =>
    obtain ⟨calls, limit, maxBytes⟩ := page
    set s' := s.run catalog sha calls with hs'
    have hinv := h.run calls
    have hlog : s.log <+: s'.log := s.log_grows calls
    have hlen := Nat.le_trans hfence hlog.length_le
    have htake : s'.log.take fence = s.log.take fence := by
      obtain ⟨more, hmore⟩ := hlog
      rw [← hmore, take_append_of_le_length hfence]
    have hid : s'.db.header.historyId = s.db.header.historyId := s.historyId_run calls
    obtain ⟨k, _, hk, hread⟩ := hinv.represents.readAccepted_eq haft hlen
      (htake ▸ hallows _ mem_cons_self)
    have hcut := take_append_stretch s'.log hk
    unfold Calls.readPages
    rw [← hid, hread, ok_bind]
    by_cases hdone : after + k = fence
    · have hrest : (s'.log.take fence).drop (after + k) = [] := by
        rw [drop_eq_nil_iff, length_take]
        omega
      rw [hrest, append_nil] at hcut
      rw [if_pos (by simpa using hdone), hcut, htake]
      rfl
    · rw [if_neg (by simpa using hdone), ih hinv hlen hk
        (by simp only [length_cons] at hpages; omega)
        (fun page hpage => htake ▸ hallows page (mem_cons_of_mem _ hpage)), ok_bind,
        ← map_append, hcut, htake]
      rfl

/-! ## The accepted history -/

/-- What holds of a catalog and the writes that were accepted into it. -/
structure AcceptedHistory (catalog : DocumentCatalog) (sha : Sha256 D S) (s : Calls D) : Prop where
  versions : ∀ k, (ofKey s.log k).map (·.receipt.version) = List.range' 1 (ofKey s.log k).length
  sequences : s.log.map (·.receipt.acceptedSequence) = List.range' 1 s.db.header.acceptedSequence
  names : ∀ sequence key, s.db.changes.lookup sequence = some key ↔
    ∃ a ∈ s.log, a.receipt.acceptedSequence = sequence ∧ a.versionKey = key
  records : ∀ key version, s.db.versions.lookup key = some version ↔
    ∃ a ∈ s.log, a.versionKey = key ∧ a.document sha = version
  heads : ∀ k head, s.db.heads.lookup k = some head ↔
    s.db.versions.lookup ⟨k, head.version⟩ = some head ∧
      ∀ n version, s.db.versions.lookup ⟨k, n⟩ = some version → n ≤ head.version
  /-- An exact retry is answered with the original receipt and changes nothing. -/
  retry : ∀ a ∈ s.log, ∀ fence writeEpoch,
    acceptLookup catalog sha s.db a.request a.key.principal = .ok (a.key, some a.replay) ∧
      acceptWrite catalog sha s.db a.request a.key fence writeEpoch = .ok (a.replay, s.db)
  conflict : ∀ a ∈ s.log, ∀ request, sha.request request ≠ sha.request a.request →
    ∀ fence writeEpoch, (request.operationId = a.request.operationId →
      ∃ e, acceptLookup catalog sha s.db request a.key.principal = .error e) ∧
      ∃ e, acceptWrite catalog sha s.db request a.key fence writeEpoch = .error e
  pages : ∀ fence ≤ s.db.header.acceptedSequence, ∀ pages : List (List Call × ℕ × ℕ),
    fence ≤ pages.length →
    (∀ page ∈ pages, Allows (s.log.take fence) page.2.1 page.2.2) →
    s.readPages catalog sha fence s.db.header.historyId pages 0 =
      .ok ((s.log.take fence).map page)

section

variable (h : Represents catalog sha db log)

include h

variable {key : DocumentVersionKey}

lemma Represents.versions_iff : db.versions.lookup key = some version ↔
      ∃ a ∈ log, a.versionKey = key ∧ a.document sha = version := by
  constructor
  · exact fun hv => h.versions.exists_of_eq_some hv
  · rintro ⟨a, ha, rfl, rfl⟩
    exact h.versions.eq_some_of_mem ha fun _ hb hk => h.numbered.version_unique ha hb hk

lemma Represents.changes_iff {sequence : ℕ} :
    db.changes.lookup sequence = some key ↔
      ∃ a ∈ log, a.receipt.acceptedSequence = sequence ∧ a.versionKey = key := by
  constructor
  · exact fun hk => h.changes.exists_of_eq_some hk
  · rintro ⟨a, ha, rfl, rfl⟩
    exact h.changes.eq_some_of_mem ha fun _ hb hs => h.numbered.sequence_unique ha hb hs

/-- The head of a key is the last write to it, which has the highest version. -/
lemma Represents.heads_iff {k : Bytes} {head : DocumentVersion D} :
    db.heads.lookup k = some head ↔ db.versions.lookup ⟨k, head.version⟩ = some head ∧
        ∀ n version, db.versions.lookup ⟨k, n⟩ = some version → n ≤ head.version := by
  have hheads : db.heads.lookup k = (ofKey log k).getLast?.map (document sha) := h.heads k
  have hlast := h.numbered.version_getLast? k
  have hle : ∀ n version, db.versions.lookup ⟨k, n⟩ = some version → n ≤ (ofKey log k).length := by
    intro n version hv
    obtain ⟨a, ha, hkey, -⟩ := h.versions_iff.1 hv
    obtain ⟨rfl, rfl⟩ := DocumentVersionKey.mk.inj hkey
    exact h.numbered.version_le ha
  rw [hheads]
  constructor
  · intro hhead
    obtain ⟨a, ha, rfl⟩ := Option.map_eq_some_iff.1 hhead
    rw [ha] at hlast
    have hmem := mem_filter.1 (mem_of_getLast? ha)
    obtain rfl := of_decide_eq_true hmem.2
    exact ⟨h.versions_iff.2 ⟨a, hmem.1, rfl, rfl⟩,
      fun n version hv => Nat.le_trans (hle n version hv) (Nat.le_of_eq hlast.symm)⟩
  · rintro ⟨hhead, hmax⟩
    obtain ⟨a, ha, hkey, rfl⟩ := h.versions_iff.1 hhead
    obtain ⟨rfl, -⟩ := DocumentVersionKey.mk.inj hkey
    have hof : a ∈ ofKey log a.receipt.documentKey := mem_filter.2 ⟨ha, decide_eq_true rfl⟩
    cases hb : (ofKey log a.receipt.documentKey).getLast? with
    | none => simp [getLast?_eq_none_iff.1 hb] at hof
    | some b =>
      rw [hb, Option.elim_some] at hlast
      have hbmem := mem_filter.1 (mem_of_getLast? hb)
      have hbkey := of_decide_eq_true hbmem.2
      -- the last write to the key has at least this version, and the highest is no higher
      have hbv := h.versions_iff.2 ⟨b, hbmem.1, by rw [versionKey, hbkey], rfl⟩
      have hge : b.receipt.version ≤ a.receipt.version := hmax _ _ hbv
      have hale := h.numbered.version_le ha
      have heq : b = a := h.numbered.version_unique ha hbmem.1 (by
        rw [versionKey, hbkey]
        exact congrArg _ (by omega))
      rw [heq]
      rfl

end

/-- **Accepting, retrying and reading back.** In every interleaving of accepts and retries on a
catalog nothing was accepted into before, the catalog keeps its history. -/
theorem accepted_history (hdb : Fresh catalog db) (calls : List Call) :
    AcceptedHistory catalog sha ((⟨db, [], []⟩ : Calls D).run catalog sha calls) := by
  have hinv : ((⟨db, [], []⟩ : Calls D).run catalog sha calls).Inv catalog sha := hdb.inv.run calls
  have h := hinv.represents
  exact {
    versions := h.numbered.versions
    sequences := h.sequence ▸ h.numbered.sequences
    names := fun _ _ => h.changes_iff
    records := fun _ _ => h.versions_iff
    heads := fun _ _ => h.heads_iff
    retry := fun a ha fence writeEpoch => h.retry ha fence writeEpoch
    conflict := fun a ha request hne fence writeEpoch =>
      h.conflict ha hne fence writeEpoch
    pages := fun fence hfence pages hpages hallows => by
      have := hinv.readPages_eq (h.sequence ▸ hfence) (Nat.zero_le fence) hpages hallows
      rwa [drop_zero] at this }

/-- Digests that keep what they are of, as far as requests go. -/
def sampleSha : Sha256 (AcceptDocumentRequest ⊕ ℕ) Unit where
  request := Sum.inl
  descriptor := fun bytes => Sum.inr bytes.length
  source := fun record => Sum.inr (100 + record.payload.length)
  manifest := fun _ => Sum.inr 0
  intent := fun _ => Sum.inr 0
  maintenance := fun _ => Sum.inr 0

def plainCatalog : DocumentCatalog := ⟨true, none, none, none⟩

def sampleHistory : Bytes := List.replicate 16 7

def sampleWrite (operationId : UInt8) (payload : Bytes) : AcceptDocumentRequest :=
  ⟨1, [1], [operationId], none, some (.source ⟨[9, 9], "doc", payload⟩), []⟩

lemma fresh_plain : Fresh plainCatalog
    (Database.new plainCatalog "books" sampleHistory : Database (AcceptDocumentRequest ⊕ ℕ)) where
  opened := by rfl
  admits := by rfl
  sequence := rfl
  counts := by rfl
  heads := rfl
  versions := rfl
  changes := rfl
  operations := by rintro ⟨_ | principal, operationId⟩ <;> rfl

/-- Two calls with one operation id and different content wait together; the first is accepted, the
second refused, and a later write takes the next version. -/
theorem accepted_history_plain :
    let calls := [.lookup (sampleWrite 1 [5]) none, .lookup (sampleWrite 1 [6]) none,
      .write 0 (.ok ()) 0, .write 0 (.ok ()) 0, .lookup (sampleWrite 2 []) none, .write 0 (.ok ()) 0]
    let s := (⟨Database.new plainCatalog "books" sampleHistory, [], []⟩ : Calls _).run plainCatalog
      sampleSha calls
    AcceptedHistory plainCatalog sampleSha s ∧
      s.log.map (fun a => (a.request, a.receipt.version)) =
        [(sampleWrite 1 [5], 1), (sampleWrite 2 [], 2)] :=
  ⟨accepted_history fresh_plain _, by decide +kernel⟩

end ProtomoltSearch.Catalog
