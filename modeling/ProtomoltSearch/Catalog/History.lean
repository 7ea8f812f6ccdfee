import ProtomoltSearch.Catalog.Accept
import ProtomoltSearch.Foundations.Runs

/-!
# The history of a catalog

What a catalog is for: a list of accepted writes that only ever grows at its end. The list numbers
its writes (`WellNumbered`): the sequence of a write is its place, and the versions of a key count
the writes to it. The tables of the database are indexes of the list (`Represents`); new work appends
one write to it, and a retry is answered from it (`Represents.writeNew`, `Represents.retry`).
-/

namespace ProtomoltSearch.Catalog

open List Option Accepted OperationKey

variable {D S : Type} [DecidableEq D]

/-! ## The list of accepted writes -/

def ofKey (log : List Accepted) (documentKey : Bytes) : List Accepted :=
  log.filter fun a => a.receipt.documentKey = documentKey

lemma ofKey_snoc_self (log : List Accepted) (a : Accepted) :
    ofKey (log ++ [a]) a.receipt.documentKey = ofKey log a.receipt.documentKey ++ [a] := by
  simp [ofKey]

lemma ofKey_snoc_of_ne (log : List Accepted) {a : Accepted} {k : Bytes}
    (h : a.receipt.documentKey ≠ k) : ofKey (log ++ [a]) k = ofKey log k := by
  simp [ofKey, h]

/-- A list of writes numbered as they were accepted. -/
inductive WellNumbered : List Accepted → Prop
  | nil : WellNumbered []
  | snoc {log : List Accepted} {a : Accepted} (hlog : WellNumbered log)
      (sequence : a.receipt.acceptedSequence = log.length + 1)
      (version : a.receipt.version = (ofKey log a.receipt.documentKey).length + 1)
      (key : ∀ b ∈ log, b.key ≠ a.key) : WellNumbered (log ++ [a])

namespace WellNumbered

variable {log : List Accepted} {a b : Accepted}

section

variable (h : WellNumbered log)

include h

/-- Sequences are 1 to N, in order. -/
lemma sequences : log.map (·.receipt.acceptedSequence) = List.range' 1 log.length := by
  induction h with
  | nil => rfl
  | @snoc log a _ hseq _ _ ih =>
    rw [map_append, ih, length_append, length_singleton, List.range'_concat,
      map_singleton, hseq, Nat.one_mul, Nat.add_comm]

/-- The versions of a key are 1 to n, in the order of acceptance. -/
lemma versions (k : Bytes) :
    (ofKey log k).map (·.receipt.version) = List.range' 1 (ofKey log k).length := by
  induction h with
  | nil => rfl
  | @snoc log a _ _ hver _ ih =>
    by_cases hk : a.receipt.documentKey = k
    · subst hk
      rw [ofKey_snoc_self, map_append, ih, length_append, length_singleton,
        List.range'_concat, map_singleton, hver, Nat.one_mul, Nat.add_comm]
    · rw [ofKey_snoc_of_ne log hk]
      exact ih

lemma keys_nodup : (log.map (·.key)).Nodup := by
  induction h with
  | nil => exact nodup_nil
  | @snoc log a _ _ _ hkey ih =>
    rw [map_append]
    refine List.Nodup.append ih (nodup_singleton _) ?_
    intro k hk ha
    obtain ⟨b, hb, rfl⟩ := mem_map.1 hk
    exact hkey b hb (mem_singleton.1 ha)

section

variable (ha : a ∈ log)

include ha

lemma key_unique (hb : b ∈ log) (hk : b.key = a.key) :
    b = a := inj_on_of_nodup_map h.keys_nodup hb ha hk

lemma sequence_unique (hb : b ∈ log)
    (hs : b.receipt.acceptedSequence = a.receipt.acceptedSequence) : b = a := by
  refine inj_on_of_nodup_map (f := fun c : Accepted => c.receipt.acceptedSequence) ?_ hb ha hs
  rw [h.sequences]
  exact nodup_range'

lemma sequence_le : a.receipt.acceptedSequence ≤ log.length := by
  have hmem := mem_map_of_mem (f := fun c : Accepted => c.receipt.acceptedSequence) ha
  rw [h.sequences, mem_range'_1] at hmem
  omega

lemma version_le : a.receipt.version ≤ (ofKey log a.receipt.documentKey).length := by
  have hof : a ∈ ofKey log a.receipt.documentKey := mem_filter.2 ⟨ha, decide_eq_true rfl⟩
  have hmem := mem_map_of_mem (f := fun c : Accepted => c.receipt.version) hof
  rw [h.versions, mem_range'_1] at hmem
  omega

lemma version_unique (hb : b ∈ log) (hk : b.versionKey = a.versionKey) : b = a := by
  obtain ⟨hkey, hver⟩ := DocumentVersionKey.mk.inj hk
  refine inj_on_of_nodup_map (f := fun c : Accepted => c.receipt.version)
    (l := ofKey log a.receipt.documentKey) ?_ (mem_filter.2 ⟨hb, decide_eq_true hkey⟩)
    (mem_filter.2 ⟨ha, decide_eq_true rfl⟩) hver
  rw [h.versions]
  exact nodup_range'

end

/-- The version a key is at is the number of writes to it. -/
lemma version_getLast? (k : Bytes) :
    (ofKey log k).getLast?.elim 0 (·.receipt.version) = (ofKey log k).length := by
  have hmap := congrArg getLast? (h.versions k)
  rw [getLast?_map, getLast?_range'] at hmap
  cases hlast : (ofKey log k).getLast? with
  | none =>
    rw [getLast?_eq_none_iff] at hlast
    simp [hlast]
  | some a =>
    rw [hlast, map_some] at hmap
    have hne : (ofKey log k).length ≠ 0 := by
      intro hzero
      rw [length_eq_zero_iff] at hzero
      simp [hzero] at hlast
    rw [if_neg hne] at hmap
    have := Option.some.inj hmap
    simp only [elim_some]
    omega

lemma getElem?_sequence {i : ℕ} (ha : log[i]? = some a) : a.receipt.acceptedSequence = i + 1 := by
  have hmap := congrArg (fun l : List ℕ => l[i]?) h.sequences
  obtain ⟨hi, -⟩ := List.getElem?_eq_some_iff.1 ha
  rw [List.getElem?_map, ha, Option.map_some, List.getElem?_range' hi] at hmap
  have := Option.some.inj hmap
  omega

end

end WellNumbered

/-! ## The tables index the list -/

/-- What an accepted write has passed, as it still stands. -/
structure Recorded (sha : Sha256 D S) (db : Database D) (a : Accepted) : Prop where
  request : validateRequest a.request = .ok ()
  key : new a.key.principal a.request.operationId = .ok a.key
  history : checkHistory db.header a.request = .ok ()
  scope : a.key.checkHeader db.header = .ok ()
  documentKey : a.receipt.documentKey = a.request.documentKey
  replayed : a.receipt.replayed = false
  historyId : a.receipt.historyId = db.header.historyId
  stored : Stored sha db a.request.mutation

/-- The database of an open catalog holds a list of accepted writes. -/
structure Represents (catalog : DocumentCatalog) (sha : Sha256 D S) (db : Database D)
    (log : List Accepted) : Prop where
  numbered : WellNumbered log
  opened : headerFrom catalog db.header = .ok db.header
  admits : requireAdmission db.header false = .ok ()
  sequence : db.header.acceptedSequence = log.length
  counts : countsValid db.header db.operations.len (db.actorOperations.map (·.len)) = true
  changes : Table.Indexes (fun a : Accepted => a.receipt.acceptedSequence) versionKey
    (db.changes.lookup ·) log
  versions : Table.Indexes versionKey (document sha) (db.versions.lookup ·) log
  heads : Table.IndexesLast (fun a : Accepted => a.receipt.documentKey) (document sha)
    (db.heads.lookup ·) log
  operations : Table.Indexes key (operation sha) db.operation log
  recorded : ∀ a ∈ log, Recorded sha db a

variable {catalog : DocumentCatalog} {sha : Sha256 D S} {db db' : Database D} {log : List Accepted}
  {key : OperationKey} {request : AcceptDocumentRequest} {written : Written}

omit [DecidableEq D] in
/-- Only a catalog that has given every retry record its actor is accepted into. -/
lemma attributed_of_checkHeader {header : DocumentCatalogHeader}
    (hvalid : validateCurrentHeader header = .ok ()) (hscope : key.checkHeader header = .ok ())
    (n : SourceActorNamespace) (hn : header.actorNamespace = some n) :
    key.principal.isSome = true ∧ n.assignedOperations = n.legacyOperations := by
  obtain ⟨⟨⟩, hbound, hscope⟩ := bind_ok.1 hscope
  have hcomp := refuseIf_ok.1 hscope
  cases hb : header.resourceBinding with
  | none =>
    rw [actorNamespace_eq_none hvalid hb] at hn
    cases hn
  | some binding =>
    have hsome : key.principal.isSome = true := by simpa [hb] using hbound
    simpa [hsome, attributionIncomplete, hn] using hcomp

omit [DecidableEq D] in
/-- The header new work leaves is served by the handle that did it. -/
lemma headerFrom_accepting (hopened : headerFrom catalog db.header = .ok db.header)
    (hadm : requireAdmission db.header false = .ok ())
    (hscope : key.checkHeader db.header = .ok ()) :
    headerFrom catalog db.header.accepting = .ok db.header.accepting := by
  obtain ⟨-, hvalid, hbind, hopen⟩ := headerFrom_ok.1 hopened
  obtain ⟨hseal, hint⟩ := requireAdmission_ok.1 hadm
  have hint : db.header.retirementIntent = none := by simpa using hint
  exact headerFrom_ok.2 ⟨rfl, validateCurrentHeader_accepting hseal hint
    (fun n hn => (attributed_of_checkHeader hvalid hscope n hn).2) hvalid, hbind, hopen⟩

omit [DecidableEq D] in
/-- The row counts go on with the sequence. -/
lemma counts_setOperation {operation : DocumentOperation D}
    (hvalid : validateCurrentHeader db.header = .ok ()) (hscope : key.checkHeader db.header = .ok ())
    (hnone : db.operation key = none)
    (h : countsValid db.header db.operations.len (db.actorOperations.map (·.len)) = true) :
    countsValid db.header.accepting (db.setOperation key operation).operations.len
      ((db.setOperation key operation).actorOperations.map (·.len)) = true := by
  have hsame : db.header.accepting.actorNamespace = db.header.actorNamespace := rfl
  have hseq : db.header.accepting.acceptedSequence = db.header.acceptedSequence + 1 := rfl
  unfold countsValid at h ⊢
  rw [hsame, hseq]
  obtain ⟨⟨⟩, hbound, hcomp⟩ := bind_ok.1 hscope
  obtain ⟨_ | principal, operationId⟩ := key
  · -- the catalog is bound to no resource, so it has no actors
    have hb : db.header.resourceBinding = none := by simpa using hbound
    rw [actorNamespace_eq_none hvalid hb] at h ⊢
    have hlen : Table.len (db.operations.insert operationId operation) = db.operations.len + 1 :=
      Table.len_insert_new hnone
    simp only [Database.setOperation, Bool.and_eq_true, isNone_iff_eq_none, beq_iff_eq,
      map_eq_none_iff] at h ⊢
    exact ⟨h.1, hlen.trans (by rw [h.2])⟩
  · cases hn : db.header.actorNamespace with
    | none => simp [attributionIncomplete, hn] at hcomp
    | some n =>
      cases ht : db.actorOperations with
      | none => simp [hn, ht] at h
      | some t =>
        have hlook : t.lookup ⟨principal, operationId⟩ = none := by
          simpa [Database.operation, ht] using hnone
        have hlen : Table.len (t.insert ⟨principal, operationId⟩ operation) = t.len + 1 :=
          Table.len_insert_new hlook
        simp only [hn, ht, map_some, any_some, Bool.and_eq_true, beq_iff_eq] at h
        simp only [Database.setOperation, ht, getD_some, map_some, any_some,
          Bool.and_eq_true, beq_iff_eq, hlen]
        exact ⟨by omega, h.2⟩

/-- New work appends one write to the list. -/
lemma Represents.writeNew {fence : Except Status Unit} {writeEpoch : ℕ}
    (h : Represents catalog sha db log) (hreq : validateRequest request = .ok ())
    (hkey : new key.principal request.operationId = .ok key)
    (hhist : checkHistory db.header request = .ok ()) (hscope : key.checkHeader db.header = .ok ())
    (hnone : db.operation key = none)
    (hw : writeNew catalog sha db request key fence writeEpoch = .ok (written, db')) :
    written.outcome = .accepted ∧ written.receipt.replayed = false ∧
      Represents catalog sha db' (log ++ [⟨key, request, written.receipt⟩]) := by
  obtain ⟨_, -, rfl, happ⟩ := writeNew_ok hw
  refine ⟨rfl, rfl, ?_⟩
  obtain ⟨-, hvalid, -, -⟩ := headerFrom_ok.1 h.opened
  have hnew := h.operations.eq_none.1 hnone
  have hlast := h.numbered.version_getLast? request.documentKey
  have hver : currentVersion db request = (ofKey log request.documentKey).length := by
    have hhead : db.heads.lookup request.documentKey =
        (ofKey log request.documentKey).getLast?.map (document sha) :=
      h.heads request.documentKey
    rw [← hlast, currentVersion, hhead]
    cases (ofKey log request.documentKey).getLast? <;> rfl
  have hseq : db.header.acceptedSequence + 1 = log.length + 1 := congrArg (· + 1) h.sequence
  refine ⟨h.numbered.snoc hseq (congrArg (· + 1) hver) hnew, ?_, ?_, ?_, ?_, ?_, ?_, ?_, ?_, ?_⟩
  · rw [happ.header]
    exact headerFrom_accepting h.opened h.admits hscope
  · rw [happ.header]
    exact h.admits
  · rw [happ.header, length_append]
    exact hseq
  · rw [happ.header, happ.operations, happ.actorOperations]
    exact counts_setOperation hvalid hscope hnone h.counts
  · rw [happ.changes]
    refine h.changes.insert fun b hb heq => ?_
    have hle := h.numbered.sequence_le hb
    have heq : b.receipt.acceptedSequence = db.header.acceptedSequence + 1 := heq
    omega
  · rw [happ.versions]
    refine h.versions.insert fun b hb heq => ?_
    obtain ⟨hbkey, hbversion⟩ := DocumentVersionKey.mk.inj heq
    have hle := h.numbered.version_le hb
    have hbkey : b.receipt.documentKey = request.documentKey := hbkey
    have hbversion : b.receipt.version = currentVersion db request + 1 := hbversion
    rw [hbkey] at hle
    omega
  · rw [happ.heads]
    exact h.heads.insert
  · exact h.operations.snoc hnew happ.operation_self fun k hk => happ.operation_of_ne hk
  · intro b hb
    rcases mem_append.1 hb with hb | hb
    · obtain ⟨hb₁, hb₂, hb₃, hb₄, hb₅, hb₆, hb₇, hb₈⟩ := h.recorded b hb
      exact ⟨hb₁, hb₂, happ.header ▸ hb₃, happ.header ▸ hb₄, hb₅, hb₆, happ.header ▸ hb₇,
        hb₈.mono happ.blobs⟩
    · obtain rfl := mem_singleton.1 hb
      exact ⟨hreq, hkey, happ.header ▸ hhist, happ.header ▸ hscope, rfl, rfl,
        happ.header ▸ rfl, happ.stored⟩

/-! ## Retries -/

/-- The answer a retry of an accepted write is given. -/
def Accepted.replay (a : Accepted) : Written := ⟨{ a.receipt with replayed := true }, .accepted⟩

variable {a : Accepted}

section

variable (h : Represents catalog sha db log)

include h

lemma Represents.operation_eq (ha : a ∈ log) : db.operation a.key = some (a.operation sha) :=
  h.operations.eq_some_of_mem ha fun _ hb hk => h.numbered.key_unique ha hb hk

lemma Represents.validateCounts : validateCounts db db.header = .ok () := by
  obtain ⟨-, hvalid, -, -⟩ := headerFrom_ok.1 h.opened
  obtain ⟨-, -, hns, -⟩ := validateCurrentHeader_ok.1 hvalid
  rw [Catalog.validateCounts, hns, h.counts]
  rfl

lemma Represents.retryReceipt (ha : a ∈ log) :
    retryReceipt db.header (a.operation sha) (sha.request a.request) = .ok a.replay := by
  have hrecd := h.recorded a ha
  obtain ⟨-, hvalid, -, -⟩ := headerFrom_ok.1 h.opened
  obtain ⟨⟨-, -, hid, -⟩, -⟩ := validateCurrentHeader_ok.1 hvalid
  have hnew : legacyReceipt db.header a.receipt = false := by
    have hlen : db.header.historyId.length = 16 := by
      simp only [validHistoryId, Bool.and_eq_true, beq_iff_eq] at hid
      exact hid.1
    have hne : a.receipt.historyId ≠ [] := fun hnil => by simp [← hrecd.historyId, hnil] at hlen
    simp [legacyReceipt, hne]
  unfold Catalog.retryReceipt
  simp [operation, newOperation, hnew, hrecd.historyId, okOr]
  rw [← hrecd.historyId]
  rfl

end

/-- A retry with other content is refused. -/
lemma retryReceipt_conflict (hne : sha.request request ≠ sha.request a.request) :
    retryReceipt db.header (a.operation sha) (sha.request request) =
      .error (.alreadyExists "operation_id was used for a different document write") := by
  have hbne : (sha.request a.request != sha.request request) = true := by
    simpa using Ne.symm hne
  change (refuseIf (sha.request a.request != sha.request request) _ >>= _) = _
  rw [hbne]
  rfl

/-- An exact retry is answered with the original receipt, when it is looked up and again when it
waited for the writer; the database stays as it is. -/
lemma Represents.retry (h : Represents catalog sha db log) (ha : a ∈ log)
    (fence : Except Status Unit) (writeEpoch : ℕ) :
    acceptLookup catalog sha db a.request a.key.principal = .ok (a.key, some a.replay) ∧
      acceptWrite catalog sha db a.request a.key fence writeEpoch = .ok (a.replay, db) := by
  have hrecd := h.recorded a ha
  obtain ⟨-, hvalid, hbind, -⟩ := headerFrom_ok.1 h.opened
  constructor
  · simp only [acceptLookup, acceptedRetry, hrecd.key, hrecd.request, hvalid, hbind,
      hrecd.history, hrecd.scope, h.validateCounts, ok_bind, h.operation_eq ha, h.retryReceipt ha]
    rfl
  · simp only [acceptWrite, h.opened, hrecd.history, hrecd.scope, h.validateCounts, ok_bind,
      h.operation_eq ha, h.retryReceipt ha]
    rfl

/-- **An operation id used with other content is refused**, at both lookups. -/
theorem Represents.conflict (h : Represents catalog sha db log) (ha : a ∈ log)
    (hne : sha.request request ≠ sha.request a.request) (fence : Except Status Unit)
    (writeEpoch : ℕ) : (request.operationId = a.request.operationId →
      ∃ e, acceptLookup catalog sha db request a.key.principal = .error e) ∧
      ∃ e, acceptWrite catalog sha db request a.key fence writeEpoch = .error e := by
  constructor
  · intro hid
    refine exists_eq_error_iff.2 fun answer hok => ?_
    obtain ⟨key, hkey, hok⟩ := bind_ok.1 hok
    obtain rfl : key = a.key := by
      rw [hid, (h.recorded a ha).key] at hkey
      exact (Except.ok.inj hkey).symm
    obtain ⟨_, hok⟩ := rest_ok hok
    obtain ⟨found, hfound, -⟩ := bind_ok.1 hok
    obtain ⟨_, -, _, -, _, -, hfound⟩ := bind₃_ok.1 hfound
    obtain ⟨_, -, _, -, hfound⟩ := bind₂_ok.1 hfound
    simp only [h.operation_eq ha, retryReceipt_conflict hne] at hfound
    cases hfound
  · refine exists_eq_error_iff.2 fun answer hok => ?_
    obtain ⟨-, -, ⟨previous, hprev, hretry, -⟩ | ⟨hnone, -⟩⟩ := acceptWrite_ok hok
    · rw [h.operation_eq ha] at hprev
      obtain rfl := Option.some.inj hprev
      rw [retryReceipt_conflict hne] at hretry
      cases hretry
    · rw [h.operation_eq ha] at hnone
      cases hnone

/-! ## Calls that interleave -/

inductive Call where
  /-- A request is checked, and looked up among the recorded operations. -/
  | lookup (request : AcceptDocumentRequest) (principal : Option String)
  /-- A call that found nothing is given the writer; `fence` is how its final admission check goes. -/
  | write (i : ℕ) (fence : Except Status Unit) (writeEpoch : ℕ)

/-- The catalog, the calls that wait for its writer, and what was accepted as new work. -/
structure Calls (D : Type) where
  db : Database D
  waiting : List (AcceptDocumentRequest × OperationKey)
  log : List Accepted

/-- One step. -/
def Calls.next (catalog : DocumentCatalog) (sha : Sha256 D S) (s : Calls D) : Call → Calls D
  | .lookup request principal =>
    match acceptLookup catalog sha s.db request principal with
    | .ok (key, none) => { s with waiting := s.waiting ++ [(request, key)] }
    | _ => s
  | .write i fence writeEpoch =>
    match s.waiting[i]? with
    | none => s
    | some (request, key) =>
      match acceptWrite catalog sha s.db request key fence writeEpoch with
      | .error _ => { s with waiting := s.waiting.eraseIdx i }
      | .ok (written, db) =>
        { db
          waiting := s.waiting.eraseIdx i
          log := if written.receipt.replayed then s.log
            else s.log ++ [⟨key, request, written.receipt⟩] }

/-- The catalog holds what was accepted, and a waiting call has been checked. -/
structure Calls.Inv (catalog : DocumentCatalog) (sha : Sha256 D S) (s : Calls D) : Prop where
  represents : Represents catalog sha s.db s.log
  waiting : ∀ w ∈ s.waiting, validateRequest w.1 = .ok () ∧
    new w.2.principal w.1.operationId = .ok w.2

variable {s : Calls D}

lemma replayed_of_retryReceipt {header : DocumentCatalogHeader} {previous : DocumentOperation D}
    {requestSha : D} (h : retryReceipt header previous requestSha = .ok written) :
    written.receipt.replayed = true := by
  obtain ⟨_, -, receipt, -, _, -, h⟩ := bind₃_ok.1 h
  split at h
  · rw [← pure_ok.1 h]
  · obtain ⟨_, h⟩ := rest_ok h
    rw [← pure_ok.1 h]

/-- The writing transaction keeps what the database holds, or appends to it. -/
lemma Represents.acceptWrite {fence : Except Status Unit} {writeEpoch : ℕ}
    (h : Represents catalog sha db log) (hreq : validateRequest request = .ok ())
    (hkey : new key.principal request.operationId = .ok key)
    (hw : acceptWrite catalog sha db request key fence writeEpoch = .ok (written, db')) :
    Represents catalog sha db' (if written.receipt.replayed then log
      else log ++ [⟨key, request, written.receipt⟩]) := by
  obtain ⟨⟨⟩, hhist, hscope⟩ : ∃ _ : Unit, checkHistory db.header request = .ok () ∧
      key.checkHeader db.header = .ok () := by
    obtain ⟨header, hhdr, hw⟩ := bind_ok.1 hw
    obtain rfl := (headerFrom_ok.1 hhdr).1
    obtain ⟨⟨⟩, hhist, hw⟩ := bind_ok.1 hw
    obtain ⟨⟨⟩, hscope, -⟩ := bind_ok.1 hw
    exact ⟨(), hhist, hscope⟩
  obtain ⟨-, -, ⟨previous, -, hretry, rfl⟩ | ⟨hnone, hnew⟩⟩ := acceptWrite_ok hw
  · rw [if_pos (replayed_of_retryReceipt hretry)]
    exact h
  · obtain ⟨-, hreplayed, hrep⟩ := h.writeNew hreq hkey hhist hscope hnone hnew
    rw [hreplayed]
    exact hrep

lemma Calls.Inv.next (h : s.Inv catalog sha) (call : Call) : (s.next catalog sha call).Inv catalog sha := by
  cases call with
  | lookup request principal =>
    dsimp only [Calls.next]
    split
    · rename_i key hlook
      refine ⟨h.represents, fun w hw => ?_⟩
      rcases mem_append.1 hw with hw | hw
      · exact h.waiting w hw
      · obtain rfl := mem_singleton.1 hw
        obtain ⟨key', hkey, ⟨⟩, hreq, found, -, hlook⟩ := bind₃_ok.1 hlook
        obtain ⟨rfl, -⟩ := Prod.mk.inj (pure_ok.1 hlook)
        refine ⟨hreq, ?_⟩
        obtain rfl := new_ok hkey
        exact hkey
    · exact h
  | write i fence writeEpoch =>
    dsimp only [Calls.next]
    split
    · exact h
    · rename_i request key hwaiting
      have hrest : ∀ w ∈ s.waiting.eraseIdx i, w ∈ s.waiting := fun w hw =>
        (eraseIdx_sublist _ _).subset hw
      obtain ⟨hreq, hkey⟩ := h.waiting _ (mem_of_getElem? hwaiting)
      split
      · exact ⟨h.represents, fun w hw => h.waiting w (hrest w hw)⟩
      · rename_i written db' hwrite
        exact ⟨h.represents.acceptWrite hreq hkey hwrite, fun w hw => h.waiting w (hrest w hw)⟩

def Calls.run (catalog : DocumentCatalog) (sha : Sha256 D S) (s : Calls D) (calls : List Call) :
    Calls D := Runs.run (Calls.next catalog sha) s calls

lemma Calls.Inv.run (h : s.Inv catalog sha) (calls : List Call) :
    (s.run catalog sha calls).Inv catalog sha := by
  induction calls generalizing s with
  | nil => exact h
  | cons call calls ih => exact ih (h.next call)

/-- What was accepted stays accepted. -/
lemma Calls.log_grows (s : Calls D) (calls : List Call) :
    s.log <+: (s.run catalog sha calls).log := by
  induction calls generalizing s with
  | nil => exact prefix_rfl
  | cons call calls ih =>
    refine List.IsPrefix.trans ?_ (ih (s.next catalog sha call))
    cases call with
    | lookup request principal =>
      dsimp only [Calls.next]
      split <;> exact prefix_rfl
    | write i fence writeEpoch =>
      dsimp only [Calls.next]
      split
      · exact prefix_rfl
      · split
        · exact prefix_rfl
        · split
          · exact prefix_rfl
          · exact prefix_append _ _

/-- A catalog nothing has been accepted into. -/
structure Fresh (catalog : DocumentCatalog) (db : Database D) : Prop where
  opened : headerFrom catalog db.header = .ok db.header
  admits : requireAdmission db.header false = .ok ()
  sequence : db.header.acceptedSequence = 0
  counts : countsValid db.header db.operations.len (db.actorOperations.map (·.len)) = true
  heads : db.heads = ∅
  versions : db.versions = ∅
  changes : db.changes = ∅
  operations : ∀ key, db.operation key = none

lemma Fresh.represents (h : Fresh catalog db) : Represents catalog sha db [] where
  numbered := .nil
  opened := h.opened
  admits := h.admits
  sequence := h.sequence
  counts := h.counts
  changes := fun _ => by rw [h.changes]; rfl
  versions := fun _ => by rw [h.versions]; rfl
  heads := fun _ => by rw [h.heads]; rfl
  operations := fun key => h.operations key
  recorded := fun _ ha => absurd ha not_mem_nil

lemma Fresh.inv (h : Fresh catalog db) : (⟨db, [], []⟩ : Calls D).Inv catalog sha :=
  ⟨h.represents, fun _ hw => absurd hw not_mem_nil⟩

end ProtomoltSearch.Catalog
