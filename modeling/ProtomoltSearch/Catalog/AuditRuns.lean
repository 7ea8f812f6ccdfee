import ProtomoltSearch.Catalog.Audit
import ProtomoltSearch.Catalog.PublicationRuns

/-!
# The audit after every run

A document decision of an index has a copy of the accepted version in it, and moving the outcome of a
write leaves the copies. The handles of the crate keep the two apart (`DocumentCatalog.Offers`): on an
activated managed catalog, which moves outcomes, no index takes anything up (`Indexing.Vacant.next`),
and on a plain one, which publishes, the copies stay as they are stored (`Indexing.Kept.next`). So every
audit with nothing pending accepts (`checkpoint_accepts`).
-/

namespace ProtomoltSearch.Catalog

open List Table Database

variable {D S : Type}

/-! ## The versions -/

/-- The tables of versions agree: a version has its key, no version is past the head of its document,
and no sequence past the header's is taken. -/
structure Versioned (db : Database D) : Prop where
  keyed : ∀ key version, db.versions.lookup key = some version → version.key = key
  behind : ∀ key version, db.versions.lookup key = some version →
    ∃ head, db.heads.lookup key.documentKey = some head ∧ key.version ≤ head.version
  changed : ∀ n key, db.changes.lookup n = some key → n ≤ db.header.acceptedSequence

/-- The intents an index has taken up: those it has committed, those that are pending, and those of
calls that have read their version. -/
def Indexing.named (s : Indexing D S) : List (ProjectionIntent D) :=
  s.db.decisionTable.rows.map (·.2) ++ s.db.stateTable.rows.filterMap (·.2.pending) ++
    s.staged.map (·.intent)

/-- The calls the crate offers on a handle. Outcomes are moved by an `ActiveManagedCatalog`, for its
actors, and indexes are published from a `DocumentCatalog` that is bound to no resource or owner. -/
def DocumentCatalog.Offers (catalog : DocumentCatalog) : IndexEvent S → Prop
  | .accept .. | .crash => True
  | .mark principal _ | .settle principal _ _ => principal.isSome ∧ catalog.managedActivation.isSome
  | _ => catalog.resourceBinding = none ∧ catalog.managedBinding = none ∧
    catalog.managedActivation = none

instance (catalog : DocumentCatalog) : DecidablePred (catalog.Offers (S := S)) := fun event => by
  cases event <;> unfold DocumentCatalog.Offers <;> infer_instance

section

variable {catalog : DocumentCatalog} {sha : Sha256 D S} {db db' : Database D}
  {i : ProjectionIntent D}

open Indexing

lemma Indexing.mem_named {s : Indexing D S} : i ∈ s.named ↔
    (∃ key, s.db.decisionTable.lookup key = some i) ∨
      (∃ key state, s.db.stateTable.lookup key = some state ∧ state.pending = some i) ∨
      ∃ call ∈ s.staged, call.intent = i := by
  simp only [named, mem_append, mem_map, mem_filterMap, Prod.exists,
    mem_rows, exists_eq_right, or_assoc]

structure SameVersions (db db' : Database D) : Prop where
  header : db'.header = db.header
  heads : db'.heads = db.heads
  versions : db'.versions = db.versions
  changes : db'.changes = db.changes

lemma SameVersions.versioned (h : SameVersions db db') (hdb : Versioned db) : Versioned db' := by
  refine ⟨?_, ?_, ?_⟩
  · rw [h.versions]
    exact hdb.keyed
  · rw [h.versions, h.heads]
    exact hdb.behind
  · rw [h.changes, h.header]
    exact hdb.changed

lemma SameVersions.anchors (h : SameVersions db db') (hi : Anchors db i) : Anchors db' i := by
  unfold Anchors
  rw [h.versions, h.changes, h.header]
  exact hi

/-- A new write has a version key of its own. -/
lemma Versioned.free (h : Versioned db) (request : AcceptDocumentRequest) :
    db.versions.lookup ⟨request.documentKey, newVersion db request⟩ = none := by
  cases hlook : db.versions.lookup ⟨request.documentKey, newVersion db request⟩ with
  | none => rfl
  | some version =>
    obtain ⟨head, hhead, hle⟩ := h.behind _ _ hlook
    have hnew : newVersion db request = head.version + 1 := by
      rw [newVersion, currentVersion, hhead]
      rfl
    dsimp only at hle
    omega

lemma versioned_new {collection : String} {historyId : Bytes} :
    Versioned (Database.new catalog collection historyId : Database D) where
  keyed key _ h := nomatch (AList.lookup_empty key).symm.trans h
  behind key _ h := nomatch (AList.lookup_empty key).symm.trans h
  changed n _ h := nomatch (AList.lookup_empty n).symm.trans h

variable [DecidableEq D]

lemma versioned_accept {request : AcceptDocumentRequest} {principal : Option String}
    {fence : Except Status Unit} {writeEpoch : ℕ} {written : Written} (h : Versioned db)
    (hacc : acceptChecked catalog sha db request principal fence writeEpoch = .ok (written, db')) :
    Versioned db' ∧ ∀ i, Anchors db i → Anchors db' i := by
  obtain ⟨key, -, _, -, hacc⟩ := bind₂_ok.1 hacc
  obtain ⟨-, -, ⟨previous, -, -, rfl⟩ | ⟨-, hnew⟩⟩ := acceptWrite_ok hacc
  · exact ⟨h, fun _ => id⟩
  obtain ⟨-, -, rfl, happ⟩ := writeNew_ok hnew
  have hfree := h.free request
  have hseq : db'.header.acceptedSequence = db.header.acceptedSequence + 1 := by
    rw [happ.header]
    rfl
  refine ⟨⟨fun k version hlook => ?_, fun k version hlook => ?_, fun n k hlook => ?_⟩,
    fun i ⟨source, hsrc, hver, hchange, hle⟩ => ⟨source, hsrc, ?_, ?_, by omega⟩⟩
  · rw [happ.versions, lookup_insert_eq] at hlook
    split at hlook
    · rename_i hk
      cases hlook
      exact hk.symm
    · exact h.keyed k version hlook
  · rw [happ.heads, lookup_insert_eq]
    rw [happ.versions, lookup_insert_eq] at hlook
    split at hlook
    · rename_i hk
      rw [hk]
      exact ⟨_, if_pos rfl, Nat.le_refl _⟩
    · obtain ⟨head, hhead, hle⟩ := h.behind k version hlook
      by_cases hk : k.documentKey = request.documentKey
      · refine ⟨_, if_pos hk, ?_⟩
        rw [hk] at hhead
        have hnew : newVersion db request = head.version + 1 := by
          rw [newVersion, currentVersion, hhead]
          rfl
        change k.version ≤ newVersion db request
        omega
      · exact ⟨head, (if_neg hk).trans hhead, hle⟩
  · rw [happ.changes, lookup_insert_eq] at hlook
    split at hlook
    · rename_i hn
      rw [hn, hseq]
      exact Nat.le_refl _
    · have hle := h.changed n k hlook
      omega
  · rw [happ.versions]
    exact lookup_insert_of_free hfree hver
  · have hnext : source.acceptedSequence ≠ db.header.acceptedSequence + 1 := by omega
    rw [happ.changes]
    exact (AList.lookup_insert_ne hnext).trans hchange

end

/-! ## What an index takes up is as it is stored -/

section

variable [DecidableEq D] {catalog : DocumentCatalog} {sha : Sha256 D S} {s s' : Indexing D S}
  {db' : Database D} {key : Bytes}

/-- Every intent an index has taken up names a stored version as it is. -/
structure Indexing.Kept (s : Indexing D S) : Prop where
  versioned : Versioned s.db
  anchors : ∀ i ∈ s.named, Anchors s.db i

/-- A step of the journal: the versions are left alone, and what an index takes up it has taken up
before, or has just read. -/
structure JournalStep (s s' : Indexing D S) : Prop where
  same : SameVersions s.db s'.db
  named : ∀ i ∈ s'.named, i ∈ s.named ∨ Anchors s.db i

omit [DecidableEq D] in
lemma Indexing.Kept.step (hs : s.Kept) (h : JournalStep s s') : s'.Kept where
  versioned := h.same.versioned hs.versioned
  anchors i hi := by
    rcases h.named i hi with hold | hread
    · exact h.same.anchors (hs.anchors i hold)
    · exact h.same.anchors hread

omit [DecidableEq D] in
/-- The database is the same, and no call has read a version. -/
lemma journalStep_of_eq (hdb : s'.db = s.db) (hstaged : ∀ call ∈ s'.staged, call ∈ s.staged) :
    JournalStep s s' := by
  refine ⟨⟨by rw [hdb], by rw [hdb], by rw [hdb], by rw [hdb]⟩, fun i hi => .inl ?_⟩
  rw [Indexing.mem_named, hdb] at hi
  rw [Indexing.mem_named]
  rcases hi with hi | hi | ⟨call, hcall, hi⟩
  · exact .inl hi
  · exact .inr (.inl hi)
  · exact .inr (.inr ⟨call, hstaged call hcall, hi⟩)

omit [DecidableEq D] in
/-- The state of one index is set, and with it a decision. -/
lemma journalStep_set {state' : ProjectionJournalState D} (hsame : SameVersions s.db s'.db)
    (hstates : s'.db.states = some (s.db.stateTable.insert key state'))
    (hstaged : s'.staged = s.staged) (hpend : ∀ i, state'.pending = some i → i ∈ s.named)
    (hdecs : s'.db.decisionTable = s.db.decisionTable ∨
      ∃ row, ∃ i ∈ s.named, s'.db.decisionTable = s.db.decisionTable.insert row i) :
    JournalStep s s' := by
  refine ⟨hsame, fun i hi => .inl ?_⟩
  rcases Indexing.mem_named.1 hi with ⟨row, hrow⟩ | ⟨other, state, hst, hi⟩ | ⟨call, hcall, hi⟩
  · rcases hdecs with heq | ⟨new, j, hj, heq⟩
    · rw [heq] at hrow
      exact Indexing.mem_named.2 (.inl ⟨row, hrow⟩)
    · rw [heq, lookup_insert_eq] at hrow
      split at hrow
      · cases hrow
        exact hj
      · exact Indexing.mem_named.2 (.inl ⟨row, hrow⟩)
  · rw [stateTable, hstates, Option.getD_some, lookup_insert_eq] at hst
    split at hst
    · cases hst
      exact hpend i hi
    · exact Indexing.mem_named.2 (.inr (.inl ⟨other, state, hst, hi⟩))
  · rw [hstaged] at hcall
    exact Indexing.mem_named.2 (.inr (.inr ⟨call, hcall, hi⟩))

omit [DecidableEq D] in
lemma Elsewhere.mem_named (h : Elsewhere catalog s.db db') {i : ProjectionIntent D} :
    i ∈ ({ s with db := db' } : Indexing D S).named ↔ i ∈ s.named := by
  unfold Indexing.named decisionTable stateTable
  rw [h.decisions, h.states]

lemma JournalStep.stage {artifacts : Artifacts D S} {candidate : StagedDocumentCandidate S}
    {before after : OpenedSegmentSet S} (hversioned : Versioned s.db) :
    JournalStep s (s.stage artifacts catalog sha key candidate before after) := by
  unfold Indexing.stage
  cases hstage : stageIntent artifacts catalog sha s.db key candidate before after with
  | error => exact journalStep_of_eq rfl fun _ => id
  | ok intent =>
    refine ⟨⟨rfl, rfl, rfl, rfl⟩, fun i hi => ?_⟩
    rcases Indexing.mem_named.1 hi with hi | hi | ⟨call, hcall, rfl⟩
    · exact .inl (Indexing.mem_named.2 (.inl hi))
    · exact .inl (Indexing.mem_named.2 (.inr (.inl hi)))
    · rcases mem_append.1 hcall with hcall | hcall
      · exact .inl (Indexing.mem_named.2 (.inr (.inr ⟨call, hcall, rfl⟩)))
      · obtain rfl := mem_singleton.1 hcall
        obtain ⟨-, source, rfl, hver, hkey, -, hchange, -⟩ := stageIntent_ok hstage
        exact .inr ⟨source, rfl, hkey ▸ hver, hchange, hversioned.changed _ _ hchange⟩

lemma JournalStep.prepare {call : StagedCall D S} (hcall : call ∈ s.staged) :
    JournalStep s (s.prepare catalog sha call) := by
  unfold Indexing.prepare
  cases hprep : prepareIntent catalog sha s.db call.key call.info call.before call.intent with
  | error => exact journalStep_of_eq rfl fun _ => id
  | ok db' =>
    obtain ⟨-, -, state, -, -, ⟨-, rfl⟩ | ⟨-, -, rfl⟩ | ⟨-, -, -, rfl⟩⟩ := prepareIntent_ok hprep
    · exact journalStep_of_eq rfl fun _ => id
    · exact journalStep_of_eq rfl fun _ => id
    · refine journalStep_set ⟨rfl, rfl, rfl, rfl⟩ rfl rfl (fun i hi => ?_) (.inl rfl)
      cases hi
      exact Indexing.mem_named.2 (.inr (.inr ⟨call, hcall, rfl⟩))

lemma JournalStep.prepareMaintenance {verified : VerifiedMaintenance D S} :
    JournalStep s (s.prepareMaintenance catalog sha verified) := by
  unfold Indexing.prepareMaintenance
  cases hprep : prepareVerifiedIndexMaintenance catalog sha s.db verified with
  | error => exact journalStep_of_eq rfl fun _ => id
  | ok result =>
    obtain ⟨prepared, db'⟩ := result
    obtain ⟨-, -, state, source, _, -, hpend, -, -, ⟨-, rfl⟩ | ⟨-, -, rfl⟩⟩ :=
      prepareVerifiedIndexMaintenance_ok hprep
    · exact journalStep_of_eq rfl fun _ => id
    · refine journalStep_set ⟨rfl, rfl, rfl, rfl⟩ rfl rfl (fun i hi => ?_) (.inl rfl)
      exact nomatch hpend.symm.trans hi

lemma JournalStep.recover :
    JournalStep s (s.resolve key (recoverIndexPublication catalog sha s.db key (s.durable key))) := by
  cases hrecv : recoverIndexPublication catalog sha s.db key (s.durable key) with
  | error => exact journalStep_of_eq rfl fun _ => id
  | ok result =>
    obtain ⟨recovery, db'⟩ := result
    obtain ⟨state, hst, -, hres⟩ := recoverIndexPublication_ok hrecv
    rcases resolvePublication_ok hres with rfl | ⟨i, hi, ⟨-, rfl⟩ | rfl⟩
    · exact journalStep_of_eq rfl fun _ => id
    · have hnamed : i ∈ s.named := Indexing.mem_named.2 (.inr (.inl ⟨key, state, hst, hi⟩))
      exact journalStep_set ⟨rfl, rfl, rfl, rfl⟩ rfl rfl (fun _ hnone => nomatch hnone)
        (.inr ⟨_, i, hnamed, rfl⟩)
    · exact journalStep_set ⟨rfl, rfl, rfl, rfl⟩ rfl rfl (fun _ hnone => nomatch hnone) (.inl rfl)

lemma JournalStep.recoverMaintenance :
    JournalStep s (s.resolve key (recoverIndexMaintenance catalog sha s.db key (s.durable key))) := by
  cases hrecv : recoverIndexMaintenance catalog sha s.db key (s.durable key) with
  | error => exact journalStep_of_eq rfl fun _ => id
  | ok result =>
    obtain ⟨recovery, db'⟩ := result
    obtain ⟨state, -, hnone, hres⟩ := recoverIndexMaintenance_ok hrecv
    rcases resolveMaintenance_ok hres with rfl | ⟨m, -, ⟨table, -, -, rfl⟩ | rfl⟩
    · exact journalStep_of_eq rfl fun _ => id
    all_goals
      exact journalStep_set ⟨rfl, rfl, rfl, rfl⟩ rfl rfl (fun _ hi => nomatch hnone.symm.trans hi)
        (.inl rfl)

lemma JournalStep.enable (henable : enableIndexMaintenance catalog sha s.db = .ok db') :
    JournalStep s { s with db := db' } := by
  rcases enableIndexMaintenance_ok henable with rfl | ⟨-, -, -, rfl⟩
  · exact journalStep_of_eq rfl fun _ => id
  · exact ⟨⟨rfl, rfl, rfl, rfl⟩, fun i hi => .inl hi⟩

variable [DecidableEq S] {artifacts : Artifacts D S}

/-- **What an index has taken up stays as it is stored**, on a handle that moves no outcome. -/
theorem Indexing.Kept.next (h : s.Kept) (hinv : s.Inv catalog sha)
    (hactive : catalog.managedActivation = none) {event : IndexEvent S}
    (hoffers : catalog.Offers event) : (s.next artifacts catalog sha event).Kept := by
  cases event with
  | accept request principal fence writeEpoch =>
    refine commit_inv h fun _ db' hok => ?_
    obtain ⟨hver, hanch⟩ := versioned_accept h.versioned hok
    refine ⟨hver, fun i hi => hanch i (h.anchors i ?_)⟩
    exact (elsewhere_accept hinv.admits hok).mem_named.1 hi
  | mark | settle =>
    have hmoves := hoffers.2
    rw [hactive] at hmoves
    cases hmoves
  | stage key candidate before after =>
    dsimp only [Indexing.next]
    split
    · exact h.step (.stage h.versioned)
    · exact h
  | prepare call =>
    dsimp only [Indexing.next]
    split
    · exact h
    · exact h.step (.prepare (mem_of_getElem? ‹_›))
  | verify key before after batchRows =>
    dsimp only [Indexing.next, Indexing.verify]
    split
    · split
      · exact h.step (journalStep_of_eq rfl fun _ => id)
      · exact h
    · exact h
  | prepareMaintenance call =>
    dsimp only [Indexing.next]
    split
    · exact h
    · exact h.step .prepareMaintenance
  | publish key =>
    dsimp only [Indexing.next, Indexing.publish]
    split
    · exact h
    · split
      · exact h.step (journalStep_of_eq rfl fun _ => id)
      · exact h
  | recover key => exact h.step .recover
  | recoverMaintenance key => exact h.step .recoverMaintenance
  | enable =>
    refine commit_inv h fun _ db' hok => ?_
    obtain ⟨_, henable, heq⟩ := map_ok.1 hok
    obtain ⟨-, rfl⟩ := Prod.mk.inj heq
    exact h.step (.enable henable)
  | crash => exact h.step (journalStep_of_eq rfl fun _ hcall => absurd hcall not_mem_nil)

/-- No index has taken anything up. -/
def Indexing.Vacant (s : Indexing D S) : Prop := s.named = []

/-- A handle that moves outcomes lets no index take anything up. -/
lemma Indexing.Vacant.next (h : s.Vacant) (hinv : s.Inv catalog sha)
    (hactive : catalog.managedActivation.isSome) {event : IndexEvent S}
    (hoffers : catalog.Offers event) : (s.next artifacts catalog sha event).Vacant := by
  have hnone (i : ProjectionIntent D) (hi : i ∈ s.named) : False := by
    rw [h] at hi
    cases hi
  cases event with
  | accept =>
    refine commit_inv h fun _ db' hok => eq_nil_iff_forall_not_mem.2 fun i hi => hnone i ?_
    exact (elsewhere_accept hinv.admits hok).mem_named.1 hi
  | mark | settle =>
    refine commit_inv h fun _ db' hok => eq_nil_iff_forall_not_mem.2 fun i hi => hnone i ?_
    exact (elsewhere_move hinv.opened hinv.admits hok).mem_named.1 hi
  | crash =>
    refine eq_nil_iff_forall_not_mem.2 fun i hi => hnone i ?_
    exact mem_append_left _ ((mem_append.1 hi).resolve_right not_mem_nil)
  | _ =>
    rw [hoffers.2.2] at hactive
    cases hactive

def Indexing.Idle (s : Indexing D S) : Prop :=
  ∀ row ∈ s.db.stateTable.rows, row.2.pending = none ∧ row.2.pendingMaintenance = none

instance (s : Indexing D S) : Decidable s.Idle :=
  inferInstanceAs (Decidable (∀ row ∈ s.db.stateTable.rows, _ ∧ _))

omit [DecidableEq S] in
/-- With nothing pending, a catalog whose indexes name what is stored can be audited. -/
lemma Indexing.audited (hanchors : ∀ i ∈ s.named, Anchors s.db i) (hinv : s.Inv catalog sha) (hidle : s.Idle)
    (hdecs : s.db.decisionTable.len < 2 ^ 64)
    (hmaint : (s.db.maintenance.getD ∅).len < 2 ^ 64) : Audited sha s.db where
  journal := hinv.journal
  indexes key state hst := by
    obtain ⟨base, links, tip, hat⟩ := hinv.indexAt hst
    refine ⟨base, links, tip, hat.key_valid, hat.chain, hat.holds, hat.at_tip, hidle _ (mem_rows.2 hst),
      fun i hi => hanchors i (mem_named.2 (.inl ?_))⟩
    obtain ⟨source, hsrc, -⟩ := validateIntent_ok (hat.chain.valid.1 i hi)
    refine ⟨⟨key, source.acceptedSequence⟩, (hat.holds.source _ i).2 ⟨hi, ?_⟩⟩
    rw [ProjectionIntent.sequence, hsrc]
    rfl
  unregistered key hnone := by
    have hidx := hinv.indexed key
    unfold Indexed at hidx
    simp only [hnone] at hidx
    exact hidx.1
  decisions := hdecs
  maintenance := hmaint

/-- **Every audit with nothing pending accepts**, after every run of calls that a handle offers: it can
only stop at a limit that a record exceeds. -/
theorem checkpoint_accepts (sizes : Sizes D) (hinjective : Function.Injective sha.manifest)
    (h : s.Unpublished catalog) (hversioned : Versioned s.db) {events : List (IndexEvent S)}
    (hoffers : ∀ event ∈ events, catalog.Offers event) (metadataLimit recordLimit : ℕ) :
    let t := Runs.run (Indexing.next artifacts catalog sha) s events
    t.Idle → t.db.decisionTable.len < 2 ^ 64 → (t.db.maintenance.getD ∅).len < 2 ^ 64 →
      Within (Exceeds sizes metadataLimit recordLimit t.db)
        (fun captured => Within (Exceeds sizes metadataLimit recordLimit t.db) (fun _ => True)
          (verifyCheckpointChain sizes sha t.db captured.1 recordLimit))
        (checkpointStates sizes sha t.db metadataLimit) := by
  intro t hidle hdecisions hmaintenance
  have hnone : s.Vacant := by
    rw [Indexing.Vacant, Indexing.named, decisionTable, h.decisions, stateTable, h.states, h.staged]
    rfl
  have hmeets : Runs.Meets (Indexing.next artifacts catalog sha) (fun _ => catalog.Offers) s events :=
    Runs.meets_of_forall hoffers
  have hrun : t.Inv catalog sha ∧ ∀ i ∈ t.named, Anchors t.db i := by
    cases hactive : catalog.managedActivation with
    | some activation =>
      obtain ⟨hinv, hvacant⟩ := Runs.run_keeps
        (I := fun s : Indexing D S => s.Inv catalog sha ∧ s.Vacant) ⟨h.inv, hnone⟩
        (fun s event hs hevent => ⟨hs.1.next hinjective event,
          hs.2.next hs.1 (by rw [hactive]; rfl) hevent⟩) hmeets
      exact ⟨hinv, fun i hi => by rw [hvacant] at hi; cases hi⟩
    | none =>
      obtain ⟨hinv, hkept⟩ := Runs.run_keeps
        (I := fun s : Indexing D S => s.Inv catalog sha ∧ s.Kept)
        ⟨h.inv, hversioned, fun i hi => by rw [hnone] at hi; cases hi⟩
        (fun s event hs hevent => ⟨hs.1.next hinjective event,
          hs.2.next hs.1 hactive hevent⟩) hmeets
      exact ⟨hinv, hkept.anchors⟩
  have haudited := Indexing.audited hrun.2 hrun.1 hidle hdecisions hmaintenance
  refine haudited.within_checkpointStates.mono fun captured hcaptured => ?_
  rw [hcaptured]
  exact haudited.within_verifyCheckpointChain

end

def noSizes {D : Type} : Sizes D := ⟨fun _ => 0, fun _ => 0, fun _ => 0, fun _ => 0, fun _ => 0⟩

/-- A write is published to an index. -/
theorem checkpoint_accepts_published :
    let step := Indexing.next (soundArtifacts ⟨1, none, 1, none, none⟩) plainCatalog manifestSha
    let t := Runs.run step emptyIndexing (publishedOnce ++ [.recover [3]])
    (t.db.stateTable.lookup [3]).map (·.committedSequence) = some 1 ∧
      Within (Exceeds noSizes 1024 1024 t.db)
        (fun captured => Within (Exceeds noSizes 1024 1024 t.db) (fun _ => True)
          (verifyCheckpointChain noSizes manifestSha t.db captured.1 1024))
        (checkpointStates noSizes manifestSha t.db 1024) := by
  refine ⟨by decide +kernel, checkpoint_accepts noSizes (fun _ _ h => Option.some.inj h)
    unpublished_empty versioned_new ?_ 1024 1024 ?_ ?_ ?_⟩ <;> decide +kernel

end ProtomoltSearch.Catalog
