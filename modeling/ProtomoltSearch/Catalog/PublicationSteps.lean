import ProtomoltSearch.Catalog.Publication

/-!
# What publishing keeps

At every moment of a run, the rows of an index are a chain of decisions (`Chain`), and the manifest of
the index that is durable is the one the chain ends at or the one its pending intent leads to
(`IndexAt`).

What an owner has prepared is either the pending intent, or a decision that is committed: the manifest
that one started from is no longer durable, as epochs grow along the chain, so a manifest prepared long
ago cannot be published over a newer one.
-/

namespace ProtomoltSearch.Catalog

open Option Function AList Database

variable {D S : Type}

/-! ## What is kept -/

section

variable [DecidableEq D]

variable (sha : Sha256 D S) (state : ProjectionJournalState D)

/-- The owner has prepared the pending intent. -/
def Prepares (before after : SegmentSetManifest S) : Prop :=
  (∃ i, state.pending = some i ∧ i.beforeManifestSha256 = sha.manifest before ∧
      i.afterManifestSha256 = sha.manifest after) ∨
    ∃ m, state.pendingMaintenance = some m ∧ m.beforeManifestSha256 = sha.manifest before ∧
      m.afterManifestSha256 = sha.manifest after

/-- The durable manifest of an index: where its chain ends, or where its pending intent leads. -/
def DurableAt (tip : Tip D) (durable : SegmentSetManifest S) : Prop :=
  sha.manifest durable = tip.manifest ∨
    (∃ i, state.pending = some i ∧ sha.manifest durable = i.afterManifestSha256) ∨
    ∃ m, state.pendingMaintenance = some m ∧ sha.manifest durable = m.afterManifestSha256

/-- What is kept of an index that is in the journal. -/
structure IndexAt (sha : Sha256 D S) (db : Database D) (key : Bytes) (durable : SegmentSetManifest S)
    (prepared : Option (SegmentSetManifest S × SegmentSetManifest S))
    (state : ProjectionJournalState D) (base : SegmentSetManifest S) (links : List (Link D))
    (tip : Tip D) : Prop where
  key_valid : indexKey key = .ok ()
  chain : Chain sha (db.scope key) base links tip
  holds : HoldsChain db.decisionTable db.maintenance key links
  at_tip : AtTip sha (db.scope key) state tip
  manifest : ∃ m, sha.manifest m = tip.manifest ∧ m.epoch = tip.epoch
  table : state.pendingMaintenance.isSome = true → db.maintenance.isSome = true
  durable : DurableAt sha state tip durable
  prepared : ∀ before after, prepared = some (before, after) →
    Prepares sha state before after ∨ before.epoch < tip.epoch

/-- What is kept of an index: nothing of it is in the journal, or its chain is. -/
def Indexed (s : Indexing D S) (key : Bytes) : Prop :=
  match s.db.stateTable.lookup key with
  | none => HoldsChain s.db.decisionTable s.db.maintenance key [] ∧ s.views key = [s.durable key] ∧
      s.prepared key = none
  | some state => ∃ base links tip,
      IndexAt sha s.db key (s.durable key) (s.prepared key) state base links tip

structure StagedCall.Valid (sha : Sha256 D S) (call : StagedCall D S) : Prop where
  key : indexKey call.key = .ok ()
  intent : ∃ source, call.intent = newIntent sha call.key call.info source call.before call.after ∧
    source.acceptedSequence = call.info.acceptedSequence
  valid : validateIntent sha call.intent call.key call.info.historyId = .ok ()

/-- What holds at every moment of a run. -/
structure Indexing.Inv (catalog : DocumentCatalog) (sha : Sha256 D S) (s : Indexing D S) : Prop where
  opened : headerFrom catalog s.db.header = .ok s.db.header
  admits : requireAdmission s.db.header true = .ok ()
  journal : ∃ exist, journalHeader s.db s.db.header.historyId = .ok exist
  staged : ∀ call ∈ s.staged, call.Valid sha ∧ call.before.manifest ∈ s.views call.key
  indexed : ∀ key, Indexed sha s key

variable {catalog : DocumentCatalog} {sha : Sha256 D S} {db db' : Database D} {s s' : Indexing D S}
  {key other : Bytes} {state : ProjectionJournalState D} {base durable : SegmentSetManifest S}
  {links : List (Link D)} {tip : Tip D}
  {prepared : Option (SegmentSetManifest S × SegmentSetManifest S)}

/-- The committed decisions of one index are the same, and so is its scope. -/
structure SameDecisions (db db' : Database D) (key : Bytes) : Prop where
  header : db'.header.historyId = db.header.historyId ∧ db'.header.collection = db.header.collection
  decisions : ∀ n, db'.decisionTable.lookup ⟨key, n⟩ = db.decisionTable.lookup ⟨key, n⟩
  maintenance : ∀ n, (db'.maintenance.bind fun t => t.lookup ⟨key, n⟩) =
    db.maintenance.bind fun t => t.lookup ⟨key, n⟩
  table : db.maintenance.isSome = true → db'.maintenance.isSome = true

structure SameIndex (db db' : Database D) (key : Bytes) : Prop extends SameDecisions db db' key where
  state : db'.stateTable.lookup key = db.stateTable.lookup key

omit [DecidableEq D] in
lemma SameIndex.refl (db : Database D) (key : Bytes) : SameIndex db db key :=
  ⟨⟨⟨rfl, rfl⟩, fun _ => rfl, fun _ => rfl, id⟩, rfl⟩

lemma Indexing.Inv.indexAt (h : s.Inv catalog sha) (hst : s.db.stateTable.lookup key = some state) :
    ∃ base links tip, IndexAt sha s.db key (s.durable key) (s.prepared key) state base links tip := by
  have hidx := h.indexed key
  unfold Indexed at hidx
  simpa only [hst] using hidx

omit [DecidableEq D] in
lemma SameDecisions.holds (h : SameDecisions db db' key)
    (hholds : HoldsChain db.decisionTable db.maintenance key links) :
    HoldsChain db'.decisionTable db'.maintenance key links :=
  ⟨fun n i => (h.decisions n).symm ▸ hholds.source n i,
    fun n m => (h.maintenance n).symm ▸ hholds.maintenance n m⟩

omit [DecidableEq D] in
lemma SameDecisions.scope (h : SameDecisions db db' key) : db'.scope key = db.scope key := by
  rw [Database.scope, Database.scope, h.header.1, h.header.2]

section

variable (h : IndexAt sha db key durable prepared state base links tip)

include h

lemma IndexAt.congr (hsame : SameDecisions db db' key) :
    IndexAt sha db' key durable prepared state base links tip :=
  ⟨h.key_valid, hsame.scope.symm ▸ h.chain, hsame.holds h.holds, hsame.scope.symm ▸ h.at_tip,
    h.manifest, fun hsome => hsame.table (h.table hsome), h.durable, h.prepared⟩

/-- The owner of an index loses what it has prepared, or takes hold of it. -/
lemma IndexAt.hold {prepared' : Option (SegmentSetManifest S × SegmentSetManifest S)}
    (hprep : ∀ before after, prepared' = some (before, after) →
      Prepares sha state before after ∨ before.epoch < tip.epoch) :
    IndexAt sha db key durable prepared' state base links tip :=
  ⟨h.key_valid, h.chain, h.holds, h.at_tip, h.manifest, h.table, h.durable, hprep⟩

end

/-- An index whose rows are the same is kept. -/
lemma Indexed.congr (h : Indexed sha s key) (hsame : SameIndex s.db s'.db key)
    (hdur : s'.durable key = s.durable key) (hviews : s'.views key = s.views key)
    (hprep : s'.prepared key = s.prepared key ∨ s'.prepared key = none) : Indexed sha s' key := by
  unfold Indexed at h ⊢
  rw [hsame.state, hdur, hviews]
  cases hst : s.db.stateTable.lookup key with
  | none =>
    simp only [hst] at h ⊢
    refine ⟨hsame.holds h.1, h.2.1, ?_⟩
    rcases hprep with heq | hnone
    · exact heq.trans h.2.2
    · exact hnone
  | some state =>
    simp only [hst] at h ⊢
    obtain ⟨base, links, tip, h⟩ := h
    refine ⟨base, links, tip, (h.congr hsame.toSameDecisions).hold fun before after heq => ?_⟩
    rcases hprep with hsame | hnone
    · exact h.prepared before after (hsame ▸ heq)
    · rw [hnone] at heq
      cases heq

omit [DecidableEq D] in
lemma Elsewhere.sameIndex (h : Elsewhere catalog db db') (key : Bytes) : SameIndex db db' key := by
  refine ⟨⟨⟨h.history, h.collection⟩, fun n => ?_, fun n => ?_, fun hsome => h.maintenance ▸ hsome⟩, ?_⟩
  · rw [decisionTable, decisionTable, h.decisions]
  · rw [h.maintenance]
  · rw [stateTable, stateTable, h.states]

lemma Indexing.Inv.elsewhere (h : s.Inv catalog sha) (helse : Elsewhere catalog s.db db') :
    Indexing.Inv catalog sha { s with db := db' } where
  opened := helse.opened
  admits := helse.admits
  journal := by
    obtain ⟨exist, hjour⟩ := h.journal
    refine ⟨exist, ?_⟩
    rw [helse.history, ← hjour]
    unfold journalHeader
    rw [helse.journal, helse.states, helse.decisions, helse.maintenance]
  staged := h.staged
  indexed key := (h.indexed key).congr (helse.sameIndex key) rfl rfl (.inl rfl)

/-! ## Recovery resolves -/

section

variable (h : IndexAt sha db key durable prepared state base links tip)

include h

lemma IndexAt.validateTip :
    validateTip sha db.decisionTable db.maintenance state db.header.collection = .ok tip.source := by
  have hholds : HoldsChain db.decisionTable db.maintenance (db.scope key).key links := h.holds
  exact hholds.validateTip h.chain h.at_tip h.table

/-- The checks a recovery begins with are passed. -/
lemma IndexAt.recovers (hopened : headerFrom catalog db.header = .ok db.header)
    (hadm : requireAdmission db.header true = .ok ())
    (hjour : ∃ exist, journalHeader db db.header.historyId = .ok exist)
    (hst : db.stateTable.lookup key = some state) :
    (state.pendingMaintenance = none → recoverIndexPublication catalog sha db key durable =
        resolvePublication db key state (sha.manifest durable)) ∧
      (state.pending = none → recoverIndexMaintenance catalog sha db key durable =
        resolveMaintenance db key state (sha.manifest durable)) := by
  obtain ⟨-, hvalid, -, -⟩ := headerFrom_ok.1 hopened
  have hexist : journalHeader db db.header.historyId = .ok true := by
    obtain ⟨exist, hexist⟩ := hjour
    rcases journalHeader_ok.1 hexist with ⟨-, -, hnone, -⟩ | ⟨rfl, -⟩
    · rw [stateTable, hnone] at hst
      cases hst
    · exact hexist
  have hproject : validateProjectionJournal db = .ok true := by
    rw [validateProjectionJournal, hvalid, ok_bind, hexist]
  have htx : sourceTransaction catalog db true = .ok db.header := by
    rw [sourceTransaction, hopened, ok_bind, hadm]
    rfl
  have hvalidState : validateState sha state key db.header.historyId = .ok () := h.at_tip.validateState
  have htip := h.validateTip
  constructor <;> intro hnone
  · rw [recoverIndexPublication, h.key_valid, ok_bind, hproject, ok_bind, Bool.not_true,
      refuseIf_false, ok_bind, htx, ok_bind, hst, okOr, ok_bind, hvalidState, ok_bind, htip,
      ok_bind, hnone]
    rfl
  · rw [recoverIndexMaintenance, h.key_valid, ok_bind, hproject, ok_bind, Bool.not_true,
      refuseIf_false, ok_bind, htx, ok_bind, hst, okOr, ok_bind, hvalidState, ok_bind, htip,
      ok_bind, hnone]
    rfl

end

/-! ## Steps on one index -/

/-- A step on one index leaves the catalog's header, the calls in memory and other indexes alone. -/
structure Touches (s s' : Indexing D S) (key : Bytes) : Prop where
  header : s'.db.header = s.db.header
  rows : ∀ other, other ≠ key → SameIndex s.db s'.db other
  durable : ∀ other, other ≠ key → s'.durable other = s.durable other
  views : ∀ other, other ≠ key → s'.views other = s.views other
  seen : ∀ m ∈ s.views key, m ∈ s'.views key
  prepared : ∀ other, other ≠ key → s'.prepared other = s.prepared other
  staged : s'.staged = s.staged

lemma Indexing.Inv.touches (h : s.Inv catalog sha) (htouches : Touches s s' key)
    (hjour : ∃ exist, journalHeader s'.db s'.db.header.historyId = .ok exist)
    (hidx : Indexed sha s' key) : s'.Inv catalog sha where
  opened := htouches.header.symm ▸ h.opened
  admits := htouches.header.symm ▸ h.admits
  journal := hjour
  staged call hcall := by
    obtain ⟨hvalid, hseen⟩ := h.staged call (htouches.staged ▸ hcall)
    refine ⟨hvalid, ?_⟩
    by_cases hkey : call.key = key
    · rw [hkey] at hseen ⊢
      exact htouches.seen _ hseen
    · rw [htouches.views _ hkey]
      exact hseen
  indexed other := by
    by_cases hkey : other = key
    · exact hkey ▸ hidx
    · exact (h.indexed other).congr (htouches.rows other hkey) (htouches.durable other hkey)
        (htouches.views other hkey) (.inl (htouches.prepared other hkey))

omit [DecidableEq D] in
/-- Taking hold of what is prepared, with the rows of one index changed. -/
lemma touches_hold (hhdr : db'.header = s.db.header)
    (hrows : ∀ other, other ≠ key → SameIndex s.db db' other) :
    Touches s (s.hold db' key prepared) key :=
  ⟨hhdr, hrows, fun _ _ => rfl, fun _ _ => rfl, fun _ hm => hm,
    fun _ hne => update_of_ne hne _ _, rfl⟩

/-- What an index that is in the journal has come to. -/
lemma indexed_hold {state' : ProjectionJournalState D}
    (hst : db'.stateTable.lookup key = some state')
    (h : IndexAt sha db' key (s.durable key) prepared state' base links tip) :
    Indexed sha (s.hold db' key prepared) key := by
  unfold Indexed
  rw [show (s.hold db' key prepared).db = db' from rfl, hst]
  refine ⟨base, links, tip, ?_⟩
  have hprep : (s.hold db' key prepared).prepared key = prepared := by simp [Indexing.hold]
  exact hprep.symm ▸ h

lemma Indexing.Inv.holds (h : s.Inv catalog sha) (hst : s.db.stateTable.lookup key = some state)
    (hat : IndexAt sha s.db key (s.durable key) prepared state base links tip) :
    (s.hold s.db key prepared).Inv catalog sha :=
  h.touches (touches_hold rfl fun other _ => .refl _ other) h.journal (indexed_hold hst hat)

omit [DecidableEq D] in
/-- The rows of another index, when the state and the next decision of one are set. -/
lemma sameIndex_set {state' : ProjectionJournalState D} (hhdr : db'.header = db.header)
    (hstates : db'.states = some (db.stateTable.insert key state'))
    (hdecs : db'.decisionTable = db.decisionTable ∨
      ∃ n i, db'.decisionTable = db.decisionTable.insert ⟨key, n⟩ i)
    (hmaint : db'.maintenance = db.maintenance ∨ ∃ table n m, db.maintenance = some table ∧
      db'.maintenance = some (table.insert ⟨key, n⟩ m))
    (hne : other ≠ key) : SameIndex db db' other := by
  refine ⟨⟨⟨by rw [hhdr], by rw [hhdr]⟩, fun n => ?_, fun n => ?_, fun hsome => ?_⟩, ?_⟩
  · rcases hdecs with heq | ⟨_, _, heq⟩
    · rw [heq]
    · rw [heq, lookup_insert_ne fun he => hne (congrArg ProjectionDecisionKey.indexKey he)]
  · rcases hmaint with heq | ⟨table, _, _, htab, heq⟩
    · rw [heq]
    · rw [heq, htab, bind_some, bind_some,
        lookup_insert_ne fun he => hne (congrArg MaintenanceDecisionKey.indexKey he)]
  · rcases hmaint with heq | ⟨_, _, _, -, heq⟩
    · rwa [heq]
    · rw [heq]
      rfl
  · rw [stateTable, hstates, getD_some, lookup_insert_ne hne]

omit [DecidableEq D] in
/-- An index that has a state has a journal. -/
lemma journal_of_state {history : Bytes} {exist : Bool}
    (hjour : journalHeader db history = .ok exist) (hst : db.stateTable.lookup key = some state) :
    ∃ header, db.journal = some header ∧ db.decisions.isSome = true := by
  rcases journalHeader_ok.1 hjour with ⟨-, -, hnone, -⟩ | ⟨-, header, hhdr, -, -, -, -, hsome⟩
  · rw [stateTable, hnone] at hst
    cases hst
  · exact ⟨header, hhdr, hsome⟩

omit [DecidableEq D] in
/-- A journal with its tables is one, of the format it had. -/
lemma journalHeader_set {history : Bytes} {exist : Bool}
    (hjour : journalHeader db history = .ok exist)
    (hhdr : db'.journal = some (db.journal.getD ⟨1, history⟩)) (hstates : db'.states.isSome = true)
    (hdecs : db'.decisions.isSome = true)
    (hmaintenance : db'.maintenance.isSome = db.maintenance.isSome) :
    journalHeader db' history = .ok true := by
  refine journalHeader_ok.2 (.inr ⟨rfl, _, hhdr, ?_⟩)
  rw [hmaintenance]
  rcases journalHeader_ok.1 hjour with ⟨-, hnone, -, -, hmaint⟩ | ⟨-, _, hheld, hfmt, hmaint, hhist, -⟩
  · rw [hnone, hmaint]
    exact ⟨.inl rfl, rfl, rfl, hstates, hdecs⟩
  · rw [hheld]
    exact ⟨hfmt, hmaint, hhist, hstates, hdecs⟩

/-! ## A publication is prepared -/

section

variable {call : StagedCall D S}

/-- The intent of a staged call follows the tip whose manifest and number it names. -/
lemma StagedCall.Valid.follows {scope : Scope} (hinj : Function.Injective sha.manifest)
    (hcall : call.Valid sha) (hkey : scope.key = call.key) (hhist : scope.history = call.info.historyId)
    (hman : ∃ m, sha.manifest m = tip.manifest ∧ m.epoch = tip.epoch)
    (hseq : checkedAdd tip.sequence 1 = some call.info.acceptedSequence)
    (hbef : tip.manifest = call.intent.beforeManifestSha256) :
    SourceFollows sha scope tip call.intent := by
  obtain ⟨source, hint, hsrc⟩ := hcall.intent
  obtain ⟨m, hm, hep⟩ := hman
  refine ⟨hkey ▸ hhist ▸ hcall.valid, ?_, hbef.symm, ?_, call.after.manifest, ?_, ?_⟩
  · rw [hseq, hint, ← hsrc]
    rfl
  · have hsame := hinj (hm.trans (hbef.trans (by rw [hint]; rfl)))
    rw [hint, ← hep, hsame]
    rfl
  · rw [hint]
    rfl
  · rw [hint]
    rfl

lemma StagedCall.Valid.prepares (hcall : call.Valid sha) (hpend : state.pending = some call.intent) :
    Prepares sha state call.before.manifest call.after.manifest := by
  obtain ⟨source, hint, -⟩ := hcall.intent
  exact .inl ⟨call.intent, hpend, by rw [hint]; rfl, by rw [hint]; rfl⟩

omit [DecidableEq D] in
lemma DurableAt.idle (h : DurableAt sha state tip durable) (hpend : state.pending = none)
    (hmaint : state.pendingMaintenance = none) : sha.manifest durable = tip.manifest := by
  rcases h with htip | ⟨i, hi, -⟩ | ⟨m, hm, -⟩
  · exact htip
  · rw [hpend] at hi
    cases hi
  · rw [hmaint] at hm
    cases hm

/-- The state of an index that is idle takes the intent of a call that follows its tip. -/
lemma IndexAt.prepare (h : IndexAt sha db call.key durable prepared state base links tip)
    (hinj : Function.Injective sha.manifest) (hcall : call.Valid sha)
    (hhist : db.header.historyId = call.info.historyId) (hpend : state.pending = none)
    (hmaint : state.pendingMaintenance = none)
    (hseq : checkedAdd state.committedSequence 1 = some call.info.acceptedSequence)
    (hbef : state.committedManifestSha256 = call.intent.beforeManifestSha256) :
    IndexAt sha (db.setState { state with pending := some call.intent } call.key call.info.historyId)
      call.key durable (some (call.before.manifest, call.after.manifest))
      { state with pending := some call.intent } base links tip := by
  have hfol : SourceFollows sha (db.scope call.key) tip call.intent :=
    hcall.follows hinj rfl hhist h.manifest (h.at_tip.sequence ▸ hseq)
      (h.at_tip.manifest ▸ hbef)
  refine ⟨h.key_valid, h.chain, h.holds, ⟨h.at_tip.key, h.at_tip.history, h.at_tip.sequence,
    h.at_tip.manifest, h.at_tip.cursor, fun i hi => ?_, h.at_tip.rewriting, .inr hmaint⟩,
    h.manifest, h.table, .inl (h.durable.idle hpend hmaint), fun before after heq => ?_⟩
  · cases hi
    exact hfol
  · cases heq
    exact .inl (hcall.prepares rfl)

/-- An index that is empty and new begins its chain. -/
lemma indexAt_new (hcall : call.Valid sha)
    (hholds : HoldsChain db.decisionTable db.maintenance call.key [])
    (hhist : db.header.historyId = call.info.historyId)
    (hbef : call.before.manifest = durable) :
    IndexAt sha db call.key durable none
      { indexKey := call.key
        historyId := call.info.historyId
        committedSequence := 0
        committedManifestSha256 := call.intent.beforeManifestSha256
        pending := none
        pendingMaintenance := none
        maintenanceTip := none }
      durable [] (.base (sha.manifest durable) durable.epoch) := by
  obtain ⟨source, hint, -⟩ := hcall.intent
  refine ⟨hcall.key, .nil, hholds, ⟨rfl, hhist.symm, rfl, ?_, rfl, fun _ hi => (nomatch hi),
    fun _ hm => (nomatch hm), .inl rfl⟩, ⟨durable, rfl, rfl⟩, fun hsome => (nomatch hsome), .inl rfl,
    fun _ _ heq => nomatch heq⟩
  rw [hint, ← hbef]
  rfl

/-- A committed decision started from a manifest that is behind the tip. -/
lemma IndexAt.behind (h : IndexAt sha db call.key durable prepared state base links tip)
    (hcall : call.Valid sha) {n : ℕ} (hlook : db.decisionTable.lookup ⟨call.key, n⟩ = some call.intent) :
    call.before.manifest.epoch < tip.epoch := by
  obtain ⟨source, hint, -⟩ := hcall.intent
  obtain ⟨_, -, -, _, -⟩ := validateIntent_ok hcall.valid
  have hle := h.chain.epoch_le.1 _ ((h.holds.source n _).1 hlook).1
  have hbef : call.intent.beforeEpoch = call.before.manifest.epoch := by
    rw [hint]
    rfl
  omega

lemma Indexing.Inv.prepare (h : s.Inv catalog sha) (hinj : Function.Injective sha.manifest)
    (hcall : call ∈ s.staged) : (s.prepare catalog sha call).Inv catalog sha := by
  obtain ⟨hvalid, hseen⟩ := h.staged call hcall
  unfold Indexing.prepare
  cases hprep : prepareIntent catalog sha s.db call.key call.info call.before call.intent with
  | error => exact h
  | ok db' =>
    obtain ⟨hhist, ⟨exist, hjour⟩, state, hopen, hnorw, hcases⟩ := prepareIntent_ok hprep
    have hidx := h.indexed call.key
    unfold Indexed at hidx
    unfold openState at hopen
    cases hst : s.db.stateTable.lookup call.key with
    | some held =>
      simp only [hst] at hidx hopen
      cases hopen
      obtain ⟨base, links, tip, hat⟩ := hidx
      rcases hcases with ⟨hpend, rfl⟩ | ⟨hpend, hlook, rfl⟩ | ⟨hpend, hseq, hbef, rfl⟩
      · refine h.holds hst (hat.hold fun before after heq => ?_)
        cases heq
        exact .inl (hvalid.prepares hpend)
      · refine h.holds hst (hat.hold fun before after heq => ?_)
        cases heq
        exact .inr (hat.behind hvalid hlook)
      · exact h.touches
          (touches_hold rfl fun other hne => sameIndex_set rfl rfl (.inl rfl) (.inl rfl) hne)
          ⟨true, journalHeader_set hjour (hhist ▸ rfl) rfl rfl rfl⟩
          (indexed_hold (lookup_insert _) (hat.prepare hinj hvalid hhist hpend hnorw hseq hbef))
    | none =>
      simp only [hst] at hidx hopen
      obtain ⟨hholds, hviews, -⟩ := hidx
      have hbase : call.before.manifest = s.durable call.key := by
        rw [hviews] at hseen
        exact List.mem_singleton.1 hseen
      split at hopen
      · cases hopen
        rcases hcases with ⟨hpend, -⟩ | ⟨-, hlook, -⟩ | ⟨-, hseq, hbef, rfl⟩
        · cases hpend
        · exact absurd ((hholds.source _ _).1 hlook).1 List.not_mem_nil
        · exact h.touches
            (touches_hold rfl fun other hne => sameIndex_set rfl rfl (.inl rfl) (.inl rfl) hne)
            ⟨true, journalHeader_set hjour (hhist ▸ rfl) rfl rfl rfl⟩
            (indexed_hold (lookup_insert _)
              ((indexAt_new hvalid hholds hhist hbase).prepare hinj hvalid hhist rfl rfl hseq hbef))
      · cases hopen

end

/-! ## A rewrite is prepared -/

section

variable {verified : VerifiedMaintenance D S} {source : ProjectionIntent D}

/-- The intent of a rewrite follows the tip whose manifest it starts from. -/
lemma newMaintenance_follows {scope : Scope} (hinj : Function.Injective sha.manifest)
    (hat : AtTip sha scope state tip)
    (hman : ∃ m, sha.manifest m = tip.manifest ∧ m.epoch = tip.epoch)
    (hsrc : tip.source = some source)
    (hvalid : validateMaintenance sha (newMaintenance sha state source verified) scope.key scope.history
      scope.collection = .ok ())
    (hbef : state.committedManifestSha256 =
      (newMaintenance sha state source verified).beforeManifestSha256) :
    MaintenanceFollows sha scope tip (newMaintenance sha state source verified) := by
  obtain ⟨m, hm, hep⟩ := hman
  refine ⟨hvalid, hat.sequence, ⟨source, hsrc, rfl⟩, hbef.symm.trans hat.manifest, ?_, hat.cursor,
    verified.after.manifest, rfl, rfl⟩
  have hsame := hinj (hm.trans (hat.manifest.symm.trans hbef))
  rw [← hep, hsame]
  rfl

/-- The state of an index that is idle takes the intent of a rewrite that follows its tip. -/
lemma IndexAt.prepareMaintenance {rewrite : MaintenanceIntent D} {db' : Database D}
    {before after : SegmentSetManifest S}
    (h : IndexAt sha db key durable prepared state base links tip)
    (hfol : MaintenanceFollows sha (db.scope key) tip rewrite) (hpend : state.pending = none)
    (hmaint : state.pendingMaintenance = none) (htab : db.maintenance.isSome = true)
    (hbef : rewrite.beforeManifestSha256 = sha.manifest before)
    (haft : rewrite.afterManifestSha256 = sha.manifest after) (hsame : SameDecisions db db' key) :
    IndexAt sha db' key durable (some (before, after))
      { state with pendingMaintenance := some rewrite } base links tip := by
  have hat : IndexAt sha db key durable (some (before, after))
      { state with pendingMaintenance := some rewrite } base links tip := by
    refine ⟨h.key_valid, h.chain, h.holds, ⟨h.at_tip.key, h.at_tip.history, h.at_tip.sequence,
      h.at_tip.manifest, h.at_tip.cursor, h.at_tip.pending, fun m hm => ?_, .inl hpend⟩, h.manifest,
      fun _ => htab, .inl (h.durable.idle hpend hmaint), fun _ _ heq => ?_⟩
    · cases hm
      exact hfol
    · cases heq
      exact .inl (.inr ⟨rewrite, rfl, hbef, haft⟩)
  exact hat.congr hsame

lemma Indexing.Inv.prepareMaintenance (h : s.Inv catalog sha)
    (hinj : Function.Injective sha.manifest) :
    (s.prepareMaintenance catalog sha verified).Inv catalog sha := by
  unfold Indexing.prepareMaintenance
  cases hprep : prepareVerifiedIndexMaintenance catalog sha s.db verified with
  | error => exact h
  | ok result =>
    obtain ⟨prepared, db'⟩ := result
    obtain ⟨exist, hjour⟩ := h.journal
    obtain ⟨-, htab, state, source, hst, htip, hpend, rfl, hvalid, hcases⟩ :=
      prepareVerifiedIndexMaintenance_ok hprep
    obtain ⟨base, links, tip, hat⟩ := h.indexAt hst
    have hsrc := Except.ok.inj (hat.validateTip.symm.trans htip)
    rcases hcases with ⟨hsame, rfl⟩ | ⟨hnone, hbef, rfl⟩
    · refine h.holds hst (hat.hold fun before after heq => ?_)
      cases heq
      exact .inl (.inr ⟨_, hsame, rfl, rfl⟩)
    · obtain ⟨_, hhdr, _⟩ := journal_of_state hjour hst
      have hfol :=
        newMaintenance_follows hinj hat.at_tip hat.manifest hsrc hvalid hbef
      exact h.touches
        (touches_hold rfl fun other hne => sameIndex_set rfl rfl (.inl rfl) (.inl rfl) hne)
        ⟨true, journalHeader_set hjour (by rw [hhdr]; rfl) rfl rfl rfl⟩
        (indexed_hold (lookup_insert _) (hat.prepareMaintenance hfol hpend hnone htab rfl rfl
          ⟨⟨rfl, rfl⟩, fun _ => rfl, fun _ => rfl, id⟩))

end

/-! ## A manifest is made durable -/

/-- What is durable has come at least as far as the chain. -/
lemma IndexAt.epoch_le (h : IndexAt sha db key durable prepared state base links tip)
    (hinj : Function.Injective sha.manifest) : tip.epoch ≤ durable.epoch := by
  rcases h.durable with htip | ⟨i, hi, haft⟩ | ⟨m, hm, haft⟩
  · obtain ⟨held, hheld, hep⟩ := h.manifest
    rw [hinj (htip.trans hheld.symm), hep]
  · have hfol := h.at_tip.pending i hi
    obtain ⟨held, hheld, hep⟩ := hfol.after
    rw [hinj (haft.trans hheld.symm), hep, hfol.afterEpoch]
    exact Nat.le_succ _
  · have hfol := h.at_tip.rewriting m hm
    obtain ⟨held, hheld, hep⟩ := hfol.after
    rw [hinj (haft.trans hheld.symm), hep, hfol.afterEpoch]
    exact Nat.le_succ _

/-- What replaces the durable manifest is the one the pending intent leads to. -/
lemma IndexAt.publish {after : SegmentSetManifest S}
    (h : IndexAt sha db key durable (some (durable, after)) state base links tip)
    (hinj : Function.Injective sha.manifest) :
    IndexAt sha db key after none state base links tip := by
  refine ⟨h.key_valid, h.chain, h.holds, h.at_tip, h.manifest, h.table, ?_, fun _ _ heq => nomatch heq⟩
  rcases h.prepared durable after rfl with (⟨i, hi, -, haft⟩ | ⟨m, hm, -, haft⟩) | hlt
  · exact .inr (.inl ⟨i, hi, haft.symm⟩)
  · exact .inr (.inr ⟨m, hm, haft.symm⟩)
  · exact absurd (h.epoch_le hinj) (Nat.not_le.2 hlt)

omit [DecidableEq D] in
lemma touches_replace (after : SegmentSetManifest S) : Touches s (s.replace key after) key := by
  refine ⟨rfl, fun other _ => .refl _ other, fun _ hne => update_of_ne hne _ _,
    fun _ hne => update_of_ne hne _ _, fun m hm => ?_, fun _ hne => update_of_ne hne _ _, rfl⟩
  simp only [Indexing.replace, update_self]
  exact List.mem_cons_of_mem _ hm

lemma Indexing.Inv.publish [DecidableEq S] (h : s.Inv catalog sha)
    (hinj : Function.Injective sha.manifest) : (s.publish key).Inv catalog sha := by
  unfold Indexing.publish
  split
  · exact h
  rename_i before after hprep
  split
  · rename_i hdur
    refine h.touches (touches_replace after) h.journal ?_
    have hidx := h.indexed key
    unfold Indexed at hidx ⊢
    rw [show (s.replace key after).db = s.db from rfl]
    cases hst : s.db.stateTable.lookup key with
    | none =>
      simp only [hst] at hidx
      rw [hidx.2.2] at hprep
      cases hprep
    | some state =>
      simp only [hst] at hidx ⊢
      obtain ⟨base, links, tip, hat⟩ := hidx
      rw [hprep, ← hdur] at hat
      refine ⟨base, links, tip, ?_⟩
      simp only [Indexing.replace, update_self]
      exact hat.publish hinj
  · exact h

/-! ## A recovery resolves an intent -/

section

variable {i : ProjectionIntent D} {m : MaintenanceIntent D}

section

variable (h : IndexAt sha db key durable prepared state base links tip)

include h

/-- What a document decision leaves when it is committed. -/
lemma IndexAt.commit
    (hpend : state.pending = some i) (hmaint : state.pendingMaintenance = none)
    (haft : sha.manifest durable = i.afterManifestSha256)
    (hhdr : db'.header = db.header)
    (hdecs : db'.decisionTable = db.decisionTable.insert ⟨key, tip.sequence + 1⟩ i)
    (htab : db'.maintenance = db.maintenance) :
    IndexAt sha db' key durable none { state with
      committedSequence := tip.sequence + 1
      committedManifestSha256 := sha.manifest durable
      pending := none } base (links ++ [.source i]) (tip.publish i) := by
  have hfol := h.at_tip.pending i hpend
  have hholds := h.holds
  have hscope : db'.scope key = db.scope key := by rw [scope, scope, hhdr]
  refine ⟨h.key_valid, hscope.symm ▸ h.chain.source hfol, ?_, ?_, hfol.after,
    fun hsome => htab.symm ▸ h.table hsome, .inl haft, fun _ _ heq => nomatch heq⟩
  · rw [hdecs, htab]
    exact hholds.publish h.chain hfol
  · rw [hscope]
    exact ⟨h.at_tip.key, h.at_tip.history, rfl, haft, h.at_tip.cursor, fun _ hi => (nomatch hi),
      fun _ hm => (nomatch hmaint.symm.trans hm), .inl rfl⟩

lemma IndexAt.commitMaintenance {table : Table MaintenanceDecisionKey (MaintenanceIntent D)}
    (hpend : state.pending = none) (hmaint : state.pendingMaintenance = some m)
    (haft : sha.manifest durable = m.afterManifestSha256)
    (hhdr : db'.header = db.header) (hdecs : db'.decisionTable = db.decisionTable)
    (htab : db.maintenance = some table)
    (htab' : db'.maintenance = some (table.insert ⟨key, m.afterEpoch⟩ m)) :
    IndexAt sha db' key durable none { state with
      maintenanceTip := some (cursor m)
      committedManifestSha256 := sha.manifest durable
      pendingMaintenance := none } base (links ++ [.maintenance m]) (tip.maintain m) := by
  have hfol := h.at_tip.rewriting m hmaint
  have hholds := htab ▸ h.holds
  have hscope : db'.scope key = db.scope key := by rw [scope, scope, hhdr]
  refine ⟨h.key_valid, hscope.symm ▸ h.chain.maintenance hfol, ?_, ?_, hfol.after,
    fun _ => htab'.symm ▸ rfl, .inl haft, fun _ _ heq => nomatch heq⟩
  · rw [hdecs, htab']
    exact hholds.maintain h.chain hfol
  · rw [hscope]
    exact ⟨h.at_tip.key, h.at_tip.history, h.at_tip.sequence, haft, rfl,
      fun _ hi => (nomatch hpend.symm.trans hi), fun _ hm => (nomatch hm), .inl hpend⟩

/-- What is left of an index whose intent is given up. -/
lemma IndexAt.abort {state' : ProjectionJournalState D}
    (hdur : sha.manifest durable = tip.manifest) (hsame : SameDecisions db db' key)
    (hst' : state' = { state with pending := none, pendingMaintenance := none }) :
    IndexAt sha db' key durable none state' base links tip := by
  have hat : IndexAt sha db key durable none state' base links tip := by
    subst hst'
    exact ⟨h.key_valid, h.chain, h.holds, ⟨h.at_tip.key, h.at_tip.history, h.at_tip.sequence,
      h.at_tip.manifest, h.at_tip.cursor, fun _ hi => (nomatch hi), fun _ hm => (nomatch hm), .inl rfl⟩,
      h.manifest, fun hsome => (nomatch hsome), .inl hdur, fun _ _ heq => nomatch heq⟩
  exact hat.congr hsame

/-- An intent whose manifest is not durable has left the tip's. -/
lemma IndexAt.unpublished
    (hsrc : ∀ i, state.pending = some i → sha.manifest durable ≠ i.afterManifestSha256)
    (hrewrite : ∀ m, state.pendingMaintenance = some m → sha.manifest durable ≠ m.afterManifestSha256) :
    sha.manifest durable = tip.manifest := by
  rcases h.durable with htip | ⟨i, hi, haft⟩ | ⟨m, hm, haft⟩
  · exact htip
  · exact absurd haft (hsrc i hi)
  · exact absurd haft (hrewrite m hm)

/-- The recovery of a publication, by what is pending and what is durable. -/
lemma IndexAt.resolvePublication (hmaint : state.pendingMaintenance = none) :
    resolvePublication db key state (sha.manifest durable) = .ok (match state.pending with
      | none => (.idle, db)
      | some i =>
        if sha.manifest durable = i.afterManifestSha256 then
          (.committed i, { db with
            decisions := some (db.decisionTable.insert ⟨key, tip.sequence + 1⟩ i)
            states := some (db.stateTable.insert key { state with
              committedSequence := tip.sequence + 1
              committedManifestSha256 := sha.manifest durable
              pending := none }) })
        else
          (.aborted i, { db with
            decisions := some db.decisionTable
            states := some (db.stateTable.insert key { state with pending := none }) })) := by
  unfold Catalog.resolvePublication
  cases hpend : state.pending with
  | none =>
    have hdur := h.durable.idle hpend hmaint
    simp [hdur, h.at_tip.manifest]
  | some i =>
    have hfol := h.at_tip.pending i hpend
    have hholds := h.holds
    have hseq : i.sequence.getD 0 = tip.sequence + 1 := by rw [hfol.sequence_eq, getD_some]
    have hfree : db.decisionTable.lookup ⟨key, i.sequence.getD 0⟩ = none := by
      rw [hseq]
      exact hholds.next_free h.chain
    by_cases haft : sha.manifest durable = i.afterManifestSha256
    · simp only [hfree, if_pos haft, isSome_none, refuseIf_false, ok_bind, hseq]
      rfl
    · have hdur : sha.manifest durable = tip.manifest := by
        refine h.unpublished (fun j hj => ?_) fun m hm => nomatch hmaint.symm.trans hm
        cases hpend.symm.trans hj
        exact haft
      have hbef : (sha.manifest durable != i.beforeManifestSha256) = false := by
        rw [hdur, hfol.manifest, bne_self_eq_false]
      simp only [if_neg haft, hbef, refuseIf_false, ok_bind]
      rfl

/-- The recovery of a rewrite, by what is pending and what is durable. -/
lemma IndexAt.resolveMaintenance (hpend : state.pending = none) :
    resolveMaintenance db key state (sha.manifest durable) = .ok (match state.pendingMaintenance with
      | none => (.idle, db)
      | some m =>
        if sha.manifest durable = m.afterManifestSha256 then
          (.committed m, { db with
            maintenance := db.maintenance.map fun table => table.insert ⟨key, m.afterEpoch⟩ m
            states := some (db.stateTable.insert key { state with
              maintenanceTip := some (cursor m)
              committedManifestSha256 := sha.manifest durable
              pendingMaintenance := none }) })
        else
          (.aborted m, { db with
            states := some (db.stateTable.insert key
              { state with pendingMaintenance := none }) })) := by
  unfold Catalog.resolveMaintenance
  cases hmaint : state.pendingMaintenance with
  | none =>
    have hdur := h.durable.idle hpend hmaint
    simp [hdur, h.at_tip.manifest]
  | some m =>
    have hfol := h.at_tip.rewriting m hmaint
    obtain ⟨table, htab⟩ := isSome_iff_exists.1 (h.table (by rw [hmaint]; rfl))
    have hholds := htab ▸ h.holds
    have hfree : table.lookup ⟨key, m.afterEpoch⟩ = none :=
      hfol.afterEpoch ▸ hholds.epoch_free h.chain
    by_cases haft : sha.manifest durable = m.afterManifestSha256
    · simp only [htab, okOr, ok_bind, hfree, if_pos haft, isSome_none, refuseIf_false, map_some]
      rfl
    · have hdur : sha.manifest durable = tip.manifest := by
        refine h.unpublished (fun i hi => by cases hpend.symm.trans hi) fun n hn => ?_
        cases hmaint.symm.trans hn
        exact haft
      have hbef : (sha.manifest durable != m.beforeManifestSha256) = false := by
        rw [hdur, hfol.manifest, bne_self_eq_false]
      simp only [if_neg haft, hbef, refuseIf_false, ok_bind]
      rfl

end

lemma Indexing.Inv.recover (h : s.Inv catalog sha) :
    (s.resolve key (recoverIndexPublication catalog sha s.db key (s.durable key))).Inv catalog sha := by
  cases hrecv : recoverIndexPublication catalog sha s.db key (s.durable key) with
  | error => exact h
  | ok result =>
    obtain ⟨recovery, db'⟩ := result
    obtain ⟨state, hst, hnorw, hres⟩ := recoverIndexPublication_ok hrecv
    obtain ⟨exist, hjour⟩ := h.journal
    obtain ⟨_, hhdr, _⟩ := journal_of_state hjour hst
    obtain ⟨base, links, tip, hat⟩ := h.indexAt hst
    rw [hat.resolvePublication hnorw] at hres
    obtain rfl := (congrArg Prod.snd (Except.ok.inj hres)).symm
    cases hpend : state.pending with
    | none =>
      exact h.holds hst (hat.hold fun _ _ heq => nomatch heq)
    | some i =>
      by_cases haft : sha.manifest (s.durable key) = i.afterManifestSha256
      · simp only [if_pos haft]
        exact h.touches
          (touches_hold rfl fun other hne => sameIndex_set rfl rfl (.inr ⟨_, _, rfl⟩) (.inl rfl) hne)
          ⟨true, journalHeader_set hjour (by rw [hhdr]; rfl) rfl rfl rfl⟩
          (indexed_hold (lookup_insert _) (hat.commit hpend hnorw haft rfl rfl rfl))
      · simp only [if_neg haft]
        have hdur := hat.unpublished (fun j hj => Option.some.inj (hpend.symm.trans hj) ▸ haft)
          fun m hm => nomatch hnorw.symm.trans hm
        exact h.touches
          (touches_hold rfl fun other hne => sameIndex_set rfl rfl (.inl rfl) (.inl rfl) hne)
          ⟨true, journalHeader_set hjour (by rw [hhdr]; rfl) rfl rfl rfl⟩
          (indexed_hold (lookup_insert _) (hat.abort hdur
            ⟨⟨rfl, rfl⟩, fun _ => rfl, fun _ => rfl, id⟩ (by rw [hnorw])))

lemma Indexing.Inv.recoverMaintenance (h : s.Inv catalog sha) :
    (s.resolve key (recoverIndexMaintenance catalog sha s.db key (s.durable key))).Inv catalog sha := by
  cases hrecv : recoverIndexMaintenance catalog sha s.db key (s.durable key) with
  | error => exact h
  | ok result =>
    obtain ⟨recovery, db'⟩ := result
    obtain ⟨state, hst, hnosrc, hres⟩ := recoverIndexMaintenance_ok hrecv
    obtain ⟨exist, hjour⟩ := h.journal
    obtain ⟨_, hhdr, hdecs⟩ := journal_of_state hjour hst
    obtain ⟨base, links, tip, hat⟩ := h.indexAt hst
    rw [hat.resolveMaintenance hnosrc] at hres
    obtain rfl := (congrArg Prod.snd (Except.ok.inj hres)).symm
    cases hpend : state.pendingMaintenance with
    | none =>
      exact h.holds hst (hat.hold fun _ _ heq => nomatch heq)
    | some m =>
      obtain ⟨table, htab⟩ := isSome_iff_exists.1 (hat.table (by rw [hpend]; rfl))
      by_cases haft : sha.manifest (s.durable key) = m.afterManifestSha256
      · simp only [if_pos haft, htab, map_some]
        exact h.touches (touches_hold rfl fun other hne =>
            sameIndex_set rfl rfl (.inl rfl) (.inr ⟨table, _, _, htab, rfl⟩) hne)
          ⟨true, journalHeader_set hjour (by rw [hhdr]; rfl) rfl hdecs (by rw [htab]; rfl)⟩
          (indexed_hold (lookup_insert _)
            (hat.commitMaintenance hnosrc hpend haft rfl rfl htab rfl))
      · simp only [if_neg haft]
        have hdur := hat.unpublished (fun i hi => nomatch hnosrc.symm.trans hi)
          fun n hn => Option.some.inj (hpend.symm.trans hn) ▸ haft
        exact h.touches
          (touches_hold rfl fun other hne => sameIndex_set rfl rfl (.inl rfl) (.inl rfl) hne)
          ⟨true, journalHeader_set hjour (by rw [hhdr]; rfl) rfl hdecs rfl⟩
          (indexed_hold (lookup_insert _) (hat.abort hdur
            ⟨⟨rfl, rfl⟩, fun _ => rfl, fun _ => rfl, id⟩ (by rw [hnosrc])))

end

end

end ProtomoltSearch.Catalog
