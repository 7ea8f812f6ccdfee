import ProtomoltSearch.Catalog.PublicationSteps

/-!
# Every run of publications resolves

A recovery finds the manifest the chain of an index ends at or the one its pending intent leads to, and
commits or gives up the intent by it (`recovery_resolves`). Decisions that are committed stay.
-/

namespace ProtomoltSearch.Catalog

open AList Indexing

variable {D S : Type} [DecidableEq D] {catalog : DocumentCatalog} {sha : Sha256 D S}
  {db' : Database D} {s : Indexing D S} {key : Bytes} {state : ProjectionJournalState D}

lemma Indexing.Inv.enable (h : s.Inv catalog sha)
    (henable : enableIndexMaintenance catalog sha s.db = .ok db') :
    Indexing.Inv catalog sha { s with db := db' } := by
  rcases enableIndexMaintenance_ok henable with rfl | ⟨hnone, hstates, hdecs, rfl⟩
  · exact h
  · refine ⟨h.opened, h.admits, ⟨true, ?_⟩, h.staged, fun key => (h.indexed key).congr
      ⟨⟨⟨rfl, rfl⟩, fun _ => rfl, fun n => ?_, fun _ => rfl⟩, rfl⟩ rfl rfl (.inl rfl)⟩
    · exact journalHeader_ok.2 (.inr ⟨rfl, _, rfl, .inr rfl, rfl, rfl, hstates, hdecs⟩)
    · rw [hnone]
      exact lookup_empty _

lemma Indexing.Inv.stage {artifacts : Artifacts D S} {candidate : StagedDocumentCandidate S}
    {before after : OpenedSegmentSet S} (h : s.Inv catalog sha) (hseen : before.manifest ∈ s.views key) :
    (s.stage artifacts catalog sha key candidate before after).Inv catalog sha := by
  unfold Indexing.stage
  cases hstage : stageIntent artifacts catalog sha s.db key candidate before after with
  | error => exact h
  | ok intent =>
    refine ⟨h.opened, h.admits, h.journal, fun call hcall => ?_, h.indexed⟩
    rcases List.mem_append.1 hcall with hcall | hcall
    · exact h.staged call hcall
    · obtain rfl := List.mem_singleton.1 hcall
      obtain ⟨hkey, source, hint, -, -, hseq, -, hvalid⟩ := stageIntent_ok hstage
      exact ⟨⟨hkey, ⟨source, hint, hseq⟩, hvalid⟩, hseen⟩

/-- What is durable outlives a crash. -/
lemma Indexing.Inv.crash (h : s.Inv catalog sha) :
    Indexing.Inv catalog sha { s with staged := [], verified := [], prepared := fun _ => none } :=
  ⟨h.opened, h.admits, h.journal, fun _ hcall => absurd hcall List.not_mem_nil,
    fun key => (h.indexed key).congr (.refl _ key) rfl rfl (.inr rfl)⟩

variable [DecidableEq S] {artifacts : Artifacts D S}

lemma Indexing.Inv.next (h : s.Inv catalog sha) (hinj : Function.Injective sha.manifest)
    (event : IndexEvent S) : (s.next artifacts catalog sha event).Inv catalog sha := by
  cases event with
  | accept request principal fence writeEpoch =>
    exact commit_inv h fun _ _ hok => h.elsewhere (elsewhere_accept h.admits hok)
  | mark principal operationId | settle principal operationId settled =>
    exact commit_inv h fun _ _ hok => h.elsewhere (elsewhere_move h.opened h.admits hok)
  | stage key candidate before after =>
    dsimp only [Indexing.next]
    split
    · exact h.stage ‹_›
    · exact h
  | prepare call =>
    dsimp only [Indexing.next]
    split
    · exact h
    · exact h.prepare hinj (List.mem_of_getElem? ‹_›)
  | verify key before after batchRows =>
    dsimp only [Indexing.next, Indexing.verify]
    split
    · split
      · exact ⟨h.opened, h.admits, h.journal, h.staged, h.indexed⟩
      · exact h
    · exact h
  | prepareMaintenance call =>
    dsimp only [Indexing.next]
    split
    · exact h
    · exact h.prepareMaintenance hinj
  | publish key => exact h.publish hinj
  | recover key => exact h.recover
  | recoverMaintenance key => exact h.recoverMaintenance
  | enable =>
    refine commit_inv h fun _ db' hok => ?_
    obtain ⟨_, henable, heq⟩ := map_ok.1 hok
    obtain ⟨-, rfl⟩ := Prod.mk.inj heq
    exact h.enable henable
  | crash => exact h.crash

/-- No event changes or removes a decision. -/
lemma Indexing.Inv.extends (h : s.Inv catalog sha) (event : IndexEvent S) :
    Extends s.db (s.next artifacts catalog sha event).db := by
  let hasAll (t : Indexing D S) : Prop := Extends s.db t.db
  cases event with
  | accept request principal fence writeEpoch =>
    exact commit_inv (P := hasAll) (.refl _) fun _ _ hok => (elsewhere_accept h.admits hok).extends
  | mark principal operationId | settle principal operationId settled =>
    exact commit_inv (P := hasAll) (.refl _) fun _ _ hok =>
      (elsewhere_move h.opened h.admits hok).extends
  | prepare call =>
    dsimp only [Indexing.next, Indexing.prepare]
    split
    · exact .refl _
    · split
      · rename_i hprep
        obtain ⟨-, -, state, -, -, ⟨-, rfl⟩ | ⟨-, -, rfl⟩ | ⟨-, -, -, rfl⟩⟩ := prepareIntent_ok hprep
        · exact .refl _
        · exact .refl _
        · exact extends_of_eq rfl rfl
      · exact .refl _
  | stage key candidate before after | verify key before after batchRows =>
    dsimp only [Indexing.next, Indexing.stage, Indexing.verify]
    split
    · split <;> exact .refl _
    · exact .refl _
  | prepareMaintenance call =>
    dsimp only [Indexing.next, Indexing.prepareMaintenance]
    split
    · exact .refl _
    · split
      · rename_i hprep
        obtain ⟨-, -, state, source, -, -, -, -, -, ⟨-, rfl⟩ | ⟨-, -, rfl⟩⟩ :=
          prepareVerifiedIndexMaintenance_ok hprep
        · exact .refl _
        · exact extends_of_eq rfl rfl
      · exact .refl _
  | publish key =>
    dsimp only [Indexing.next, Indexing.publish]
    split
    · exact .refl _
    · split <;> exact .refl _
  | recover key =>
    dsimp only [Indexing.next]
    cases hresult : recoverIndexPublication catalog sha s.db key (s.durable key) with
    | error => exact .refl _
    | ok result =>
      obtain ⟨state, -, -, hres⟩ := recoverIndexPublication_ok hresult
      exact extends_resolvePublication hres
  | recoverMaintenance key =>
    dsimp only [Indexing.next]
    cases hresult : recoverIndexMaintenance catalog sha s.db key (s.durable key) with
    | error => exact .refl _
    | ok result =>
      obtain ⟨state, -, -, hres⟩ := recoverIndexMaintenance_ok hresult
      exact extends_resolveMaintenance hres
  | enable =>
    refine commit_inv (P := hasAll) (.refl _) fun _ db' hok => ?_
    obtain ⟨_, henable, heq⟩ := map_ok.1 hok
    obtain ⟨-, rfl⟩ := Prod.mk.inj heq
    rcases enableIndexMaintenance_ok henable with rfl | ⟨hnone, -, -, rfl⟩
    · exact .refl _
    · refine ⟨fun _ _ => id, fun key m hm => ?_⟩
      rw [hnone] at hm
      cases hm
  | crash => exact .refl _

/-- A source that is open, with no journal yet and nothing going on. -/
structure Indexing.Unpublished (catalog : DocumentCatalog) (s : Indexing D S) : Prop where
  opened : headerFrom catalog s.db.header = .ok s.db.header
  admits : requireAdmission s.db.header true = .ok ()
  journal : s.db.journal = none
  states : s.db.states = none
  decisions : s.db.decisions = none
  maintenance : s.db.maintenance = none
  staged : s.staged = []
  views : ∀ key, s.views key = [s.durable key]
  prepared : ∀ key, s.prepared key = none

omit [DecidableEq S] in
lemma Indexing.Unpublished.inv (h : s.Unpublished catalog) : s.Inv catalog sha where
  opened := h.opened
  admits := h.admits
  journal := ⟨false, journalHeader_ok.2
    (.inl ⟨rfl, h.journal, h.states, h.decisions, h.maintenance⟩)⟩
  staged call hcall := by
    rw [h.staged] at hcall
    exact absurd hcall List.not_mem_nil
  indexed key := by
    have hst : s.db.stateTable.lookup key = none := by
      rw [Database.stateTable, h.states]
      exact lookup_empty key
    unfold Indexed
    simp only [hst]
    refine ⟨?_, h.views key, h.prepared key⟩
    rw [Database.decisionTable, h.decisions, h.maintenance]
    exact holdsChain_empty key

lemma Indexing.Inv.run (h : s.Inv catalog sha) (hinj : Function.Injective sha.manifest)
    (events : List (IndexEvent S)) :
    (Runs.run (Indexing.next artifacts catalog sha) s events).Inv catalog sha ∧
      Extends s.db (Runs.run (Indexing.next artifacts catalog sha) s events).db := by
  induction events using List.reverseRecOn with
  | nil => exact ⟨h, .refl _⟩
  | append_singleton events event ih =>
    rw [Runs.run_snoc]
    exact ⟨ih.1.next hinj event, ih.2.trans (ih.1.extends event)⟩

/-- An index with a state: its decisions are one chain, and recovery resolves what is pending. -/
structure Resolved (catalog : DocumentCatalog) (sha : Sha256 D S) (s : Indexing D S) (key : Bytes)
    (state : ProjectionJournalState D) : Prop where
  /-- A pending document is committed if its manifest is durable, and given up if not. -/
  source : ∀ i, state.pending = some i → ∃ db' state',
    recoverIndexPublication catalog sha s.db key (s.durable key) = .ok
      (if sha.manifest (s.durable key) = i.afterManifestSha256 then .committed i else .aborted i, db') ∧
    db'.stateTable.lookup key = some state' ∧ state'.pending = none ∧ state'.pendingMaintenance = none ∧
    db'.decisionTable.lookup ⟨key, state.committedSequence + 1⟩ =
      (if sha.manifest (s.durable key) = i.afterManifestSha256 then some i else none)
  maintenance : ∀ m, state.pendingMaintenance = some m → ∃ db' state',
    recoverIndexMaintenance catalog sha s.db key (s.durable key) = .ok
      (if sha.manifest (s.durable key) = m.afterManifestSha256 then .committed m else .aborted m, db') ∧
    db'.stateTable.lookup key = some state' ∧ state'.pending = none ∧ state'.pendingMaintenance = none ∧
    (db'.maintenance.bind fun t => t.lookup ⟨key, m.afterEpoch⟩) =
      (if sha.manifest (s.durable key) = m.afterManifestSha256 then some m else none)
  idle : state.pending = none → state.pendingMaintenance = none →
    recoverIndexPublication catalog sha s.db key (s.durable key) = .ok (.idle, s.db) ∧
      recoverIndexMaintenance catalog sha s.db key (s.durable key) = .ok (.idle, s.db)
  sequences : ∀ n, (s.db.decisionTable.lookup ⟨key, n⟩).isSome = true ↔
    0 < n ∧ n ≤ state.committedSequence
  chain : ∃ base links tip, Chain sha (s.db.scope key) base links tip ∧
    HoldsChain s.db.decisionTable s.db.maintenance key links ∧
    (state.pending = none → state.pendingMaintenance = none →
      sha.manifest (s.durable key) = tip.manifest ∧ (s.durable key).epoch = tip.epoch)

omit [DecidableEq S] in
lemma Indexing.Inv.resolved (h : s.Inv catalog sha) (hinj : Function.Injective sha.manifest)
    (hst : s.db.stateTable.lookup key = some state) : Resolved catalog sha s key state := by
  obtain ⟨base, links, tip, hat⟩ := h.indexAt hst
  obtain ⟨hsrc, hrewrite⟩ := hat.recovers h.opened h.admits h.journal hst
  have hholds := hat.holds
  refine ⟨fun i hi => ?_, fun m hm => ?_, fun hnosrc hnorw => ?_, fun n => ?_,
    base, links, tip, hat.chain, hat.holds, fun hnosrc hnorw => ?_⟩
  · have hnorw : state.pendingMaintenance = none := by
      rcases hat.at_tip.single with hnone | hnone
      · cases hnone.symm.trans hi
      · exact hnone
    rw [hsrc hnorw, hat.resolvePublication hnorw, hi, hat.at_tip.sequence]
    by_cases haft : sha.manifest (s.durable key) = i.afterManifestSha256
    · simp only [if_pos haft]
      exact ⟨_, _, rfl, lookup_insert _, rfl, hnorw, lookup_insert _⟩
    · simp only [if_neg haft]
      exact ⟨_, _, rfl, lookup_insert _, rfl, hnorw, hholds.next_free hat.chain⟩
  · have hnosrc : state.pending = none := by
      rcases hat.at_tip.single with hnone | hnone
      · exact hnone
      · cases hnone.symm.trans hm
    obtain ⟨table, htab⟩ := Option.isSome_iff_exists.1 (hat.table (by rw [hm]; rfl))
    rw [htab] at hholds
    rw [hrewrite hnosrc, hat.resolveMaintenance hnosrc, hm, htab]
    by_cases haft : sha.manifest (s.durable key) = m.afterManifestSha256
    · simp only [if_pos haft]
      exact ⟨_, _, rfl, lookup_insert _, hnosrc, rfl, lookup_insert _⟩
    · simp only [if_neg haft]
      refine ⟨_, _, rfl, lookup_insert _, hnosrc, rfl, ?_⟩
      rw [(hat.at_tip.rewriting m hm).afterEpoch]
      exact hholds.epoch_free hat.chain
  · rw [hsrc hnorw, hrewrite hnosrc, hat.resolvePublication hnorw,
      hat.resolveMaintenance hnosrc, hnosrc, hnorw]
    exact ⟨rfl, rfl⟩
  · rw [hat.at_tip.sequence, ← hat.chain.sequence_iff, Option.isSome_iff_exists]
    exact exists_congr fun i => hat.holds.source n i
  · have hdur := hat.durable.idle hnosrc hnorw
    obtain ⟨m, hm, hep⟩ := hat.manifest
    exact ⟨hdur, by rw [hinj (hdur.trans hm.symm), hep]⟩

/-- **Recovery always resolves, and committed decisions are one chain that only grows.** -/
theorem recovery_resolves (hinjective : Function.Injective sha.manifest) (h : s.Unpublished catalog)
    (events more : List (IndexEvent S)) (key : Bytes) :
    let t := Runs.run (next artifacts catalog sha) s events
    (∀ state, t.db.stateTable.lookup key = some state → Resolved catalog sha t key state) ∧
      (t.db.stateTable.lookup key = none → HoldsChain t.db.decisionTable t.db.maintenance key []) ∧
      Extends t.db (Runs.run (next artifacts catalog sha) s (events ++ more)).db := by
  intro t
  have hinv : t.Inv catalog sha := (h.inv.run hinjective events).1
  refine ⟨fun state hstate => hinv.resolved hinjective hstate, fun hnone => ?_, ?_⟩
  · have hindexed := hinv.indexed key
    unfold Indexed at hindexed
    simp only [hnone] at hindexed
    exact hindexed.1
  · rw [Runs.run_append]
    exact (hinv.run hinjective more).2

/-- Digests that keep the manifests they are of. -/
def manifestSha : Sha256 (Option (SegmentSetManifest Unit)) Unit where
  request _ := none
  descriptor _ := none
  source _ := none
  manifest := some
  intent _ := none
  maintenance _ := none

def soundArtifacts {D S : Type} (rewrite : SourceRewriteCertificate D) : Artifacts D S where
  replacement _ _ _ := .ok ()
  summaries _ := .ok ()
  sourceRewrite _ _ := .ok rewrite

/-- A manifest of an epoch, with a number of segments. -/
def manifestOf (epoch segments : ℕ) : SegmentSetManifest Unit :=
  ⟨1, none, none, none, epoch, List.replicate segments (), none⟩

/-- A document is published to an empty index; the process stops before the journal learns of it. -/
def publishedOnce : List (IndexEvent Unit) :=
  [.accept (sampleWrite 1 [5]) none (.ok ()) 0,
    .stage [3] ⟨⟨[1], 1, 1, false, sampleHistory, 1⟩, some ⟨[9, 9], "doc", [5]⟩,
        some ⟨"staged", manifestOf 0 1⟩⟩ ⟨"index", manifestOf 0 0⟩ ⟨"index", manifestOf 1 1⟩,
    .prepare 0, .publish [3], .crash]

def emptyIndexing : Indexing (Option (SegmentSetManifest Unit)) Unit where
  db := Database.new plainCatalog "books" sampleHistory
  durable _ := manifestOf 0 0
  views _ := [manifestOf 0 0]
  staged := []
  verified := []
  prepared _ := none

lemma unpublished_empty : emptyIndexing.Unpublished plainCatalog :=
  ⟨by rfl, by rfl, rfl, rfl, rfl, rfl, rfl, fun _ => rfl, fun _ => rfl⟩

theorem recovery_resolves_published :
    let step := next (soundArtifacts ⟨1, none, 1, none, none⟩) plainCatalog manifestSha
    let t := Runs.run step emptyIndexing publishedOnce
    ((t.db.stateTable.lookup [3]).bind (·.pending)).map (·.afterManifestSha256) =
        some (some (t.durable [3])) ∧
      (∀ state, t.db.stateTable.lookup [3] = some state →
        Resolved plainCatalog manifestSha t [3] state) ∧
      (t.db.stateTable.lookup [3] = none →
        HoldsChain t.db.decisionTable t.db.maintenance [3] []) ∧
      Extends t.db (Runs.run step emptyIndexing (publishedOnce ++ [.recover [3]])).db :=
  ⟨by decide +kernel,
    recovery_resolves (fun _ _ h => Option.some.inj h) unpublished_empty publishedOnce _ [3]⟩

end ProtomoltSearch.Catalog
