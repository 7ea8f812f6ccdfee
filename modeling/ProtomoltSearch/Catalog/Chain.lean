import ProtomoltSearch.Catalog.Journal

/-!
# The chain of an index's decisions

Whatever the tables say, an index has one history: a list of decisions, each of a document or of a
rewrite, in which each starts from the manifest and the epoch the one before it ended at (`Chain`).
Document decisions are numbered from one without a gap, and a rewrite names the last document decision
and the last rewrite before it. When the tables hold a chain and the state is its tip, the checks every
journal transaction begins with are passed (`HoldsChain.validateTip`).
-/

namespace ProtomoltSearch.Catalog

open Nat

variable {D S : Type} [DecidableEq D]

/-! ## Chains -/

/-- A committed decision. -/
inductive Link (D : Type) where
  | source (intent : ProjectionIntent D)
  | maintenance (intent : MaintenanceIntent D)

/-- Where a chain has come to: the last document decision and its number, the last rewrite, and the
manifest and epoch of the last link. -/
structure Tip (D : Type) where
  sequence : ℕ
  manifest : D
  epoch : ℕ
  source : Option (ProjectionIntent D)
  maintenance : Option (MaintenanceIntent D)

/-- An index with no decision yet. -/
def Tip.base (manifest : D) (epoch : ℕ) : Tip D := ⟨0, manifest, epoch, none, none⟩

def Tip.publish (tip : Tip D) (intent : ProjectionIntent D) : Tip D :=
  ⟨tip.sequence + 1, intent.afterManifestSha256, intent.afterEpoch, some intent, tip.maintenance⟩

def Tip.maintain (tip : Tip D) (intent : MaintenanceIntent D) : Tip D :=
  ⟨tip.sequence, intent.afterManifestSha256, intent.afterEpoch, tip.source, some intent⟩

/-- An index of a catalog. -/
structure Scope where
  key : Bytes
  history : Bytes
  collection : String
  deriving DecidableEq

def Database.scope (db : Database D) (key : Bytes) : Scope :=
  ⟨key, db.header.historyId, db.header.collection⟩

/-- The intent of a document leads on from the tip. -/
structure SourceFollows (sha : Sha256 D S) (scope : Scope) (tip : Tip D) (intent : ProjectionIntent D) :
    Prop where
  valid : validateIntent sha intent scope.key scope.history = .ok ()
  sequence : intent.sequence = checkedAdd tip.sequence 1
  manifest : intent.beforeManifestSha256 = tip.manifest
  epoch : intent.beforeEpoch = tip.epoch
  after : ∃ m : SegmentSetManifest S,
    sha.manifest m = intent.afterManifestSha256 ∧ m.epoch = intent.afterEpoch

/-- The intent of a rewrite leads on from the tip. -/
structure MaintenanceFollows (sha : Sha256 D S) (scope : Scope) (tip : Tip D)
    (intent : MaintenanceIntent D) : Prop where
  valid : validateMaintenance sha intent scope.key scope.history scope.collection = .ok ()
  sequence : intent.acceptedSequence = tip.sequence
  source : ∃ i, tip.source = some i ∧ intent.sourceIntentId = i.intentId
  manifest : intent.beforeManifestSha256 = tip.manifest
  epoch : intent.beforeEpoch = tip.epoch
  previous : intent.previous = tip.maintenance.map cursor
  after : ∃ m : SegmentSetManifest S,
    sha.manifest m = intent.afterManifestSha256 ∧ m.epoch = intent.afterEpoch

/-- The decisions of an index, from a manifest that is empty. -/
inductive Chain (sha : Sha256 D S) (scope : Scope) (base : SegmentSetManifest S) :
    List (Link D) → Tip D → Prop
  | nil : Chain sha scope base [] (.base (sha.manifest base) base.epoch)
  | source {links : List (Link D)} {tip : Tip D} {intent : ProjectionIntent D}
    (chain : Chain sha scope base links tip) (follows : SourceFollows sha scope tip intent) :
    Chain sha scope base (links ++ [.source intent]) (tip.publish intent)
  | maintenance {links : List (Link D)} {tip : Tip D} {intent : MaintenanceIntent D}
    (chain : Chain sha scope base links tip) (follows : MaintenanceFollows sha scope tip intent) :
    Chain sha scope base (links ++ [.maintenance intent]) (tip.maintain intent)

variable {sha : Sha256 D S} {scope : Scope} {base : SegmentSetManifest S} {links : List (Link D)}
  {tip : Tip D} {intent : ProjectionIntent D} {rewrite : MaintenanceIntent D}

/-! ## What a valid intent says -/

lemma validateIntent_ok {key history : Bytes}
    (h : validateIntent sha intent key history = .ok ()) : ∃ source, intent.source = some source ∧
    0 < source.acceptedSequence ∧ intent.beforeEpoch + 1 = intent.afterEpoch ∧
    intent.beforeManifestSha256 ≠ intent.afterManifestSha256 := by
  obtain ⟨source, hsrc, h⟩ := bind_ok.1 h
  have h := refuseIf_ok.1 h
  simp only [Bool.or_eq_false_iff, beq_eq_false_iff_ne, bne_eq_false_iff_eq, and_assoc] at h
  obtain ⟨-, -, -, -, hseq, -, -, hep, hman, -⟩ := h
  exact ⟨source, okOr_ok.1 hsrc, pos_of_ne_zero hseq, (checkedAdd_eq_some.1 hep).2, hman⟩

lemma validateMaintenance_ok {key history : Bytes} {collection : String}
    (h : validateMaintenance sha rewrite key history collection = .ok ()) :
    0 < rewrite.acceptedSequence ∧ rewrite.beforeEpoch + 1 = rewrite.afterEpoch ∧
      rewrite.beforeManifestSha256 ≠ rewrite.afterManifestSha256 := by
  obtain ⟨owner, -, proof, -, h⟩ := bind₂_ok.1 h
  have h := refuseIf_ok.1 h
  simp only [Bool.or_eq_false_iff, beq_eq_false_iff_ne, bne_eq_false_iff_eq, and_assoc] at h
  obtain ⟨-, -, -, -, -, hseq, -, hman, hep, -⟩ := h
  exact ⟨pos_of_ne_zero hseq, (checkedAdd_eq_some.1 hep).2, hman⟩

lemma SourceFollows.afterEpoch (h : SourceFollows sha scope tip intent) :
    intent.afterEpoch = tip.epoch + 1 := by
  obtain ⟨_, -, -, hep, -⟩ := validateIntent_ok h.valid
  rw [← hep, h.epoch]

lemma SourceFollows.sequence_eq (h : SourceFollows sha scope tip intent) :
    intent.sequence = some (tip.sequence + 1) := by
  obtain ⟨source, hsrc, -⟩ := validateIntent_ok h.valid
  have hsome : intent.sequence = some source.acceptedSequence := by
    rw [ProjectionIntent.sequence, hsrc]
    rfl
  rw [hsome, (checkedAdd_eq_some.1 (h.sequence.symm.trans hsome)).2]

lemma MaintenanceFollows.afterEpoch (h : MaintenanceFollows sha scope tip rewrite) :
    rewrite.afterEpoch = tip.epoch + 1 := by
  obtain ⟨-, hep, -⟩ := validateMaintenance_ok h.valid
  rw [← hep, h.epoch]

/-! ## What a chain says of its tip -/

/-- The tip of a chain, read off its last document decision and its last rewrite. -/
structure Tip.Sound (tip : Tip D) : Prop where
  unpublished : tip.sequence = 0 → tip.source = none ∧ tip.maintenance = none
  published : 0 < tip.sequence → ∃ i, tip.source = some i
  ordered : ∀ m, tip.maintenance = some m → m.acceptedSequence ≤ tip.sequence
  bounded : ∀ m, tip.maintenance = some m → m.afterEpoch ≤ tip.epoch
  /-- The last link is the last rewrite, if that came after the last document decision. -/
  rewritten : ∀ m, tip.maintenance = some m → m.acceptedSequence = tip.sequence →
    tip.manifest = m.afterManifestSha256 ∧ tip.epoch = m.afterEpoch
  /-- Otherwise it is the last document decision. -/
  decided : ∀ i, tip.source = some i →
    (∀ m, tip.maintenance = some m → m.acceptedSequence ≠ tip.sequence) →
    tip.manifest = i.afterManifestSha256 ∧ tip.epoch = i.afterEpoch
  /-- A rewrite that is not the last link came before the last document decision. -/
  passed : ∀ i m, tip.source = some i → tip.maintenance = some m → m.acceptedSequence < tip.sequence →
    m.afterEpoch ≤ i.beforeEpoch

omit [DecidableEq D] in
lemma Tip.sound_base (manifest : D) (epoch : ℕ) : (Tip.base manifest epoch).Sound where
  unpublished _ := ⟨rfl, rfl⟩
  published h := absurd h (lt_irrefl 0)
  ordered _ h := nomatch h
  bounded _ h := nomatch h
  rewritten _ h := nomatch h
  decided _ h := nomatch h
  passed _ _ h := nomatch h

lemma Tip.Sound.publish (h : tip.Sound) (follows : SourceFollows sha scope tip intent) :
    (tip.publish intent).Sound where
  unpublished hzero := absurd hzero (succ_ne_zero _)
  published _ := ⟨intent, rfl⟩
  ordered m hm := le_succ_of_le (h.ordered m hm)
  bounded m hm := by
    have hle := h.bounded m hm
    have haft := follows.afterEpoch
    change m.afterEpoch ≤ intent.afterEpoch
    omega
  rewritten m hm heq := by
    have hle := h.ordered m hm
    have heq : m.acceptedSequence = tip.sequence + 1 := heq
    omega
  decided i hi _ := by
    cases hi
    exact ⟨rfl, rfl⟩
  passed i m hi hm _ := by
    cases hi
    exact follows.epoch ▸ h.bounded m hm

lemma Tip.Sound.maintain (h : tip.Sound) (follows : MaintenanceFollows sha scope tip rewrite) :
    (tip.maintain rewrite).Sound where
  unpublished hzero := by
    obtain ⟨i, hi, -⟩ := follows.source
    rw [(h.unpublished hzero).1] at hi
    cases hi
  published _ := follows.source.imp fun _ hi => hi.1
  ordered m hm := by
    cases hm
    exact le_of_eq follows.sequence
  bounded m hm := by
    cases hm
    exact le_refl _
  rewritten m hm _ := by
    cases hm
    exact ⟨rfl, rfl⟩
  decided _ _ hother := absurd follows.sequence (hother rewrite rfl)
  passed i m _ hm hlt := by
    cases hm
    exact absurd follows.sequence (Nat.ne_of_lt hlt)

lemma Chain.sound (h : Chain sha scope base links tip) : tip.Sound := by
  induction h with
  | nil => exact Tip.sound_base _ _
  | source _ follows ih => exact ih.publish follows
  | maintenance _ follows ih => exact ih.maintain follows

/-! ## Where the decisions of a chain stand -/

section

variable {i j : ProjectionIntent D} {m n : MaintenanceIntent D}

omit [DecidableEq D]

lemma source_mem_source :
    .source i ∈ links ++ [Link.source j] ↔ .source i ∈ links ∨ i = j := by simp

lemma source_mem_maintenance :
    .source i ∈ links ++ [Link.maintenance m] ↔ .source i ∈ links := by simp

lemma maintenance_mem_source :
    .maintenance m ∈ links ++ [Link.source i] ↔ .maintenance m ∈ links := by simp

lemma maintenance_mem_maintenance :
    .maintenance m ∈ links ++ [Link.maintenance n] ↔ .maintenance m ∈ links ∨ m = n := by simp

end

section

variable (h : Chain sha scope base links tip)

include h

lemma Chain.sequence_iff (n : ℕ) :
    (∃ i, .source i ∈ links ∧ i.sequence = some n) ↔ 0 < n ∧ n ≤ tip.sequence := by
  induction h with
  | nil =>
    refine ⟨fun ⟨_, hmem, _⟩ => absurd hmem List.not_mem_nil, fun ⟨hpos, hle⟩ => ?_⟩
    exact absurd (lt_of_lt_of_le hpos hle) (lt_irrefl 0)
  | @source links tip intent _ follows ih =>
    have hseq := follows.sequence_eq
    constructor
    · rintro ⟨i, hmem, hi⟩
      rcases source_mem_source.1 hmem with hmem | rfl
      · obtain ⟨hpos, hle⟩ := ih.1 ⟨i, hmem, hi⟩
        exact ⟨hpos, le_succ_of_le hle⟩
      · cases hseq.symm.trans hi
        exact ⟨succ_pos _, le_refl _⟩
    · rintro ⟨hpos, hle⟩
      rcases lt_or_eq_of_le hle with hlt | rfl
      · obtain ⟨i, hmem, hi⟩ := ih.2 ⟨hpos, le_of_lt_succ hlt⟩
        exact ⟨i, source_mem_source.2 (.inl hmem), hi⟩
      · exact ⟨intent, source_mem_source.2 (.inr rfl), hseq⟩
  | maintenance _ _ ih =>
    simp only [source_mem_maintenance]
    exact ih

/-- No decision is past the tip. -/
lemma Chain.epoch_le : (∀ i, .source i ∈ links → i.afterEpoch ≤ tip.epoch) ∧
      ∀ m, .maintenance m ∈ links → m.afterEpoch ≤ tip.epoch := by
  induction h with
  | nil => exact ⟨fun _ hmem => absurd hmem List.not_mem_nil, fun _ hmem => absurd hmem List.not_mem_nil⟩
  | @source links tip intent _ follows ih =>
    have haft : (tip.publish intent).epoch = tip.epoch + 1 := follows.afterEpoch
    rw [haft]
    refine ⟨fun i hmem => ?_, fun m hmem => ?_⟩
    · rcases source_mem_source.1 hmem with hmem | rfl
      · exact le_succ_of_le (ih.1 i hmem)
      · exact le_of_eq follows.afterEpoch
    · exact le_succ_of_le (ih.2 m (maintenance_mem_source.1 hmem))
  | @maintenance links tip rewrite _ follows ih =>
    have haft : (tip.maintain rewrite).epoch = tip.epoch + 1 := follows.afterEpoch
    rw [haft]
    refine ⟨fun i hmem => ?_, fun m hmem => ?_⟩
    · exact le_succ_of_le (ih.1 i (source_mem_maintenance.1 hmem))
    · rcases maintenance_mem_maintenance.1 hmem with hmem | rfl
      · exact le_succ_of_le (ih.2 m hmem)
      · exact le_of_eq follows.afterEpoch

/-- The decisions of a chain are valid by themselves. -/
lemma Chain.valid :
    (∀ i, .source i ∈ links → validateIntent sha i scope.key scope.history = .ok ()) ∧
      ∀ m, .maintenance m ∈ links →
        validateMaintenance sha m scope.key scope.history scope.collection = .ok () := by
  induction h with
  | nil => exact ⟨fun _ hmem => absurd hmem List.not_mem_nil, fun _ hmem => absurd hmem List.not_mem_nil⟩
  | source _ follows ih =>
    refine ⟨fun i hmem => ?_, fun m hmem => ih.2 m (maintenance_mem_source.1 hmem)⟩
    rcases source_mem_source.1 hmem with hmem | rfl
    · exact ih.1 i hmem
    · exact follows.valid
  | maintenance _ follows ih =>
    refine ⟨fun i hmem => ih.1 i (source_mem_maintenance.1 hmem), fun m hmem => ?_⟩
    rcases maintenance_mem_maintenance.1 hmem with hmem | rfl
    · exact ih.2 m hmem
    · exact follows.valid

/-- The last decisions are in the chain, and the last document decision has the number of the tip. -/
lemma Chain.last :
    (∀ i, tip.source = some i → .source i ∈ links ∧ i.sequence = some tip.sequence) ∧
      ∀ m, tip.maintenance = some m → .maintenance m ∈ links := by
  induction h with
  | nil => exact ⟨fun _ hi => (nomatch hi), fun _ hm => nomatch hm⟩
  | source _ follows ih =>
    refine ⟨fun i hi => ?_, fun m hm => maintenance_mem_source.2 (ih.2 m hm)⟩
    cases hi
    exact ⟨source_mem_source.2 (.inr rfl), follows.sequence_eq⟩
  | maintenance _ follows ih =>
    refine ⟨fun i hi => ⟨source_mem_maintenance.2 (ih.1 i hi).1, (ih.1 i hi).2⟩, fun m hm => ?_⟩
    cases hm
    exact maintenance_mem_maintenance.2 (.inr rfl)

end

/-- A rewrite starts from the manifest of the rewrite it names, if both follow the same document
decision, or of that decision. -/
structure Anchored (links : List (Link D)) (m : MaintenanceIntent D) (anchor : ProjectionIntent D)
    (previous : Option (MaintenanceIntent D)) : Prop where
  anchor_mem : .source anchor ∈ links
  sequence : anchor.sequence = some m.acceptedSequence
  intentId : m.sourceIntentId = anchor.intentId
  previous_mem : ∀ p, previous = some p → .maintenance p ∈ links
  cursor : m.previous = previous.map cursor
  ordered : ∀ p, previous = some p → p.acceptedSequence ≤ m.acceptedSequence
  before : maintenanceBefore m anchor previous = .ok (m.beforeManifestSha256, m.beforeEpoch)

omit [DecidableEq D] in
lemma Anchored.mono {m : MaintenanceIntent D} {anchor : ProjectionIntent D}
    {previous : Option (MaintenanceIntent D)} {more : List (Link D)}
    (h : Anchored links m anchor previous) : Anchored (links ++ more) m anchor previous :=
  ⟨List.mem_append_left _ h.anchor_mem, h.sequence, h.intentId,
    fun p hp => List.mem_append_left _ (h.previous_mem p hp), h.cursor, h.ordered, h.before⟩

/-- A rewrite that follows a tip is anchored in its chain. -/
lemma MaintenanceFollows.anchored (h : MaintenanceFollows sha scope tip rewrite)
    (hchain : Chain sha scope base links tip) :
    ∃ anchor, Anchored links rewrite anchor tip.maintenance := by
  obtain ⟨anchor, hanchor, hid⟩ := h.source
  obtain ⟨hmem, hseq⟩ := hchain.last.1 anchor hanchor
  have hsound := hchain.sound
  refine ⟨anchor, hmem, h.sequence ▸ hseq, hid, hchain.last.2, h.previous,
    fun p hp => h.sequence ▸ hsound.ordered p hp, ?_⟩
  rw [h.manifest, h.epoch, maintenanceBefore.eq_def]
  cases hp : tip.maintenance with
  | none =>
    obtain ⟨hman, hep⟩ := hsound.decided anchor hanchor fun m hm => by
      rw [hp] at hm
      cases hm
    rw [hman, hep]
  | some p =>
    by_cases heq : p.acceptedSequence = rewrite.acceptedSequence
    · obtain ⟨hman, hep⟩ := hsound.rewritten p hp (heq.trans h.sequence)
      simp [heq, hman, hep]
    · have hne : p.acceptedSequence ≠ tip.sequence := fun he => heq (he.trans h.sequence.symm)
      obtain ⟨hman, hep⟩ := hsound.decided anchor hanchor fun m hm => by
        cases hp.symm.trans hm
        exact hne
      have hpassed := hsound.passed anchor p hanchor hp (lt_of_le_of_ne (hsound.ordered p hp) hne)
      simp only [heq, if_false, hman, hep, decide_eq_false (not_lt.2 hpassed),
        refuseIf_false, ok_bind]
      rfl

lemma Chain.anchored (h : Chain sha scope base links tip) :
    ∀ m, .maintenance m ∈ links → ∃ anchor previous, Anchored links m anchor previous := by
  induction h with
  | nil => exact fun _ hmem => absurd hmem List.not_mem_nil
  | source _ _ ih =>
    intro m hmem
    obtain ⟨anchor, previous, h⟩ := ih m (maintenance_mem_source.1 hmem)
    exact ⟨anchor, previous, h.mono⟩
  | maintenance chain follows ih =>
    intro m hmem
    rcases maintenance_mem_maintenance.1 hmem with hmem | rfl
    · obtain ⟨anchor, previous, h⟩ := ih m hmem
      exact ⟨anchor, previous, h.mono⟩
    · obtain ⟨anchor, h⟩ := follows.anchored chain
      exact ⟨anchor, _, h.mono⟩

/-! ## The tables of a chain -/

/-- The decision tables hold the links of an index's chain, and no other of it. -/
structure HoldsChain (decisions : Table ProjectionDecisionKey (ProjectionIntent D))
    (maintenance : Option (Table MaintenanceDecisionKey (MaintenanceIntent D))) (key : Bytes)
    (links : List (Link D)) : Prop where
  source : ∀ n i, decisions.lookup ⟨key, n⟩ = some i ↔ .source i ∈ links ∧ i.sequence = some n
  maintenance : ∀ n m, (maintenance.bind fun t => t.lookup ⟨key, n⟩) = some m ↔
    .maintenance m ∈ links ∧ m.afterEpoch = n

/-- The state of an index is the tip of its chain, with at most one intent that leads on from it. -/
structure AtTip (sha : Sha256 D S) (scope : Scope) (state : ProjectionJournalState D) (tip : Tip D) :
    Prop where
  key : state.indexKey = scope.key
  history : state.historyId = scope.history
  sequence : state.committedSequence = tip.sequence
  manifest : state.committedManifestSha256 = tip.manifest
  cursor : state.maintenanceTip = tip.maintenance.map cursor
  pending : ∀ i, state.pending = some i → SourceFollows sha scope tip i
  rewriting : ∀ m, state.pendingMaintenance = some m → MaintenanceFollows sha scope tip m
  single : state.pending = none ∨ state.pendingMaintenance = none

variable {decisions : Table ProjectionDecisionKey (ProjectionIntent D)}
  {maintenance : Option (Table MaintenanceDecisionKey (MaintenanceIntent D))}
  {state : ProjectionJournalState D}

omit [DecidableEq D] in
lemma holdsChain_empty (key : Bytes) :
    HoldsChain (∅ : Table ProjectionDecisionKey (ProjectionIntent D)) none key [] where
  source n i := by simp
  maintenance n m := by simp

/-- The next document decision has a row of its own. -/
lemma HoldsChain.publish (h : HoldsChain decisions maintenance scope.key links)
    (hchain : Chain sha scope base links tip) (hfol : SourceFollows sha scope tip intent) :
    HoldsChain (decisions.insert ⟨scope.key, tip.sequence + 1⟩ intent) maintenance scope.key
      (links ++ [.source intent]) where
  source n i := by
    rw [source_mem_source, Table.lookup_insert_eq]
    split
    · rename_i hn
      obtain rfl := congrArg ProjectionDecisionKey.acceptedSequence hn
      constructor
      · intro hi
        cases hi
        exact ⟨.inr rfl, hfol.sequence_eq⟩
      · rintro ⟨hmem | rfl, hi⟩
        · have hle := ((hchain.sequence_iff _).1 ⟨i, hmem, hi⟩).2
          exact absurd hle (not_succ_le_self _)
        · rfl
    · rename_i hn
      rw [h.source n i]
      refine ⟨fun ⟨hmem, hi⟩ => ⟨.inl hmem, hi⟩, ?_⟩
      rintro ⟨hmem | rfl, hi⟩
      · exact ⟨hmem, hi⟩
      · obtain rfl := Option.some.inj (hfol.sequence_eq.symm.trans hi)
        exact absurd rfl hn
  maintenance n m := by
    rw [h.maintenance n m, maintenance_mem_source]

/-- The next rewrite has a row of its own. -/
lemma HoldsChain.maintain {table : Table MaintenanceDecisionKey (MaintenanceIntent D)}
    (h : HoldsChain decisions (some table) scope.key links) (hchain : Chain sha scope base links tip)
    (hfol : MaintenanceFollows sha scope tip rewrite) :
    HoldsChain decisions (some (table.insert ⟨scope.key, rewrite.afterEpoch⟩ rewrite)) scope.key
      (links ++ [.maintenance rewrite]) where
  source n i := by
    rw [h.source n i, source_mem_maintenance]
  maintenance n m := by
    have htable := h.maintenance n m
    simp only [Option.bind_some] at htable ⊢
    rw [maintenance_mem_maintenance, Table.lookup_insert_eq]
    split
    · rename_i hn
      obtain rfl := congrArg MaintenanceDecisionKey.afterEpoch hn
      constructor
      · intro hm
        cases hm
        exact ⟨.inr rfl, rfl⟩
      · rintro ⟨hmem | rfl, hm⟩
        · have hle := hchain.epoch_le.2 m hmem
          rw [hm, hfol.afterEpoch] at hle
          exact absurd hle (not_succ_le_self _)
        · rfl
    · rename_i hn
      rw [htable]
      refine ⟨fun ⟨hmem, hm⟩ => ⟨.inl hmem, hm⟩, ?_⟩
      rintro ⟨hmem | rfl, hm⟩
      · exact ⟨hmem, hm⟩
      · subst hm
        exact absurd rfl hn

/-- No document decision has the number after the tip's. -/
lemma HoldsChain.next_free (h : HoldsChain decisions maintenance scope.key links)
    (hchain : Chain sha scope base links tip) :
    decisions.lookup ⟨scope.key, tip.sequence + 1⟩ = none := by
  cases hlook : decisions.lookup ⟨scope.key, tip.sequence + 1⟩ with
  | none => rfl
  | some i =>
    have hle := ((hchain.sequence_iff _).1 ⟨i, (h.source _ i).1 hlook⟩).2
    exact absurd hle (not_succ_le_self _)

/-- No rewrite ends at the epoch after the tip's. -/
lemma HoldsChain.epoch_free {table : Table MaintenanceDecisionKey (MaintenanceIntent D)}
    (h : HoldsChain decisions (some table) scope.key links)
    (hchain : Chain sha scope base links tip) : table.lookup ⟨scope.key, tip.epoch + 1⟩ = none := by
  cases hlook : table.lookup ⟨scope.key, tip.epoch + 1⟩ with
  | none => rfl
  | some m =>
    obtain ⟨hmem, hm⟩ := (h.maintenance _ m).1 hlook
    have hle := hchain.epoch_le.2 m hmem
    rw [hm] at hle
    exact absurd hle (not_succ_le_self _)

lemma AtTip.validateState (h : AtTip sha scope state tip) :
    validateState sha state scope.key scope.history = .ok () := by
  have hsingle : (state.pending.isSome && state.pendingMaintenance.isSome) = false := by
    rcases h.single with hnone | hnone <;> simp [hnone]
  rw [Catalog.validateState, h.key, h.history, hsingle]
  simp only [bne_self_eq_false, Bool.or_false, refuseIf_false, ok_bind]
  unfold validatePending
  cases hp : state.pending with
  | none => rfl
  | some pending =>
    have hfol := h.pending pending hp
    simp [hfol.valid, hfol.manifest, h.manifest, hfol.sequence, h.sequence]

section

variable (h : HoldsChain decisions maintenance scope.key links)
  (hchain : Chain sha scope base links tip) (hstate : AtTip sha scope state tip)

include h hchain hstate

lemma HoldsChain.record {m : MaintenanceIntent D} (hm : .maintenance m ∈ links) :
    ∃ table, maintenance = some table ∧
      maintenanceRecord sha table state (Catalog.cursor m) scope.collection = .ok m := by
  have hlook := (h.maintenance m.afterEpoch m).2 ⟨hm, rfl⟩
  cases maintenance with
  | none => cases hlook
  | some table =>
    refine ⟨table, rfl, ?_⟩
    have hlook : table.lookup ⟨scope.key, m.afterEpoch⟩ = some m := hlook
    rw [maintenanceRecord, hstate.key, hstate.history]
    simp [Catalog.cursor, hlook, okOr, hchain.valid.2 m hm]

/-- The last rewrite of a chain passes the checks of `validate_tip`. -/
lemma HoldsChain.latestMaintenance
    {m : MaintenanceIntent D} (hm : tip.maintenance = some m) (hsrc : tip.source = some intent) :
    latestMaintenance sha decisions maintenance state intent (Catalog.cursor m) scope.collection =
      .ok m := by
  have hmem := hchain.last.2 m hm
  have hsound := hchain.sound
  obtain ⟨table, rfl, hrec⟩ := h.record hchain hstate hmem
  obtain ⟨anchor, previous, hanch⟩ := hchain.anchored m hmem
  have hlook := (h.source m.acceptedSequence anchor).2 ⟨hanch.anchor_mem, hanch.sequence⟩
  have hprev : previousRecord sha table state m scope.collection = .ok previous := by
    rw [previousRecord, hanch.cursor]
    cases previous with
    | none => rfl
    | some p =>
      obtain ⟨_, heq, hp⟩ := h.record hchain hstate (hanch.previous_mem p rfl)
      cases heq
      change (maintenanceRecord sha table state (Catalog.cursor p) scope.collection).map some = _
      rw [hp]
      rfl
  have hordered : (previous.any fun p => decide (m.acceptedSequence < p.acceptedSequence)) = false := by
    cases previous with
    | none => rfl
    | some p => exact decide_eq_false (not_lt.2 (hanch.ordered p rfl))
  have hpassed : (decide (m.acceptedSequence < tip.sequence) &&
      decide (intent.beforeEpoch < m.afterEpoch)) = false := by
    rw [Bool.and_eq_false_iff, decide_eq_false_iff_not, decide_eq_false_iff_not, not_lt, not_lt]
    rcases lt_or_ge m.acceptedSequence tip.sequence with hlt | hge
    · exact .inr (hsound.passed intent m hsrc hm hlt)
    · exact .inl hge
  have hcom := decide_eq_false (not_lt.2 (hsound.ordered m hm))
  rw [Catalog.latestMaintenance, okOr, ok_bind, hrec, ok_bind, hstate.key, hstate.history, hlook,
    okOr, ok_bind, hchain.valid.1 anchor hanch.anchor_mem, ok_bind, hstate.sequence,
    hanch.sequence, hanch.intentId, hcom]
  simp only [bne_self_eq_false, Bool.or_false, refuseIf_false, ok_bind, hprev, hordered,
    hanch.before, hpassed]
  rfl

section

variable (htable : state.pendingMaintenance.isSome = true → maintenance.isSome = true)

include htable

/-- The checks of `validate_tip` on an index with committed decisions. -/
lemma HoldsChain.validateCommitted (hsrc : tip.source = some intent) :
    validateCommitted sha decisions maintenance state intent scope.collection = .ok () := by
  obtain ⟨hmem, hseq⟩ := hchain.last.1 intent hsrc
  have hsound := hchain.sound
  have hlatest : tipMaintenance sha decisions maintenance state intent scope.collection =
      .ok tip.maintenance := by
    rw [tipMaintenance, hstate.cursor]
    cases hm : tip.maintenance with
    | none => rfl
    | some m =>
      change (Catalog.latestMaintenance sha decisions maintenance state intent (Catalog.cursor m)
        scope.collection).map some = _
      rw [h.latestMaintenance hchain hstate hm hsrc]
      rfl
  have hexp : expectedTip state intent tip.maintenance = (tip.manifest, tip.epoch) := by
    unfold expectedTip
    cases hm : tip.maintenance with
    | none =>
      obtain ⟨hman, hep⟩ := hsound.decided intent hsrc fun m hm' => by
        rw [hm] at hm'
        cases hm'
      rw [hman, hep]
    | some m =>
      rw [hstate.sequence]
      by_cases heq : m.acceptedSequence = tip.sequence
      · obtain ⟨hman, hep⟩ := hsound.rewritten m hm heq
        simp [heq, hman, hep]
      · obtain ⟨hman, hep⟩ := hsound.decided intent hsrc fun m' hm' => by
          cases hm.symm.trans hm'
          exact heq
        simp [heq, hman, hep]
  have hpend : (state.pending.any fun p => p.beforeEpoch != tip.epoch) = false := by
    cases hp : state.pending with
    | none => rfl
    | some p => simp [(hstate.pending p hp).epoch]
  have hrewriting : validatePendingMaintenance sha maintenance state intent tip.epoch
      scope.collection = .ok () := by
    unfold validatePendingMaintenance
    cases hp : state.pendingMaintenance with
    | none => rfl
    | some p =>
      have hfol := hstate.rewriting p hp
      obtain ⟨i, hi, hid⟩ := hfol.source
      cases hsrc.symm.trans hi
      have hsome := htable (by rw [hp]; rfl)
      simp [Option.isNone_eq_false_iff.2 hsome, hstate.key, hstate.history, hfol.valid,
        hfol.sequence, hid, hfol.manifest, hfol.epoch, hfol.previous, hstate.sequence,
        hstate.manifest, hstate.cursor]
  rw [Catalog.validateCommitted, hstate.key, hstate.history, hchain.valid.1 intent hmem, ok_bind, hseq,
    hstate.sequence, hlatest]
  simp [refuseIf_false, ok_bind, hexp, hstate.manifest, hpend, hrewriting]

/-- **A state at the tip of its chain passes `validate_tip`.** -/
theorem HoldsChain.validateTip :
    validateTip sha decisions maintenance state scope.collection = .ok tip.source := by
  have hsound := hchain.sound
  unfold Catalog.validateTip
  rw [hstate.sequence, hstate.key]
  split
  · rename_i hzero
    obtain ⟨hnone, hnomaint⟩ := hsound.unpublished hzero
    have hfst : decisions.lookup ⟨scope.key, 1⟩ = none := by
      cases hlook : decisions.lookup ⟨scope.key, 1⟩ with
      | none => rfl
      | some i =>
        obtain ⟨-, _⟩ := (hchain.sequence_iff 1).1 ⟨i, (h.source 1 i).1 hlook⟩
        omega
    have hnorw : state.pendingMaintenance = none := by
      cases hp : state.pendingMaintenance with
      | none => rfl
      | some p =>
        obtain ⟨i, hi, -⟩ := (hstate.rewriting p hp).source
        rw [hnone] at hi
        cases hi
    simp [hfst, hstate.cursor, hnomaint, hnorw, hnone]
  · rename_i hzero
    obtain ⟨intent, hsrc⟩ := hsound.published (pos_of_ne_zero hzero)
    have hlook := (h.source tip.sequence intent).2 (hchain.last.1 intent hsrc)
    rw [hlook, okOr, ok_bind, h.validateCommitted hchain hstate htable hsrc, hsrc]
    rfl

end

end

end ProtomoltSearch.Catalog
