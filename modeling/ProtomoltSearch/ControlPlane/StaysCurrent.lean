import ProtomoltSearch.ControlPlane.Completable

/-!
# What keeps an action current

An operation that leaves the copies of an action's shards alone leaves the action current
(`Current.of_sameCopies`). So do a report that repeats a stored copy (`Current.report`) and the
completion of an action of other shards, which may plan a drop that is current itself
(`current_completeAction`).
-/

namespace ProtomoltSearch.ControlPlane

open List OrderedMap

/-- The two stores have the same copies of a shard. -/
def SameCopies (shardId : String) (m m' : OrderedMap String Replica) : Prop :=
  ∀ e : String × Replica, e.2.shardId = shardId → (e ∈ m'.entries ↔ e ∈ m.entries)

namespace SameCopies

variable {shardId : String} {m m' m'' : OrderedMap String Replica} {s : StoredState}

lemma refl (m : OrderedMap String Replica) : SameCopies shardId m m := fun _ _ => Iff.rfl

lemma trans (h : SameCopies shardId m m') (h' : SameCopies shardId m' m'') :
    SameCopies shardId m m'' := fun e he => (h' e he).trans (h e he)

/-- Storing a copy of another shard, over none of this one's. -/
lemma insert {k : String} {r : Replica} (hr : r.shardId ≠ shardId)
    (hheld : ∀ held, m.get? k = some held → held.shardId ≠ shardId) :
    SameCopies shardId m (m.insert k r) := by
  intro e he
  rw [mem_insert]
  constructor
  · rintro (rfl | h)
    · exact absurd he hr
    · exact h.1
  · intro h
    refine .inr ⟨h, fun hk => hheld e.2 ?_ he⟩
    exact get?_eq_some.2 (hk ▸ h)

lemma inserts {outputs : List Replica} (houts : ∀ output ∈ outputs, output.shardId ≠ shardId)
    (hheld : ∀ output ∈ outputs, ∀ held, s.replicas.get? output.key = some held →
      held.shardId ≠ shardId) :
    SameCopies shardId s.replicas (outputs.foldl insertReplica s).replicas := by
  induction outputs generalizing s with
  | nil => exact refl _
  | cons output outputs ih =>
    obtain ⟨hfst, houts⟩ := forall_mem_cons.1 houts
    obtain ⟨hover, hheld⟩ := forall_mem_cons.1 hheld
    have hstored := insert hfst hover
    refine hstored.trans (ih houts fun later hlater held hget => ?_)
    by_cases hkey : later.key = output.key
    · rw [insertReplica, hkey, get?_insert_self] at hget
      exact Option.some.inj hget ▸ hfst
    · rw [insertReplica, get?_insert_of_ne hkey] at hget
      exact hheld later hlater held hget

lemma promote {other nodeId : String} (hother : other ≠ shardId) :
    SameCopies shardId m (promote m other nodeId) := by
  intro e he
  constructor
  · intro h
    obtain ⟨held, hheld, hrole⟩ := mem_mapValues.1 h
    by_cases hshard : held.shardId = other
    · rw [if_pos hshard] at hrole
      refine absurd ?_ hother
      rw [← he, ← hrole]
      exact hshard.symm
    · rw [if_neg hshard] at hrole
      rw [← Prod.eta e, ← hrole]
      exact hheld
  · intro h
    exact mem_mapValues.2 ⟨e.2, h, if_neg fun heq => hother (heq.symm.trans he)⟩

lemma erase {k : String} (hheld : ∀ held, m.get? k = some held → held.shardId ≠ shardId) :
    SameCopies shardId m (m.erase k) := by
  intro e he
  rw [mem_erase]
  refine and_iff_left_of_imp fun h hk => hheld e.2 ?_ he
  exact get?_eq_some.2 (hk ▸ h)

lemma retain {p : Replica → Bool} (hp : ∀ r : Replica, r.shardId = shardId → p r = true) :
    SameCopies shardId m (m.retain p) := by
  intro e he
  rw [mem_retain]
  exact and_iff_left (hp e.2 he)

section

variable {p : Replica → Bool} (h : SameCopies shardId m m')
  (hp : ∀ r, p r = true → r.shardId = shardId)

include h hp

/-- What is selected among the copies of the shard only. -/
lemma filter_eq : m'.values.filter p = m.values.filter p := by
  have hretain : m'.retain p = m.retain p := by
    refine ext_mem fun e => ?_
    rw [mem_retain, mem_retain]
    exact and_congr_left fun hpe => h e (hp e.2 hpe)
  rw [← values_retain, ← values_retain, hretain]

lemma find?_eq : m'.values.find? p = m.values.find? p := by
  rw [← head?_filter, ← head?_filter, h.filter_eq hp]

end

lemma get?_eq {k : String} {held : Replica} (h : SameCopies shardId m m')
    (hheld : m.get? k = some held) (hshard : held.shardId = shardId) : m'.get? k = some held :=
  get?_eq_some.2 ((h (k, held) hshard).2 (get?_eq_some.1 hheld))

end SameCopies

/-- Copies alike in all that a completion compares. -/
structure Alike (r r' : Replica) : Prop where
  generation : r'.generation = r.generation
  hashLo : r'.hashLo = r.hashLo
  hashHi : r'.hashHi = r.hashHi
  liveRows : r'.liveRows = r.liveRows
  scoring : r'.scoringFingerprint = r.scoringFingerprint
  analysis : r'.analysisFingerprint = r.analysisFingerprint

lemma Alike.refl (r : Replica) : Alike r r := ⟨rfl, rfl, rfl, rfl, rfl, rfl⟩

def Action.shards (action : Action) : List String :=
  if action.kind = .mergeShards then [action.shardId, action.peerShardId] else [action.shardId]

lemma Action.shardId_mem (action : Action) : action.shardId ∈ action.shards := by
  unfold Action.shards
  split
  · exact mem_cons_self
  · exact mem_cons_self

lemma Action.peerShardId_mem {action : Action} (h : action.kind = .mergeShards) :
    action.peerShardId ∈ action.shards := by
  rw [Action.shards, if_pos h]
  exact mem_cons_of_mem _ mem_cons_self

section Keeping

variable {s t : StoredState} {action : Action}

/-- An action stays current when its source and its peer become ones alike. -/
lemma Current.of_alike (h : Current s action)
    (hsrc : ∀ held, SourceHeld s action held → ∃ held', SourceHeld t action held' ∧ Alike held held')
    (hpeer : action.kind = .mergeShards → ∀ peer, mergePeer s action = some peer →
      ∃ peer', mergePeer t action = some peer' ∧ Alike peer peer') : Current t action := by
  obtain ⟨held, hheld, hready⟩ := h
  obtain ⟨held', hheld', halike⟩ := hsrc held hheld
  refine ⟨held', hheld', ?_⟩
  cases hkind : action.kind with
  | copyReplica | promoteReplica | unspecified =>
    rw [hkind] at hready
    exact hready
  | dropReplica | compactShard => trivial
  | splitShard =>
    rw [hkind] at hready
    show held'.hashLo < held'.hashHi
    rw [halike.hashLo, halike.hashHi]
    exact hready
  | mergeShards =>
    rw [hkind] at hready
    obtain ⟨peer, hfound, hmerge⟩ := hready
    obtain ⟨peer', hfound', hpeerAlike⟩ := hpeer hkind peer hfound
    refine ⟨peer', hfound', ?_, ?_, ?_, ?_, ?_⟩
    · rw [hpeerAlike.generation, hmerge.generation]
    · rw [hpeerAlike.scoring, halike.scoring, hmerge.scoring]
    · rw [hpeerAlike.analysis, halike.analysis, hmerge.analysis]
    · rw [hpeerAlike.hashLo, halike.hashHi, hmerge.adjacent]
    · rw [hpeerAlike.liveRows, halike.liveRows]
      exact hmerge.rows

lemma mergePeer_sameCopies (h : SameCopies action.peerShardId s.replicas t.replicas) :
    mergePeer t action = mergePeer s action := by
  refine h.find?_eq fun r hr => ?_
  rw [Bool.and_eq_true, decide_eq_true_eq] at hr
  exact hr.1

lemma Current.of_sameCopies (h : Current s action)
    (hsame : ∀ shardId ∈ action.shards, SameCopies shardId s.replicas t.replicas) : Current t action := by
  refine h.of_alike (fun held hheld => ⟨held, ⟨?_, hheld.2, hheld.3, hheld.4⟩, .refl held⟩)
    fun hkind peer hpeer => ⟨peer, ?_, .refl peer⟩
  · exact (hsame _ action.shardId_mem).get?_eq hheld.found hheld.shard
  · rw [mergePeer_sameCopies (hsame _ (Action.peerShardId_mem hkind)), hpeer]

open SameCopies

lemma Current.of_eq (h : Current s action) (hreps : t.replicas = s.replicas) : Current t action :=
  h.of_sameCopies fun _ _ => hreps ▸ refl _

/-- A report that repeats a stored copy in all that a completion compares. -/
structure Repeats (held : Replica) (wire : ShardReplicaState) : Prop where
  shard : wire.shardId = held.shardId
  generation : wire.generation = held.generation
  hashLo : wire.hashLo = held.hashLo
  hashHi : wire.hashHi = held.hashHi
  rows : wire.rows = held.rows
  tombstones : wire.tombstones = held.tombstones
  role : wire.role = some held.role
  scoring : wire.scoringFingerprint = held.scoringFingerprint
  analysis : wire.analysisFingerprint = held.analysisFingerprint

/-- The report, or the copy it is stored over, is of the shard. -/
def ReportTouches (s : StoredState) (nodeId : String) (wire : ShardReplicaState) (shardId : String) :
    Prop :=
  wire.shardId = shardId ∨ ∃ held ∈ s.replicas.get? (replicaKey wire.shardId nodeId),
    held.shardId = shardId

/-- A report about a shard that a pending action names repeats the stored copy. -/
def ReportCondition (s : StoredState) (req : ReportShardRequest) : Prop :=
  ∀ wire ∈ req.replica, ∀ action ∈ s.actions, ∀ shardId ∈ action.shards,
    ReportTouches s req.nodeId wire shardId →
      ∃ held ∈ s.replicas.get? (replicaKey wire.shardId req.nodeId), Repeats held wire

lemma Repeats.alike {held : Replica} {copy : CheckedCopy} (h : Repeats held copy.wire)
    (nodeId addr : String) : Alike held (copy.store nodeId addr copy.wire.ready) where
  generation := h.generation
  hashLo := h.hashLo
  hashHi := h.hashHi
  liveRows := by
    show copy.wire.rows.val - copy.wire.tombstones.val = held.rows.val - held.tombstones.val
    rw [h.rows, h.tombstones]
  scoring := h.scoring
  analysis := h.analysis

lemma Current.report {req : ReportShardRequest} {now : U64} (h : Current s action)
    (hact : action ∈ s.actions) (hC : ReportCondition s req) (ht : report s req now = .ok t) :
    Current t action := by
  obtain ⟨copy, node, addr, revision, hcopy, -, -, rfl⟩ := report_ok ht
  obtain ⟨hwire, hrole, -⟩ := checkReport_ok hcopy
  by_cases htouches : ∃ shardId ∈ action.shards, ReportTouches s req.nodeId copy.wire shardId
  · obtain ⟨shardId, hshardId, htouches⟩ := htouches
    obtain ⟨held, hheld, hrep⟩ := hC copy.wire hwire action hact shardId hshardId htouches
    refine h.of_alike (fun source hsrc => ?_) fun _ peer hpeer => ?_
    · by_cases hkey : replicaKey action.shardId action.sourceNodeId =
        replicaKey copy.wire.shardId req.nodeId
      · obtain rfl : held = source := by
          have hfound := hsrc.found
          rw [hkey, hheld] at hfound
          exact Option.some.inj hfound
        have hshard := hrep.shard.trans hsrc.shard
        rw [hshard] at hkey
        refine ⟨_, ⟨?_, hshard, (replicaKey_inj_right hkey).symm, ?_⟩, hrep.alike req.nodeId addr⟩
        · rw [hshard, hkey, get?_insert_self]
        · exact hrep.generation.trans hsrc.generation
      · refine ⟨source, ⟨?_, hsrc.2, hsrc.3, hsrc.4⟩, .refl source⟩
        exact (get?_insert_of_ne hkey).trans hsrc.found
    · have hsame : ((copy.store req.nodeId addr copy.wire.ready).shardId = action.peerShardId &&
          (copy.store req.nodeId addr copy.wire.ready).role = .primary) =
          (held.shardId = action.peerShardId && held.role = .primary) := by
        have hroles := Option.some.inj (hrole.symm.trans hrep.role)
        rw [CheckedCopy.store, hrep.shard, hroles]
      rcases find?_values_insert hheld hsame hpeer with hfound | ⟨rfl, hfound⟩
      · exact ⟨peer, hfound, .refl peer⟩
      · exact ⟨_, hfound, hrep.alike req.nodeId addr⟩
  · refine h.of_sameCopies fun shardId hshardId => insert ?_ ?_
    · exact fun heq => htouches ⟨shardId, hshardId, .inl heq⟩
    · exact fun held hheld heq => htouches ⟨shardId, hshardId, .inr ⟨held, hheld, heq⟩⟩

/-- A completion leaves the shards of the other pending actions alone: they are none of its own, and no
output is of one or stored over a copy of one. -/
def CompletionCondition (s : StoredState) (req : CompletePlacementActionRequest) : Prop :=
  ∀ done ∈ s.actions, done.actionId = req.actionId → ∀ other ∈ s.actions,
    other.actionId ≠ req.actionId → ∀ shardId ∈ other.shards, shardId ∉ done.shards ∧
      ∀ wire ∈ req.outputs, wire.shardId ≠ shardId ∧
        ∀ held ∈ s.replicas.get? (replicaKey wire.shardId req.nodeId), held.shardId ≠ shardId

lemma SameCopies.replaceShard {outputs : List Replica} {shardId other : String} (hother : other ≠ shardId)
    (houts : ∀ output ∈ outputs, output.shardId ≠ shardId ∧
      ∀ held, s.replicas.get? output.key = some held → held.shardId ≠ shardId) :
    SameCopies shardId s.replicas (replaceShard s other outputs).replicas := by
  have hretain : SameCopies shardId s.replicas (s.replicas.retain fun held => held.shardId ≠ other) :=
    retain fun r hr => decide_eq_true fun heq => hother (heq.symm.trans hr)
  refine hretain.trans (inserts (fun output houtput => (houts output houtput).1)
    fun output houtput held hheld => ?_)
  have hent := mem_retain.1 (get?_eq_some.1 hheld)
  exact (houts output houtput).2 held (get?_eq_some.2 hent.1)

lemma SameCopies.mutate {source : Replica} {nodeId shardId : String} {outputs : List Replica}
    (hs : WellStored s.replicas) (hsrc : SourceHeld s action source) (hoff : shardId ∉ action.shards)
    (houts : ∀ output ∈ outputs, output.shardId ≠ shardId ∧
      ∀ held, s.replicas.get? output.key = some held → held.shardId ≠ shardId)
    (ht : mutate s action source nodeId outputs = .ok t) :
    SameCopies shardId s.replicas t.replicas := by
  have hshard : source.shardId ≠ shardId := by
    rw [hsrc.shard]
    exact fun heq => hoff (heq ▸ action.shardId_mem)
  unfold ControlPlane.mutate at ht
  split at ht
  · obtain ⟨output, rfl, -, -, htakes⟩ := completeCopy_ok ht
    obtain ⟨hoff, hover⟩ := houts output mem_cons_self
    have hstored := insert hoff hover
    rcases htakes with ⟨-, rfl⟩ | ⟨-, hprom⟩
    · exact hstored
    · rw [pushAction_replicas (refusing_ok.1 hprom)]
      exact hstored.trans (promote hshard)
  · obtain ⟨-, rfl⟩ := completeDrop_ok ht
    refine erase fun held hheld => ?_
    rw [hs.get?_key (mem_values_of_get? hsrc.found)] at hheld
    exact Option.some.inj hheld ▸ hshard
  · obtain rfl := completePromote_ok ht
    exact promote hshard
  · obtain ⟨output, rfl, -, -, rfl⟩ := completeCompact_ok ht
    exact replaceShard hshard houts
  · obtain ⟨-, rfl⟩ := completeSplit_ok ht
    exact replaceShard hshard houts
  · rename_i hkind
    obtain ⟨output, peer, rfl, hchk, rfl⟩ := completeMerge_ok ht
    obtain ⟨hfound, -, -⟩ := checkMerge_ok hchk
    have hpeer : peer.shardId ≠ shardId := by
      have hshards := find?_some hfound
      rw [Bool.and_eq_true, decide_eq_true_eq] at hshards
      rw [hshards.1]
      exact fun heq => hoff (heq ▸ Action.peerShardId_mem hkind)
    obtain ⟨hoff, hover⟩ := houts output mem_cons_self
    have hretain : SameCopies shardId s.replicas (s.replicas.retain fun held =>
        held.shardId ≠ source.shardId && held.shardId ≠ peer.shardId) := by
      refine retain fun r hr => ?_
      simpa [hr] using And.intro hshard.symm hpeer.symm
    refine hretain.trans (insert hoff fun held hheld => hover held ?_)
    exact get?_eq_some.2 (mem_retain.1 (get?_eq_some.1 hheld)).1
  · cases ht

/-- The drop planned when a copy takes over is current. -/
lemma current_drop {source output : Replica} {id : U64} (hsrc : SourceHeld s action source)
    (hother : output.nodeId ≠ source.nodeId) (hshard : output.shardId = source.shardId)
    (ht : t.replicas = promote (insertReplica s output).replicas source.shardId output.nodeId) :
    Current t (actionOf id source (dropSpec source)) := by
  have hkey : replicaKey source.shardId source.nodeId ≠ output.key := by
    rw [Replica.key, hshard]
    exact fun heq => hother (replicaKey_inj_right heq).symm
  have hfound : (insertReplica s output).replicas.get? (replicaKey source.shardId source.nodeId) =
      some source := by
    rw [insertReplica, get?_insert_of_ne hkey, hsrc.shard, hsrc.node, hsrc.found]
  refine ⟨{ source with role := if source.nodeId = output.nodeId then .primary else .replica },
    ⟨?_, rfl, rfl, rfl⟩, trivial⟩
  show t.replicas.get? (replicaKey source.shardId source.nodeId) = _
  rw [ht, promote, get?_mapValues, hfound, Option.map_some, if_pos rfl]

/-- **A completion leaves the other pending actions current**, and plans a current one. -/
theorem current_completeAction {req : CompletePlacementActionRequest} {now : U64} (hs : Consistent s)
    (hcur : ∀ action ∈ s.actions, Current s action) (hC : CompletionCondition s req)
    (h : completeAction s req now = .ok t) : ∀ action ∈ t.actions, Current t action := by
  rcases completeAction_ok h with rfl | ⟨c, u, hc, hu, rfl⟩
  · exact hcur
  obtain ⟨hfind, htarget, hfound, -, houts, hgood, -⟩ := checkCompletion_ok hc
  have hmem := mem_of_find?_eq_some hfind
  have hid : c.action.actionId = req.actionId := by simpa using find?_some hfind
  obtain ⟨source, hsrc, hready⟩ := hcur c.action hmem
  have heq : source = c.source := by
    rw [hsrc.sourceOf] at hfound
    exact Option.some.inj hfound
  subst heq
  have hoth : ∀ other ∈ s.actions, other.actionId ≠ req.actionId →
      Current (finishAction u c.action c.revision) other := by
    intro other hother hne
    refine (hcur other hother).of_sameCopies fun shardId hshardId => ?_
    obtain ⟨hoff, hwires⟩ := hC c.action hmem hid other hother hne shardId hshardId
    have hsame : SameCopies shardId s.replicas u.replicas := by
      refine SameCopies.mutate hs.copies hsrc hoff (fun output houtput => ?_) hu
      obtain ⟨wire, hwire, hchk⟩ := exists_wire houts houtput
      obtain ⟨-, copy, addr, rfl, rfl⟩ := checkedOutput_ok hchk
      exact hwires copy.wire hwire
    exact hsame
  intro action hact
  obtain ⟨hact, hne⟩ := mem_filter.1 hact
  have hne : action.actionId ≠ req.actionId := by
    rw [← hid]
    exact of_decide_eq_true hne
  rcases mutate_actions hu with ⟨hsame, -⟩ | ⟨output, hkind, houtput, hprom⟩
  · exact hoth action (hsame ▸ hact) hne
  · have hpushed := refusing_ok.1 hprom
    have hreps := pushAction_replicas hpushed
    rcases pushAction_ok hpushed with rfl | ⟨-, id, -, rfl⟩
    · exact hoth action hact hne
    rcases mem_append.1 hact with hold | hnew
    · exact hoth action hold hne
    · obtain rfl := mem_singleton.1 hnew
      rw [mutate, hkind] at hu
      obtain ⟨output', hout', -, hdiffers, -⟩ := completeCopy_ok hu
      obtain rfl : output = output' := by
        rw [houtput] at hout'
        exact (List.cons.inj hout').1
      have hother : output.nodeId ≠ c.source.nodeId := by
        rw [hkind] at hready
        rw [(hgood.placed output (houtput ▸ mem_cons_self)).1, hsrc.node, ← htarget]
        exact hready
      exact current_drop hsrc hother (copyDiffers_eq_false hdiffers).2.1 hreps

end Keeping

end ProtomoltSearch.ControlPlane
