import ProtomoltSearch.Raft.LogRuns

/-!
# The Raft library and its log

The library reads the log at a start and then follows it by its own calls: it truncates above its
committed position, appends right after its last entry and asks for purges in order, for a snapshot
before the store has installed it.

The process may end between any two transactions. A purge still owed then survives in the file, while
the library comes back with the position the store has applied: a truncation can reach into the purge
it has forgotten (`library_refused`). Where it does not, and no append comes before the store has
caught up, no call is refused (`library_not_refused`).

Positions are counted as one past an index, `0` where there is none.
-/

namespace ProtomoltSearch.Raft

open Runs Disk List U64 OrderedMap Nat LogId

variable {P : Type}

/-! ## Positions -/

def onePast (index : Option U64) : ℕ := index.elim 0 fun i => i.val + 1

/-- One past the last entry the file holds or has purged. -/
def Disk.logEnd (d : Disk P) : ℕ := d.lastLogId.elim d.start fun id => id.index.val + 1

/-- One past the purge the file still owes. -/
def Disk.deferredEnd (d : Disk P) : ℕ := onePast (d.deferredPurge.map index)

namespace Node

/-- One past what the hosted store has applied. -/
def appliedEnd (n : Node P) : ℕ := onePast (n.hosted.lastApplied.map index)

/-- One past what the library asked to purge to in this run. -/
def requestedEnd (n : Node P) : ℕ := onePast n.requestedPurge

end Node

/-! ## The library -/

/-- What the library holds of the log: its end, its committed position and its last purge. -/
structure Library where
  last : ℕ
  committed : ℕ
  purged : ℕ
  deriving DecidableEq

/-- A log store with the library that calls it. -/
structure System (P : Type) where
  node : Node P
  library : Library

/-- What happens to a log store and its library. -/
inductive Call (P : Type) where
  | append (entries : List (Entry P))
  | truncate (logId : LogId)
  | purge (logId : LogId)
  | saveVote (vote : Vote)
  | saveCommitted (committed : Option LogId)
  /-- The library learns that entries are committed; the position is one past the last. -/
  | commit (upto : ℕ)
  | host (hosted : Hosted)
  | restart
  | appendInterrupted
  deriving DecidableEq

/-- What the library reads at a start: committed is what was saved so, or what is applied. -/
def Library.read (n : Node P) : Library where
  last := n.disk.logEnd
  committed := max (onePast (n.disk.committed.map index)) n.appliedEnd
  purged := n.disk.start

/-- What the library knows after a call it made or an event it saw. -/
def Library.after (l : Library) : Call P → Library
  | .append entries => { l with last := l.last + entries.length }
  | .truncate logId => { l with last := min l.last logId.index.val }
  | .purge logId =>
    { l with
      purged := max l.purged (logId.index.val + 1)
      last := max l.last (logId.index.val + 1) }
  | .commit upto => { l with committed := upto }
  | _ => l

section

variable (checks : Bool) (encodedLen : Entry P → ℕ)

/-- The file is opened and the hosted store bound, before the library reads the log. -/
def Node.start (n : Node P) : Node P × Answer := n.reopen.bindAppliedFloor checks

namespace System

def start (n : Node P) : System P := ⟨(n.start checks).1, .read (n.start checks).1⟩

def answer (s : System P) : Call P → Answer
  | .append entries => (s.node.appendSync checks encodedLen entries).2
  | .truncate logId => (s.node.truncateSync logId).2
  | .purge logId => (Node.locked (fun n => n.purge logId) s.node).2
  | .saveVote vote => (s.node.saveVote vote).2
  | .saveCommitted committed => (s.node.saveCommitted committed).2
  | .commit _ | .host _ => .ok ()
  | .restart => (s.node.start checks).2
  | .appendInterrupted => ((Raft.next checks encodedLen s.node .appendInterrupted).start checks).2

/-- The system after a call, accepted or not. -/
def next (s : System P) (call : Call P) : System P :=
  let node := Raft.next checks encodedLen s.node
  match call with
  | .append entries => ⟨node (.append entries), s.library.after call⟩
  | .truncate logId => ⟨node (.truncate logId), s.library.after call⟩
  | .purge logId => ⟨node (.purge logId), s.library.after call⟩
  | .saveVote vote => ⟨node (.saveVote vote), s.library.after call⟩
  | .saveCommitted committed => ⟨node (.saveCommitted committed), s.library.after call⟩
  | .commit _ => ⟨s.node, s.library.after call⟩
  | .host hosted => ⟨node (.host hosted), s.library.after call⟩
  | .restart => start checks s.node
  | .appendInterrupted => start checks (node .appendInterrupted)

end System

end

/-- The library's contract. It appends consecutive entries right after its last one, truncates
above its committed position, purges in order and at or below its committed position, saves the
committed position it holds, and what is committed or applied stays so. -/
def Contract (s : System P) : Call P → Prop
  | .append entries =>
    entries.map (·.logId.index.val) = List.range' s.library.last entries.length
  | .truncate logId => s.library.committed ≤ logId.index.val
  | .purge logId =>
    s.library.purged ≤ logId.index.val + 1 ∧ logId.index.val + 1 ≤ s.library.committed
  | .saveCommitted committed => onePast (committed.map index) = s.library.committed
  | .commit upto => s.library.committed ≤ upto
  | .host hosted => s.node.appliedEnd ≤ onePast (hosted.lastApplied.map index)
  | .saveVote _ | .restart | .appendInterrupted => True

/-- An entry within the size bound, at an index that has a successor. -/
def Storable (encodedLen : Entry P → ℕ) (entry : Entry P) : Prop :=
  encodedLen entry ≤ maxEntryBytes ∧ entry.logId.index.val + 1 < 2 ^ 64

/-- The file reaches as far as the purges asked for in this run, or the store has applied what they
wait for and no purge of an earlier run hides them. -/
def CaughtUp (n : Node P) : Prop :=
  n.requestedEnd ≤ n.disk.logEnd ∨
    n.hosted.present = true ∧ n.disk.deferredEnd ≤ n.appliedEnd ∧
      n.disk.deferredEnd ≤ n.requestedEnd

/-- The calls the log store takes: truncations above a purge that is owed and was not asked for in
this run, appends once the store has caught up with the purges of this run, entries within the size
bound, and no index `2 ^ 64 - 1`. -/
def Takes (encodedLen : Entry P → ℕ) (s : System P) : Call P → Prop
  | .append entries =>
    (∀ entry ∈ entries, Storable encodedLen entry) ∧ (entries ≠ [] → CaughtUp s.node)
  | .truncate logId =>
    s.node.requestedEnd < s.node.disk.deferredEnd → s.node.disk.deferredEnd ≤ logId.index.val
  | .purge logId => logId.index.val + 1 < 2 ^ 64
  | .host hosted => onePast (hosted.lastApplied.map index) < 2 ^ 64
  | _ => True

section

variable (encodedLen : Entry P → ℕ) (s : System P)

instance : ∀ call, Decidable (Contract s call)
  | .append _ => inferInstanceAs (Decidable (_ = _))
  | .truncate _ => inferInstanceAs (Decidable (_ ≤ _))
  | .purge _ => inferInstanceAs (Decidable (_ ∧ _))
  | .saveCommitted _ => inferInstanceAs (Decidable (_ = _))
  | .commit _ => inferInstanceAs (Decidable (_ ≤ _))
  | .host _ => inferInstanceAs (Decidable (_ ≤ _))
  | .saveVote _ | .restart | .appendInterrupted => isTrue trivial

instance (entry : Entry P) : Decidable (Storable encodedLen entry) :=
  inferInstanceAs (Decidable (_ ∧ _))

instance (n : Node P) : Decidable (CaughtUp n) := inferInstanceAs (Decidable (_ ∨ _ ∧ _ ∧ _))

instance [DecidableEq P] : ∀ call, Decidable (Takes encodedLen s call)
  | .append _ => inferInstanceAs (Decidable (_ ∧ _))
  | .truncate _ => inferInstanceAs (Decidable (_ → _))
  | .purge _ | .host _ => inferInstanceAs (Decidable (_ < _))
  | .saveVote _ | .saveCommitted _ | .commit _ | .restart | .appendInterrupted => isTrue trivial

end

/-! ## The file -/

/-- The file holds the entries from one past its purge point up to `stop`, which fits an index. -/
structure Fits (d : Disk P) (stop : ℕ) : Prop where
  spans : Spans d.start d.log stop
  start_le : d.start ≤ stop
  keyed : Keyed d.log
  lt : stop < 2 ^ 64

section Fits

variable {checks : Bool} {encodedLen : Entry P → ℕ} {d d' : Disk P} {stop : ℕ} {logId : LogId}

lemma Fits.logEnd_eq (h : Fits d stop) : d.logEnd = stop := by
  unfold logEnd lastLogId
  cases hlast : d.log.last? with
  | none =>
    have hkeys : d.log.keys = [] := last?_eq_none.1 hlast
    have hlt := h.lt
    by_contra hne
    have hstart : d.start ≠ stop := hne
    have hmem := (h.spans (wrap d.start)).2 (by
      rw [wrap_val (h.start_le.trans_lt hlt)]
      exact ⟨le_rfl, lt_of_le_of_ne h.start_le hstart⟩)
    rw [hkeys] at hmem
    exact absurd hmem not_mem_nil
  | some e =>
    obtain ⟨hmem, hmax⟩ := last?_eq_some hlast
    have hbounds := (h.spans e.1).1 (mem_keys.2 ⟨e.2, hmem⟩)
    have hlt := h.lt
    have hval : (wrap (stop - 1)).val = stop - 1 := wrap_val (by omega)
    have hle : stop - 1 ≤ e.1.val := by
      have hlast := hmax (wrap (stop - 1)) ((h.spans _).2 (by omega))
      exact hval ▸ le_iff.1 hlast
    show e.2.logId.index.val + 1 = stop
    rw [h.keyed e hmem]
    omega

lemma Fits.of_log_eq (h : Fits d stop) (hlog : d'.log = d.log)
    (hpurged : d'.lastPurged = d.lastPurged) : Fits d' stop := by
  have hstart : d'.start = d.start := by rw [start, purgedIndex, hpurged]; rfl
  refine ⟨?_, ?_, ?_, h.lt⟩
  · rw [hlog, hstart]
    exact h.spans
  · rw [hstart]
    exact h.start_le
  · rw [hlog]
    exact h.keyed

lemma Fits.purgeLocked (h : Fits d stop) (deferred : Option LogId)
    (hfwd : d.start ≤ logId.index.val + 1) (hlt : logId.index.val + 1 < 2 ^ 64) :
    Fits (d.purgeLocked logId deferred) (max stop (logId.index.val + 1)) := by
  refine ⟨fun index => ?_, le_max_right _ _, fun e he => ?_, max_lt h.lt hlt⟩
  · have hfilt : index ∈ (d.purgeLocked logId deferred).log.keys ↔
        index ∈ d.log.keys ∧ decide (logId.index < index) = true := mem_keys_filter
    rw [hfilt, h.spans, decide_eq_true_eq, lt_iff]
    show _ ↔ logId.index.val + 1 ≤ index.val ∧ _
    omega
  · exact h.keyed e (OrderedMap.mem_filter.1 he).1

lemma Fits.truncateLocked (h : Fits d stop) (logId : LogId) (hid : d.start ≤ logId.index.val) :
    Fits (d.truncateLocked logId) (min stop logId.index.val) := by
  refine ⟨fun index => ?_, le_min h.start_le hid, fun e he => ?_, (min_le_left _ _).trans_lt h.lt⟩
  · have hfilt : index ∈ (d.truncateLocked logId).log.keys ↔
        index ∈ d.log.keys ∧ decide (index < logId.index) = true := mem_keys_filter
    rw [hfilt, h.spans, decide_eq_true_eq, lt_iff]
    show _ ↔ d.start ≤ index.val ∧ _
    omega
  · exact h.keyed e (OrderedMap.mem_filter.1 he).1

/-- The successor of an index that has one. -/
lemma add_one_ok {index : U64} (h : index.val + 1 < 2 ^ 64) :
    (U64.add checks index (U64.wrap 1) : Except (Failure StorageError) U64) =
      .ok (U64.wrap (index.val + 1)) :=
  exactly_of_lt h

/-- The log starts right after its purge point. -/
lemma Fits.checkContiguous (h : Fits d stop) (applied : LogId) :
    Node.checkContiguous checks d applied = .ok () := by
  unfold Node.checkContiguous firstLogIndex
  cases hfst : d.log.first? with
  | none => rfl
  | some e =>
    obtain ⟨hmem, hmin⟩ := first?_eq_some hfst
    have hbounds := (h.spans e.1).1 (mem_keys.2 ⟨e.2, hmem⟩)
    have hlt : d.start < 2 ^ 64 := h.start_le.trans_lt h.lt
    have hstart : Node.startIndex checks d.purgedIndex = .ok (wrap d.start) := by
      cases hpurged : d.purgedIndex with
      | none => rw [start, hpurged]; rfl
      | some purged =>
        have hpast : d.start = purged.val + 1 := by rw [start, hpurged]; rfl
        rw [hpast] at hlt ⊢
        exact add_one_ok hlt
    have hval := wrap_val hlt
    have hle := le_iff.1 (hmin (wrap d.start) ((h.spans _).2 (by omega)))
    have heq : e.1 = wrap d.start := val_injective (by omega)
    show (Node.startIndex checks d.purgedIndex >>= _) = _
    rw [hstart, ok_bind, if_pos heq]

/-- The index an append must start with. -/
lemma Fits.expectedIndex (checks : Bool) (h : Fits d stop) :
    d.expectedIndex checks = .ok (some (U64.wrap stop)) ∨
      d.expectedIndex checks = .ok none ∧ stop = 0 := by
  have hend := h.logEnd_eq
  have hlt := h.lt
  unfold Disk.expectedIndex
  unfold logEnd at hend
  cases hlast : d.lastLogId with
  | some last =>
    rw [hlast] at hend
    obtain rfl : last.index.val + 1 = stop := hend
    left
    show some <$> add checks last.index (wrap 1) = _
    rw [add_one_ok hlt]
    rfl
  | none =>
    rw [hlast] at hend
    obtain rfl : d.start = stop := hend
    unfold start at hlt ⊢
    cases hpurged : d.purgedIndex with
    | none => exact .inr ⟨rfl, rfl⟩
    | some purged =>
      rw [hpurged] at hlt
      left
      show some <$> add checks purged (wrap 1) = _
      rw [add_one_ok hlt]
      rfl

/-- Entries that follow each other are appended. -/
lemma appendEntries_ok (checks : Bool) {entries : List (Entry P)} {log : OrderedMap U64 (Entry P)}
    {expected : Option U64} {start : ℕ} (hspans : Spans start log stop) (hstart : start ≤ stop)
    (hkeyed : Keyed log) (hexp : ∀ next ∈ expected, next.val = stop)
    (hents : entries.map (·.logId.index.val) = List.range' stop entries.length)
    (hstorable : ∀ entry ∈ entries, Storable encodedLen entry) :
    ∃ log' next, entries.foldlM (appendEntry checks encodedLen) (log, expected) = .ok (log', next) ∧
      Spans start log' (stop + entries.length) ∧ Keyed log' := by
  induction entries generalizing log expected stop with
  | nil => exact ⟨log, expected, rfl, hspans, hkeyed⟩
  | cons entry entries ih =>
    rw [map_cons, length_cons, List.range'_succ, List.cons.injEq] at hents
    obtain ⟨hidx, hrest⟩ := hents
    obtain ⟨hlen, hlt⟩ := hstorable entry mem_cons_self
    have hhole : (expected.any fun next => decide (next ≠ entry.logId.index)) = false := by
      cases expected with
      | none => rfl
      | some next =>
        have hnext := val_injective ((hexp next rfl).trans hidx.symm)
        simp [hnext]
    have hstep : appendEntry checks encodedLen (log, expected) entry =
        .ok (log.insert entry.logId.index entry, some (wrap (entry.logId.index.val + 1))) := by
      unfold appendEntry
      simp only [hhole, decide_eq_false (not_lt.2 hlen), refuseIf_false, ok_bind, add_one_ok hlt]
    have hspans' : Spans start (log.insert entry.logId.index entry) (stop + 1) := fun index => by
      rw [mem_keys_insert, hspans, ← val_injective.eq_iff]
      omega
    have hkeyed' : Keyed (log.insert entry.logId.index entry) := fun e he => by
      rcases mem_insert.1 he with rfl | ⟨he, -⟩
      · rfl
      · exact hkeyed e he
    obtain ⟨log', next, hfold, _, hkeyed''⟩ := ih hspans' (by omega) hkeyed'
      (fun next hnext => by
        obtain rfl := Option.some.inj hnext
        rw [wrap_val hlt, hidx])
      hrest fun e he => hstorable e (mem_cons_of_mem _ he)
    refine ⟨log', next, foldlM_cons_ok.2 ⟨_, hstep, hfold⟩, ?_, hkeyed''⟩
    rwa [length_cons, ← add_assoc, add_right_comm]

/-- Consecutive entries right after the log are appended. -/
lemma Fits.appendLocked (checks : Bool) {entries : List (Entry P)} (h : Fits d stop)
    (hents : entries ≠ [] →
      entries.map (·.logId.index.val) = List.range' stop entries.length)
    (hstorable : ∀ entry ∈ entries, Storable encodedLen entry) :
    ∃ log, d.appendLocked checks encodedLen entries = .ok { d with log := log } ∧
      Fits { d with log := log } (stop + entries.length) := by
  have hents : entries.map (·.logId.index.val) = List.range' stop entries.length := by
    cases entries with
    | nil => rfl
    | cons entry entries => exact hents (cons_ne_nil _ _)
  have hlt : stop + entries.length < 2 ^ 64 := by
    rcases eq_nil_or_concat entries with rfl | ⟨init, last, rfl⟩
    · exact h.lt
    · have hidx : last.logId.index.val = stop + init.length := by
        have hget := congrArg (fun l => l[init.length]?) hents
        simpa using hget
      have := (hstorable last (by simp)).2
      rw [concat_eq_append, length_append, length_singleton]
      omega
  obtain ⟨expected, hexp, hval⟩ : ∃ expected, d.expectedIndex checks = .ok expected ∧
      ∀ next ∈ expected, next.val = stop := by
    rcases h.expectedIndex checks with hexp | ⟨hexp, -⟩
    · refine ⟨_, hexp, fun next hnext => ?_⟩
      cases hnext
      exact wrap_val h.lt
    · exact ⟨none, hexp, nofun⟩
  obtain ⟨log, next, hfold, hspans, hkeyed⟩ :=
    appendEntries_ok checks h.spans h.start_le h.keyed hval hents hstorable
  refine ⟨log, ?_, ⟨hspans, h.start_le.trans (le_add_right _ _), hkeyed, hlt⟩⟩
  unfold Disk.appendLocked
  rw [hexp, ok_bind, hfold]
  rfl

end Fits

/-! ## What purges do to the positions -/

section

variable {checks : Bool} {n : Node P} {d d' : Disk P} {may owes : LogId → Prop} {logId : LogId}

lemma onePast_le_of_mem {x y : Option LogId} (h : ∀ id ∈ x, id ∈ y) :
    onePast (x.map index) ≤ onePast (y.map index) := by
  cases x with
  | none => exact zero_le _
  | some id => rw [Option.mem_def.1 (h id rfl)]

/-- A purge or a settle moves the purge point where it may, and the end no further than it must. -/
lemma Moves.fits (h : Moves d may owes d') (hd : Fits d d.logEnd)
    (hmay : ∀ target, may target → target.index.val + 1 < 2 ^ 64) :
    Fits d' d'.logEnd ∧ d'.logEnd = max d.logEnd d'.start ∧ d.start ≤ d'.start ∧
      (d'.start = d.start ∨ ∃ target, may target ∧ d'.start = target.index.val + 1) := by
  cases h with
  | stay hlog hpurged _ =>
    have hfits := hd.of_log_eq hlog hpurged
    have hstart : d'.start = d.start := by rw [start, purgedIndex, hpurged]; rfl
    rw [hfits.logEnd_eq, hstart, max_eq_left hd.start_le]
    exact ⟨hfits, rfl, le_rfl, .inl rfl⟩
  | @purge target deferred hfwd ht _ =>
    have hle := start_le_of_forward hfwd
    have hfits := hd.purgeLocked deferred hle (hmay target ht)
    rw [hfits.logEnd_eq]
    exact ⟨hfits, rfl, hle, .inr ⟨target, ht, rfl⟩⟩

/-- A settle at an append forgets no purge it has not done, and does the one that is owed if the store
has applied it and the library asked for it in this run. -/
lemma settleDisk_append (n : Node P) (applied : LogId) : n.disk.deferredEnd ≤
        max (n.settleDisk applied .append).start (n.settleDisk applied .append).deferredEnd ∧
      (n.disk.deferredEnd ≤ applied.index.val + 1 → n.disk.deferredEnd ≤ n.requestedEnd →
        n.disk.deferredEnd ≤ (n.settleDisk applied .append).start) := by
  cases hdefer : n.disk.deferredPurge with
  | none =>
    have hzero : n.disk.deferredEnd = 0 := by rw [deferredEnd, hdefer]; rfl
    omega
  | some deferred =>
    have hend : n.disk.deferredEnd = deferred.index.val + 1 := by rw [deferredEnd, hdefer]; rfl
    by_cases hle : deferred.index ≤ applied.index
    · have htarget : n.settleTarget applied .append = (some deferred, none) := by
        simp only [Node.settleTarget, hdefer, if_pos hle]
      unfold Node.settleDisk
      simp only [htarget]
      split
      · rename_i hpurged
        obtain ⟨purged, hp, hle'⟩ := (Option.any_eq_true _ _).1 hpurged
        have hle' := le_iff.1 (of_decide_eq_true hle')
        have hstart : n.disk.start = purged.val + 1 := by rw [start, Option.mem_def.1 hp]; rfl
        rw [hdefer]
        show _ ≤ max n.disk.start _ ∧ (_ → _ → _ ≤ n.disk.start)
        omega
      · split
        · show _ ≤ max (deferred.index.val + 1) _ ∧ (_ → _ → _ ≤ deferred.index.val + 1)
          omega
        · rename_i hasked
          refine ⟨le_max_right _ _, fun _ hreq => absurd ?_ hasked⟩
          unfold Node.requestedEnd at hreq
          cases hr : n.requestedPurge with
          | none =>
            rw [hr, hend] at hreq
            exact absurd hreq (not_succ_le_zero _)
          | some requested =>
            rw [hr, hend] at hreq
            refine (Option.any_eq_true _ _).2 ⟨requested, hr, decide_eq_true (le_iff.2 ?_)⟩
            exact le_of_succ_le_succ hreq
    · have htarget : n.settleTarget applied .append = (none, some deferred) := by
        simp only [Node.settleTarget, hdefer, if_neg hle]
      have hstay : n.settleDisk applied .append = n.disk := by
        unfold Node.settleDisk
        simp only [htarget]
      rw [hstay]
      refine ⟨le_max_right _ _, fun happl => absurd (le_iff.2 ?_) hle⟩
      omega

/-- What a settle leaves of the positions. -/
structure Settled (n : Node P) (mode : Settle) (d' : Disk P) : Prop where
  fits : Fits d' d'.logEnd
  logEnd : d'.logEnd = max n.disk.logEnd d'.start
  forward : n.disk.start ≤ d'.start
  applied : d'.start ≤ max n.disk.start n.appliedEnd
  deferred : d'.deferredEnd ≤ n.disk.deferredEnd
  asked : mode = .append → d'.start ≤ max n.disk.start n.requestedEnd
  owed : mode = .append → n.disk.deferredEnd ≤ max d'.start d'.deferredEnd
  caught : mode = .append → n.bound = true → n.hosted.present = true →
    n.disk.deferredEnd ≤ n.appliedEnd → n.disk.deferredEnd ≤ n.requestedEnd →
    n.disk.deferredEnd ≤ d'.start

/-- What is kept of the file and the store it is hosted beside, across starts. -/
structure Sound (n : Node P) : Prop where
  fits : Fits n.disk n.disk.logEnd
  applied : n.disk.start ≤ n.appliedEnd
  appliedLt : n.appliedEnd < 2 ^ 64
  deferredLt : n.disk.deferredEnd < 2 ^ 64

/-- A settle is not refused. -/
lemma Sound.settleLocked (h : Sound n) (checks : Bool) (mode : Settle) :
    ∃ d', n.settleLocked checks mode = ({ n with disk := d' }, .ok ()) ∧ Settled n mode d' := by
  unfold Node.settleLocked
  split
  · rename_i applied hfloor
    obtain ⟨-, -, happl⟩ := Node.appliedFloor_eq_applied.1 hfloor
    have hend : n.appliedEnd = applied.index.val + 1 := by rw [Node.appliedEnd, happl]; rfl
    have hmoves : Moves n.disk (MaySettle n mode) (· ∈ n.disk.deferredPurge)
        (n.settleDisk applied mode) := settleDisk_moves happl
    have hle : ∀ target, MaySettle n mode target → target.index.val + 1 ≤ n.appliedEnd := by
      intro target ht
      obtain ⟨applied', happl', hle⟩ := ht.applied
      obtain rfl := Option.some.inj (happl ▸ happl')
      rw [hend]
      exact succ_le_succ (le_iff.1 hle)
    obtain ⟨hfits, hlogEnd, hfwd, hstart⟩ :=
      hmoves.fits h.fits fun target ht => (hle target ht).trans_lt h.appliedLt
    refine ⟨_, Prod.ext rfl (hfits.checkContiguous applied), ⟨hfits, hlogEnd, hfwd, ?_,
      onePast_le_of_mem hmoves.owed, ?_, ?_, ?_⟩⟩
    · rcases hstart with heq | ⟨target, ht, heq⟩ <;> rw [heq]
      · exact le_max_left _ _
      · exact (hle target ht).trans (le_max_right _ _)
    · rintro rfl
      rcases hstart with heq | ⟨target, ht, heq⟩ <;> rw [heq]
      · exact le_max_left _ _
      · obtain ⟨requested, hr, hle⟩ := ht.asked rfl
        refine le_max_of_le_right ?_
        rw [Node.requestedEnd, Option.mem_def.1 hr]
        exact succ_le_succ (le_iff.1 hle)
    · rintro rfl
      exact (settleDisk_append n applied).1
    · rintro rfl - - happl hreq
      exact (settleDisk_append n applied).2 (hend ▸ happl) hreq
  · rename_i hfloor
    refine ⟨n.disk, rfl, ⟨h.fits, (max_eq_left h.fits.start_le).symm, le_rfl, le_max_left _ _, le_rfl,
      fun _ => le_max_left _ _, fun _ => le_max_right _ _, fun _ hbound hpres happl _ => ?_⟩⟩
    cases hlast : n.hosted.lastApplied with
    | none =>
      rw [Node.appliedEnd, hlast] at happl
      exact happl.trans (zero_le _)
    | some applied =>
      exact absurd (Node.appliedFloor_eq_applied.2 ⟨hbound, hpres, hlast⟩) (hfloor applied)

lemma Sound.settled (h : Sound n) {mode : Settle} (hd : Settled n mode d') :
    Sound { n with disk := d' } where
  fits := hd.fits
  applied := hd.applied.trans (max_le h.applied le_rfl)
  appliedLt := h.appliedLt
  deferredLt := hd.deferred.trans_lt h.deferredLt

/-- A purge leaves owed what it does not reach, of what was owed and of what it was asked for. -/
lemma deferredAfter_covers (recorded upto : Option LogId) (logId : LogId) :
    max (onePast (recorded.map index)) (logId.index.val + 1) ≤
        max (onePast (upto.map index))
          (onePast ((Node.deferredAfter recorded upto logId).map index)) ∧
      onePast ((Node.deferredAfter recorded upto logId).map index) ≤
        max (onePast (recorded.map index)) (logId.index.val + 1) := by
  have howed : onePast ((some ((recorded.filter fun d => decide (logId.index < d.index)).getD
      logId)).map index) = max (onePast (recorded.map index)) (logId.index.val + 1) := by
    cases recorded with
    | none => exact (max_eq_right (zero_le _)).symm
    | some d =>
      by_cases hlt : logId.index < d.index
      · have hlt' := lt_iff.1 hlt
        rw [Option.filter_some, if_pos (decide_eq_true hlt)]
        exact (max_eq_left (by show _ ≤ d.index.val + 1; omega)).symm
      · have hle := le_iff.1 (not_lt.1 hlt)
        rw [Option.filter_some, if_neg (by simpa using hlt)]
        exact (max_eq_right (by show d.index.val + 1 ≤ logId.index.val + 1; omega)).symm
  unfold Node.deferredAfter
  cases upto with
  | none =>
    rw [howed]
    exact ⟨le_max_right _ _, le_rfl⟩
  | some upto =>
    dsimp only
    split
    · rename_i hle
      have hle := le_iff.1 hle
      cases recorded with
      | none => simp [onePast, hle]
      | some d =>
        by_cases hlt : upto.index < d.index
        · rw [Option.filter_some, if_pos (decide_eq_true hlt)]
          simp only [Option.map_some, onePast, Option.elim_some]
          omega
        · have hle' := le_iff.1 (not_lt.1 hlt)
          rw [Option.filter_some, if_neg (by simpa using hlt)]
          simp only [Option.map_some, Option.map_none, onePast, Option.elim_some, Option.elim_none]
          omega
    · rw [howed]
      exact ⟨le_max_right _ _, le_rfl⟩

/-- The greatest purge asked for covers the earlier ones and this one. -/
lemma onePast_requested (requested : Option U64) (index : U64) :
    onePast (some (match requested with
      | none => index
      | some requested => max requested index)) = max (onePast requested) (index.val + 1) := by
  cases requested with
  | none => exact (max_eq_right (zero_le _)).symm
  | some requested =>
    show (max requested index).val + 1 = max (requested.val + 1) (index.val + 1)
    rcases le_total requested index with hle | hle
    · have := le_iff.1 hle
      rw [max_eq_right hle]
      omega
    · have := le_iff.1 hle
      rw [max_eq_left hle]
      omega

/-- What a purge leaves of the positions. -/
structure Purged (n : Node P) (logId : LogId) (n' : Node P) : Prop where
  fits : Fits n'.disk n'.disk.logEnd
  logEnd : n'.disk.logEnd = max n.disk.logEnd n'.disk.start
  forward : n.disk.start ≤ n'.disk.start
  applied : n'.disk.start ≤ max n.disk.start n.appliedEnd
  asked : n'.disk.start ≤ max n.disk.start (logId.index.val + 1)
  deferred : n'.disk.deferredEnd ≤ max n.disk.deferredEnd (logId.index.val + 1)
  owed : max n.disk.deferredEnd (logId.index.val + 1) ≤ max n'.disk.start n'.disk.deferredEnd
  requested : n'.requestedEnd = max n.requestedEnd (logId.index.val + 1)
  hosted : n'.hosted = n.hosted
  bound : n'.bound = n.bound
  poisoned : n'.poisoned = n.poisoned

/-- A purge in order is not refused. -/
lemma Sound.purge (h : Sound n) (hbound : n.bound = true)
    (hord : n.disk.start ≤ logId.index.val + 1) (hlt : logId.index.val + 1 < 2 ^ 64) :
    ∃ n', n.purge logId = (n', .ok ()) ∧ Purged n logId n' := by
  have hupto : ∀ upto, n.purgeUpto logId = some upto →
      n.disk.start ≤ upto.index.val + 1 ∧ upto.index.val + 1 ≤ logId.index.val + 1 ∧
        upto.index.val + 1 ≤ n.appliedEnd := by
    intro upto hupto
    obtain ⟨hle, heq, happl⟩ := purgeUpto_spec hupto
    obtain ⟨applied, ha, hle'⟩ := happl hbound
    have hend : n.appliedEnd = applied.index.val + 1 := by
      rw [Node.appliedEnd, Option.mem_def.1 ha]
      rfl
    have hle := le_iff.1 hle
    have hle' := le_iff.1 hle'
    refine ⟨?_, by omega, by omega⟩
    rcases heq with rfl | heq
    · exact hord
    · obtain rfl := Option.some.inj (Option.mem_def.1 ha ▸ heq)
      exact hend ▸ h.applied
  have hback : Node.goesBack (n.purgeUpto logId) n.disk.purgedIndex = none := by
    unfold Node.goesBack
    split
    · rename_i upto purged hu hp
      have hstart : n.disk.start = purged.val + 1 := by rw [start, hp]; rfl
      have hle := (hupto upto hu).1
      rw [if_neg]
      rw [lt_iff]
      omega
    · rfl
  obtain ⟨hcovers, hdefer⟩ :=
    deferredAfter_covers n.disk.deferredPurge (n.purgeUpto logId) logId
  unfold Node.purge
  simp only [hback]
  refine ⟨_, rfl, ?_⟩
  cases hu : n.purgeUpto logId with
  | none =>
    rw [hu] at hcovers hdefer
    have hfits : Fits (n.disk.recordDeferredPurgeLocked
        (Node.deferredAfter n.disk.deferredPurge none logId)) n.disk.logEnd :=
      h.fits.of_log_eq rfl rfl
    have hend := hfits.logEnd_eq
    refine ⟨hend.symm ▸ hfits, hend.trans (max_eq_left h.fits.start_le).symm, le_rfl, le_max_left _ _,
      le_max_left _ _, hdefer, ?_, onePast_requested _ _, rfl, rfl, rfl⟩
    exact hcovers.trans (max_le (zero_le _) (le_max_right _ _))
  | some upto =>
    rw [hu] at hcovers hdefer
    obtain ⟨hfwd, hasked, happl⟩ := hupto upto hu
    have hfits := h.fits.purgeLocked (Node.deferredAfter n.disk.deferredPurge (some upto) logId)
      hfwd (hasked.trans_lt hlt)
    have hend := hfits.logEnd_eq
    exact ⟨hend.symm ▸ hfits, hend, hfwd, le_max_of_le_right happl, le_max_of_le_right hasked,
      hdefer, hcovers, onePast_requested _ _, rfl, rfl, rfl⟩

end

/-! ## Runs -/

section

variable {checks : Bool} {encodedLen : Entry P → ℕ} {s : System P} {call : Call P}

/-- The library and the file agree. The library's log ends where the file's does, or where the
purges it asked for in this run end; and those are done or still owed. -/
structure Agrees (s : System P) : Prop where
  sound : Sound s.node
  bound : s.node.bound = true
  unpoisoned : s.node.poisoned = false
  start_le : s.node.disk.start ≤ s.library.purged
  requested_le : s.node.requestedEnd ≤ s.library.purged
  purged_le : s.library.purged ≤ s.library.committed
  logEnd_le : s.node.disk.logEnd ≤ s.library.last
  requested_le_last : s.node.requestedEnd ≤ s.library.last
  last_le : s.library.last ≤ max s.node.disk.logEnd s.node.requestedEnd
  owed : s.node.requestedEnd ≤ max s.node.disk.start s.node.disk.deferredEnd

/-- A call under the lock that is accepted. -/
lemma locked_ok {run : Node P → Node P × Answer} {n n' : Node P} (hn : n.poisoned = false)
    (hn' : n'.poisoned = false) (h : run n = (n', .ok ())) : Node.locked run n = (n', .ok ()) := by
  cases n'
  obtain rfl := hn'
  unfold Node.locked
  rw [hn, h]
  rfl

lemma Agrees.of_locked {run : Node P → Node P × Answer} {n n' : Node P} {library : Library}
    (hn : n.poisoned = false) (hrun : run n = (n', .ok ())) (h : Agrees ⟨n', library⟩) :
    (Node.locked run n).2 = .ok () ∧ Agrees ⟨(Node.locked run n).1, library⟩ := by
  rw [locked_ok hn h.unpoisoned hrun]
  exact ⟨rfl, h⟩

/-- A start is not refused, and the library and the file agree after it. -/
lemma Sound.start {n : Node P} (h : Sound n) (checks : Bool) :
    (n.start checks).2 = .ok () ∧ Agrees (System.start checks n) := by
  have hbound : Sound (⟨n.disk, none, false, true, n.hosted⟩ : Node P) :=
    ⟨h.fits, h.applied, h.appliedLt, h.deferredLt⟩
  obtain ⟨d', hsettle, hd'⟩ := hbound.settleLocked checks .start
  have hstart : n.start checks = (⟨d', none, false, true, n.hosted⟩, .ok ()) := by
    unfold Node.start Node.bindAppliedFloor
    exact locked_ok rfl rfl hsettle
  have hsound := hbound.settled hd'
  unfold System.start
  rw [hstart]
  exact ⟨rfl, hsound, rfl, rfl, le_rfl, zero_le _, le_max_of_le_right hsound.applied, le_rfl,
    zero_le _, le_max_left _ _, zero_le _⟩

/-- An append waits for the store only where its entries would not follow the file's. -/
lemma Agrees.append (h : Agrees s) {entries : List (Entry P)} (hc : Contract s (.append entries))
    (ht : Takes encodedLen s (.append entries)) :
    s.answer checks encodedLen (.append entries) = .ok () ∧
      Agrees (s.next checks encodedLen (.append entries)) := by
  obtain ⟨hstorable, hcaught⟩ := ht
  obtain ⟨d', hsettle, hd'⟩ := h.sound.settleLocked checks .append
  have hasked := hd'.asked rfl
  have howed := hd'.owed rfl
  have hlogEnd := hd'.logEnd
  have hfwd := hd'.forward
  have hstart_le := h.sound.fits.start_le
  have hreq := h.requested_le_last
  have hlast_le := h.last_le
  have hlogEnd_le := h.logEnd_le
  have hlast : entries ≠ [] → d'.logEnd = s.library.last := fun hne => by
    rcases hcaught hne with hle | ⟨hpres, happl, hle⟩
    · omega
    · have hcaught := hd'.caught rfl h.bound hpres happl hle
      have howed := h.owed
      omega
  obtain ⟨log, happend, hfits⟩ := hd'.fits.appendLocked checks
    (fun hne => by rw [hlast hne]; exact hc) hstorable
  have hrun : Node.settleAndAppend checks encodedLen entries s.node =
      ({ s.node with disk := { d' with log := log } }, .ok ()) := by
    unfold Node.settleAndAppend
    rw [hsettle]
    dsimp only
    rw [happend]
  have hsound := h.sound.settled hd'
  have hend := hfits.logEnd_eq
  have hempty : entries = [] ∨ d'.logEnd = s.library.last := by
    by_cases hne : entries = []
    · exact .inl hne
    · exact .inr (hlast hne)
  refine Agrees.of_locked h.unpoisoned hrun
    ⟨⟨hend.symm ▸ hfits, hsound.applied, hsound.appliedLt, hsound.deferredLt⟩, h.bound,
      h.unpoisoned, ?_, h.requested_le, h.purged_le, ?_, ?_, ?_, ?_⟩
  · have := h.start_le
    have := h.requested_le
    show d'.start ≤ s.library.purged
    omega
  · show Disk.logEnd { d' with log := log } ≤ s.library.last + entries.length
    omega
  · exact hreq.trans (le_add_right _ _)
  · show s.library.last + entries.length ≤ max (Disk.logEnd { d' with log := log }) s.node.requestedEnd
    rcases hempty with rfl | _
    · simp only [length_nil]
      omega
    · omega
  · have := h.owed
    show s.node.requestedEnd ≤ max d'.start d'.deferredEnd
    omega

lemma Agrees.truncate (h : Agrees s) {logId : LogId} (hc : Contract s (.truncate logId))
    (ht : Takes encodedLen s (.truncate logId)) :
    s.answer checks encodedLen (.truncate logId) = .ok () ∧
      Agrees (s.next checks encodedLen (.truncate logId)) := by
  have hc : s.library.committed ≤ logId.index.val := hc
  have hstart_le := h.start_le
  have hreq := h.requested_le
  have hpurged := h.purged_le
  have hdefer : s.node.disk.deferredEnd ≤ logId.index.val := by
    by_cases hlt : s.node.requestedEnd < s.node.disk.deferredEnd
    · exact ht hlt
    · omega
  have hnone : (s.node.disk.deferredPurge.filter fun d => decide (logId.index ≤ d.index)) = none := by
    unfold deferredEnd at hdefer
    cases hd : s.node.disk.deferredPurge with
    | none => rfl
    | some d =>
      rw [hd] at hdefer
      have hlt : d.index.val < logId.index.val := hdefer
      rw [Option.filter_some, if_neg]
      rw [decide_eq_true_eq, le_iff]
      omega
  have hfits := h.sound.fits.truncateLocked logId (by omega)
  have hend := hfits.logEnd_eq
  have hlast_le := h.last_le
  have hlogEnd_le := h.logEnd_le
  have hrequested_last := h.requested_le_last
  refine @Agrees.of_locked P _ s.node { s.node with disk := s.node.disk.truncateLocked logId } _
    h.unpoisoned (by simp only [hnone])
    ⟨⟨hend.symm ▸ hfits, h.sound.applied, h.sound.appliedLt, h.sound.deferredLt⟩, h.bound,
      h.unpoisoned, h.start_le, h.requested_le, h.purged_le, ?_, ?_, ?_, h.owed⟩
  · show (s.node.disk.truncateLocked logId).logEnd ≤ min s.library.last logId.index.val
    omega
  · show s.node.requestedEnd ≤ min s.library.last logId.index.val
    omega
  · show min s.library.last logId.index.val ≤
      max (s.node.disk.truncateLocked logId).logEnd s.node.requestedEnd
    omega

lemma Agrees.purge (h : Agrees s) {logId : LogId} (hc : Contract s (.purge logId))
    (ht : Takes encodedLen s (.purge logId)) : s.answer checks encodedLen (.purge logId) = .ok () ∧
      Agrees (s.next checks encodedLen (.purge logId)) := by
  obtain ⟨hord, _⟩ : s.library.purged ≤ logId.index.val + 1 ∧
    logId.index.val + 1 ≤ s.library.committed := hc
  obtain ⟨n', hpurge, hn'⟩ := h.sound.purge h.bound (h.start_le.trans hord) ht
  have happl : n'.appliedEnd = s.node.appliedEnd := by
    rw [Node.appliedEnd, hn'.hosted, Node.appliedEnd]
  have := hn'.applied
  have := h.sound.applied
  have := hn'.deferred
  have := h.sound.deferredLt
  have := hn'.asked
  have := h.start_le
  have := hn'.requested
  have := hn'.logEnd
  have := hn'.owed
  have := h.logEnd_le
  have := h.requested_le
  have := h.last_le
  have hlt : logId.index.val + 1 < 2 ^ 64 := ht
  refine Agrees.of_locked h.unpoisoned hpurge ⟨⟨hn'.fits, ?_, ?_, ?_⟩, hn'.bound.trans h.bound,
      hn'.poisoned.trans h.unpoisoned, ?_, ?_, ?_, ?_, ?_, ?_, ?_⟩
  · show n'.disk.start ≤ n'.appliedEnd
    omega
  · exact happl.trans_lt h.sound.appliedLt
  · show n'.disk.deferredEnd < _
    omega
  · show n'.disk.start ≤ max s.library.purged (logId.index.val + 1)
    omega
  · show n'.requestedEnd ≤ max s.library.purged (logId.index.val + 1)
    omega
  · show max s.library.purged (logId.index.val + 1) ≤ s.library.committed
    omega
  · show n'.disk.logEnd ≤ max s.library.last (logId.index.val + 1)
    omega
  · show n'.requestedEnd ≤ max s.library.last (logId.index.val + 1)
    omega
  · show max s.library.last (logId.index.val + 1) ≤ max n'.disk.logEnd n'.requestedEnd
    omega
  · show n'.requestedEnd ≤ max n'.disk.start n'.disk.deferredEnd
    omega

/-- **A call within the contract that the store takes is not refused**, and they agree after it. -/
theorem Agrees.next (h : Agrees s) (hc : Contract s call) (ht : Takes encodedLen s call) :
    s.answer checks encodedLen call = .ok () ∧ Agrees (s.next checks encodedLen call) := by
  have hsound := h.sound
  cases call with
  | append entries => exact h.append hc ht
  | truncate logId => exact h.truncate hc ht
  | purge logId => exact h.purge hc ht
  | saveVote _ | saveCommitted _ =>
    exact Agrees.of_locked h.unpoisoned rfl
      ⟨⟨hsound.fits.of_log_eq rfl rfl, hsound.applied, hsound.appliedLt, hsound.deferredLt⟩, h.bound, h.unpoisoned,
        h.start_le, h.requested_le, h.purged_le, h.logEnd_le, h.requested_le_last, h.last_le, h.owed⟩
  | commit upto =>
    exact ⟨rfl, hsound, h.bound, h.unpoisoned, h.start_le, h.requested_le, h.purged_le.trans hc,
      h.logEnd_le, h.requested_le_last, h.last_le, h.owed⟩
  | host hosted =>
    exact ⟨rfl, ⟨hsound.fits, hsound.applied.trans hc, ht, hsound.deferredLt⟩, h.bound, h.unpoisoned,
      h.start_le, h.requested_le, h.purged_le, h.logEnd_le, h.requested_le_last, h.last_le, h.owed⟩
  | restart => exact hsound.start checks
  | appendInterrupted =>
    obtain ⟨d', hsettle, hd'⟩ := hsound.settleLocked checks .append
    have hlock : Node.locked (fun n => n.settleLocked checks .append) s.node =
        ({ s.node with disk := d' }, .ok ()) := locked_ok h.unpoisoned h.unpoisoned hsettle
    have hinterrupted : Sound (Raft.next checks encodedLen s.node .appendInterrupted) := by
      unfold Raft.next
      rw [hlock]
      exact ⟨hd'.fits, (hsound.settled hd').applied, hsound.appliedLt, (hsound.settled hd').deferredLt⟩
    exact hinterrupted.start checks

lemma sound_create : Sound (Node.create : Node P) where
  fits := ⟨fun _ => iff_of_false not_mem_nil (Nat.not_lt_zero _ ·.2), le_rfl, nofun,
    Nat.two_pow_pos 64⟩
  applied := le_rfl
  appliedLt := Nat.two_pow_pos 64
  deferredLt := Nat.two_pow_pos 64

def System.create (checks : Bool) : System P := start checks Node.create

lemma agrees_run {calls : List (Call P)}
    (h : Meets (System.next checks encodedLen) (fun s call => Contract s call ∧ Takes encodedLen s call)
      (.create checks) calls) :
    Agrees (run (System.next checks encodedLen) (.create checks) calls) :=
  run_history (I := fun _ => Agrees) (sound_create.start checks).2
    (fun _ _ hagrees hcall => (hagrees.next hcall.1 hcall.2).2) h

/-- **No call of the library is refused**, at a start or after it, in every run in which the library
keeps its contract and each call is one the log store takes: a truncation does not reach into a purge
that is owed and was not asked for since the start; an append waits for the store to catch up with
the purges of this run; entries are within the size bound and no index is `2 ^ 64 - 1`. -/
theorem library_not_refused (checks : Bool) (encodedLen : Entry P → ℕ) (past : List (Call P))
    (call : Call P)
    (h : Meets (System.next checks encodedLen) (fun s call => Contract s call ∧ Takes encodedLen s call)
      (.create checks) (past ++ [call])) :
    (run (System.next checks encodedLen) (.create checks) past).answer checks encodedLen call =
      .ok () := by
  obtain ⟨hpast, hcontract, htakes⟩ := meets_snoc.1 h
  exact ((agrees_run hpast).next hcontract htakes).1

/-- The store is in place and has applied up to an index. -/
def hostedAt (index : ℕ) : Call Unit := .host ⟨true, some (blank index).logId⟩

/-- The log holds the entries up to 5 and the store has applied 3; a snapshot at 10 comes in, the
library purges for it, and the process ends before the store has installed it. -/
def snapshotLost : List (Call Unit) :=
  [.host ⟨true, none⟩, .append [blank 0, blank 1, blank 2, blank 3, blank 4, blank 5], .commit 4,
    hostedAt 3, .commit 11, .purge (blank 10).logId, .restart]

/-- The snapshot is installed before the process ends, and the log goes on after it. -/
def snapshotInstalled : List (Call Unit) :=
  [.host ⟨true, none⟩, .append [blank 0, blank 1, blank 2, blank 3, blank 4, blank 5], .commit 4,
    hostedAt 3, .commit 11, .purge (blank 10).logId, hostedAt 10, .append [blank 11, blank 12],
    .restart]

theorem library_not_refused_installed :
    (run (System.next false fun _ => 0) (.create false) snapshotInstalled).answer false (fun _ => 0)
      (.truncate (blank 12).logId) = .ok () :=
  library_not_refused false (fun _ => 0) snapshotInstalled (.truncate (blank 12).logId)
    (by decide +kernel)

/-- **A truncation the library is entitled to is refused** when an install is lost after its purge. -/
theorem library_refused : Meets (System.next false fun _ => 0) Contract (.create false)
      (snapshotLost ++ [.truncate (blank 4).logId]) ∧
    (run (System.next false fun _ => 0) (.create false) snapshotLost).answer false (fun _ => 0)
      (.truncate (blank 4).logId) = refuse ⟨.logs, .delete,
        "raft log truncate from index 4 reaches into a purge deferred to 10"⟩ := by
  decide +kernel

end

end ProtomoltSearch.Raft
