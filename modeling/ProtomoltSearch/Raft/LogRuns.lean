import ProtomoltSearch.Raft.LogStore

/-!
# Runs of the Raft log store

In every run the entries follow the purge point without a gap, the purge point only moves forward,
and a purge removes nothing above the position the bound store has applied and nothing the library
has not given up (`log_run_safe`).

Where the build does not check overflow, the index after `2 ^ 64 - 1` is `0`,
and an append that crosses it leaves a hole (`not_log_run_safe`).
-/

namespace ProtomoltSearch.Raft

open Runs List Option OrderedMap U64

variable {P : Type}

/-! ## The shape of the log -/

namespace Disk

/-- The least index the log may hold: one past the purge point. -/
def start (d : Disk P) : ℕ := d.purgedIndex.elim 0 fun purged => purged.val + 1

/-- The indices of a log that holds those from `start` and below `stop`. -/
def Spans (start : ℕ) (log : OrderedMap U64 (Entry P)) (stop : ℕ) : Prop :=
  ∀ index : U64, index ∈ log.keys ↔ start ≤ index.val ∧ index.val < stop

/-- The entries are contiguous from one past the purge point. -/
def Contiguous (d : Disk P) : Prop := ∃ stop, Spans d.start d.log stop

/-- Every entry is stored under the index it records. -/
def Keyed (log : OrderedMap U64 (Entry P)) : Prop := ∀ e ∈ log.entries, e.2.logId.index = e.1

end Disk

open Disk

/-! ## What a purge does -/

/-- What a purge or a settle does to the file: it leaves the log as it is, with what is owed, or
purges to a target that is not behind the purge point. -/
inductive Moves (d : Disk P) (may owes : LogId → Prop) : Disk P → Prop
  | stay {d' : Disk P} (hlog : d'.log = d.log) (hpurged : d'.lastPurged = d.lastPurged)
      (howes : ∀ id ∈ d'.deferredPurge, owes id) : Moves d may owes d'
  | purge {target : LogId} {deferred : Option LogId}
      (hforward : ∀ purged ∈ d.purgedIndex, purged ≤ target.index) (hmay : may target)
      (howes : ∀ id ∈ deferred, owes id) : Moves d may owes (d.purgeLocked target deferred)

section

variable {d d' : Disk P} {may owes : LogId → Prop}

lemma Moves.mono {may' owes' : LogId → Prop} (h : Moves d may owes d')
    (hmay : ∀ id, may id → may' id) (howes : ∀ id, owes id → owes' id) : Moves d may' owes' d' := by
  cases h with
  | stay hlog hpurged hd' => exact .stay hlog hpurged fun id hid => howes id (hd' id hid)
  | purge hfwd hm hd' => exact .purge hfwd (hmay _ hm) fun id hid => howes id (hd' id hid)

lemma start_le_of_forward {target : LogId}
    (hfwd : ∀ purged ∈ d.purgedIndex, purged ≤ target.index) : d.start ≤ target.index.val + 1 := by
  unfold start
  cases hpurged : d.purgedIndex with
  | none => exact Nat.zero_le _
  | some purged => exact Nat.succ_le_succ (hfwd purged hpurged)

section

variable (h : Moves d may owes d')

include h

lemma Moves.contiguous (hd : d.Contiguous) : d'.Contiguous := by
  obtain ⟨stop, hstop⟩ := hd
  cases h with
  | stay hlog hpurged _ =>
    refine ⟨stop, fun index => ?_⟩
    rw [hlog, start, purgedIndex, hpurged]
    exact hstop index
  | @purge target deferred hfwd _ _ =>
    have hstart := start_le_of_forward hfwd
    refine ⟨stop, fun index => ?_⟩
    have hfilt : index ∈ (d.purgeLocked target deferred).log.keys ↔
        index ∈ d.log.keys ∧ decide (target.index < index) = true := mem_keys_filter
    rw [hfilt, hstop, decide_eq_true_eq, lt_iff]
    show _ ↔ target.index.val + 1 ≤ index.val ∧ index.val < stop
    omega

lemma Moves.mem_entries {e : U64 × Entry P} (he : e ∈ d'.log.entries) : e ∈ d.log.entries := by
  cases h with
  | stay hlog _ _ => exact hlog ▸ he
  | purge _ _ _ => exact (OrderedMap.mem_filter.1 he).1

lemma Moves.forward : ∀ purged ∈ d.purgedIndex, ∃ purged' ∈ d'.purgedIndex, purged ≤ purged' := by
  intro purged hp
  cases h with
  | stay _ hpurged _ =>
    refine ⟨purged, ?_, le_rfl⟩
    rw [purgedIndex, hpurged]
    exact hp
  | @purge target _ hfwd _ _ => exact ⟨target.index, rfl, hfwd purged hp⟩

/-- What is removed is behind a target the purge may go to. -/
lemma Moves.removed {e : U64 × Entry P} (he : e ∈ d.log.entries)
    (he' : e ∉ d'.log.entries) : ∃ target, may target ∧ e.1 ≤ target.index := by
  cases h with
  | stay hlog _ _ => exact absurd (hlog ▸ he) he'
  | @purge target _ _ hmay _ =>
    refine ⟨target, hmay, not_lt.1 fun hlt => he' ?_⟩
    exact OrderedMap.mem_filter.2 ⟨he, decide_eq_true hlt⟩

lemma Moves.owed : ∀ id ∈ d'.deferredPurge, owes id := by
  cases h with
  | stay _ _ howes => exact howes
  | purge _ _ howes => exact howes

lemma Moves.purgedIndex_eq {purged : U64} (hp : purged ∈ d'.purgedIndex) :
    purged ∈ d.purgedIndex ∨ ∃ target, may target ∧ purged = target.index := by
  cases h with
  | stay _ hpurged _ =>
    rw [purgedIndex, hpurged] at hp
    exact .inl hp
  | @purge target _ _ hmay _ => exact .inr ⟨target, hmay, (Option.some.inj hp).symm⟩

lemma Moves.of_purgedIndex_eq_none (hp : d'.purgedIndex = none) :
    d.purgedIndex = none ∧ d'.log = d.log := by
  cases h with
  | stay hlog hpurged _ =>
    rw [purgedIndex, hpurged] at hp
    exact ⟨hp, hlog⟩
  | purge _ _ _ => cases hp

end

end

/-! ## What an append does -/

section

variable {checks : Bool} {encodedLen : Entry P → ℕ} {d d' : Disk P}

/-- An index whose successor the build computes or refuses to. -/
def Countable (checks : Bool) (index : U64) : Prop := checks = true ∨ index ≠ max

instance (index : U64) : Decidable (Countable checks index) :=
  inferInstanceAs (Decidable (_ ∨ _))

lemma add_one_val {index r : U64} (h : Countable checks index)
    (hr : (add checks index (wrap 1) : Except (Failure StorageError) U64) = .ok r) :
    r.val = index.val + 1 := by
  have hlt : index.val + 1 < 2 ^ 64 := by
    rcases h with rfl | h
    · exact (exactly_checked_ok.1 hr).1
    · have hupper := index.upper
      have hne : index.val ≠ 2 ^ 64 - 1 := fun heq => h (val_injective heq)
      omega
  rw [exactly_ok hr]
  exact wrap_val hlt

/-- The state of an append: the entries follow each other up to the index expected next. -/
structure Appending (log₀ : OrderedMap U64 (Entry P)) (start : ℕ) (ok : U64 → Prop)
    (st : OrderedMap U64 (Entry P) × Option U64) : Prop where
  spans : ∃ stop, start ≤ stop ∧ Spans start st.1 stop ∧ (∀ next ∈ st.2, next.val = stop) ∧
    (st.2 = none → stop = start)
  keyed : Keyed st.1
  kept : ∀ e ∈ log₀.entries, e ∈ st.1.entries
  bounded : ∀ index ∈ st.1.keys, ok index

variable {st st' : OrderedMap U64 (Entry P) × Option U64} {log₀ : OrderedMap U64 (Entry P)}

section

variable {start : ℕ} (h : Appending log₀ start (Countable checks) st)

include h

lemma Appending.appendEntry {entry : Entry P} (hent : Countable checks entry.logId.index)
    (hfst : st.2 = none → entry.logId.index.val = start)
    (hst' : Raft.appendEntry checks encodedLen st entry = .ok st') :
    Appending log₀ start (Countable checks) st' ∧ st'.2 ≠ none := by
  obtain ⟨stop, _, hspans, hnext, hnone⟩ := h.spans
  obtain ⟨_, hhole, -, -, next, hadd, hst'⟩ := bind₃_ok.1 hst'
  cases hst'
  have hidx : entry.logId.index.val = stop := by
    cases hexp : st.2 with
    | none => rw [hfst hexp, hnone hexp]
    | some expected =>
      rw [refuseIf_ok, hexp, any_some, decide_eq_false_iff_not, not_not] at hhole
      exact hhole ▸ hnext expected hexp
  have hnew : entry.logId.index ∉ st.1.keys := fun hmem => by
    have := (hspans _).1 hmem
    omega
  refine ⟨⟨⟨stop + 1, by omega, fun index => ?_, fun x hx => ?_, nofun⟩, fun e he => ?_,
    fun e he => ?_, fun index hmem => ?_⟩, nofun⟩
  · rw [mem_keys_insert, hspans, ← val_injective.eq_iff]
    omega
  · cases hx
    rw [add_one_val hent hadd, hidx]
  · rcases mem_insert.1 he with rfl | ⟨he, -⟩
    · rfl
    · exact h.keyed e he
  · refine mem_insert.2 (.inr ⟨h.kept e he, fun heq => hnew ?_⟩)
    exact heq ▸ mem_keys.2 ⟨e.2, h.kept e he⟩
  · rcases mem_keys_insert.1 hmem with rfl | hmem
    · exact hent
    · exact h.bounded index hmem

lemma Appending.foldlM {entries : List (Entry P)}
    (hents : ∀ entry ∈ entries, Countable checks entry.logId.index)
    (hfst : st.2 = none → ∀ entry ∈ entries.head?, entry.logId.index.val = start)
    (hst' : entries.foldlM (Raft.appendEntry checks encodedLen) st = .ok st') :
    Appending log₀ start (Countable checks) st' := by
  induction entries generalizing st with
  | nil =>
    obtain rfl := Except.ok.inj hst'
    exact h
  | cons entry entries ih =>
    obtain ⟨mid, hmid, hrest⟩ := foldlM_cons_ok.1 hst'
    obtain ⟨happ, hsome⟩ := h.appendEntry (hents entry mem_cons_self)
      (fun hnone => hfst hnone entry rfl) hmid
    exact ih happ (fun e he => hents e (mem_cons_of_mem _ he))
      (fun hnone => absurd hnone hsome) hrest

end

section

variable (hd : d.Contiguous) (hkeyed : Keyed d.log)
  (hcount : ∀ index ∈ d.log.keys, Countable checks index)
  (hpurged : ∀ purged ∈ d.purgedIndex, Countable checks purged)

include hd hkeyed hcount hpurged

/-- An append starts with the index after the last entry, or after the purge point. -/
lemma appending_expectedIndex {expected : Option U64}
    (hexp : d.expectedIndex checks = .ok expected) :
    Appending d.log d.start (Countable checks) (d.log, expected) ∧
      (expected = none → d.log.keys = [] ∧ d.purgedIndex = none) := by
  obtain ⟨stop, hstop⟩ := hd
  suffices hspans : (∃ stop, d.start ≤ stop ∧ Spans d.start d.log stop ∧
      (∀ next ∈ expected, next.val = stop) ∧ (expected = none → stop = d.start)) ∧
      (expected = none → d.log.keys = [] ∧ d.purgedIndex = none) from
    ⟨⟨hspans.1, hkeyed, fun e he => he, hcount⟩, hspans.2⟩
  unfold expectedIndex lastLogId at hexp
  cases hlast : d.log.last? with
  | some e =>
    obtain ⟨hmem, hmax⟩ := last?_eq_some hlast
    have hkey := mem_keys.2 ⟨e.2, hmem⟩
    have hbounds := (hstop e.1).1 hkey
    simp only [hlast, map_some] at hexp
    obtain ⟨next, hnext, hexp⟩ := bind_ok.1 hexp
    cases hexp
    rw [hkeyed e hmem] at hnext
    refine ⟨⟨e.1.val + 1, by omega, fun index => ?_, fun x hx => ?_, nofun⟩, nofun⟩
    · constructor
      · intro hidx
        exact ⟨((hstop index).1 hidx).1, Nat.lt_succ_of_le (hmax index hidx)⟩
      · intro hidx
        exact (hstop index).2 (by omega)
    · cases hx
      exact add_one_val (hcount _ hkey) hnext
  | none =>
    have hkeys : d.log.keys = [] := last?_eq_none.1 hlast
    have hempty : Spans d.start d.log d.start := fun index => by
      rw [hkeys]
      exact iff_of_false not_mem_nil (by omega)
    simp only [hlast, map_none] at hexp
    cases hp : d.purgedIndex with
    | none =>
      rw [hp] at hexp
      cases hexp
      exact ⟨⟨d.start, le_rfl, hempty, nofun, fun _ => rfl⟩, fun _ => ⟨hkeys, rfl⟩⟩
    | some purged =>
      rw [hp] at hexp
      obtain ⟨next, hnext, hexp⟩ := bind_ok.1 hexp
      cases hexp
      refine ⟨⟨d.start, le_rfl, hempty, fun x hx => ?_, nofun⟩, nofun⟩
      cases hx
      rw [add_one_val (hpurged purged hp) hnext, start, hp]
      rfl

/-- An append adds entries and keeps the log contiguous, if a first one starts at `0`. -/
lemma appendLocked_spec {entries : List (Entry P)}
    (hents : ∀ entry ∈ entries, Countable checks entry.logId.index)
    (hfst : d.log.keys = [] → d.purgedIndex = none →
      ∀ entry ∈ entries.head?, entry.logId.index.val = 0)
    (hd' : d.appendLocked checks encodedLen entries = .ok d') :
    ∃ log, d' = { d with log := log } ∧ d'.Contiguous ∧ Keyed log ∧
      (∀ index ∈ log.keys, Countable checks index) ∧ ∀ e ∈ d.log.entries, e ∈ log.entries := by
  obtain ⟨expected, hexp, ⟨log, next⟩, hlog, hd'⟩ := bind₂_ok.1 hd'
  cases hd'
  obtain ⟨hstart, hnone⟩ := appending_expectedIndex hd hkeyed hcount hpurged hexp
  have hbegin : expected = none → ∀ entry ∈ entries.head?, entry.logId.index.val = d.start := by
    intro h entry hent
    obtain ⟨hkeys, hp⟩ := hnone h
    rw [hfst hkeys hp entry hent, start, hp]
    rfl
  have happ := hstart.foldlM hents hbegin hlog
  obtain ⟨stop, -, hspans, -⟩ := happ.spans
  exact ⟨log, rfl, ⟨stop, hspans⟩, happ.keyed, happ.bounded, happ.kept⟩

end

end

/-! ## Settles and purges -/

section

variable {checks : Bool} {n : Node P} {mode : Settle} {logId : LogId}

/-- A position a settle may purge to. -/
structure MaySettle (n : Node P) (mode : Settle) (target : LogId) : Prop where
  applied : ∃ applied ∈ n.hosted.lastApplied, target.index ≤ applied.index
  known : target ∈ n.hosted.lastApplied ∨ target ∈ n.disk.deferredPurge
  given : n.disk.log.keys = [] ∨ ∃ deferred ∈ n.disk.deferredPurge, target.index ≤ deferred.index
  asked : mode = .append → ∃ requested ∈ n.requestedPurge, target.index ≤ requested

lemma Node.appliedFloor_eq_applied {applied : LogId} : n.appliedFloor = .applied applied ↔
      n.bound = true ∧ n.hosted.present = true ∧ n.hosted.lastApplied = some applied := by
  unfold appliedFloor
  cases n.bound <;> cases n.hosted.present <;> cases n.hosted.lastApplied <;> simp

open Node

lemma settleTarget_spec {applied target : LogId} {keep : Option LogId}
    (h : n.settleTarget applied mode = (some target, keep)) :
    target.index ≤ applied.index ∧ (target = applied ∨ target ∈ n.disk.deferredPurge) ∧
      (n.disk.log.keys = [] ∨ ∃ deferred ∈ n.disk.deferredPurge, target.index ≤ deferred.index) ∧
        ∀ id ∈ keep, id ∈ n.disk.deferredPurge := by
  unfold settleTarget at h
  cases hdefer : n.disk.deferredPurge with
  | none =>
    simp only [hdefer] at h
    split at h
    · rename_i hnone
      obtain ⟨rfl, rfl⟩ : applied = target ∧ none = keep := by simpa using h
      have hkeys : n.disk.log.keys = [] := by
        refine first?_eq_none.1 ?_
        simpa [firstLogIndex] using hnone
      exact ⟨le_rfl, .inl rfl, .inl hkeys, nofun⟩
    · cases h
  | some deferred =>
    simp only [hdefer] at h
    split at h
    · rename_i hle
      obtain ⟨rfl, rfl⟩ : deferred = target ∧ none = keep := by simpa using h
      exact ⟨hle, .inr rfl, .inr ⟨deferred, rfl, le_rfl⟩, nofun⟩
    · rename_i hlt
      cases mode with
      | append => cases h
      | start =>
        obtain ⟨rfl, rfl⟩ : applied = target ∧ some deferred = keep := by simpa using h
        exact ⟨le_rfl, .inl rfl, .inr ⟨deferred, rfl, (not_le.1 hlt).le⟩, fun _ h => h⟩

lemma settleDisk_moves {applied : LogId} (happl : n.hosted.lastApplied = some applied) :
    Moves n.disk (MaySettle n mode) (· ∈ n.disk.deferredPurge) (n.settleDisk applied mode) := by
  unfold settleDisk
  split
  · exact .stay rfl rfl fun _ h => h
  · rename_i target keep htarget
    obtain ⟨hle, hknown, hgiven, hkeep⟩ := settleTarget_spec htarget
    split
    · split
      · exact .stay rfl rfl nofun
      · exact .stay rfl rfl fun _ h => h
    · rename_i hfwd
      split
      · rename_i hasked
        refine .purge (fun purged hp => ?_) ⟨⟨applied, happl, hle⟩, ?_, hgiven, ?_⟩ hkeep
        · refine le_of_not_ge fun hge => hfwd ?_
          exact (any_eq_true _ _).2 ⟨purged, hp, decide_eq_true hge⟩
        · rcases hknown with rfl | hknown
          · exact .inl happl
          · exact .inr hknown
        · rintro rfl
          obtain ⟨requested, hr, hle⟩ := (any_eq_true _ _).1 hasked
          exact ⟨requested, hr, of_decide_eq_true hle⟩
      · exact .stay rfl rfl fun _ h => h

/-- A settle changes the file only, and only of a bound store. -/
lemma settleLocked_fst (checks : Bool) (n : Node P) (mode : Settle) :
    ∃ disk, (n.settleLocked checks mode).1 = { n with disk := disk } ∧
    Moves n.disk (fun target => n.bound = true ∧ MaySettle n mode target)
      (· ∈ n.disk.deferredPurge) disk := by
  unfold settleLocked
  split
  · rename_i applied hfloor
    obtain ⟨hbound, -, happl⟩ := appliedFloor_eq_applied.1 hfloor
    exact ⟨_, rfl, (settleDisk_moves happl).mono (fun _ h => ⟨hbound, h⟩) fun _ h => h⟩
  · exact ⟨n.disk, rfl, .stay rfl rfl fun _ h => h⟩

lemma purgeUpto_spec {upto : LogId} (h : n.purgeUpto logId = some upto) :
    upto.index ≤ logId.index ∧ (upto = logId ∨ upto ∈ n.hosted.lastApplied) ∧
      (n.bound = true → ∃ applied ∈ n.hosted.lastApplied, upto.index ≤ applied.index) := by
  unfold purgeUpto at h
  split at h
  · rename_i hfloor
    cases h
    refine ⟨le_rfl, .inl rfl, fun hbound => ?_⟩
    unfold appliedFloor at hfloor
    rw [if_pos hbound] at hfloor
    split at hfloor
    · split at hfloor <;> cases hfloor
    · cases hfloor
  · rename_i applied hfloor
    obtain ⟨-, -, happl⟩ := appliedFloor_eq_applied.1 hfloor
    split at h
    · rename_i hle
      cases h
      exact ⟨le_rfl, .inl rfl, fun _ => ⟨applied, happl, hle⟩⟩
    · rename_i hlt
      obtain rfl := Option.some.inj h
      exact ⟨(not_le.1 hlt).le, .inr happl, fun _ => ⟨applied, happl, le_rfl⟩⟩
  · cases h

/-- What a purge leaves owed was owed before, or is the purge itself. -/
lemma mem_deferredAfter {recorded upto : Option LogId} {id : LogId}
    (h : id ∈ Node.deferredAfter recorded upto logId) : id ∈ recorded ∨ id = logId := by
  have howed : id ∈ some ((recorded.filter fun d => decide (logId.index < d.index)).getD logId) →
      id ∈ recorded ∨ id = logId := by
    intro h
    cases h
    cases hfilt : recorded.filter fun d => decide (logId.index < d.index) with
    | none => exact .inr rfl
    | some d => exact .inl (filter_eq_some_iff.1 hfilt).1
  unfold deferredAfter at h
  split at h
  · split at h
    · exact .inl (filter_eq_some_iff.1 h).1
    · exact howed h
  · exact howed h

/-- A purge is refused, or goes forward within the floor and below what the library asks. -/
lemma purge_fst (n : Node P) (logId : LogId) : (n.purge logId).1 = n ∨ ∃ disk requested,
    (n.purge logId).1 = { n with disk := disk, requestedPurge := some requested } ∧
      (requested = logId.index ∨ requested ∈ n.requestedPurge) ∧
      Moves n.disk (fun target => n.purgeUpto logId = some target)
        (fun id => id ∈ n.disk.deferredPurge ∨ id = logId) disk := by
  unfold purge
  dsimp only
  split
  · exact .inl rfl
  rename_i hback
  refine .inr ⟨_, _, rfl, ?_, ?_⟩
  · cases hreq : n.requestedPurge with
    | none => exact .inl rfl
    | some requested =>
      rcases max_choice requested logId.index with hmax | hmax
      · exact .inr (congrArg some hmax.symm)
      · exact .inl hmax
  · cases hupto : n.purgeUpto logId with
    | none =>
      refine .stay rfl rfl fun id h => ?_
      have h : id ∈ deferredAfter n.disk.deferredPurge none logId := h
      exact mem_deferredAfter h
    | some upto =>
      refine .purge (fun purged hp => ?_) rfl fun id h => mem_deferredAfter h
      rw [hupto, mem_def.1 hp] at hback
      by_contra hlt
      simp [goesBack, not_le.1 hlt] at hback

end

/-! ## Steps -/

/-- The indices asked for in the process that is running after an operation. -/
def Op.asks (asked : List U64) : Op P → List U64
  | .purge logId => logId.index :: asked
  | .restart | .appendInterrupted => []
  | _ => asked

/-- The indices the library asked to purge to since the process started. -/
def askedInRun (past : List (Op P)) : List U64 := past.foldl Op.asks []

/-- The indices the library ever asked to purge to. -/
def askedEver (past : List (Op P)) : List U64 :=
  past.filterMap fun op =>
    match op with
    | .purge logId => some logId.index
    | _ => none

/-- What the library has given up when an operation runs; at a start, what it asked in earlier runs. -/
def givenUp (past : List (Op P)) : Op P → List U64
  | .bindAppliedFloor => askedEver past
  | .purge logId => logId.index :: askedInRun past
  | _ => askedInRun past

namespace Op

/-- The positions an operation brings in. -/
def logIds : Op P → List LogId
  | .append entries => entries.map Entry.logId
  | .purge logId => [logId]
  | .host hosted => hosted.lastApplied.toList
  | _ => []

def isTruncate : Op P → Bool
  | .truncate _ => true
  | _ => false

end Op

/-- An append starts right after the last stored or purged entry, or at `0` on an empty log. -/
def StartsNext (d : Disk P) (first : U64) : Prop :=
  (∃ last ∈ d.lastLogId, first.val = last.index.val + 1) ∨
    (∃ purged ∈ d.purgedIndex, first.val = purged.val + 1) ∨ d.log.keys = [] ∧ first.val = 0

/-- The operations of a run: an append starts right after the log, and the store does not move back. -/
def Allowed (n : Node P) : Op P → Prop
  | .append entries => ∀ entry ∈ entries.head?, StartsNext n.disk entry.logId.index
  | .host hosted => ∀ applied ∈ n.hosted.lastApplied, ∃ applied' ∈ hosted.lastApplied,
      applied.index ≤ applied'.index
  | _ => True

instance (d : Disk P) (first : U64) : Decidable (StartsNext d first) :=
  inferInstanceAs (Decidable (_ ∨ _ ∨ _))

instance (n : Node P) : ∀ op, Decidable (Allowed n op)
  | .append entries => inferInstanceAs (Decidable (∀ entry ∈ entries.head?, _))
  | .host hosted => inferInstanceAs (Decidable (∀ applied ∈ n.hosted.lastApplied,
      ∃ applied' ∈ hosted.lastApplied, _))
  | .appendInterrupted | .truncate _ | .purge _ | .saveVote _ | .saveCommitted _
  | .bindAppliedFloor | .restart => isTrue trivial

/-- The runs in which no successor of an index wraps around. -/
def Counts (checks : Bool) (n : Node P) (op : Op P) : Prop :=
  Allowed n op ∧ ∀ id ∈ op.logIds, Countable checks id.index

instance (checks : Bool) (n : Node P) (op : Op P) : Decidable (Counts checks n op) :=
  inferInstanceAs (Decidable (_ ∧ _))

/-- The store is bound when the operation purges. -/
def BoundAt (n : Node P) (op : Op P) : Prop := n.bound = true ∨ op = .bindAppliedFloor

def Removes (d d' : Disk P) (e : U64 × Entry P) : Prop := e ∈ d.log.entries ∧ e ∉ d'.log.entries

/-- What the log store promises of an operation. -/
structure Safe (past : List (Op P)) (n : Node P) (op : Op P) (n' : Node P) : Prop where
  contiguous : n'.disk.Contiguous
  forward : ∀ purged ∈ n.disk.purgedIndex, ∃ purged' ∈ n'.disk.purgedIndex, purged ≤ purged'
  applied : ∀ e, Removes n.disk n'.disk e → op.isTruncate = false → BoundAt n op →
    ∃ applied ∈ n.hosted.lastApplied, e.1 ≤ applied.index
  asked : ∀ e, Removes n.disk n'.disk e → op.isTruncate = false →
    ∃ asked ∈ givenUp past op, e.1 ≤ asked

/-- What holds of a log store after a run. -/
structure Inv (checks : Bool) (past : List (Op P)) (n : Node P) : Prop where
  contiguous : n.disk.Contiguous
  keyed : Keyed n.disk.log
  deferred : ∀ id ∈ n.disk.deferredPurge, id.index ∈ askedEver past
  requested : ∀ requested ∈ n.requestedPurge, requested ∈ askedInRun past
  countLog : ∀ index ∈ n.disk.log.keys, Countable checks index
  countPurged : ∀ purged ∈ n.disk.purgedIndex, Countable checks purged
  countDeferred : ∀ id ∈ n.disk.deferredPurge, Countable checks id.index
  countApplied : ∀ id ∈ n.hosted.lastApplied, Countable checks id.index

section Steps

variable {checks : Bool} {encodedLen : Entry P → ℕ} {past : List (Op P)} {n n' : Node P} {op : Op P}

/-- A position an operation may purge to. -/
structure MayPurge (past : List (Op P)) (n : Node P) (op : Op P) (target : LogId) : Prop where
  applied : BoundAt n op → ∃ applied ∈ n.hosted.lastApplied, target.index ≤ applied.index
  known : target ∈ op.logIds ∨ target ∈ n.hosted.lastApplied ∨ target ∈ n.disk.deferredPurge
  given : n.disk.log.keys = [] ∨ ∃ asked ∈ givenUp past op, target.index ≤ asked

/-- An operation that purges, if it does, and then appends, if it is an append. -/
structure Steps (checks : Bool) (encodedLen : Entry P → ℕ) (past : List (Op P)) (n : Node P)
    (op : Op P) (mid : Disk P) (n' : Node P) : Prop where
  moves : Moves n.disk (MayPurge past n op)
    (fun id => id ∈ n.disk.deferredPurge ∨ op = .purge id) mid
  appends : n'.disk = mid ∨
    ∃ entries, op = .append entries ∧ mid.appendLocked checks encodedLen entries = .ok n'.disk
  requested : ∀ requested ∈ n'.requestedPurge, requested ∈ askedInRun (past ++ [op])
  hosted : n'.hosted = n.hosted ∨ op = .host n'.hosted

/-- An operation that leaves the log as it is. -/
lemma Steps.of_log_eq (hlog : n'.disk.log = n.disk.log)
    (hpurged : n'.disk.lastPurged = n.disk.lastPurged)
    (hdefer : n'.disk.deferredPurge = n.disk.deferredPurge)
    (hreq : ∀ requested ∈ n'.requestedPurge, requested ∈ askedInRun (past ++ [op]))
    (hhosted : n'.hosted = n.hosted ∨ op = .host n'.hosted) :
    Steps checks encodedLen past n op n'.disk n' :=
  ⟨.stay hlog hpurged fun _ h => .inl (hdefer ▸ h), .inl rfl, hreq, hhosted⟩

lemma askedInRun_snoc (past : List (Op P)) (op : Op P) :
    askedInRun (past ++ [op]) = op.asks (askedInRun past) := foldl_append

lemma Inv.requested_snoc (hinv : Inv checks past n)
    (hop : op.asks (askedInRun past) = askedInRun past) :
    ∀ requested ∈ n.requestedPurge, requested ∈ askedInRun (past ++ [op]) := by
  rw [askedInRun_snoc, hop]
  exact hinv.requested

/-- A call under the lock panics at it, or runs. -/
lemma locked_fst (call : Node P → Node P × Answer) (n : Node P) : (Node.locked call n).1 = n ∨
      ∃ poisoned, (Node.locked call n).1 = { (call n).1 with poisoned := poisoned } := by
  unfold Node.locked
  split
  · exact .inl rfl
  · exact .inr ⟨_, rfl⟩

/-- What a settle at an append may purge to. -/
lemma MaySettle.mayPurge_append {target : LogId} (h : MaySettle n .append target)
    (hinv : Inv checks past n) (hgiven : givenUp past op = askedInRun past) :
    MayPurge past n op target := by
  obtain ⟨requested, hr, hle⟩ := h.asked rfl
  exact ⟨fun _ => h.applied, .inr h.known,
    .inr ⟨requested, hgiven ▸ hinv.requested requested hr, hle⟩⟩

section

variable (hinv : Inv checks past n)

include hinv

lemma steps_append (entries : List (Entry P)) :
    ∃ mid, Steps checks encodedLen past n (.append entries) mid
      (n.appendSync checks encodedLen entries).1 := by
  have hreq : ∀ requested ∈ n.requestedPurge,
      requested ∈ askedInRun (past ++ [.append entries]) := hinv.requested_snoc rfl
  rcases locked_fst (Node.settleAndAppend checks encodedLen entries) n with h | ⟨poisoned, h⟩
  · refine ⟨_, Steps.of_log_eq ?_ ?_ ?_ ?_ (.inl ?_)⟩ <;> rw [Node.appendSync, h]
    exact hreq
  obtain ⟨mid, hsett, hmoves⟩ := settleLocked_fst checks n .append
  have hmoves' : Moves n.disk (MayPurge past n (.append entries))
      (fun id => id ∈ n.disk.deferredPurge ∨ Op.append entries = .purge id) mid :=
    hmoves.mono (fun _ h => h.2.mayPurge_append hinv rfl) fun _ h => .inl h
  refine ⟨mid, ?_⟩
  rw [Node.appendSync, h, Node.settleAndAppend]
  revert hsett
  cases n.settleLocked checks .append with | mk settled answer =>
  rintro rfl
  cases answer with
  | error e => exact ⟨hmoves', .inl rfl, hreq, .inl rfl⟩
  | ok _ =>
    dsimp only
    cases hdisk : mid.appendLocked checks encodedLen entries with
    | error e => exact ⟨hmoves', .inl rfl, hreq, .inl rfl⟩
    | ok disk => exact ⟨hmoves', .inr ⟨entries, rfl, hdisk⟩, hreq, .inl rfl⟩

lemma steps_appendInterrupted : ∃ mid, Steps checks encodedLen past n .appendInterrupted mid
      (next checks encodedLen n .appendInterrupted) := by
  rcases locked_fst (fun n => n.settleLocked checks .append) n with h | ⟨poisoned, h⟩
  · refine ⟨_, Steps.of_log_eq ?_ ?_ ?_ nofun (.inl ?_)⟩ <;> rw [next, h] <;> rfl
  · obtain ⟨mid, hsett, hmoves⟩ := settleLocked_fst checks n .append
    refine ⟨mid, ⟨hmoves.mono (fun _ h => h.2.mayPurge_append hinv rfl) fun _ h => .inl h, ?_,
      nofun, ?_⟩⟩ <;> rw [next, h, hsett]
    exacts [.inl rfl, .inl rfl]

lemma steps_purge (logId : LogId) : ∃ mid, Steps checks encodedLen past n (.purge logId) mid
      (next checks encodedLen n (.purge logId)) := by
  have hreq : ∀ r, r = logId.index ∨ r ∈ n.requestedPurge →
      r ∈ askedInRun (past ++ [.purge logId]) := by
    rw [askedInRun_snoc]
    rintro r (rfl | hr)
    · exact mem_cons_self
    · exact mem_cons_of_mem _ (hinv.requested r hr)
  have hsame : ∀ n' : Node P, n'.disk = n.disk → n'.requestedPurge = n.requestedPurge →
      n'.hosted = n.hosted → ∃ mid, Steps checks encodedLen past n (.purge logId) mid n' := by
    intro n' hdisk hr hhosted
    exact ⟨_, .of_log_eq (hdisk ▸ rfl) (hdisk ▸ rfl) (hdisk ▸ rfl)
      (fun r h => hreq r (.inr (hr ▸ h))) (.inl hhosted)⟩
  rcases locked_fst (fun n => n.purge logId) n with h | ⟨poisoned, h⟩
  · rw [next, h]
    exact hsame n rfl rfl rfl
  rcases purge_fst n logId with hp | ⟨disk, requested, hp, hr, hmoves⟩
  · rw [next, h, hp]
    exact hsame _ rfl rfl rfl
  · rw [next, h, hp]
    have howes : ∀ id, id ∈ n.disk.deferredPurge ∨ id = logId →
        id ∈ n.disk.deferredPurge ∨ Op.purge logId = (.purge id : Op P) :=
      fun id hid => hid.imp_right fun heq => congrArg Op.purge heq.symm
    refine ⟨disk, hmoves.mono (fun target ht => ?_) howes, .inl rfl, fun r hr' => ?_, .inl rfl⟩
    · obtain ⟨hle, hknown, hbound⟩ := purgeUpto_spec ht
      refine ⟨?_, hknown.imp mem_singleton.2 .inl, .inr ⟨logId.index, mem_cons_self, hle⟩⟩
      rintro (hb | hb)
      · exact hbound hb
      · cases hb
    · cases hr'
      exact hreq _ hr

lemma steps_bind :
    ∃ mid, Steps checks encodedLen past n .bindAppliedFloor mid (n.bindAppliedFloor checks).1 := by
  rcases locked_fst (fun n => n.settleLocked checks .start) { n with bound := true } with
    h | ⟨poisoned, h⟩
  · refine ⟨_, Steps.of_log_eq ?_ ?_ ?_ ?_ (.inl ?_)⟩ <;> rw [Node.bindAppliedFloor, h]
    exact hinv.requested_snoc rfl
  · obtain ⟨mid, hsett, hmoves⟩ :=
      settleLocked_fst checks { n with bound := true } .start
    refine ⟨mid, ⟨hmoves.mono (fun target ht => ?_) fun _ h => .inl h, ?_, ?_, ?_⟩⟩
    · refine ⟨fun _ => ht.2.applied, .inr ht.2.known, ht.2.given.imp_right ?_⟩
      rintro ⟨deferred, hd, hle⟩
      exact ⟨deferred.index, hinv.deferred deferred hd, hle⟩
    all_goals rw [Node.bindAppliedFloor, h, hsett]
    exacts [.inl rfl, hinv.requested_snoc rfl, .inl rfl]

end

/-- Every operation but a truncation is of this form. -/
lemma next_steps (encodedLen : Entry P → ℕ) (hinv : Inv checks past n) (hop : op.isTruncate = false) :
    ∃ mid, Steps checks encodedLen past n op mid (next checks encodedLen n op) := by
  cases op with
  | append entries => exact steps_append hinv entries
  | appendInterrupted => exact steps_appendInterrupted hinv
  | truncate logId => cases hop
  | purge logId => exact steps_purge hinv logId
  | bindAppliedFloor => exact steps_bind hinv
  | saveVote vote =>
    rcases locked_fst (fun n => ({ n with disk := { n.disk with vote := some vote } }, .ok ())) n with
      h | ⟨poisoned, h⟩
    all_goals
      refine ⟨_, Steps.of_log_eq ?_ ?_ ?_ ?_ (.inl ?_)⟩ <;> rw [next, Node.saveVote, h]
      exact hinv.requested_snoc rfl
  | saveCommitted committed =>
    rcases locked_fst
      (fun n => ({ n with disk := { n.disk with committed := committed } }, .ok ())) n with
      h | ⟨poisoned, h⟩
    all_goals
      refine ⟨_, Steps.of_log_eq ?_ ?_ ?_ ?_ (.inl ?_)⟩ <;> rw [next, Node.saveCommitted, h]
      exact hinv.requested_snoc rfl
  | restart => exact ⟨_, Steps.of_log_eq rfl rfl rfl nofun (.inl rfl)⟩
  | host hosted => exact ⟨_, Steps.of_log_eq rfl rfl rfl (hinv.requested_snoc rfl) (.inr rfl)⟩

lemma mem_askedEver_snoc {index : U64} (h : index ∈ askedEver past) :
    index ∈ askedEver (past ++ [op]) := by
  rw [askedEver, filterMap_append]
  exact mem_append_left _ h

/-- The file between the purge and the append of an operation. -/
lemma Steps.mid {mid : Disk P} (h : Steps checks encodedLen past n op mid n')
    (hinv : Inv checks past n) (hids : ∀ id ∈ op.logIds, Countable checks id.index) :
    mid.Contiguous ∧ Keyed mid.log ∧ (∀ index ∈ mid.log.keys, Countable checks index) ∧
      ∀ purged ∈ mid.purgedIndex, Countable checks purged := by
  refine ⟨h.moves.contiguous hinv.contiguous, fun e he => hinv.keyed e (h.moves.mem_entries he),
    fun index hidx => ?_, fun purged hp => ?_⟩
  · obtain ⟨entry, he⟩ := mem_keys.1 hidx
    exact hinv.countLog index (mem_keys.2 ⟨entry, h.moves.mem_entries he⟩)
  · rcases h.moves.purgedIndex_eq hp with hp | ⟨target, hmay, rfl⟩
    · exact hinv.countPurged purged hp
    · rcases hmay.known with hknown | hknown | hknown
      exacts [hids target hknown, hinv.countApplied target hknown,
        hinv.countDeferred target hknown]

/-- An append to a log that never held an entry starts at `0`. -/
def StartsAtZero (op : Op P) (mid : Disk P) : Prop :=
  ∀ entries, op = .append entries → mid.log.keys = [] → mid.purgedIndex = none →
    ∀ entry ∈ entries.head?, entry.logId.index.val = 0

section

variable {mid : Disk P} (h : Steps checks encodedLen past n op mid n')

include h

lemma Steps.startsAtZero (hop : Allowed n op) : StartsAtZero op mid := by
  rintro entries rfl hkeys hp entry hent
  obtain ⟨hp₀, hlog⟩ := h.moves.of_purgedIndex_eq_none hp
  rcases hop entry hent with ⟨last, hlast, -⟩ | ⟨purged, hpurged₀, -⟩ | ⟨-, hzero⟩
  · rw [lastLogId, ← hlog, last?_eq_none.2 hkeys] at hlast
    cases hlast
  · rw [hp₀] at hpurged₀
    exact nomatch hpurged₀
  · exact hzero

lemma Steps.extends
    (hinv : Inv checks past n) (hids : ∀ id ∈ op.logIds, Countable checks id.index)
    (hzero : StartsAtZero op mid) :
    ∃ log, n'.disk = { mid with log := log } ∧ n'.disk.Contiguous ∧ Keyed log ∧
      (∀ index ∈ log.keys, Countable checks index) ∧ ∀ e ∈ mid.log.entries, e ∈ log.entries := by
  obtain ⟨hcont, hkeyed, hcount, hpurged⟩ := h.mid hinv hids
  rcases h.appends with heq | ⟨entries, rfl, happend⟩
  · exact ⟨mid.log, heq, heq ▸ hcont, hkeyed, hcount, fun _ he => he⟩
  · refine appendLocked_spec hcont hkeyed hcount hpurged (fun entry he => ?_)
      (hzero entries rfl) happend
    exact hids _ (mem_map_of_mem he)

lemma Steps.safe (hinv : Inv checks past n) (hop : Counts checks n op) : Safe past n op n' := by
  obtain ⟨log, hdisk, hcont, -, -, hkept⟩ := h.extends hinv hop.2 (h.startsAtZero hop.1)
  have hlog : n'.disk.log = log := congrArg Disk.log hdisk
  have hpurged : n'.disk.purgedIndex = mid.purgedIndex := by
    rw [hdisk]
    rfl
  have hremoved : ∀ e, Removes n.disk n'.disk e → ∃ target, MayPurge past n op target ∧
      e.1 ≤ target.index := fun e he =>
    h.moves.removed he.1 fun hmid => he.2 (hlog ▸ hkept e hmid)
  refine ⟨hcont, ?_, fun e he _ hbound => ?_, fun e he _ => ?_⟩
  · rw [hpurged]
    exact h.moves.forward
  · obtain ⟨target, hmay, hle⟩ := hremoved e he
    obtain ⟨applied, happl, hle'⟩ := hmay.applied hbound
    exact ⟨applied, happl, hle.trans hle'⟩
  · obtain ⟨target, hmay, hle⟩ := hremoved e he
    rcases hmay.given with hempty | ⟨asked, hasked, hle'⟩
    · have hkey := mem_keys.2 ⟨e.2, he.1⟩
      rw [hempty] at hkey
      exact absurd hkey not_mem_nil
    · exact ⟨asked, hasked, hle.trans hle'⟩

lemma Steps.inv (hinv : Inv checks past n) (hids : ∀ id ∈ op.logIds, Countable checks id.index)
    (hzero : StartsAtZero op mid) : Inv checks (past ++ [op]) n' := by
  obtain ⟨-, -, -, hpurged⟩ := h.mid hinv hids
  obtain ⟨log, hdisk, hcont, hkeyed, hcount, -⟩ := h.extends hinv hids hzero
  have howed : ∀ id ∈ n'.disk.deferredPurge, id ∈ n.disk.deferredPurge ∨ op = .purge id := by
    rw [hdisk]
    exact h.moves.owed
  refine ⟨hcont, ?_, fun id hid => ?_, h.requested, ?_, ?_, fun id hid => ?_, fun id hid => ?_⟩
  · rw [hdisk]
    exact hkeyed
  · rcases howed id hid with hid | rfl
    · exact mem_askedEver_snoc (hinv.deferred id hid)
    · rw [askedEver, filterMap_append]
      exact mem_append_right _ mem_cons_self
  · rw [hdisk]
    exact hcount
  · rw [hdisk]
    exact hpurged
  · rcases howed id hid with hid | rfl
    · exact hinv.countDeferred id hid
    · exact hids id mem_cons_self
  · rcases h.hosted with heq | rfl
    · exact hinv.countApplied id (heq ▸ hid)
    · exact hids id (mem_toList.2 hid)

end

lemma truncateLocked_contiguous {d : Disk P} (hd : d.Contiguous) (logId : LogId) :
    (d.truncateLocked logId).Contiguous := by
  obtain ⟨stop, hstop⟩ := hd
  refine ⟨min stop logId.index.val, fun index => ?_⟩
  have hfilt : index ∈ (d.truncateLocked logId).log.keys ↔
      index ∈ d.log.keys ∧ decide (index < logId.index) = true := mem_keys_filter
  rw [hfilt, hstop, decide_eq_true_eq, lt_iff]
  show _ ↔ d.start ≤ index.val ∧ _
  omega

lemma inv_truncateLocked (hinv : Inv checks past n) (logId : LogId)
    (hdisk : n'.disk = n.disk.truncateLocked logId)
    (hreq : n'.requestedPurge = n.requestedPurge) (hhosted : n'.hosted = n.hosted) :
    Inv checks (past ++ [.truncate logId]) n' := by
  have hmem : ∀ e ∈ (n.disk.truncateLocked logId).log.entries, e ∈ n.disk.log.entries :=
    fun e he => (OrderedMap.mem_filter.1 he).1
  refine ⟨?_, ?_, ?_, ?_, ?_, ?_, ?_, ?_⟩
  · rw [hdisk]
    exact truncateLocked_contiguous hinv.contiguous logId
  · rw [hdisk]
    exact fun e he => hinv.keyed e (hmem e he)
  · rw [hdisk]
    exact fun id hid => mem_askedEver_snoc (hinv.deferred id hid)
  · rw [hreq]
    exact hinv.requested_snoc rfl
  · rw [hdisk]
    intro index hidx
    obtain ⟨entry, he⟩ := mem_keys.1 hidx
    exact hinv.countLog index (mem_keys.2 ⟨entry, hmem _ he⟩)
  · rw [hdisk]
    exact hinv.countPurged
  · rw [hdisk]
    exact hinv.countDeferred
  · rw [hhosted]
    exact hinv.countApplied

lemma truncate_safe (hinv : Inv checks past n) (logId : LogId) :
    Safe past n (.truncate logId) (n.truncateSync logId).1 ∧
      Inv checks (past ++ [.truncate logId]) (n.truncateSync logId).1 := by
  have hsame : ∀ n' : Node P, n'.disk = n.disk → n'.requestedPurge = n.requestedPurge →
      n'.hosted = n.hosted → Safe past n (.truncate logId) n' ∧
        Inv checks (past ++ [.truncate logId]) n' := by
    intro n' hdisk hr hhosted
    have hstep : Steps checks (fun _ => 0) past n (.truncate logId) n'.disk n' :=
      .of_log_eq (hdisk ▸ rfl) (hdisk ▸ rfl) (hdisk ▸ rfl)
        (hr ▸ hinv.requested_snoc rfl) (.inl hhosted)
    exact ⟨hstep.safe hinv ⟨trivial, nofun⟩, hstep.inv hinv nofun nofun⟩
  have htruncated : ∀ n' : Node P, n'.disk = n.disk.truncateLocked logId →
      n'.requestedPurge = n.requestedPurge → n'.hosted = n.hosted →
      Safe past n (.truncate logId) n' ∧ Inv checks (past ++ [.truncate logId]) n' := by
    intro n' hdisk hr hhosted
    have hinv' := inv_truncateLocked hinv logId hdisk hr hhosted
    refine ⟨⟨hinv'.contiguous, fun purged hp => ⟨purged, ?_, le_rfl⟩, nofun, nofun⟩, hinv'⟩
    rw [hdisk]
    exact hp
  unfold Node.truncateSync
  rcases locked_fst _ n with h | ⟨poisoned, h⟩ <;> rw [h]
  · exact hsame n rfl rfl rfl
  · split
    · exact hsame _ rfl rfl rfl
    · exact htruncated _ rfl rfl rfl

/-- **An operation keeps the invariant and the promise.** -/
theorem Inv.next (hinv : Inv checks past n) (hop : Counts checks n op) :
    Safe past n op (Raft.next checks encodedLen n op) ∧
      Inv checks (past ++ [op]) (Raft.next checks encodedLen n op) := by
  cases htruncate : op.isTruncate with
  | true =>
    cases op with
    | truncate logId => exact truncate_safe hinv logId
    | _ => cases htruncate
  | false =>
    obtain ⟨mid, hsteps⟩ := next_steps encodedLen hinv htruncate
    exact ⟨hsteps.safe hinv hop, hsteps.inv hinv hop.2 (hsteps.startsAtZero hop.1)⟩

end Steps

/-! ## Runs -/

lemma inv_create (checks : Bool) : Inv checks [] (Node.create : Node P) where
  contiguous := ⟨0, fun _ => iff_of_false not_mem_nil (Nat.not_lt_zero _ ·.2)⟩
  keyed := nofun
  deferred := nofun
  requested := nofun
  countLog := nofun
  countPurged := nofun
  countDeferred := nofun
  countApplied := nofun

lemma inv_run {checks : Bool} {encodedLen : Entry P → ℕ} {past : List (Op P)}
    (h : Meets (next checks encodedLen) (Counts checks) .create past) :
    Inv checks past (run (next checks encodedLen) .create past) :=
  run_history (inv_create checks) (fun _ _ hinv hop => (hinv.next hop).2) h

/-- **The log in every run.** After every operation the entries are contiguous from one past the purge
point; the purge point has not moved back; and an entry the operation removed, unless it truncates,
is not above the position the bound store has applied, nor above what the library has given up.
A build that does not check overflow never meets the index `2 ^ 64 - 1`. -/
theorem log_run_safe (checks : Bool) (encodedLen : Entry P → ℕ) (past : List (Op P)) (op : Op P)
    (h : Meets (next checks encodedLen) (Counts checks) .create (past ++ [op])) :
    (run (next checks encodedLen) .create past).disk.Contiguous ∧
      Safe past (run (next checks encodedLen) .create past) op
        (run (next checks encodedLen) .create (past ++ [op])) := by
  obtain ⟨hpast, hop⟩ := meets_snoc.1 h
  have hinv := inv_run hpast
  rw [run_snoc]
  exact ⟨hinv.contiguous, (hinv.next hop).1⟩

/-- An entry without a payload. -/
def blank (index : ℕ) : Entry Unit := ⟨⟨wrap 1, wrap 1, wrap index⟩, ()⟩

def appliedTo (index : ℕ) : Op Unit := .host ⟨true, some (blank index).logId⟩

/-- A purge to index 2 stops at the store's position 1; the process starts again with 2 applied. -/
def deferredPurge : List (Op Unit) :=
  [.host ⟨true, none⟩, .bindAppliedFloor, .append [blank 0, blank 1, blank 2, blank 3], appliedTo 1,
    .purge (blank 2).logId, .restart, appliedTo 2]

theorem log_run_safe_deferred :
    Safe deferredPurge (run (next false fun _ => 0) .create deferredPurge) .bindAppliedFloor
      (run (next false fun _ => 0) .create (deferredPurge ++ [.bindAppliedFloor])) :=
  (log_run_safe false (fun _ => 0) deferredPurge .bindAppliedFloor (by decide +kernel)).2

/-- The store has applied up to `2 ^ 64 - 3`, and the log starts empty behind it. -/
def crossesMax : List (Op Unit) :=
  [appliedTo (2 ^ 64 - 3), .bindAppliedFloor,
    .append [blank (2 ^ 64 - 2), blank (2 ^ 64 - 1), blank 0]]

/-- **Where overflow is not checked, an append can leave a hole**: the index after `2 ^ 64 - 1` is
expected to be `0`, and an entry there is stored below the purge point. -/
theorem not_log_run_safe : Meets (next false fun _ => 0) Allowed .create crossesMax ∧
    ¬ (run (next false fun _ => 0) .create crossesMax).disk.Contiguous := by
  refine ⟨by decide +kernel, fun ⟨stop, hstop⟩ => ?_⟩
  have hzero : wrap 0 ∈ (run (next false fun _ => 0) .create crossesMax).disk.log.keys := by
    decide +kernel
  have hbounds := (hstop (wrap 0)).1 hzero
  exact absurd hbounds.1 (by decide)

end ProtomoltSearch.Raft
