import ProtomoltSearch.Coordinator.Topology
import ProtomoltSearch.Foundations.Runs

/-!
# Freezing the routed writes of a coordinator

A cutover to a new map takes a flag, then the write gate for itself, and leaves both to a lease that
a publication or an abort gives back. Routed writes hold the gate for reading. Calls are taken apart
into their accesses to what they share. A publication and an abort hold the lease's mutex from their
first access to their last.

* `Cutover.Inv.next`: the gate keeps writes and a lease apart, and the flag is that of one freeze, of
  the lease or of the call that gives it back, as long as no freeze is dropped where it waits and no
  reload swaps the map while it is set.
* `cutover_exclusive`: in such a run the flag is set exactly while a freeze or a lease has it, whenever
  no call is between its last accesses.
-/

namespace ProtomoltSearch.Coordinator

open Placement ProtomoltSearch.Filter List Option

/-- How far a call of `freeze_topology_writes` is. -/
inductive FreezeStage where
  | checked
  | waiting
  | entered
  /-- It compared the generation again. -/
  | compared
  /-- It found another generation and took the flag back. -/
  | refused

/-- The flags a call has: one, from its exchange on. -/
def FreezeStage.flags : FreezeStage → ℕ
  | .checked | .refused => 0
  | .waiting | .entered | .compared => 1

/-- The guards of the gate a call has. -/
def FreezeStage.bars : FreezeStage → ℕ
  | .checked | .waiting => 0
  | .entered | .compared | .refused => 1

/-- How far the call is that has the mutex of the lease and gives the lease back. -/
inductive Closing where
  /-- A publication swapped the map. -/
  | swapped
  /-- The gate is free again. -/
  | released

/-- The flags such a call has. -/
def Closing.flags : Closing → ℕ
  | .swapped => 0
  | .released => 1

/-- A map that is proposed: its generation, routes and tree. -/
abbrev Proposal := ℕ × List TopologyRoute × Option PlacementTreeConfig

/-- What the calls of a coordinator share, and the calls that are under way. -/
structure Cutover where
  /-- The maps that were live before the live one. -/
  past : List CoordinatorTopology
  live : CoordinatorTopology
  /-- `cutover_pending`. -/
  pending : Bool
  /-- `cutover_guard`: the token, and the generation its freeze reported. -/
  lease : Option (ℕ × ℕ)
  closing : Option Closing
  freezes : List (ℕ × FreezeStage)
  reloads : List Proposal
  /-- The routed writes inside the gate: how many maps were live before the one a write entered under,
  and its snapshot. -/
  writes : List (ℕ × Option CoordinatorTopology)

namespace Cutover

variable (parse : String → Except Status FilterExpr) {s t : Cutover}

def init (live : CoordinatorTopology) : Cutover := ⟨[], live, false, none, none, [], [], []⟩

/-- The maps that were live, in order. -/
def maps (s : Cutover) : List CoordinatorTopology := s.past ++ [s.live]

/-- How many hold the write gate for themselves: the freezes that are inside, and the lease. -/
def bars (s : Cutover) : ℕ := (s.freezes.map (·.2.bars)).sum + s.lease.toList.length

def flags (s : Cutover) : ℕ :=
  (s.freezes.map (·.2.flags)).sum + s.lease.toList.length + s.closing.elim 0 Closing.flags

/-- `publish_topology_inner`. -/
def publishTopologyInner (s : Cutover) (map : Proposal) : Except String Cutover := do
  let replacement ← buildTopology parse map.1 map.2.1 map.2.2
  refuseIf (decide (map.1 ≤ s.live.generation))
    ("topology generation must increase: current " ++ toString s.live.generation ++ ", proposed " ++
      toString map.1)
  return { s with past := s.past ++ [s.live], live := replacement }

/-- The first checks of `freeze_topology_writes`. -/
def checkFreeze (s : Cutover) (requested : ℕ) : Except Status Unit := do
  refuseIf (requested == 0) (.invalidArgument "freeze requires a nonzero topology generation")
  refuseIf (requested != s.live.generation)
    (.failedPrecondition ("freeze requires topology generation " ++ toString requested ++ ", live " ++
      toString s.live.generation))

/-- Its exchange of the flag. -/
def exchange (s : Cutover) : Except Status Cutover := do
  refuseIf s.pending (.alreadyExists "another topology cutover is already pending")
  return { s with pending := true }

/-- Its second look at the generation. -/
def recheck (s : Cutover) (requested : ℕ) : Except Status Unit :=
  refuseIf (requested != s.live.generation)
    (.failedPrecondition "topology changed while the write barrier was being acquired")

def checkLease (s : Cutover) (token : ℕ) : Except Status Unit := do
  let lease ← okOr s.lease (.failedPrecondition "no topology cutover write freeze is active")
  refuseIf (lease.1 != token) (.permissionDenied "cutover token does not match")

/-- `publish_topology`, up to its swap of the map. -/
def publishTopology (s : Cutover) (token : ℕ) (map : Proposal) : Except Status Cutover := do
  s.checkLease token
  let s ← (s.publishTopologyInner parse map).mapError .invalidArgument
  return { s with closing := some .swapped }

/-- `abort_topology_cutover`, up to its release of the gate. -/
def abortTopologyCutover (s : Cutover) (token : ℕ) : Except Status Cutover := do
  s.checkLease token
  return { s with lease := none, closing := some .released }

/-- What the two do after that: they give the gate back, and then the flag. -/
def close (s : Cutover) : Closing → Cutover
  | .swapped => { s with lease := none, closing := some .released }
  | .released => { s with pending := false, closing := none }

/-- The check of `reload_topology`. -/
def checkReload (s : Cutover) : Except String Unit :=
  refuseIf s.pending "topology cutover has frozen writes; publish or abort it first"

inductive Event where
  | freeze (requested : ℕ)
  /-- A freeze takes its next step. It ends with the token it draws. -/
  | advance (freeze token : ℕ)
  | drop (freeze : ℕ)
  | publish (token : ℕ) (map : Proposal)
  | abort (token : ℕ)
  /-- The call that has the mutex of the lease takes its next step. -/
  | close
  | reload (map : Proposal)
  | swap (reload : ℕ)
  | write
  | snapshot (write : ℕ)
  | leave (write : ℕ)

def replaceAt {α : Type} (l : List α) (i : ℕ) (new : List α) : List α :=
  l.take i ++ new ++ l.drop (i + 1)

/-- The next step of a freeze. -/
def advance (s : Cutover) (i token requested : ℕ) : FreezeStage → Cutover
  | .checked =>
    match s.exchange with
    | .ok s => { s with freezes := replaceAt s.freezes i [(requested, .waiting)] }
    | .error _ => { s with freezes := replaceAt s.freezes i [] }
  | .waiting =>
    if s.bars = 0 ∧ s.writes = [] then
      { s with freezes := replaceAt s.freezes i [(requested, .entered)] }
    else s
  | .entered =>
    match s.recheck requested with
    | .ok _ => { s with freezes := replaceAt s.freezes i [(requested, .compared)] }
    | .error _ => { s with freezes := replaceAt s.freezes i [(requested, .refused)], pending := false }
  | .compared =>
    if s.closing = none then
      { s with freezes := replaceAt s.freezes i [], lease := some (token, requested) }
    else s
  | .refused => { s with freezes := replaceAt s.freezes i [] }

def next (s : Cutover) : Event → Cutover
  | .freeze requested =>
    match s.checkFreeze requested with
    | .ok _ => { s with freezes := s.freezes ++ [(requested, .checked)] }
    | .error _ => s
  | .advance i token => s.freezes[i]?.elim s fun f => s.advance i token f.1 f.2
  | .drop i =>
    match s.freezes[i]? with
    | some (_, .waiting) => { s with freezes := replaceAt s.freezes i [] }
    | _ => s
  | .publish token map =>
    if s.closing = none then (s.publishTopology parse token map).toOption.getD s else s
  | .abort token => if s.closing = none then (s.abortTopologyCutover token).toOption.getD s else s
  | .close => s.closing.elim s s.close
  | .reload map =>
    match s.checkReload with
    | .ok _ => { s with reloads := s.reloads ++ [map] }
    | .error _ => s
  | .swap i => s.reloads[i]?.elim s fun map =>
    let s' := (s.publishTopologyInner parse map).toOption.getD s
    { s' with reloads := replaceAt s.reloads i [] }
  | .write => if s.bars = 0 then { s with writes := s.writes ++ [(s.past.length, none)] } else s
  | .snapshot i =>
    match s.writes[i]? with
    | some (before, none) => { s with writes := replaceAt s.writes i [(before, some s.live)] }
    | _ => s
  | .leave i => { s with writes := replaceAt s.writes i [] }

/-- Neither is a freeze dropped where it waits, nor does a reload swap the map while the flag is set. -/
def Undisturbed (s : Cutover) : Event → Prop
  | .drop i => ∀ g, s.freezes[i]? ≠ some (g, .waiting)
  | .swap _ => s.pending = false
  | _ => True

/-- Writes and whoever bars the gate are apart, and a write has a map that was live after it entered.
The flag is that of one freeze, of the lease or of the call that gives it back, and the map is the one
that was frozen until a publication swaps it. -/
structure Inv (s : Cutover) : Prop where
  one : s.bars ≤ 1
  apart : s.bars = 0 ∨ s.writes = []
  current : ∀ w ∈ s.writes, w.1 ≤ s.past.length ∧ ∀ map ∈ w.2, map ∈ s.maps.drop w.1
  flag : s.flags = s.pending.toNat
  compared : ∀ g, (g, .compared) ∈ s.freezes → g = s.live.generation
  leased : s.closing = none → ∀ l ∈ s.lease, l.2 = s.live.generation
  swapped : s.closing = some .swapped → s.lease.isSome

variable {parse} {i : ℕ} {map : Proposal}

lemma publishTopologyInner_ok (h : s.publishTopologyInner parse map = .ok t) :
    ∃ live, t = { s with past := s.past ++ [s.live], live } := by
  simp only [publishTopologyInner, bind_ok, pure_ok] at h
  obtain ⟨live, -, -, -, rfl⟩ := h
  exact ⟨live, rfl⟩

lemma sum_replaceAt {α : Type} {l : List α} {a : α} (hi : l[i]? = some a) (new : List α) (f : α → ℕ) :
    ((replaceAt l i new).map f).sum + f a = (l.map f).sum + (new.map f).sum := by
  have hsplit : l = l.take i ++ a :: l.drop (i + 1) := by
    obtain ⟨h, rfl⟩ := List.getElem?_eq_some_iff.1 hi
    rw [← List.drop_eq_getElem_cons h, List.take_append_drop]
  have hsum := congrArg (fun l => (List.map f l).sum) hsplit
  simp only [replaceAt, map_append, sum_append, map_cons, sum_cons] at hsum ⊢
  omega

lemma mem_replaceAt {α : Type} {l new : List α} {a : α} (h : a ∈ replaceAt l i new) :
    a ∈ new ∨ a ∈ l := by
  simp only [replaceAt, append_assoc, mem_append] at h
  rcases h with h | h | h
  exacts [.inr (mem_of_mem_take h), .inl h, .inr (mem_of_mem_drop h)]

/-- The map is swapped while no freeze has compared it. -/
lemma Inv.swap (h : s.Inv) {live : CoordinatorTopology} {closing : Option Closing}
    (hnone : ∀ g, (g, .compared) ∉ s.freezes)
    (hclosing : closing.elim 0 Closing.flags = s.closing.elim 0 Closing.flags)
    (hleased : closing = none → s.lease = none)
    (hswapped : closing = some .swapped → s.lease.isSome) :
    Inv { s with past := s.past ++ [s.live], live, closing } where
  one := h.one
  apart := h.apart
  current w hw := by
    -- a map that was live after a write entered stays so
    obtain ⟨hle, hmap⟩ := h.current w hw
    refine ⟨hle.trans (by simp), fun map hmem => ?_⟩
    simp only [maps]
    rw [drop_append_of_le_length (by simp; omega)]
    exact mem_append_left _ (hmap map hmem)
  flag := by
    have hflag := h.flag
    simp only [flags] at hflag ⊢
    rwa [hclosing]
  compared g hmem := absurd hmem (hnone g)
  leased hnone x hx := nomatch (hleased hnone).symm.trans hx
  swapped := hswapped

/-! ## The steps of a freeze -/

section

variable (h : s.Inv) {g token : ℕ}

include h

lemma Inv.start (requested : ℕ) :
    Inv { s with freezes := s.freezes ++ [(requested, .checked)] } := by
  obtain ⟨hone, hapart, hcur, hflag, hcmp, hleased, hswapped⟩ := h
  exact ⟨by simpa [bars, FreezeStage.bars] using hone,
    by simpa [bars, FreezeStage.bars] using hapart, hcur,
    by simpa [flags, FreezeStage.flags] using hflag,
    fun g hmem => hcmp g (by simpa using hmem), hleased, hswapped⟩

/-- A freeze that bars the gate does so alone, and one with the flag has it set. -/
lemma Inv.holds {stage : FreezeStage} (hi : s.freezes[i]? = some (g, stage)) :
    stage.bars + s.lease.toList.length ≤ s.bars ∧ stage.flags ≤ s.pending.toNat := by
  have hbars := sum_replaceAt hi [] (·.2.bars)
  have hflags := sum_replaceAt hi [] (·.2.flags)
  have hflag := h.flag
  simp only [bars, flags, map_nil, sum_nil] at hbars hflags hflag ⊢
  omega

/-- A step of a freeze, which goes on as `new`. -/
lemma Inv.freeze {stage : FreezeStage} (hi : s.freezes[i]? = some (g, stage))
    (new : List (ℕ × FreezeStage)) {pending : Bool}
    (hone : s.bars + (new.map (·.2.bars)).sum ≤ 1 + stage.bars)
    (hapart : s.bars + (new.map (·.2.bars)).sum = stage.bars ∨ s.writes = [])
    (hflag : s.pending.toNat + (new.map (·.2.flags)).sum = pending.toNat + stage.flags)
    (hcmp : ∀ g, (g, .compared) ∈ new → g = s.live.generation) :
    Inv { s with freezes := replaceAt s.freezes i new, pending } := by
  have hbars := sum_replaceAt hi new (·.2.bars)
  have hflags := sum_replaceAt hi new (·.2.flags)
  have hs := h.flag
  simp only [bars, flags] at hbars hflags hone hapart hs
  refine ⟨?_, hapart.imp_left fun hapart => ?_, h.current, ?_,
    fun g hmem => (mem_replaceAt hmem).elim (hcmp g) (h.compared g), h.leased, h.swapped⟩
  all_goals
    simp only [bars, flags]
    omega

lemma Inv.exchange (hi : s.freezes[i]? = some (g, .checked)) :
    (s.advance i token g .checked).Inv := by
  have hone := h.one
  have hapart := h.apart
  simp only [Cutover.advance, Cutover.exchange]
  cases hp : s.pending with
  | false =>
    exact h.freeze hi [(g, .waiting)] (by simpa [FreezeStage.bars] using hone)
      (by simpa [FreezeStage.bars] using hapart) (by simp [hp, FreezeStage.flags]) (by simp)
  | true =>
    exact h.freeze hi [] (by simpa [FreezeStage.bars] using hone)
      (by simpa [FreezeStage.bars] using hapart) (by simp [hp, FreezeStage.flags]) (by simp)

lemma Inv.enter (hi : s.freezes[i]? = some (g, .waiting)) :
    (s.advance i token g .waiting).Inv := by
  simp only [Cutover.advance]
  split
  · rename_i hfree
    exact h.freeze hi [(g, .entered)] (by simp [hfree.1, FreezeStage.bars]) (.inr hfree.2) rfl (by simp)
  · exact h

lemma Inv.recheck (hi : s.freezes[i]? = some (g, .entered)) :
    (s.advance i token g .entered).Inv := by
  obtain ⟨hbars, hflags⟩ := h.holds hi
  simp only [FreezeStage.bars, FreezeStage.flags] at hbars hflags
  have hone := h.one
  have hbool := Bool.toNat_le s.pending
  have hwrites := h.apart.resolve_left (by omega)
  simp only [Cutover.advance, Cutover.recheck]
  by_cases hlive : g = s.live.generation
  · simp only [hlive, bne_self_eq_false, refuseIf_false]
    refine h.freeze (hlive ▸ hi) [(_, .compared)] ?_ (.inr hwrites) rfl (by simp)
    simp only [map_cons, map_nil, sum_cons, sum_nil, FreezeStage.bars]
    omega
  · simp only [bne_iff_ne.2 hlive, refuseIf_true]
    refine h.freeze hi [(g, .refused)] ?_ (.inr hwrites) ?_ (by simp)
    · simp only [map_cons, map_nil, sum_cons, sum_nil, FreezeStage.bars]
      omega
    · simp only [map_cons, map_nil, sum_cons, sum_nil, FreezeStage.flags, Bool.toNat_false]
      omega

/-- The freeze leaves its guard and its flag to the lease. -/
lemma Inv.lend (hi : s.freezes[i]? = some (g, .compared)) :
    (s.advance i token g .compared).Inv := by
  simp only [Cutover.advance]
  split
  · rename_i hclosing
    have hsum := sum_replaceAt hi [] (·.2.bars)
    have hflags := sum_replaceAt hi [] (·.2.flags)
    have hbars := (h.holds hi).1
    have hone := h.one
    have hflag := h.flag
    have hbar : FreezeStage.compared.bars = 1 := rfl
    have hset : FreezeStage.compared.flags = 1 := rfl
    simp only [bars, flags, map_nil, sum_nil] at hsum hflags hbars hone hflag
    refine ⟨?_, .inr (h.apart.resolve_left ?_), h.current, ?_,
      fun g hmem => h.compared g ((mem_replaceAt hmem).resolve_left (by simp)), fun _ x hx => ?_,
      fun hswapped => nomatch hclosing.symm.trans hswapped⟩
    · simp only [bars, toList_some, length_singleton]
      omega
    · simp only [bars]
      omega
    · simp only [flags, toList_some, length_singleton]
      omega
    · cases hx
      exact h.compared g (mem_of_getElem? hi)
  · exact h

lemma Inv.advance {stage : FreezeStage} (hi : s.freezes[i]? = some (g, stage)) :
    (s.advance i token g stage).Inv := by
  cases stage with
  | checked => exact h.exchange hi
  | waiting => exact h.enter hi
  | entered => exact h.recheck hi
  | compared => exact h.lend hi
  | refused =>
    obtain ⟨hbars, -⟩ := h.holds hi
    simp only [FreezeStage.bars] at hbars
    exact h.freeze hi [] (h.one.trans (Nat.le_add_right _ _))
      (.inr (h.apart.resolve_left (by omega))) rfl (by simp)

/-! ## Publications, aborts and reloads -/

omit h in
lemma checkLease_ok (h : s.checkLease token = .ok ()) :
    ∃ reported, s.lease = some (token, reported) := by
  simp only [checkLease, bind_ok, okOr_ok, refuseIf_ok] at h
  obtain ⟨⟨held, reported⟩, hlease, htoken⟩ := h
  obtain rfl : held = token := by simpa using htoken
  exact ⟨reported, hlease⟩

/-- Beside a lease no freeze bars the gate. -/
lemma Inv.alone (hlease : s.lease.isSome) : (s.freezes.map (·.2.bars)).sum = 0 := by
  obtain ⟨lease, hlease⟩ := isSome_iff_exists.1 hlease
  have hone := h.one
  simp only [bars, hlease, toList_some, length_singleton] at hone
  omega

lemma Inv.publish (hclosing : s.closing = none) (hok : s.publishTopology parse token map = .ok t) :
    t.Inv := by
  simp only [publishTopology, bind_ok, pure_ok] at hok
  obtain ⟨_, hlease, u, hu, rfl⟩ := hok
  obtain ⟨reported, hlease⟩ := checkLease_ok hlease
  obtain ⟨live, rfl⟩ := publishTopologyInner_ok (mapError_ok.1 hu)
  have hleased : s.lease.isSome := by rw [hlease]; rfl
  refine h.swap (fun g hmem => ?_) (by rw [hclosing]; rfl) nofun fun _ => hleased
  cases sum_eq_zero_iff.1 (h.alone hleased) _ (mem_map_of_mem hmem)

/-- The gate is given back, and the flag is left to the call that does. -/
lemma Inv.release (hlease : s.lease.isSome) (hclosing : s.closing ≠ some .released) :
    Inv { s with lease := none, closing := some .released } := by
  have hbars := h.alone hlease
  obtain ⟨lease, hlease⟩ := isSome_iff_exists.1 hlease
  refine ⟨by simp [bars, hbars], .inl (by simp [bars, hbars]), h.current, ?_, h.compared, nofun, nofun⟩
  have hflag := h.flag
  have hnone : s.closing.elim 0 Closing.flags = 0 := by
    rcases hc : s.closing with _ | _ | _
    exacts [rfl, rfl, absurd hc hclosing]
  simp only [flags, hlease, hnone, toList_some, length_singleton] at hflag
  simpa [flags, Closing.flags] using hflag

lemma Inv.close {closing : Closing} (hclosing : s.closing = some closing) :
    (s.close closing).Inv := by
  cases closing with
  | swapped => exact h.release (h.swapped hclosing) (by simp [hclosing])
  | released =>
    have hflag := h.flag
    have := Bool.toNat_le s.pending
    simp only [flags, hclosing, elim_some, Closing.flags] at hflag
    refine ⟨h.one, h.apart, h.current, ?_, h.compared, fun _ x hx => ?_, nofun⟩
    · simp only [Cutover.close, flags, elim_none, Bool.toNat_false]
      omega
    · have hlease : s.lease = some x := hx
      simp only [hlease, toList_some, length_singleton] at hflag
      omega

lemma Inv.reload {i : ℕ} (hcalm : s.pending = false) :
    (s.next parse (.swap i)).Inv := by
  have hflag := h.flag
  simp only [flags, hcalm, Bool.toNat_false, Nat.add_eq_zero_iff, length_eq_zero_iff,
    toList_eq_nil_iff] at hflag
  obtain ⟨⟨hflags, hlease⟩, -⟩ := hflag
  simp only [Cutover.next]
  cases hi : s.reloads[i]? with
  | none => exact h
  | some map =>
    simp only [elim_some]
    have hdone {t : Cutover} (ht : t.Inv) {l : List Proposal} : Inv { t with reloads := l } :=
      ⟨ht.one, ht.apart, ht.current, ht.flag, ht.compared, ht.leased, ht.swapped⟩
    cases hok : s.publishTopologyInner parse map with
    | error e => exact hdone h
    | ok t =>
      obtain ⟨live, rfl⟩ := publishTopologyInner_ok hok
      refine hdone (h.swap (fun g hmem => ?_) rfl (fun _ => hlease) h.swapped)
      cases sum_eq_zero_iff.1 hflags _ (mem_map_of_mem hmem)

/-! ## Routed writes -/

/-- The writes are others, each with a map of its time. -/
lemma Inv.writes {writes : List (ℕ × Option CoordinatorTopology)}
    (hfree : s.bars = 0 ∨ writes = [])
    (hwrites : ∀ w ∈ writes, w ∈ s.writes ∨ w.1 ≤ s.past.length ∧ ∀ map ∈ w.2, map = s.live) :
    Inv { s with writes } := by
  refine ⟨h.one, hfree, fun w hw => ?_, h.flag, h.compared, h.leased, h.swapped⟩
  rcases hwrites w hw with hw | ⟨hle, hmap⟩
  · exact h.current w hw
  · refine ⟨hle, fun map hmem => ?_⟩
    have hlive : map ∈ [s.live] := mem_singleton.2 (hmap map hmem)
    exact drop_append_of_le_length hle ▸ mem_append_right _ hlive

lemma Inv.write : (s.next parse .write).Inv := by
  simp only [Cutover.next]
  split
  · rename_i hfree
    refine h.writes (.inl hfree) fun w hw => (mem_append.1 hw).imp_right fun hw => ?_
    obtain rfl := mem_singleton.1 hw
    exact ⟨le_rfl, fun _ hmem => by cases hmem⟩
  · exact h

lemma Inv.snapshot : (s.next parse (.snapshot i)).Inv := by
  simp only [Cutover.next]
  split
  · rename_i before hi
    have hmem := mem_of_getElem? hi
    refine h.writes (h.apart.imp_right fun hnil => ?_) fun w hw => (mem_replaceAt hw).symm.imp_right ?_
    · rw [hnil] at hmem
      cases hmem
    · intro hw
      obtain rfl := mem_singleton.1 hw
      exact ⟨(h.current _ hmem).1, fun _ hmem => (Option.some.inj hmem).symm⟩
  · exact h

lemma Inv.next (e : Event) (hcalm : s.Undisturbed e) : (s.next parse e).Inv := by
  cases e with
  | freeze requested =>
    simp only [Cutover.next]
    split
    exacts [h.start requested, h]
  | advance i token =>
    simp only [Cutover.next]
    cases hi : s.freezes[i]? with
    | none => exact h
    | some f => exact h.advance hi
  | drop i =>
    simp only [Cutover.next]
    split
    · rename_i g hi
      exact absurd hi (hcalm g)
    · exact h
  | publish token map =>
    simp only [Cutover.next]
    split
    · rename_i hclosing
      cases hok : s.publishTopology parse token map with
      | error e => exact h
      | ok t => exact h.publish hclosing hok
    · exact h
  | abort token =>
    simp only [Cutover.next]
    split
    · rename_i hclosing
      cases hok : s.abortTopologyCutover token with
      | error e => exact h
      | ok t =>
        simp only [abortTopologyCutover, bind_ok, pure_ok] at hok
        obtain ⟨_, hlease, rfl⟩ := hok
        obtain ⟨reported, hlease⟩ := checkLease_ok hlease
        exact h.release (by rw [hlease]; rfl) (by simp [hclosing])
    · exact h
  | close =>
    simp only [Cutover.next]
    cases hclosing : s.closing with
    | none => exact h
    | some closing => exact h.close hclosing
  | reload map =>
    simp only [Cutover.next]
    split
    exacts [⟨h.one, h.apart, h.current, h.flag, h.compared, h.leased, h.swapped⟩, h]
  | swap i => exact h.reload hcalm
  | write => exact h.write
  | snapshot i => exact h.snapshot
  | leave i =>
    refine h.writes (h.apart.imp_right fun hnil => ?_) fun w hw =>
      .inl ((mem_replaceAt hw).resolve_left (by simp))
    simp [hnil, replaceAt]

end

lemma inv_init (live : CoordinatorTopology) : (init live).Inv := by
  constructor <;> simp [init, bars, flags]

/-- A freeze is under way: it set the flag and has not ended. -/
def freezing (s : Cutover) : Prop := ∃ f ∈ s.freezes, f.2 ≠ .checked

variable (parse)

/-- No call is between its last accesses. -/
def Settled (s : Cutover) : Prop := s.closing = none ∧ ∀ f ∈ s.freezes, f.2 ≠ .refused

/-- What a coordinator is to keep to while maps are cut over. -/
structure Exclusive (s : Cutover) : Prop where
  pending_iff : s.pending = true ↔ s.freezing ∨ s.lease.isSome = true
  /-- A new freeze, or an abort and a publication, is possible, or a freeze is under way. -/
  possible : (∃ t, s.exchange = .ok t) ∨ s.freezing ∨ ∃ token,
    (∃ t, s.abortTopologyCutover token = .ok t) ∧
    ∀ map topology, buildTopology parse map.1 map.2.1 map.2.2 = .ok topology →
      s.live.generation < map.1 → ∃ t, s.publishTopology parse token map = .ok t
  frozen : ∀ token reported, s.lease = some (token, reported) →
    s.live.generation = reported ∧ s.writes = []
  /-- A write has a map that was live after it entered the gate. -/
  current : ∀ w ∈ s.writes, ∀ map ∈ w.2, map ∈ s.maps.drop w.1

variable {parse}

lemma Inv.exclusive (h : s.Inv) (hsettled : s.Settled) : s.Exclusive parse := by
  obtain ⟨hclosing, hrefused⟩ := hsettled
  have hfreezing : s.freezing ↔ 0 < (s.freezes.map (·.2.flags)).sum := by
    have hflags {f : ℕ × FreezeStage} (hf : f ∈ s.freezes) : f.2 ≠ .checked ↔ 0 < f.2.flags := by
      have := hrefused f hf
      revert this
      cases f.2 <;> simp [FreezeStage.flags]
    rw [Nat.pos_iff_ne_zero, Ne, sum_eq_zero_iff]
    constructor
    · rintro ⟨f, hf, hne⟩ hzero
      exact absurd (hzero _ (mem_map_of_mem hf)) ((hflags hf).1 hne).ne'
    · intro hne
      by_contra hnone
      refine hne fun n hn => ?_
      obtain ⟨f, hf, rfl⟩ := mem_map.1 hn
      by_contra hpos
      exact hnone ⟨f, hf, (hflags hf).2 (Nat.pos_of_ne_zero hpos)⟩
  have hleased : s.lease.isSome = true ↔ 0 < s.lease.toList.length := by cases s.lease <;> simp
  have hiff : s.pending = true ↔ s.freezing ∨ s.lease.isSome = true := by
    have hflag := h.flag
    rw [flags, hclosing, elim_none, Nat.add_zero] at hflag
    rw [hfreezing, hleased, ← Nat.add_pos_iff_pos_or_pos, hflag]
    cases s.pending <;> simp
  refine ⟨hiff, ?_, fun token reported hlease => ⟨(h.leased hclosing _ hlease).symm, ?_⟩,
    fun w hw => (h.current w hw).2⟩
  · cases hp : s.pending with
    | false => exact .inl ⟨_, by simp [Cutover.exchange, hp]; rfl⟩
    | true =>
      refine .inr ((hiff.1 hp).imp_right fun hlease => ?_)
      obtain ⟨⟨token, reported⟩, hlease⟩ := isSome_iff_exists.1 hlease
      have hchk : s.checkLease token = .ok () := by simp [checkLease, okOr, hlease]
      refine ⟨token, ⟨_, by rw [abortTopologyCutover, hchk]; rfl⟩, fun map topology hmap hlt => ?_⟩
      have hinner : s.publishTopologyInner parse map =
          .ok { s with past := s.past ++ [s.live], live := topology } := by
        simp only [publishTopologyInner, hmap, decide_eq_false hlt.not_ge]
        rfl
      exact ⟨_, by rw [publishTopology, hchk, hinner]; rfl⟩
  · exact h.apart.resolve_left (by simp [bars, hlease])

end Cutover

variable (parse : String → Except Status FilterExpr)

/-- **A cutover is exclusive**, in every state of every run in which no freeze is dropped where it
waits and no reload swaps the map while the flag is set, if no call is between its last accesses. -/
theorem cutover_exclusive (live : CoordinatorTopology) (events : List Cutover.Event)
    (h : Runs.Meets (Cutover.next parse) Cutover.Undisturbed (.init live) events)
    (hsettled : (Runs.run (Cutover.next parse) (.init live) events).Settled) :
    (Runs.run (Cutover.next parse) (.init live) events).Exclusive parse :=
  (Runs.run_keeps (Cutover.inv_init live) (fun _ e hs he => hs.next e he) h).exclusive hsettled

/-- The coordinator of the map of two halves, whose trees do not parse, after some events. -/
def afterCutover (events : List Cutover.Event) : Cutover :=
  Runs.run (Cutover.next fun _ => .error (.internal "")) (.init ⟨1, halves, none⟩) events

/-- A freeze that runs to its end with the token 7. -/
def frozenOnce : List Cutover.Event :=
  [.freeze 1, .advance 0 0, .advance 0 0, .advance 0 0, .advance 0 7]

/-- A freeze, a publication, and a write under the new map. -/
theorem cutover_exclusive_published :
    let s := afterCutover (frozenOnce ++
      [.publish 7 (2, halves, none), .close, .close, .write, .snapshot 0])
    s.Exclusive (fun _ => .error (.internal "")) ∧ s.writes = [(1, some ⟨2, halves, none⟩)] :=
  ⟨cutover_exclusive _ _ _ ⟨trivial, trivial, trivial, trivial, trivial, trivial, trivial, trivial,
    trivial, trivial, trivial⟩ ⟨rfl, nofun⟩, rfl⟩

/-- A freeze that is dropped where it waits leaves its flag. A reload that looked at the flag before the
freeze swaps the map under the lease, and so does a publication, which then leaves the flag behind the
gate. A freeze that finds another map takes its flag back before it ends. -/
theorem not_cutover_exclusive :
    ¬(afterCutover [.freeze 1, .advance 0 0, .drop 0]).Exclusive (fun _ => .error (.internal "")) ∧
    (∀ events ∈ [.reload (2, halves, none) :: (frozenOnce ++ [.swap 0]),
        frozenOnce ++ [.publish 7 (2, halves, none)]],
      ¬(afterCutover events).Exclusive (fun _ => .error (.internal ""))) ∧
    ¬(afterCutover (frozenOnce ++ [.publish 7 (2, halves, none), .close])).Exclusive
      (fun _ => .error (.internal "")) ∧
    ¬(afterCutover [.reload (2, halves, none), .freeze 1, .swap 0, .advance 0 0, .advance 0 0,
      .advance 0 0]).Exclusive (fun _ => .error (.internal "")) := by
  have hunowned {s : Cutover} (hp : s.pending = true) (hf : s.freezes = []) (hl : s.lease = none) :
      ¬s.Exclusive fun _ => .error (.internal "") := by
    intro h
    rcases h.pending_iff.1 hp with ⟨f, hmem, -⟩ | hsome
    · rw [hf] at hmem
      cases hmem
    · rw [hl] at hsome
      cases hsome
  refine ⟨hunowned rfl rfl rfl, ?_, hunowned rfl rfl rfl, fun h => ?_⟩
  · simp only [forall_mem_cons]
    exact ⟨fun h => absurd (h.frozen 7 1 rfl).1 (by decide),
      fun h => absurd (h.frozen 7 1 rfl).1 (by decide), nofun⟩
  · exact absurd (h.pending_iff.2 (.inl ⟨(1, .refused), mem_cons_self, nofun⟩)) (by decide)

end ProtomoltSearch.Coordinator
