import Mathlib

/-!
# Streams of candidates against a rising floor

Producers send candidates in batches to one consumer, which pushes floors back. A producer sends
every candidate at or above the highest floor it has adopted, may skip the others, and closes its
stream with `done`. The streams interleave freely, and any floor pushed so far may be adopted at any
moment, or never.

The consumer is seen only through its arrival log and the floors it has pushed after a log
(`pushes`). When every stream is done, the candidates that did not arrive each scored below a floor
that was in effect (`exists_dropped_of_done`).
-/

namespace ProtomoltSearch.FloorStream

open List

variable {ι α S : Type*}

/-- A message on a producer's stream. -/
inductive Msg (α : Type*) where
  | batch (xs : List α)
  | done
  deriving DecidableEq, Repr

/-- The candidates a message carries. -/
def Msg.items : Msg α → List α
  | .batch xs => xs
  | .done => []

/-- Whether a message closes its stream. -/
def Msg.isDone : Msg α → Bool
  | .batch _ => false
  | .done => true

/-- A producer: what it has yet to scan, its highest adopted floor, and its messages under way. -/
structure Producer (α S : Type*) where
  pending : List α
  floor : S
  outbox : List (Msg α)
  finished : Bool

/-- The producers, and the messages that have arrived at the consumer, oldest first. -/
structure Net (ι α S : Type*) where
  producer : ι → Producer α S
  log : List (ι × Msg α)

/-- Every producer holds its candidates and the initial floor, and nothing was sent. -/
def Net.init (all : ι → List α) (floor : S) : Net ι α S where
  producer i := ⟨all i, floor, [], false⟩
  log := []

/-- Replace one producer. -/
def Net.set [DecidableEq ι] (n : Net ι α S) (i : ι) (p : Producer α S) : Net ι α S :=
  { n with producer := Function.update n.producer i p }

section

variable [DecidableEq ι] [LinearOrder S]
variable (score : α → S) (pushes : List (ι × Msg α) → List S) (shards : List ι)

inductive Step : Net ι α S → Net ι α S → Prop
  /-- A block is scanned against the adopted floor: only candidates below it are skipped. -/
  | scan {n : Net ι α S} {i : ι} {emitted skipped rest : List α} (hi : i ∈ shards)
      (hopen : (n.producer i).finished = false)
      (hperm : (n.producer i).pending.Perm (emitted ++ skipped ++ rest))
      (hskip : ∀ x ∈ skipped, score x < (n.producer i).floor) :
      Step n (n.set i { n.producer i with
        pending := rest, outbox := (n.producer i).outbox ++ [.batch emitted] })
  | adopt {n : Net ι α S} {i : ι} {f : S} (hi : i ∈ shards) (hf : f ∈ pushes n.log) :
      Step n (n.set i { n.producer i with floor := max (n.producer i).floor f })
  | finish {n : Net ι α S} {i : ι} (hi : i ∈ shards) (hopen : (n.producer i).finished = false)
      (hpending : (n.producer i).pending = []) :
      Step n (n.set i { n.producer i with
        outbox := (n.producer i).outbox ++ [.done], finished := true })
  | receive {n : Net ι α S} {i : ι} {m : Msg α} {rest : List (Msg α)} (hi : i ∈ shards)
      (hout : (n.producer i).outbox = m :: rest) :
      Step n { n.set i { n.producer i with outbox := rest } with log := n.log ++ [(i, m)] }

/-- The states a run can reach from the initial one. -/
def Reachable (all : ι → List α) (f₀ : S) (n : Net ι α S) : Prop :=
  Relation.ReflTransGen (Step score pushes shards) (Net.init all f₀) n

end

/-! ## The messages of one stream -/

/-- The candidates of a log, in arrival order. -/
def received (log : List (ι × Msg α)) : List (ι × α) :=
  log.flatMap fun a => a.2.items.map (a.1, ·)

@[simp] lemma received_nil : received ([] : List (ι × Msg α)) = [] := rfl

lemma received_snoc (log : List (ι × Msg α)) (i : ι) (m : Msg α) :
    received (log ++ [(i, m)]) = received log ++ m.items.map (i, ·) := by
  simp [received]

section

variable [DecidableEq ι]

variable (n : Net ι α S) (i : ι)

/-- The messages of one producer that have arrived. -/
def arrivals (log : List (ι × Msg α)) : List (Msg α) :=
  (log.filter (fun a => a.1 = i)).map Prod.snd

/-- Every message of one producer, arrived or not. -/
def sent : List (Msg α) := arrivals i n.log ++ (n.producer i).outbox

@[simp] lemma arrivals_nil : arrivals i ([] : List (ι × Msg α)) = [] := rfl

lemma arrivals_append (l₁ l₂ : List (ι × Msg α)) :
    arrivals i (l₁ ++ l₂) = arrivals i l₁ ++ arrivals i l₂ := by
  simp [arrivals]

lemma arrivals_snoc_self (l : List (ι × Msg α)) (m : Msg α) :
    arrivals i (l ++ [(i, m)]) = arrivals i l ++ [m] := by
  simp [arrivals]

lemma arrivals_snoc_ne {i j : ι} (h : i ≠ j) (l : List (ι × Msg α)) (m : Msg α) :
    arrivals i (l ++ [(j, m)]) = arrivals i l := by
  simp [arrivals, Ne.symm h]

lemma mem_arrivals {i : ι} {m : Msg α} {log : List (ι × Msg α)} :
    m ∈ arrivals i log ↔ (i, m) ∈ log := by
  simp only [arrivals, mem_map, mem_filter, decide_eq_true_eq]
  constructor
  · rintro ⟨⟨j, m⟩, ⟨hm, rfl⟩, rfl⟩
    exact hm
  · exact fun h => ⟨(i, m), ⟨h, rfl⟩, rfl⟩

@[simp] lemma set_producer_self (p : Producer α S) : (n.set i p).producer i = p := by
  simp [Net.set]

lemma set_producer_ne {i j : ι} (h : j ≠ i) (n : Net ι α S) (p : Producer α S) :
    (n.set i p).producer j = n.producer j := by
  simp [Net.set, h]

/-- A log sorts into the streams of the producers it names. -/
lemma received_perm {shards : List ι} (hnd : shards.Nodup) (log : List (ι × Msg α))
    (h : ∀ a ∈ log, a.1 ∈ shards) : (received log).Perm
      (shards.flatMap fun i => ((arrivals i log).flatMap Msg.items).map (i, ·)) := by
  induction log using List.reverseRecOn with
  | nil => simp
  | append_singleton log a ih =>
    obtain ⟨j, m⟩ := a
    have hj : j ∈ shards := h (j, m) (by simp)
    -- only the block of `j` grows, at its end
    obtain ⟨s, t, rfl⟩ := append_of_mem hj
    have hns : ∀ i ∈ s ++ t, i ≠ j := by
      rintro i hi rfl
      exact (nodup_middle.1 hnd).notMem hi
    have hsame : ∀ u : List ι, (∀ i ∈ u, i ≠ j) →
        (u.flatMap fun i => ((arrivals i (log ++ [(j, m)])).flatMap Msg.items).map (i, ·)) =
          u.flatMap fun i => ((arrivals i log).flatMap Msg.items).map (i, ·) := by
      intro u hu
      refine flatMap_congr fun i hi => ?_
      rw [arrivals_snoc_ne (hu i hi)]
    have ih := ih fun a ha => h a (by simp [ha])
    rw [received_snoc, flatMap_append, flatMap_cons, hsame s fun i hi => hns i (by simp [hi]),
      hsame t fun i hi => hns i (by simp [hi]), arrivals_snoc_self]
    refine (ih.append_right _).trans ?_
    simp only [flatMap_append, map_append, flatMap_cons, flatMap_nil, append_nil, append_assoc]
    exact (perm_append_comm).append_left _ |>.append_left _

end

/-! ## What the protocol guarantees -/

section

variable [DecidableEq ι] [LinearOrder S]
variable (score : α → S) (pushes : List (ι × Msg α) → List S) (shards : List ι)

/-- The account of one producer: its candidates are the ones it skipped, has yet to scan, and
has sent; each skipped one scored below a floor; and `done` ends its stream. -/
structure Account (all : List α) (floors : List S) (p : Producer α S) (stream : List (Msg α)) :
    Prop where
  exists_dropped : ∃ (dropped : List α) (batches : List (List α)),
    all.Perm (dropped ++ p.pending ++ batches.flatten) ∧
    (∀ d ∈ dropped, ∃ f ∈ floors, score d < f) ∧
    stream = batches.map Msg.batch ++ (if p.finished then [.done] else [])
  floor_mem : p.floor ∈ floors
  pending_of_finished : p.finished = true → p.pending = []

variable {score pushes shards}

section

variable {all : List α} {floors : List S} {p : Producer α S} {stream : List (Msg α)}

section

variable (h : Account score all floors p stream)

include h

lemma Account.mono {floors' : List S} (hsub : floors ⊆ floors') :
    Account score all floors' p stream where
  exists_dropped := by
    obtain ⟨dropped, batches, hperm, hbelow, hstrm⟩ := h.exists_dropped
    refine ⟨dropped, batches, hperm, fun d hd => ?_, hstrm⟩
    obtain ⟨f, hf, hdf⟩ := hbelow d hd
    exact ⟨f, hsub hf, hdf⟩
  floor_mem := hsub h.floor_mem
  pending_of_finished := h.pending_of_finished

lemma Account.scan {emitted skipped rest : List α}
    (hopen : p.finished = false) (hperm : p.pending.Perm (emitted ++ skipped ++ rest))
    (hskip : ∀ x ∈ skipped, score x < p.floor) :
    Account score all floors
      { p with pending := rest, outbox := p.outbox ++ [.batch emitted] }
      (stream ++ [.batch emitted]) where
  exists_dropped := by
    obtain ⟨dropped, batches, hall, hbelow, hstrm⟩ := h.exists_dropped
    refine ⟨dropped ++ skipped, batches ++ [emitted], ?_, fun d hd => ?_, ?_⟩
    · refine hall.trans (((hperm.append_left dropped).append_right _).trans ?_)
      simp only [flatten_append, flatten_cons, flatten_nil, append_nil, append_assoc]
      refine List.Perm.append_left _ ?_
      -- emitted ++ (skipped ++ (rest ++ sent)) against skipped ++ (rest ++ (sent ++ emitted))
      refine perm_append_comm.trans ?_
      simp only [append_assoc]
      rfl
    · rcases mem_append.1 hd with hd | hd
      · exact hbelow d hd
      · exact ⟨p.floor, h.floor_mem, hskip d hd⟩
    · simp only [hopen, Bool.false_eq_true, if_false, append_nil] at hstrm ⊢
      simp [hstrm]
  floor_mem := h.floor_mem
  pending_of_finished hf := by simp [hopen] at hf

lemma Account.adopt {f : S} (hf : f ∈ floors) :
    Account score all floors { p with floor := max p.floor f } stream where
  exists_dropped := h.exists_dropped
  floor_mem := by
    rcases max_choice p.floor f with hm | hm
    · simpa only [hm] using h.floor_mem
    · simpa only [hm] using hf
  pending_of_finished := h.pending_of_finished

lemma Account.finish (hopen : p.finished = false) (hp : p.pending = []) :
    Account score all floors { p with outbox := p.outbox ++ [.done], finished := true }
      (stream ++ [.done]) where
  exists_dropped := by
    obtain ⟨dropped, batches, hall, hbelow, hstrm⟩ := h.exists_dropped
    refine ⟨dropped, batches, hall, hbelow, ?_⟩
    simp only [hopen, Bool.false_eq_true, if_false, append_nil] at hstrm
    simp [hstrm]
  floor_mem := h.floor_mem
  pending_of_finished _ := hp

/-- Only the stream and the scan state matter to an account, not which messages have arrived. -/
lemma Account.outbox (out : List (Msg α)) :
    Account score all floors { p with outbox := out } stream :=
  ⟨h.exists_dropped, h.floor_mem, h.pending_of_finished⟩

end

/-- A stream whose `done` has arrived has arrived whole. -/
lemma Account.arrived {arrived : List (Msg α)} (h : Account score all floors p (arrived ++ p.outbox))
    (hdone : Msg.done ∈ arrived) : ∃ dropped, all.Perm (dropped ++ arrived.flatMap Msg.items) ∧
      ∀ d ∈ dropped, ∃ f ∈ floors, score d < f := by
  obtain ⟨dropped, batches, hall, hbelow, hstrm⟩ := h.exists_dropped
  have hfin : p.finished = true := by
    by_contra hf
    rw [if_neg hf, append_nil] at hstrm
    have hmem := hstrm ▸ mem_append_left _ hdone
    simp at hmem
  rw [if_pos hfin] at hstrm
  -- `done` is the last message sent, so nothing is left in the outbox
  have hout : p.outbox = [] := by
    obtain ⟨a, b, rfl⟩ := append_of_mem hdone
    rcases eq_nil_or_concat' p.outbox with ho | ⟨o, m, ho⟩
    · exact ho
    · rw [ho, ← append_assoc] at hstrm
      obtain ⟨hl, -⟩ := append_inj' hstrm rfl
      have hmem : Msg.done ∈ batches.map Msg.batch := by
        rw [← hl]
        simp
      simp at hmem
  refine ⟨dropped, ?_, hbelow⟩
  rw [hout, append_nil] at hstrm
  rw [h.pending_of_finished hfin] at hall
  rw [hstrm, flatMap_append, flatMap_map]
  simpa [Msg.items, flatMap_def] using hall

/-- `done` ends a stream: nothing follows it. -/
lemma Account.done_notMem {a b : List (Msg α)} {m : Msg α} (h : Account score all floors p (a ++ m :: b)) :
    Msg.done ∉ a := by
  intro ha
  obtain ⟨-, batches, -, -, hstrm⟩ := h.exists_dropped
  have hlast := congrArg List.dropLast hstrm
  rw [dropLast_append_of_ne_nil (cons_ne_nil m b)] at hlast
  have hmem := hlast ▸ mem_append_left (m :: b).dropLast ha
  have hsub : Msg.done ∈ batches.map Msg.batch := by
    cases hf : p.finished with
    | true => rwa [hf, if_pos rfl, dropLast_concat] at hmem
    | false =>
      rw [hf, if_neg Bool.false_ne_true, append_nil] at hmem
      exact dropLast_subset _ hmem
  simp at hsub

end

variable (score pushes shards) in
/-- Every producer's account is in order and the log names only open producers. -/
structure Accounts (all : ι → List α) (f₀ : S) (n : Net ι α S) : Prop where
  account : ∀ i, Account score (all i) (f₀ :: pushes n.log) (n.producer i) (sent n i)
  mem_shards : ∀ a ∈ n.log, a.1 ∈ shards

variable {all : ι → List α} {f₀ : S} {n : Net ι α S}

lemma accounts_init (all : ι → List α) (f₀ : S) :
    Accounts score pushes shards all f₀ (Net.init all f₀) where
  account i :=
    { exists_dropped := ⟨[], [], by simp [Net.init], by simp, by simp [Net.init, sent]⟩
      floor_mem := by simp [Net.init]
      pending_of_finished := by simp [Net.init] }
  mem_shards := by simp [Net.init]

/-- A step of one producer leaves the other accounts alone. -/
lemma Accounts.update {i : ι} {p : Producer α S} (h : Accounts score pushes shards all f₀ n)
    (hp : Account score (all i) (f₀ :: pushes n.log) p (arrivals i n.log ++ p.outbox)) :
    Accounts score pushes shards all f₀ (n.set i p) where
  account j := by
    by_cases hj : j = i
    · subst hj
      rw [sent, set_producer_self]
      exact hp
    · rw [sent, set_producer_ne hj]
      exact h.account j
  mem_shards := h.mem_shards

section

variable (hmono : ∀ log a, pushes log ⊆ pushes (log ++ [a]))

include hmono

/-- One step keeps the accounts, provided pushed floors are never taken back. -/
lemma Accounts.step {n' : Net ι α S} (h : Accounts score pushes shards all f₀ n)
    (hstep : Step score pushes shards n n') : Accounts score pushes shards all f₀ n' := by
  cases hstep with
  | @scan i emitted skipped rest _ hopen hperm hskip =>
    refine h.update ?_
    rw [← append_assoc]
    exact (h.account i).scan hopen hperm hskip
  | @adopt i f _ hf => exact h.update ((h.account i).adopt (mem_cons_of_mem _ hf))
  | @finish i _ hopen hpend =>
    refine h.update ?_
    rw [← append_assoc]
    exact (h.account i).finish hopen hpend
  | @receive i m rest hi hout =>
    have hsub : (f₀ :: pushes n.log) ⊆ f₀ :: pushes (n.log ++ [(i, m)]) :=
      cons_subset_cons _ (hmono n.log (i, m))
    refine ⟨fun j => ?_, fun a ha => ?_⟩
    · have hj := (h.account j).mono hsub
      by_cases hji : j = i
      · subst hji
        rw [sent, hout] at hj
        rw [sent, set_producer_self, arrivals_snoc_self, append_assoc]
        exact hj.outbox rest
      · rw [sent, set_producer_ne hji, arrivals_snoc_ne hji]
        exact hj
    · rcases mem_append.1 ha with ha | ha
      · exact h.mem_shards a ha
      · obtain rfl : a = (i, m) := by simpa using ha
        exact hi

/-- Every reachable state keeps the accounts. -/
lemma accounts_of_reachable (h : Reachable score pushes shards all f₀ n) :
    Accounts score pushes shards all f₀ n := by
  induction h with
  | refl => exact accounts_init all f₀
  | tail _ hstep ih => exact ih.step hmono hstep

/-- What did not arrive was below a floor. When every stream is done, the candidates are the
ones that arrived and others that each scored below a floor in effect. -/
lemma exists_dropped_of_done (hnd : shards.Nodup) (h : Reachable score pushes shards all f₀ n)
    (hdone : ∀ i ∈ shards, (i, Msg.done) ∈ n.log) : ∃ dropped : List (ι × α),
    (shards.flatMap fun i => (all i).map (i, ·)).Perm (dropped ++ received n.log) ∧
    ∀ d ∈ dropped, ∃ f ∈ f₀ :: pushes n.log, score d.2 < f := by
  have hacc := accounts_of_reachable hmono h
  have hone : ∀ i ∈ shards, ∃ dropped,
      (all i).Perm (dropped ++ (arrivals i n.log).flatMap Msg.items) ∧
      ∀ d ∈ dropped, ∃ f ∈ f₀ :: pushes n.log, score d < f :=
    fun i hi => (hacc.account i).arrived (mem_arrivals.2 (hdone i hi))
  have hparts : ∀ s : List ι, s ⊆ shards → ∃ dropped : List (ι × α),
      (s.flatMap fun i => (all i).map (i, ·)).Perm
        (dropped ++ s.flatMap fun i => ((arrivals i n.log).flatMap Msg.items).map (i, ·)) ∧
      ∀ d ∈ dropped, ∃ f ∈ f₀ :: pushes n.log, score d.2 < f := by
    intro s hs
    induction s with
    | nil => exact ⟨[], by simp, by simp⟩
    | cons i s ih =>
      obtain ⟨ds, hds, hbelow⟩ := ih fun j hj => hs (by simp [hj])
      obtain ⟨d, hd, hb⟩ := hone i (hs (by simp))
      refine ⟨d.map (i, ·) ++ ds, ?_, fun x hx => ?_⟩
      · rw [flatMap_cons, flatMap_cons]
        refine ((hd.map _).append hds).trans ?_
        rw [map_append]
        simp only [append_assoc]
        refine List.Perm.append_left _ ?_
        simp only [← append_assoc]
        exact perm_append_comm.append_right _
      · rcases mem_append.1 hx with hx | hx
        · obtain ⟨y, hy, rfl⟩ := mem_map.1 hx
          exact hb y hy
        · exact hbelow x hx
  obtain ⟨dropped, hperm, hbelow⟩ := hparts shards fun _ h => h
  exact ⟨dropped, hperm.trans ((received_perm hnd n.log hacc.mem_shards).symm.append_left _),
    hbelow⟩

end

/-! ## Logs as a consumer reads them -/

/-- Whether a stream is done. -/
def closed (log : List (ι × Msg α)) (i : ι) : Bool :=
  log.any fun a => decide (a.1 = i) && a.2.isDone

/-- The streams that are not done. -/
def openCount (shards : List ι) (log : List (ι × Msg α)) : ℕ :=
  shards.countP fun i => !closed log i

/-- Every message of the log is on an open stream of the shards. -/
def Orderly (shards : List ι) (log : List (ι × Msg α)) : Prop :=
  ∀ a i m b, log = a ++ (i, m) :: b → i ∈ shards ∧ closed a i = false

variable {log : List (ι × Msg α)} {i j : ι}

lemma closed_eq_true : closed log i = true ↔ (i, Msg.done) ∈ log := by
  simp only [closed, any_eq_true, Bool.and_eq_true, decide_eq_true_eq]
  constructor
  · rintro ⟨⟨j, m⟩, hmem, rfl, hm⟩
    cases m with
    | batch xs => exact absurd hm (by simp [Msg.isDone])
    | done => exact hmem
  · exact fun h => ⟨_, h, rfl, rfl⟩

@[simp] lemma closed_nil (i : ι) : closed ([] : List (ι × Msg α)) i = false := rfl

section

variable (log : List (ι × Msg α))

lemma closed_snoc (j : ι) (m : Msg α) (i : ι) :
    closed (log ++ [(j, m)]) i = (closed log i || (decide (j = i) && m.isDone)) := by
  simp [closed]

lemma closed_snoc_batch (j : ι) (xs : List α) (i : ι) :
    closed (log ++ [(j, .batch xs)]) i = closed log i := by
  simp [closed_snoc, Msg.isDone]

lemma closed_snoc_done (j i : ι) :
    closed (log ++ [(j, .done)]) i = (closed log i || decide (j = i)) := by
  simp [closed_snoc, Msg.isDone]

end

/-- What is noted for the closed streams, after one more has closed. -/
lemma update_noted {β : Type*} {noted : ι → Option β} {value : ι → β} {before : ι → Option β}
    (h : noted = fun j => if closed log j then some (value j) else before j) :
    Function.update noted i (some (value i)) =
      fun j => if closed (log ++ [(i, .done)]) j then some (value j) else before j := by
  funext j
  by_cases hj : j = i
  · subst hj
    simp [closed_snoc_done]
  · simp [closed_snoc_done, hj, Ne.symm hj, h]

lemma mem_cons_of_closed_snoc {answered : List ι} (h : ∀ j, closed log j = true → j ∈ answered)
    (hj : closed (log ++ [(i, .done)]) j = true) : j ∈ i :: answered := by
  rw [closed_snoc_done, Bool.or_eq_true, decide_eq_true_iff] at hj
  rcases hj with hj | rfl
  · exact mem_cons_of_mem _ (h j hj)
  · exact mem_cons_self

lemma openCount_snoc_batch (shards : List ι) (log : List (ι × Msg α)) (j : ι) (xs : List α) :
    openCount shards (log ++ [(j, .batch xs)]) = openCount shards log := by
  simp only [openCount, closed_snoc_batch]

lemma openCount_snoc_done (hnd : shards.Nodup) (hj : j ∈ shards) (hopen : closed log j = false) :
    openCount shards (log ++ [(j, .done)]) + 1 = openCount shards log := by
  obtain ⟨s, t, rfl⟩ := append_of_mem hj
  have hne : ∀ i ∈ s ++ t, closed (log ++ [(j, Msg.done)]) i = closed log i := by
    intro i hi
    have : j ≠ i := by
      rintro rfl
      exact (nodup_middle.1 hnd).notMem hi
    simp [closed_snoc, this]
  have hs : s.countP (fun i => !closed (log ++ [(j, Msg.done)]) i) =
      s.countP fun i => !closed log i :=
    countP_congr fun i hi => by rw [hne i (by simp [hi])]
  have ht : t.countP (fun i => !closed (log ++ [(j, Msg.done)]) i) =
      t.countP fun i => !closed log i :=
    countP_congr fun i hi => by rw [hne i (by simp [hi])]
  have hself : closed (log ++ [(j, Msg.done)]) j = true := by simp [closed_snoc, Msg.isDone]
  simp only [openCount, countP_append, countP_cons, hs, ht, hself, hopen]
  simp
  omega

lemma openCount_pos (hj : j ∈ shards) (hopen : closed log j = false) : 0 < openCount shards log :=
  countP_pos_iff.2 ⟨j, hj, by simp [hopen]⟩

lemma openCount_eq_zero (h : ∀ i ∈ shards, (i, Msg.done) ∈ log) : openCount shards log = 0 :=
  countP_eq_zero.2 fun i hi => by simp [closed_eq_true.2 (h i hi)]

lemma Orderly.snoc {m : Msg α} (h : Orderly shards (log ++ [(i, m)])) :
    Orderly shards log ∧ i ∈ shards ∧ closed log i = false :=
  ⟨fun a j m' b hlog => h a j m' (b ++ [(i, m)]) (by rw [hlog]; simp), h log i m [] rfl⟩

/-- When every stream is done, the finished streams are those of the shards. -/
lemma Orderly.closed_iff (h : Orderly shards log)
    (hdone : ∀ i ∈ shards, (i, Msg.done) ∈ log) (i : ι) : closed log i = true ↔ i ∈ shards := by
  rw [closed_eq_true]
  refine ⟨fun hmem => ?_, hdone i⟩
  obtain ⟨a, b, hab⟩ := append_of_mem hmem
  exact (h a i .done b hab).1

/-- **The log of every reachable state is orderly.** -/
theorem orderly_of_reachable (hmono : ∀ log a, pushes log ⊆ pushes (log ++ [a]))
    (h : Reachable score pushes shards all f₀ n) : Orderly shards n.log := by
  intro a i m b hlog
  have hacc := accounts_of_reachable hmono h
  refine ⟨hacc.mem_shards (i, m) (by rw [hlog]; simp), ?_⟩
  rw [Bool.eq_false_iff, Ne, closed_eq_true, ← mem_arrivals]
  have haccount := hacc.account i
  rw [sent, hlog, arrivals_append] at haccount
  have hcons : arrivals i ((i, m) :: b) = m :: arrivals i b := by simp [arrivals]
  rw [hcons, append_assoc] at haccount
  exact haccount.done_notMem

end

end ProtomoltSearch.FloorStream
