import ProtomoltSearch.Catalog.Decisions
import ProtomoltSearch.Catalog.Reading

/-!
# One decision for one write

What the calls over one operation are answered is one decision (`one_decision`), and the record and
its version keep it, in every run in which no call looks the operation up while its write is committed
and not yet judged. Without that condition a call may be answered with the receipt of a write that is
then marked and fenced (`accepted_then_fenced`).
-/

namespace ProtomoltSearch.Catalog

open List Option Runs

variable {D S : Type}

/-- What holds at every moment of a run in which the operation is looked up only when it is judged. -/
structure Hosted.Inv (managed : ActiveManagedCatalog) (actor : ActorOperationKey) (s : Hosted D) :
    Prop where
  sound : Sound managed actor s.db
  fits : ∀ i pc, s.pc i = some pc →
    pc.Fits actor (s.db.operation actor.operationKey) s.authority.revision
  /-- The call that wrote is alone with the record until it has judged its lease. -/
  sole : ∀ i pc, s.pc i = some pc → pc.phase = .unjudged →
    (∀ j pc', j ≠ i → s.pc j = some pc' → pc'.phase = .early) ∧
      ∀ answer ∈ s.answers, answer.decision = none
  decided : ∀ answer ∈ s.answers, ∀ d, answer.decision = some d →
    ∃ operation, s.db.operation actor.operationKey = some operation ∧ operation.decision = some d

section Runs

variable {managed : ActiveManagedCatalog} {sha : Sha256 D S} {actor : ActorOperationKey}
  {s : Hosted D} {i j : ℕ} {pc : Pc} {after : Next} {event : Event}

lemma join_getElem?_set {α : Type} {l : List (Option α)} {x : Option α} {a : α}
    (h : (l.set i x)[j]?.join = some a) : (j = i ∧ x = some a) ∨ (j ≠ i ∧ l[j]?.join = some a) := by
  rw [getElem?_set] at h
  split at h
  · rename_i heq
    split at h
    · exact .inl ⟨heq.symm, h⟩
    · cases h
  · rename_i hne
    exact .inr ⟨fun heq => hne heq.symm, h⟩

lemma join_getElem?_snoc {α : Type} {l : List (Option α)} {x a : α}
    (h : (l ++ [some x])[j]?.join = some a) : (l.length ≤ j ∧ x = a) ∨ l[j]?.join = some a := by
  rw [getElem?_append] at h
  split at h
  · exact .inr h
  · rename_i hlt
    cases hk : j - l.length with
    | zero =>
      rw [hk] at h
      exact .inl ⟨Nat.le_of_not_lt hlt, some.inj h⟩
    | succ k =>
      rw [hk] at h
      cases h

lemma Hosted.phase_of_allJudged (h : s.allJudged = true) (hi : s.pc i = some pc) :
    pc.phase ≠ .unjudged := by
  obtain ⟨caller, hcaller, rfl⟩ : ∃ caller, s.callers[i]? = some caller ∧ caller = some pc :=
    join_eq_some_iff.1 hi |> fun h => ⟨_, h, rfl⟩
  have hall := all_eq_true.1 h _ (mem_of_getElem? hcaller)
  simpa using hall

section

variable (h : s.Inv managed actor)

include h

lemma Hosted.Inv.begins (hearly : pc.phase = .early)
    (hfits : pc.Fits actor (s.db.operation actor.operationKey) s.authority.revision) :
    Hosted.Inv managed actor { s with callers := s.callers ++ [some pc] } where
  sound := h.sound
  fits j pc' hj := by
    rcases join_getElem?_snoc hj with ⟨-, rfl⟩ | hj
    · exact hfits
    · exact h.fits j pc' hj
  sole i pc₁ hi hphase := by
    rcases join_getElem?_snoc hi with ⟨-, rfl⟩ | hi
    · rw [hearly] at hphase
      cases hphase
    · refine ⟨fun j pc' hne hj => ?_, (h.sole i pc₁ hi hphase).2⟩
      rcases join_getElem?_snoc hj with ⟨-, rfl⟩ | hj
      · exact hearly
      · exact (h.sole i pc₁ hi hphase).1 j pc' hne hj
  decided := h.decided

lemma Hosted.Inv.drops (i : ℕ) :
    Hosted.Inv managed actor { s with callers := s.callers.set i none } := by
  have hold : ∀ j pc', (s.callers.set i none)[j]?.join = some pc' → s.pc j = some pc' := by
    intro j pc' hj
    rcases join_getElem?_set hj with ⟨-, hnone⟩ | ⟨-, hj⟩
    · cases hnone
    · exact hj
  exact ⟨h.sound, fun j pc' hj => h.fits j pc' (hold j pc' hj), fun j pc' hj hphase =>
    ⟨fun k pc'' hne hk => (h.sole j pc' (hold j pc' hj) hphase).1 k pc'' hne (hold k pc'' hk),
      (h.sole j pc' (hold j pc' hj) hphase).2⟩, h.decided⟩

/-- A control command takes effect when no call is going on. -/
lemma Hosted.Inv.controls (hnone : s.callers.all (·.isNone) = true)
    (authority : Authority) : Hosted.Inv managed actor { s with authority } := by
  have hidle : ∀ j pc', s.pc j ≠ some pc' := by
    intro j pc' hj
    have hcaller := join_eq_some_iff.1 hj
    have := all_eq_true.1 hnone _ (mem_of_getElem? hcaller)
    cases this
  exact ⟨h.sound, fun j pc' hj => absurd hj (hidle j pc'), fun j pc' hj => absurd hj (hidle j pc'),
    h.decided⟩

open Hosted

/-- The calls other than one that looks the operation up have judged what they wrote. -/
lemma Hosted.Inv.quiet (hi : s.pc i = some pc)
    (hq : Quiet actor (s.db.operation actor.operationKey) s.authority.revision pc after)
    (hjudged : pc.looksUp = true → s.allJudged = true) :
    (s.goOn i (s.db, after)).Inv managed actor := by
  cases hq with
  | goes hfits hphase =>
    refine ⟨h.sound, fun j pc₁ hj => ?_, fun j pc₁ hj hunj => ?_, h.decided⟩
    · rcases join_getElem?_set hj with ⟨rfl, heq⟩ | ⟨-, hj⟩
      · exact some.inj heq ▸ hfits
      · exact h.fits j pc₁ hj
    · rcases join_getElem?_set hj with ⟨rfl, heq⟩ | ⟨hne, hj⟩
      · cases heq
        obtain ⟨hoth, hnone⟩ := h.sole j pc hi (hphase ▸ hunj)
        refine ⟨fun k pc₂ hk hpc₂ => ?_, hnone⟩
        rcases join_getElem?_set hpc₂ with ⟨heq, -⟩ | ⟨-, hpc₂⟩
        · exact absurd heq hk
        · exact hoth k pc₂ hk hpc₂
      · obtain ⟨hoth, hnone⟩ := h.sole j pc₁ hj hunj
        refine ⟨fun k pc₂ hk hpc₂ => ?_, hnone⟩
        rcases join_getElem?_set hpc₂ with ⟨rfl, heq⟩ | ⟨-, hpc₂⟩
        · rw [← some.inj heq, hphase]
          exact hoth k pc hk hi
        · exact hoth k pc₂ hk hpc₂
  | sees hfits hlate hrec hout =>
    refine ⟨h.sound, fun j pc₁ hj => ?_, fun j pc₁ hj hunj => ?_, h.decided⟩
    · rcases join_getElem?_set hj with ⟨rfl, heq⟩ | ⟨-, hj⟩
      · exact some.inj heq ▸ hfits
      · exact h.fits j pc₁ hj
    · rcases join_getElem?_set hj with ⟨rfl, heq⟩ | ⟨-, hj⟩
      · rw [← some.inj heq, hlate] at hunj
        cases hunj
      · -- a call that has yet to judge would have left the record accepted
        obtain ⟨operation, hop, hacc⟩ := (h.fits j pc₁ hj).accepted_of_unjudged hunj
        cases hrec.symm.trans hop
        exact absurd hacc hout
  | answers hdecided hlooks =>
    have hdrop := h.drops i
    refine ⟨h.sound, hdrop.fits, fun j pc₁ hj hunj => ?_, fun answer hmem d hd => ?_⟩
    · obtain ⟨hoth, hnone⟩ := hdrop.sole j pc₁ hj hunj
      refine ⟨hoth, fun answer hmem => ?_⟩
      rcases mem_append.1 hmem with hmem | hmem
      · exact hnone answer hmem
      · obtain rfl := mem_singleton.1 hmem
        rcases join_getElem?_set hj with ⟨-, heq⟩ | ⟨hne, hj⟩
        · cases heq
        · by_contra hsome
          obtain ⟨d, hd⟩ := ne_none_iff_exists'.1 hsome
          have hearly := (h.sole j pc₁ hj hunj).1 i pc hne.symm hi
          exact phase_of_allJudged (hjudged (hlooks d hd hearly)) hj hunj
    · rcases mem_append.1 hmem with hmem | hmem
      · exact h.decided answer hmem d hd
      · obtain rfl := mem_singleton.1 hmem
        exact hdecided d hd

end

/-- What a call that settles finds, the calls that saw the record unconfirmed find too. -/
lemma Pc.Fits.settled {operation operation' : DocumentOperation D} {revision : ℕ}
    (h : pc.Fits actor (some operation) revision) (hunc : operation.outcome = .unconfirmed)
    (hrcpt : operation'.receipt = operation.receipt)
    (hpres : operation'.outcome = .fenced → operation'.fencedAtRevision = revision) :
    pc.Fits actor (some operation') revision := by
  have hseen : ∀ {receipt}, Seen (some operation) revision receipt →
      Seen (some operation') revision receipt := by
    rintro receipt ⟨_, heq, hheld, -⟩
    cases heq
    exact ⟨operation', rfl, hrcpt.trans hheld, hpres⟩
  cases pc with
  | looking | admitting | finding | writing | settling => exact h
  | judging | marking | rereading =>
    obtain ⟨_, heq, -, hout⟩ := h
    cases heq
    rw [hunc] at hout
    cases hout
  | checking | entering | rechecking => exact hseen h
  | deciding => exact ⟨hseen h.1, h.2⟩

section

variable [DecidableEq D]

/-- **One step keeps what is known.** -/
theorem Hosted.Inv.step {lease : Lease} (h : s.Inv managed actor) (hi : s.pc i = some pc)
    (hjudged : pc.looksUp = true → s.allJudged = true) :
    (s.goOn i (advance managed sha actor s.authority lease s.db pc)).Inv managed actor := by
  have heffect : Effect managed actor s.db s.authority.revision pc
      (advance managed sha actor s.authority lease s.db pc) := effect_advance h.sound (h.fits i pc hi)
  generalize advance managed sha actor s.authority lease s.db pc = result at heffect
  cases heffect with
  | quiet hq => exact h.quiet hi hq hjudged
  | writes hnew hsound hfits =>
    have hearly : ∀ j pc₁, s.pc j = some pc₁ → pc₁.phase = .early := by
      intro j pc₁ hj
      have := h.fits j pc₁ hj
      rw [hnew] at this
      exact this.early_of_none
    have hnone : ∀ answer ∈ s.answers, answer.decision = none := by
      intro answer hmem
      by_contra hsome
      obtain ⟨d, hd⟩ := ne_none_iff_exists'.1 hsome
      obtain ⟨_, hop, -⟩ := h.decided answer hmem d hd
      rw [hnew] at hop
      cases hop
    refine ⟨hsound, fun j pc₁ hj => ?_, fun j pc₁ hj hunj => ?_, fun answer hmem d hd => ?_⟩
    · rcases join_getElem?_set hj with ⟨rfl, heq⟩ | ⟨-, hj⟩
      · exact some.inj heq ▸ hfits
      · exact (h.fits j pc₁ hj).of_early (hearly j pc₁ hj)
    · refine ⟨fun k pc₂ hk hpc₂ => ?_, hnone⟩
      rcases join_getElem?_set hj with ⟨rfl, -⟩ | ⟨-, hj⟩
      · rcases join_getElem?_set hpc₂ with ⟨heq, -⟩ | ⟨-, hpc₂⟩
        · exact absurd heq hk
        · exact hearly k pc₂ hpc₂
      · rw [hearly j pc₁ hj] at hunj
        cases hunj
    · rw [hnone answer hmem] at hd
      cases hd
  | marks hunj hsound =>
    obtain ⟨hoth, hnone⟩ := h.sole i pc hi hunj
    have hearly : ∀ j pc₁, (s.callers.set i none)[j]?.join = some pc₁ →
        pc₁.phase = .early ∧ s.pc j = some pc₁ := by
      intro j pc₁ hj
      rcases join_getElem?_set hj with ⟨-, heq⟩ | ⟨hne, hj⟩
      · cases heq
      · exact ⟨hoth j pc₁ hne hj, hj⟩
    refine ⟨hsound, fun j pc₁ hj => ?_, fun j pc₁ hj hphase => ?_, fun answer hmem d hd => ?_⟩
    · obtain ⟨hphase, hold⟩ := hearly j pc₁ hj
      exact (h.fits j pc₁ hold).of_early hphase
    · rw [(hearly j pc₁ hj).1] at hphase
      cases hphase
    · rcases mem_append.1 hmem with hmem | hmem
      · rw [hnone answer hmem] at hd
        cases hd
      · obtain rfl := mem_singleton.1 hmem
        cases hd
  | settles hrec hunc hsound hrec' hrcpt hpres hdecided =>
    have hdrop := h.drops i
    refine ⟨hsound, fun j pc₁ hj => ?_, fun j pc₁ hj hunj => ?_, fun answer hmem d hd => ?_⟩
    · have hfits := hdrop.fits j pc₁ hj
      rw [hrec] at hfits
      exact hrec' ▸ hfits.settled hunc hrcpt hpres
    · obtain ⟨_, hop, hacc⟩ := (hdrop.fits j pc₁ hj).accepted_of_unjudged hunj
      cases hrec.symm.trans hop
      rw [hunc] at hacc
      cases hacc
    · rcases mem_append.1 hmem with hmem | hmem
      · -- no decision was given while the record was unconfirmed
        obtain ⟨_, hop, hheld⟩ := h.decided answer hmem d hd
        cases hrec.symm.trans hop
        simp [DocumentOperation.decision, hunc] at hheld
      · obtain rfl := mem_singleton.1 hmem
        exact ⟨_, hrec', hdecided ▸ hd⟩

lemma Hosted.Inv.next (h : s.Inv managed actor) (hc : LookedUpJudged s event) :
    (s.next managed sha actor event).Inv managed actor := by
  cases event with
  | accept request => exact h.begins rfl rfl
  | settle => exact h.begins rfl trivial
  | step caller lease =>
    dsimp only [next]
    split
    · exact h
    · rename_i pc hpc
      refine h.step hpc fun hlooks => hc ?_
      rw [hpc]
      exact hlooks
  | drop caller => exact h.drops caller
  | control authority =>
    dsimp only [next]
    split
    · rename_i hnone
      exact h.controls hnone authority
    · exact h

lemma Hosted.answers_next (s : Hosted D) (event : Event) :
    s.answers <+: (s.next managed sha actor event).answers := by
  cases event with
  | accept | settle | drop => exact prefix_rfl
  | step caller lease =>
    dsimp only [next]
    split
    · exact prefix_rfl
    · rename_i pc _
      generalize advance managed sha actor s.authority lease s.db pc = result
      obtain ⟨db', _ | answer⟩ := result
      · exact prefix_rfl
      · exact prefix_append _ _
  | control authority =>
    dsimp only [next]
    split <;> exact prefix_rfl

lemma Hosted.answers_run (s : Hosted D) (events : List Event) :
    s.answers <+: (run (Hosted.next managed sha actor) s events).answers := by
  induction events using List.reverseRecOn with
  | nil => exact prefix_rfl
  | append_singleton past event ih =>
    rw [run_snoc]
    exact ih.trans (answers_next _ event)

end

/-- The record of the operation and its version hold the decision. -/
def Keeps (actor : ActorOperationKey) (db : Database D) (d : Decision) : Prop :=
  ∃ operation receipt version, db.operation actor.operationKey = some operation ∧
    operation.receipt = some receipt ∧
    db.versions.lookup ⟨receipt.documentKey, receipt.version⟩ = some version ∧
    operation.decision = some d ∧ version.outcome = operation.outcome ∧
    version.fencedAtRevision = operation.fencedAtRevision

/-- **One decision.** In a run from an open source that has not seen the operation, in which it is
looked up only while no write of it is committed and not judged, a final decision once answered is
kept by the record and its version from then on, and is the only one ever answered. -/
theorem one_decision [DecidableEq D] {pre suf : List Event} {answer : Answer} {d : Decision}
    (hopened : headerFrom managed.inner s.db.header = .ok s.db.header)
    (hnew : s.db.operation actor.operationKey = none) (hidle : s.callers = [])
    (hanswers : s.answers = [])
    (hruns : Runs.Meets (Hosted.next managed sha actor) LookedUpJudged s (pre ++ suf))
    (hanswer : answer ∈ (run (Hosted.next managed sha actor) s pre).answers)
    (hd : answer.decision = some d) :
    let t := run (Hosted.next managed sha actor) s (pre ++ suf)
    Keeps actor t.db d ∧ ∀ other ∈ t.answers, ∀ e, other.decision = some e → e = d := by
  have hinit : s.Inv managed actor := by
    have hpc : ∀ j pc, s.pc j ≠ some pc := by
      intro j pc hj
      rw [Hosted.pc, hidle] at hj
      cases hj
    refine ⟨⟨hopened, fun operation hop => ?_⟩, fun j pc hj => absurd hj (hpc j pc),
      fun j pc hj => absurd hj (hpc j pc), fun answer hmem => ?_⟩
    · rw [hnew] at hop
      cases hop
    · rw [hanswers] at hmem
      exact absurd hmem not_mem_nil
  have hinv := run_history (I := fun _ s => s.Inv managed actor) hinit
    (fun _ _ h hc => h.next hc) hruns
  have hgrows : _ <+: (run (Hosted.next managed sha actor) _ suf).answers :=
    Hosted.answers_run (run (Hosted.next managed sha actor) s pre) suf
  rw [← run_append] at hgrows
  obtain ⟨operation, hop, hdecision⟩ := hinv.decided answer (hgrows.subset hanswer) d hd
  obtain ⟨receipt, version, hbacked⟩ := hinv.sound.backed operation hop
  refine ⟨⟨operation, receipt, version, hop, hbacked.recorded, hbacked.stored, hdecision,
    hbacked.outcome, hbacked.revision⟩, fun other hmem e he => ?_⟩
  obtain ⟨operation', hop', hdecision'⟩ := hinv.decided other hmem e he
  cases hop.symm.trans hop'
  exact some.inj (hdecision'.symm.trans hdecision)

end Runs

def sampleOwner : PreparedSourceOwner where
  formatVersion := 1
  key := some ⟨"library", "books", [1]⟩
  target := some ⟨"node", sampleHistory, sampleHistory, .server, ""⟩
  workflowId := [1]
  ownershipGeneration := 1
  phase := .prepared
  controlRevision := 1
  lastCommand := some ⟨1, some ⟨"library", "books", [1]⟩, "admin", [1]⟩
  readiness := none
  activation := none

def sampleIdentity : SourceAuthorityIdentity := ⟨1, sampleHistory, sampleHistory⟩

def sampleManaged : ActiveManagedCatalog where
  inner := ⟨true, some ⟨1, "library", "books"⟩, some ⟨1, some sampleIdentity, some sampleOwner, 0⟩,
    some ⟨1, some sampleIdentity, 1, 1, 2, 0⟩⟩
  writeEpoch := 1

/-- The source as it was activated, with nothing written and no call going on. -/
def sampleHosted : Hosted (AcceptDocumentRequest ⊕ ℕ) where
  db :=
    let new := Database.new sampleManaged.inner "books" sampleHistory
    { new with
      header := { new.header with
        formatVersion := Format.activeManaged
        managedBinding := sampleManaged.inner.managedBinding
        managedActivation := sampleManaged.inner.managedActivation } }
  authority := ⟨2, .current⟩
  callers := []
  answers := []

def sampleActor : ActorOperationKey := ⟨"writer", [1]⟩

def sampleReceipt : DocumentWriteReceipt := ⟨[1], 1, 1, true, false, true, false, sampleHistory, 1⟩

/-- The lease of a committed write lapses. A retry is answered with its receipt; then the right is
revoked, and the next retry fences it. -/
def lapsedThenRevoked : List Event :=
  [.accept (sampleWrite 1 [5]), .step 0 .fresh, .step 0 .fresh, .step 0 .fresh, .step 0 .fresh,
    .accept (sampleWrite 1 [5]), .step 1 .fresh, .step 1 .fresh, .step 1 .fresh,
    .step 0 .elapsed, .step 0 .elapsed, .control ⟨3, .unauthorized⟩,
    .accept (sampleWrite 1 [5]), .step 2 .fresh, .step 2 .fresh, .step 2 .fresh, .step 2 .fresh,
    .step 2 .fresh, .step 2 .fresh]

/-- A lease lapses, the right is revoked, and a settlement fences the write; then a retry asks. -/
def markedThenRevoked : List Event :=
  [.accept (sampleWrite 1 [5]), .step 0 .fresh, .step 0 .fresh, .step 0 .fresh, .step 0 .fresh,
    .step 0 .elapsed, .step 0 .elapsed, .control ⟨3, .unauthorized⟩,
    .settle, .step 1 .fresh, .step 1 .fresh, .step 1 .fresh, .step 1 .fresh, .step 1 .fresh]

theorem accepted_then_fenced :
    let s := run (Hosted.next sampleManaged sampleSha sampleActor) sampleHosted
      lapsedThenRevoked
    s.answers.map Answer.decision =
      [some (.accepted sampleReceipt), none, some (.fenced (fenced sampleReceipt 3))] := by
  decide +kernel

theorem one_decision_fenced : let step := Hosted.next sampleManaged sampleSha sampleActor
    let t := run step sampleHosted
      (markedThenRevoked ++ [.accept (sampleWrite 1 [5]), .step 2 .fresh])
    t.answers = [.unconfirmed sampleReceipt, .refused (fenced sampleReceipt 3), .refused (fenced sampleReceipt 3)] ∧
      Keeps sampleActor t.db (.fenced (fenced sampleReceipt 3)) ∧
      ∀ other ∈ t.answers, ∀ e, other.decision = some e → e = .fenced (fenced sampleReceipt 3) :=
  ⟨by decide +kernel,
    one_decision (s := sampleHosted) (by rfl) (by rfl) rfl rfl (by decide +kernel)
      (mem_of_getElem? (i := 1) (a := .refused (fenced sampleReceipt 3)) (by decide +kernel)) (by decide +kernel)⟩

end ProtomoltSearch.Catalog
