import ProtomoltSearch.Receiver.Authority

/-!
# When a frame is taken

Admission is open while the last answer that was published is fresh. That answer was published by the
newest refresh of the newest session, its policy is the stored one, and nothing has closed admission
since (`Grant`). Until a refresh begun afterwards publishes, frames are still taken under the answer
before it (`taken_while_refreshing`).

A policy that observes another assignment closes the journal for good, whatever is published or reopened
later (`frames_admitted`).
-/

namespace ProtomoltSearch.Receiver

open List Option Runs Freshness

open Catalog (checkedAdd)

variable {codec : Codec} {journal : ReplayJournal} {stored stored' : Stored} {fresh : Freshness}
  {frame : ReplayJournalFrame} {s : Node}

/-! ## What a frame that is taken has passed -/

/-- The policy admits a peer to the live assignment. -/
structure Admits (journal : ReplayJournal) (policy : ReplayAdmissionPolicy) (peer : Bytes) : Prop where
  enabled : policy.enabled = true
  lists : peer ∈ policy.sourceCertificateSha256
  live : journal.matchesLiveAssignment policy = true

lemma Freshness.check_ok {now : ℕ} {format : Format} (h : fresh.check now format = .ok ()) :
    ∃ deadline, fresh.deadline = some deadline ∧ now < deadline := by
  have h := refuseIf_ok.1 h
  simp only [Bool.or_eq_false_iff, Bool.not_eq_false'] at h
  obtain ⟨deadline, hdead, hlt⟩ := (any_eq_true _ _).1 h.2
  exact ⟨deadline, hdead, of_decide_eq_true hlt⟩

variable {receipt : ReplayJournalReceipt} {peer : Bytes}

lemma appendFrame_ok {last : ℕ}
    (h : appendFrame codec journal stored fresh frame (some peer) last = .ok (receipt, stored')) :
    (∃ deadline, fresh.deadline = some deadline ∧ last < deadline) := by
  unfold appendFrame at h
  split at h
  · obtain ⟨_, -, _, -, h⟩ := bind₂_ok.1 h
    obtain ⟨⟨⟩, hchk, -⟩ := bind_ok.1 h
    exact check_ok hchk
  · obtain ⟨_, h⟩ := rest_ok h
    obtain ⟨⟨⟩, hchk, -⟩ := bind_ok.1 h
    exact check_ok hchk

/-- A frame changes the frames and the frontier, and nothing of the policy. -/
lemma appendFrame_stored {peer : Option Bytes} {last : ℕ}
    (h : appendFrame codec journal stored fresh frame peer last = .ok (receipt, stored')) :
    stored' = stored ∨ stored' = stored.append frame := by
  unfold appendFrame at h
  split at h
  · obtain ⟨_, -, _, -, _, -, h⟩ := bind₃_ok.1 h
    exact .inl (congrArg Prod.snd (pure_ok.1 h)).symm
  · obtain ⟨_, _, h⟩ := rest₂_ok h
    exact .inr (congrArg Prod.snd (pure_ok.1 h)).symm

lemma authorizePeer_ok {policy : Option ReplayAdmissionPolicy} {fenced : Bool}
    (h : journal.authorizePeer policy (some peer) fenced = .ok ()) :
    fenced = false ∧ ∃ p, policy = some p ∧ Admits journal p peer := by
  cases policy with
  | none => cases h
  | some p =>
    have h := refuseIf_ok.1 h
    simp only [Bool.or_eq_false_iff, Bool.not_eq_false', contains_iff_mem, and_assoc] at h
    exact ⟨h.1, p, rfl, h.2.1, h.2.2.1, h.2.2.2⟩

variable {first last : ℕ}

/-- What a peer's frame has passed. -/
lemma acceptInner_ok
    (h : acceptInner codec journal stored fresh frame (some peer) first last = .ok (receipt, stored')) :
    stored.header.admissionFenced = false ∧
      (∃ policy, journal.readPolicy codec stored = .ok (some policy) ∧ Admits journal policy peer) ∧
      ∃ deadline, fresh.deadline = some deadline ∧ last < deadline := by
  obtain ⟨_, -, _, -, policy, hpol, h⟩ := bind₃_ok.1 h
  obtain ⟨⟨⟩, hauthorize, _, -, h⟩ := bind₂_ok.1 h
  obtain ⟨hfenced, p, hp, hadm⟩ := authorizePeer_ok hauthorize
  exact ⟨hfenced, ⟨p, hp ▸ hpol, hadm⟩, appendFrame_ok h⟩

lemma acceptInner_stored {peer : Option Bytes}
    (h : acceptInner codec journal stored fresh frame peer first last = .ok (receipt, stored')) :
    stored' = stored ∨ stored' = stored.append frame := by
  obtain ⟨_, -, _, -, policy, -, h⟩ := bind₃_ok.1 h
  obtain ⟨_, -, _, -, h⟩ := bind₂_ok.1 h
  exact appendFrame_stored h

/-! ## Handles -/

@[simp] lemma Freshness.invalidate_deadline (fresh : Freshness) :
    fresh.invalidate.2.deadline = none := by
  unfold invalidate
  split
  · rfl
  · split <;> rfl

/-- An invalidation opens a new generation, or leaves the old one without counters. -/
lemma Freshness.invalidate_cases (fresh : Freshness) :
    (fresh.invalidate.2.generation = fresh.generation + 1 ∧ fresh.invalidate.2.refresh = 0) ∨
      (fresh.invalidate.2.generation = fresh.generation ∧ fresh.invalidate.2.refresh = fresh.refresh ∧
        ∃ e, fresh.invalidate.1 = .error e) := by
  unfold invalidate
  split
  · exact .inr ⟨rfl, rfl, _, rfl⟩
  · split
    · rename_i next hnext
      exact .inl ⟨((Catalog.checkedAdd_eq_some.1 hnext).2).symm, rfl⟩
    · exact .inr ⟨rfl, rfl, _, rfl⟩

/-- The handles agree with the counters: a session of the current generation is the newest one, and
refreshes of one generation are numbered as they were begun. -/
structure Handles (s : Node) : Prop where
  session_le : ∀ (k : ℕ) (h : Session), s.sessions[k]? = some h → h.generation ≤ s.fresh.generation
  newest : ∀ (k : ℕ) (h : Session), s.sessions[k]? = some h → h.generation = s.fresh.generation →
    k + 1 = s.sessions.length
  session : ∀ (k : ℕ) (r : Refresh), s.refreshes[k]? = some r → ∃ h : Session,
    s.sessions[r.session]? = some h ∧ h.generation = r.generation ∧ (r.held = true → h.held = true)
  refresh_le : ∀ (k : ℕ) (r : Refresh), s.refreshes[k]? = some r →
    r.generation = s.fresh.generation → r.refresh ≤ s.fresh.refresh
  ordered : ∀ (k k' : ℕ) (r r' : Refresh), s.refreshes[k]? = some r → s.refreshes[k']? = some r' →
    k < k' → r.generation = r'.generation → r.refresh < r'.refresh

/-- A refresh is the newest one of the newest session, which is still open. -/
structure Newest (s : Node) (index : ℕ) (r : Refresh) : Prop where
  refresh : s.refreshes[index]? = some r
  session : r.session + 1 = s.sessions.length
  opened : ∃ h : Session, s.sessions[r.session]? = some h ∧ h.held = true
  last : ∀ (k : ℕ) (r' : Refresh), s.refreshes[k]? = some r' → r'.session = r.session → k ≤ index

lemma Handles.of_empty (hsess : s.sessions = []) (hrefr : s.refreshes = []) : Handles s := by
  have hsession : ∀ {k : ℕ} {h : Session}, s.sessions[k]? ≠ some h := by simp [hsess]
  have hrefresh : ∀ {k : ℕ} {r : Refresh}, s.refreshes[k]? ≠ some r := by simp [hrefr]
  exact ⟨fun _ _ hk => absurd hk hsession, fun _ _ hk => absurd hk hsession,
    fun _ _ hk => absurd hk hrefresh, fun _ _ hk => absurd hk hrefresh,
    fun _ _ _ _ hk => absurd hk hrefresh⟩

variable {r : Refresh}

open Node

/-- Only the newest refresh of the newest session is current. -/
lemma Handles.current (h : Handles s) {index : ℕ} (hr : s.refreshes[index]? = some r)
    (hheld : r.held = true) (hcur : s.current r = true) : Newest s index r := by
  simp only [Node.current, Bool.and_eq_true, Bool.not_eq_true', beq_iff_eq] at hcur
  obtain ⟨⟨-, hgen⟩, _⟩ := hcur
  obtain ⟨handle, hhandle, heq, hopen⟩ := h.session index r hr
  refine ⟨hr, h.newest _ _ hhandle (heq.trans hgen), ⟨handle, hhandle, hopen hheld⟩,
    fun k r' hr' hsess => ?_⟩
  by_contra hlt
  obtain ⟨_, hhandle', heq', -⟩ := h.session k r' hr'
  rw [hsess] at hhandle'
  cases hhandle.symm.trans hhandle'
  have hsame := heq.symm.trans heq'
  have hordered := h.ordered index k r r' hr hr' (Nat.not_le.1 hlt) hsame
  have hle := h.refresh_le k r' hr' (hsame.symm.trans hgen)
  omega

section Steps

variable {s' : Node}

section

variable {α : Type} {l : List α} {a b : α} {k : ℕ}

lemma getElem?_snoc (h : (l ++ [a])[k]? = some b) : l[k]? = some b ∨ (k = l.length ∧ a = b) := by
  rw [getElem?_append] at h
  split at h
  · exact .inl h
  · rw [getElem?_singleton] at h
    split at h
    · exact .inr ⟨by omega, some.inj h⟩
    · cases h

lemma getElem?_snoc_of_eq_some (h : l[k]? = some b) : (l ++ [a])[k]? = some b :=
  (List.getElem?_append_left (List.getElem?_eq_some_iff.1 h).1).trans h

end

structure SameHandles (s s' : Node) : Prop where
  sessions : s'.sessions = s.sessions
  refreshes : s'.refreshes = s.refreshes
  generation : s'.fresh.generation = s.fresh.generation
  refresh : s'.fresh.refresh = s.fresh.refresh

lemma Handles.congr (h : Handles s) (hsame : SameHandles s s') : Handles s' := by
  obtain ⟨hsess, hrefr, hgen, hrefresh⟩ := hsame
  refine ⟨?_, ?_, ?_, ?_, ?_⟩
  · rw [hsess, hgen]
    exact h.session_le
  · rw [hsess, hgen]
    exact h.newest
  · rw [hsess, hrefr]
    exact h.session
  · rw [hrefr, hgen, hrefresh]
    exact h.refresh_le
  · rw [hrefr]
    exact h.ordered

/-- In a new generation no handle is current. -/
lemma Handles.invalidate (h : Handles s) (hsess : s'.sessions = s.sessions)
    (hrefr : s'.refreshes = s.refreshes) (hfresh : s'.fresh = s.fresh.invalidate.2) :
    Handles s' := by
  rcases s.fresh.invalidate_cases with ⟨hgen, -⟩ | ⟨hgen, hrefresh, -⟩
  · rw [← hfresh] at hgen
    refine ⟨fun k handle hk => ?_, fun k handle hk heq => ?_, ?_, fun k r hr heq => ?_, ?_⟩
    · rw [hsess] at hk
      have hle := h.session_le k handle hk
      omega
    · rw [hsess] at hk
      have hle := h.session_le k handle hk
      omega
    · rw [hsess, hrefr]
      exact h.session
    · rw [hrefr] at hr
      obtain ⟨handle, hhandle, _, -⟩ := h.session k r hr
      have hle := h.session_le _ _ hhandle
      omega
    · rw [hrefr]
      exact h.ordered
  · rw [← hfresh] at hgen hrefresh
    exact h.congr ⟨hsess, hrefr, hgen, hrefresh⟩

lemma Handles.openSession (h : Handles s) : Handles s.openSession := by
  have hinv : Handles { s with fresh := s.fresh.invalidate.2 } := h.invalidate rfl rfl rfl
  unfold Node.openSession
  rcases s.fresh.invalidate_cases with ⟨_, -⟩ | ⟨-, -, e, he⟩
  · cases hres : s.fresh.invalidate.1 with
    | error e =>
      simp only [hres]
      exact hinv
    | ok =>
      simp only [hres]
      refine ⟨fun k handle hk => ?_, fun k handle hk heq => ?_, fun k r hr => ?_, hinv.refresh_le,
        hinv.ordered⟩
      · rcases getElem?_snoc hk with hk | ⟨-, rfl⟩
        · exact hinv.session_le k handle hk
        · exact Nat.le_refl _
      · rcases getElem?_snoc hk with hk | ⟨rfl, rfl⟩
        · have hle := h.session_le k handle hk
          dsimp only at heq
          omega
        · simp
      · obtain ⟨handle, hhandle, hrest⟩ := h.session k r hr
        exact ⟨handle, getElem?_snoc_of_eq_some hhandle, hrest⟩
  · simp only [he]
    exact hinv

lemma Handles.beginRefresh (h : Handles s) {session validFor ago : ℕ} {handle : Session}
    (hhandle : s.sessions[session]? = some handle) (hheld : handle.held = true) :
    Handles (s.beginRefresh session handle validFor ago) := by
  unfold Node.beginRefresh
  split
  · exact h
  split
  · exact h
  rename_i hcur
  obtain ⟨-, hgen⟩ : s.fresh.exhausted ≠ true ∧ handle.generation = s.fresh.generation := by
    simpa using hcur
  cases hnext : checkedAdd s.fresh.refresh 1 with
  | none => exact h.congr ⟨rfl, rfl, rfl, rfl⟩
  | some refresh =>
    have hrefr := (Catalog.checkedAdd_eq_some.1 hnext).2
    refine ⟨h.session_le, h.newest, fun k r hr => ?_, fun k r hr heq => ?_,
      fun k k' r r' hr hr' hlt heq => ?_⟩
    · rcases getElem?_snoc hr with hr | ⟨-, rfl⟩
      · exact h.session k r hr
      · exact ⟨handle, hhandle, rfl, fun _ => hheld⟩
    · rcases getElem?_snoc hr with hr | ⟨-, rfl⟩
      · have hle := h.refresh_le k r hr heq
        dsimp only
        omega
      · exact Nat.le_refl _
    · rcases getElem?_snoc hr' with hr' | ⟨rfl, rfl⟩
      · rcases getElem?_snoc hr with hr | ⟨rfl, -⟩
        · exact h.ordered k k' r r' hr hr' hlt heq
        · have hlen := (List.getElem?_eq_some_iff.1 hr').1
          omega
      · rcases getElem?_snoc hr with hr | ⟨rfl, -⟩
        · have hle := h.refresh_le k r hr (heq.trans hgen)
          dsimp only
          omega
        · exact absurd hlt (Nat.lt_irrefl _)

/-- A handle of the refreshes after one is used up. -/
lemma release_getElem? {refresh k : ℕ} {r : Refresh} (h : (s.release refresh).refreshes[k]? = some r) :
    ∃ r₀, s.refreshes[k]? = some r₀ ∧ r.session = r₀.session ∧ r.generation = r₀.generation ∧
      r.refresh = r₀.refresh ∧ (r.held = true → r₀.held = true) := by
  rw [release, getElem?_modify] at h
  obtain ⟨r₀, hr₀, rfl⟩ := map_eq_some_iff.1 h
  refine ⟨r₀, hr₀, ?_⟩
  split
  · exact ⟨rfl, rfl, rfl, fun hheld => nomatch hheld⟩
  · exact ⟨rfl, rfl, rfl, id⟩

lemma Handles.release (h : Handles s) (refresh : ℕ) : Handles (s.release refresh) := by
  refine ⟨h.session_le, h.newest, fun k r hr => ?_, fun k r hr heq => ?_,
    fun k k' r r' hr hr' hlt heq => ?_⟩
  · obtain ⟨r₀, hr₀, hsess, hgen, -, hheld⟩ := release_getElem? hr
    obtain ⟨handle, hhandle, hsame, hopen⟩ := h.session k r₀ hr₀
    exact ⟨handle, hsess ▸ hhandle, hsame.trans hgen.symm, fun hr => hopen (hheld hr)⟩
  · obtain ⟨r₀, hr₀, -, hgen, hrefr, -⟩ := release_getElem? hr
    rw [hrefr]
    exact h.refresh_le k r₀ hr₀ (hgen.symm.trans heq)
  · obtain ⟨r₀, hr₀, -, hgen, hrefr, -⟩ := release_getElem? hr
    obtain ⟨r₀', hr₀', -, hgen', hrefr', -⟩ := release_getElem? hr'
    rw [hrefr, hrefr']
    exact h.ordered k k' r₀ r₀' hr₀ hr₀' hlt (hgen.symm.trans (heq.trans hgen'))

/-- A session that no refresh borrows is dropped. -/
lemma Handles.dropSession (h : Handles s) {session : ℕ} {handle : Session}
    (hborrowed : s.borrowed session = false) : Handles (s.dropSession session handle) := by
  have hgen : (s.dropSession session handle).fresh.generation = s.fresh.generation := by
    unfold Node.dropSession
    split <;> rfl
  have hrefr : (s.dropSession session handle).fresh.refresh = s.fresh.refresh := by
    unfold Node.dropSession
    split <;> rfl
  have hsess : ∀ (k : ℕ) (x : Session), (s.dropSession session handle).sessions[k]? = some x →
      ∃ x₀, s.sessions[k]? = some x₀ ∧ x.generation = x₀.generation := by
    intro k x hx
    rw [Node.dropSession, getElem?_modify] at hx
    obtain ⟨x₀, hx₀, rfl⟩ := map_eq_some_iff.1 hx
    exact ⟨x₀, hx₀, by split <;> rfl⟩
  refine ⟨fun k x hx => ?_, fun k x hx heq => ?_, fun k r hr => ?_, ?_, h.ordered⟩
  · obtain ⟨x₀, hx₀, hsame⟩ := hsess k x hx
    rw [hgen, hsame]
    exact h.session_le k x₀ hx₀
  · obtain ⟨x₀, hx₀, hsame⟩ := hsess k x hx
    rw [hgen, hsame] at heq
    rw [Node.dropSession, length_modify]
    exact h.newest k x₀ hx₀ heq
  · obtain ⟨x₀, hx₀, hsame, hopen⟩ := h.session k r hr
    rw [Node.dropSession, getElem?_modify, hx₀]
    refine ⟨_, rfl, ?_, fun hheld => ?_⟩
    · split
      · exact hsame
      · exact hsame
    · -- the session of a refresh that is held is borrowed
      have hne : session ≠ r.session := by
        rintro rfl
        refine absurd ?_ (ne_true_of_eq_false hborrowed)
        exact any_eq_true.2 ⟨r, mem_of_getElem? hr, by simp [hheld]⟩
      dsimp only
      rw [if_neg hne]
      exact hopen hheld
  · rw [hgen, hrefr]
    exact h.refresh_le

lemma Handles.publish (h : Handles s) {r : Refresh} {policy : ReplayAdmissionPolicy} {commit : Commit}
    {wait persist : ℕ} : Handles (s.publish codec journal r policy commit wait persist).2 := by
  unfold Node.publish
  split
  · exact h
  split
  · exact h.congr ⟨rfl, rfl, rfl, rfl⟩
  split
  · exact h.congr ⟨rfl, rfl, rfl, rfl⟩
  · dsimp only
    split
    · exact h.congr ⟨rfl, rfl, rfl, rfl⟩
    · exact h.congr ⟨rfl, rfl, rfl, rfl⟩

lemma Node.authorize_cases (s : Node) (policy : ReplayAdmissionPolicy) (commit : Commit) :
    (s.authorize codec journal policy commit).fresh = s.fresh.invalidate.2 ∧
      (s.authorize codec journal policy commit).sessions = s.sessions ∧
      (s.authorize codec journal policy commit).refreshes = s.refreshes ∧
      ((s.authorize codec journal policy commit).stored = s.stored ∨
        ∃ stored', journal.persistAuthorization codec s.stored policy = .ok stored' ∧
          (s.authorize codec journal policy commit).stored = stored') := by
  unfold authorize
  dsimp only
  split
  · exact ⟨rfl, rfl, rfl, .inl rfl⟩
  · split
    · exact ⟨rfl, rfl, rfl, .inl rfl⟩
    · rename_i stored' hpers
      refine ⟨rfl, rfl, rfl, ?_⟩
      cases commit with
      | done | unreported => exact .inr ⟨stored', hpers, rfl⟩
      | failed => exact .inl rfl

/-- A frame that is offered changes what is durable only if it is taken. -/
lemma Node.offer_cases (s : Node) (frame : ReplayJournalFrame) (peer : Option Bytes) (commit : Commit)
    (wait append : ℕ) : (s.offer codec journal frame peer commit wait append).fresh = s.fresh ∧
      (s.offer codec journal frame peer commit wait append).sessions = s.sessions ∧
      (s.offer codec journal frame peer commit wait append).refreshes = s.refreshes ∧
      ((s.offer codec journal frame peer commit wait append).stored = s.stored ∨
        (s.offer codec journal frame peer commit wait append).stored = s.stored.append frame) := by
  unfold offer
  dsimp only
  split
  · exact ⟨rfl, rfl, rfl, .inl rfl⟩
  · rename_i receipt stored' hacc
    refine ⟨rfl, rfl, rfl, ?_⟩
    cases commit with
    | failed => exact .inl rfl
    | done | unreported => exact acceptInner_stored hacc

/-- The handles agree with the counters after every step. -/
lemma Handles.next (h : Handles s) (event : Event) : Handles (s.next codec journal event) := by
  cases event with
  | session => exact h.openSession
  | begin session validFor ago =>
    dsimp only [Node.next]
    split
    · split
      · exact h.beginRefresh ‹_› ‹_›
      · exact h
    · exact h
  | publish refresh policy commit wait persist =>
    dsimp only [Node.next]
    split
    · split
      · exact h.publish.release refresh
      · exact h
    · exact h
  | forget refresh => exact h.release refresh
  | drop session =>
    dsimp only [Node.next]
    split
    · split
      · rename_i hdrop
        simp only [Bool.and_eq_true, Bool.not_eq_true'] at hdrop
        exact h.dropSession hdrop.2
      · exact h
    · exact h
  | suspend => exact h.invalidate rfl rfl rfl
  | authorize policy commit =>
    obtain ⟨hfresh, hsess, hrefr, -⟩ := s.authorize_cases policy commit
    exact h.invalidate hsess hrefr hfresh
  | offer frame peer commit wait append =>
    obtain ⟨hfresh, hsess, hrefr, -⟩ := s.offer_cases frame peer commit wait append
    exact h.congr ⟨hsess, hrefr, by rw [Node.next, hfresh], by rw [Node.next, hfresh]⟩
  | wait time => exact h.congr ⟨rfl, rfl, rfl, rfl⟩
  | restart => exact .of_empty rfl rfl

end Steps

/-! ## Grants -/

/-- The event closes the admission a session has opened, or replaces the answer that opened it. -/
def Closes (session : ℕ) (s : Node) : Event → Prop
  | .session => True
  | .suspend => True
  | .authorize _ _ => True
  | .restart => True
  | .drop k => k = session ∧ s.borrowed k = false ∧ ∃ h : Session, s.sessions[k]? = some h ∧ h.held = true
  | .publish k _ _ _ _ => ∃ r : Refresh, s.refreshes[k]? = some r ∧ r.held = true ∧ s.current r = true
  | _ => False

/-- A place in a run where a refresh was published. -/
structure Publication where
  before : List Event
  index : ℕ
  policy : ReplayAdmissionPolicy
  commit : Commit
  wait : ℕ
  persist : ℕ
  after : List Event
  refresh : Refresh

def Publication.event (p : Publication) : Event :=
  .publish p.index p.policy p.commit p.wait p.persist

/-- Why admission is open. The newest refresh of the newest session has published the stored policy,
and nothing has closed admission since. -/
structure Grant (codec : Codec) (journal : ReplayJournal) (start : Node) (past : List Event)
    (p : Publication) : Prop where
  split : past = p.before ++ p.event :: p.after
  newest : Newest (run (Node.next codec journal) start p.before) p.index p.refresh
  published : ((run (Node.next codec journal) start p.before).publish codec journal p.refresh
    p.policy p.commit p.wait p.persist).1 = true
  kept : Runs.Meets (Node.next codec journal) (fun u event => ¬Closes p.refresh.session u event)
    (run (Node.next codec journal) start (p.before ++ [p.event])) p.after

/-- Admission is open under what a refresh has published: its session is of the current generation. -/
structure OpenUnder (s : Node) (r : Refresh) (policy : ReplayAdmissionPolicy) : Prop where
  deadline : s.fresh.deadline = some r.deadline
  stored : s.stored.admission = some policy
  session : ∃ h : Session, s.sessions[r.session]? = some h ∧ h.generation = s.fresh.generation

/-- The step leaves admission as it was, and does not close what a current session has opened. -/
structure LeavesOpen (s : Node) (event : Event) (s' : Node) : Prop where
  deadline : s'.fresh.deadline = s.fresh.deadline
  stored : s'.stored.admission = s.stored.admission
  generation : s'.fresh.generation = s.fresh.generation
  session : ∀ (k : ℕ) (h : Session), s.sessions[k]? = some h →
    ∃ h' : Session, s'.sessions[k]? = some h' ∧ h'.generation = h.generation
  not_closes : ∀ (k : ℕ) (h : Session), s.sessions[k]? = some h → h.generation = s.fresh.generation →
    ¬Closes k s event

variable {policy : ReplayAdmissionPolicy}

lemma OpenUnder.leavesOpen {event : Event} {s' : Node} (h : OpenUnder s r policy)
    (hleaves : LeavesOpen s event s') : OpenUnder s' r policy ∧ ¬Closes r.session s event := by
  obtain ⟨_, hhandle, hgen⟩ := h.session
  obtain ⟨handle', hhandle', hsame⟩ := hleaves.session _ _ hhandle
  exact ⟨⟨hleaves.deadline.trans h.deadline, hleaves.stored.trans h.stored, handle', hhandle',
      hsame.trans (hgen.trans hleaves.generation.symm)⟩,
    hleaves.not_closes _ _ hhandle hgen⟩

lemma openSession_deadline (s : Node) : s.openSession.fresh.deadline = none := by
  unfold openSession
  dsimp only
  split <;> exact invalidate_deadline _

lemma beginRefresh_cases (s : Node) (session validFor ago : ℕ) (handle : Session) :
    (s.beginRefresh session handle validFor ago).fresh.deadline = none ∨
      ((s.beginRefresh session handle validFor ago).fresh.deadline = s.fresh.deadline ∧
        (s.beginRefresh session handle validFor ago).stored = s.stored ∧
        (s.beginRefresh session handle validFor ago).sessions = s.sessions ∧
        (s.beginRefresh session handle validFor ago).fresh.generation = s.fresh.generation) := by
  unfold beginRefresh
  split
  · exact .inr ⟨rfl, rfl, rfl, rfl⟩
  split
  · exact .inr ⟨rfl, rfl, rfl, rfl⟩
  split
  · exact .inr ⟨rfl, rfl, rfl, rfl⟩
  · exact .inl rfl

lemma persistAuthorization_admission
    (h : journal.persistAuthorization codec stored policy = .ok stored') :
    stored'.admission = some policy := by
  rcases persistAuthorization_ok h with ⟨rfl, hsame⟩ | rfl
  · exact hsame
  · rfl

section

variable (s : Node) (policy : ReplayAdmissionPolicy) (commit : Commit) (wait persist : ℕ)

/-- A current refresh that publishes opens admission with its policy, or closes it. -/
lemma publish_cases (hcur : s.current r = true) :
    (s.publish codec journal r policy commit wait persist).2.fresh.deadline = none ∨
      ((s.publish codec journal r policy commit wait persist).1 = true ∧
        (s.publish codec journal r policy commit wait persist).2.fresh.deadline = some r.deadline ∧
        (s.publish codec journal r policy commit wait persist).2.stored.admission = some policy ∧
        (s.publish codec journal r policy commit wait persist).2.sessions = s.sessions ∧
        (s.publish codec journal r policy commit wait persist).2.fresh.generation =
          s.fresh.generation) := by
  unfold publish
  rw [hcur]
  split
  · exact absurd ‹_› Bool.false_ne_true
  split
  · exact .inl rfl
  split
  · exact .inl rfl
  · rename_i stored' hpers
    dsimp only
    split
    · rename_i hreported
      refine .inr ⟨rfl, rfl, ?_, rfl, rfl⟩
      cases commit with
      | done => exact persistAuthorization_admission hpers
      | failed | unreported => cases hreported
    · exact .inl rfl

lemma publish_of_not_current (hcur : s.current r = false) :
    (s.publish codec journal r policy commit wait persist).2 = s := by
  unfold publish
  rw [hcur]
  rfl

end

lemma dropSession_cases (s : Node) (session : ℕ) (handle : Session) :
    (s.dropSession session handle).fresh.deadline = none ∨
      ((s.dropSession session handle).fresh = s.fresh ∧ s.fresh.generation ≠ handle.generation) := by
  unfold dropSession
  split
  · exact .inl rfl
  · exact .inr ⟨rfl, ‹_›⟩

lemma release_openUnder (h : OpenUnder s r policy)
    (refresh : ℕ) : OpenUnder (s.release refresh) r policy :=
  ⟨h.deadline, h.stored, h.session⟩

/-- What a publication by a handle that is held does to admission. -/
lemma next_publish (h : Handles s) {index : ℕ} (policy : ReplayAdmissionPolicy)
    (commit : Commit) (wait persist : ℕ) (hr : s.refreshes[index]? = some r) (hheld : r.held = true) :
    (s.next codec journal (.publish index policy commit wait persist)).fresh.deadline = none ∨
      (Newest s index r ∧ (s.publish codec journal r policy commit wait persist).1 = true ∧
        OpenUnder (s.next codec journal (.publish index policy commit wait persist)) r policy) ∨
      LeavesOpen s (.publish index policy commit wait persist)
        (s.next codec journal (.publish index policy commit wait persist)) := by
  have hnext : s.next codec journal (.publish index policy commit wait persist) =
      (s.publish codec journal r policy commit wait persist).2.release index := by
    simp [Node.next, hr, hheld]
  rw [hnext]
  cases hcur : s.current r with
  | false =>
    rw [publish_of_not_current s policy commit wait persist hcur]
    refine .inr (.inr ⟨rfl, rfl, rfl, fun k x hx => ⟨x, hx, rfl⟩, ?_⟩)
    rintro - - - - ⟨r', hr', -, hcur'⟩
    cases hr.symm.trans hr'
    exact ne_true_of_eq_false hcur hcur'
  | true =>
    rcases publish_cases s policy commit wait persist hcur with hnone | ⟨hpub, hdead, hstored,
      hsess, hgen⟩
    · exact .inl hnone
    · obtain ⟨handle, hhandle, hsame, -⟩ := h.session index r hr
      simp only [current, Bool.and_eq_true, beq_iff_eq] at hcur
      refine .inr (.inl ⟨?_, hpub, release_openUnder ⟨hdead, hstored, handle, ?_, ?_⟩ index⟩)
      · exact h.current hr hheld (by simpa [current] using hcur)
      · rw [hsess]
        exact hhandle
      · rw [hgen, hsame, hcur.1.2]

/-- What a step does to admission: it closes it, the newest refresh opens it, or it leaves it. -/
lemma next_cases (h : Handles s) (event : Event) :
    (s.next codec journal event).fresh.deadline = none ∨
      (∃ index policy commit wait persist r, event = .publish index policy commit wait persist ∧
        Newest s index r ∧ (s.publish codec journal r policy commit wait persist).1 = true ∧
        OpenUnder (s.next codec journal event) r policy) ∨
      LeavesOpen s event (s.next codec journal event) := by
  have hsame : ∀ {s' : Node} {event : Event}, s'.fresh.deadline = s.fresh.deadline →
      s'.stored.admission = s.stored.admission → s'.fresh.generation = s.fresh.generation →
      s'.sessions = s.sessions → (∀ k, ¬Closes k s event) → LeavesOpen s event s' := by
    intro s' event hdead hstored hgen hsess hnot
    exact ⟨hdead, hstored, hgen, fun k x hx => ⟨x, hsess ▸ hx, rfl⟩, fun k _ _ _ => hnot k⟩
  cases event with
  | session => exact .inl (openSession_deadline s)
  | begin session validFor ago =>
    dsimp only [Node.next]
    split
    · split
      · rename_i handle _ _
        rcases beginRefresh_cases s session validFor ago handle with hnone | ⟨hdead, hstored, hsess,
          hgen⟩
        · exact .inl hnone
        · exact .inr (.inr (hsame hdead (congrArg _ hstored) hgen hsess fun _ => id))
      · exact .inr (.inr (hsame rfl rfl rfl rfl fun _ => id))
    · exact .inr (.inr (hsame rfl rfl rfl rfl fun _ => id))
  | publish index policy commit wait persist =>
    by_cases hheld : ∃ r : Refresh, s.refreshes[index]? = some r ∧ r.held = true
    · obtain ⟨r, hr, hheld⟩ := hheld
      refine (next_publish h policy commit wait persist hr hheld).imp_right (Or.imp_left ?_)
      exact fun hopens => ⟨index, policy, commit, wait, persist, r, rfl, hopens⟩
    · have hnext : s.next codec journal (.publish index policy commit wait persist) = s := by
        dsimp only [Node.next]
        split
        · rename_i r hr
          exact if_neg fun hr' => hheld ⟨r, hr, hr'⟩
        · rfl
      rw [hnext]
      refine .inr (.inr (hsame rfl rfl rfl rfl ?_))
      rintro - ⟨r, hr, hr', -⟩
      exact hheld ⟨r, hr, hr'⟩
  | forget refresh | wait time => exact .inr (.inr (hsame rfl rfl rfl rfl fun _ => id))
  | drop session =>
    dsimp only [Node.next]
    split
    · rename_i handle hhandle
      split
      · rcases dropSession_cases s session handle with hnone | ⟨hfresh, hne⟩
        · exact .inl hnone
        · refine .inr (.inr ⟨congrArg _ hfresh, rfl, congrArg _ hfresh, fun k x hx => ?_, ?_⟩)
          · rw [dropSession, getElem?_modify, hx]
            exact ⟨_, rfl, by split <;> rfl⟩
          · rintro k x hx hgen ⟨rfl, -, -⟩
            cases hhandle.symm.trans hx
            exact hne hgen.symm
      · rename_i hdrop
        refine .inr (.inr (hsame rfl rfl rfl rfl ?_))
        rintro k ⟨-, hborrowed, x, hx, hx'⟩
        cases hhandle.symm.trans hx
        exact hdrop (by simp [hborrowed, hx'])
    · rename_i hnone
      refine .inr (.inr (hsame rfl rfl rfl rfl ?_))
      rintro k ⟨-, -, x, hx, -⟩
      exact nomatch hnone.symm.trans hx
  | suspend => exact .inl s.fresh.invalidate_deadline
  | authorize policy commit =>
    obtain ⟨hfresh, -⟩ := s.authorize_cases policy commit
    exact .inl ((congrArg _ hfresh).trans s.fresh.invalidate_deadline)
  | offer frame peer commit wait append =>
    obtain ⟨hfresh, hsess, -, hstored⟩ := s.offer_cases frame peer commit wait append
    refine .inr (.inr (hsame (congrArg _ hfresh) ?_ (congrArg _ hfresh) hsess fun _ => id))
    dsimp only [Node.next]
    rcases hstored with hstored | hstored
    · rw [hstored]
    · rw [hstored]
      rfl
  | restart => exact .inl rfl

/-! ## Runs -/

/-- What holds of every state reached: the handles agree, and admission that is open was granted. -/
structure Reached (codec : Codec) (journal : ReplayJournal) (start : Node) (past : List Event) (s : Node) :
    Prop where
  handles : Handles s
  granted : s.fresh.deadline ≠ none →
    ∃ p, Grant codec journal start past p ∧ OpenUnder s p.refresh p.policy

lemma Grant.snoc {start : Node} {past : List Event} {p : Publication} {event : Event}
    (h : Grant codec journal start past p)
    (hkept : ¬Closes p.refresh.session (run (Node.next codec journal) start past) event) :
    Grant codec journal start (past ++ [event]) { p with after := p.after ++ [event] } := by
  refine ⟨?_, h.newest, h.published, meets_snoc.2 ⟨h.kept, ?_⟩⟩
  · rw [h.split]
    simp [Publication.event]
  · have hrun : run (next codec journal) start past =
        run (next codec journal) (run (next codec journal) start (p.before ++ [p.event]))
          p.after := by
      rw [← run_append, h.split, append_assoc, singleton_append]
    exact hrun ▸ hkept

lemma Reached.next {start : Node} {past : List Event}
    (h : Reached codec journal start past (run (Node.next codec journal) start past)) (event : Event) :
    Reached codec journal start (past ++ [event])
      ((run (Node.next codec journal) start past).next codec journal event) := by
  refine ⟨h.handles.next event, fun hopen => ?_⟩
  rcases next_cases h.handles event with hnone | ⟨index, policy, commit, wait, persist, r, rfl, hnewest,
    hpub, hunder⟩ | hleaves
  · exact absurd hnone hopen
  · exact ⟨⟨past, index, policy, commit, wait, persist, [], r⟩, ⟨rfl, hnewest, hpub, trivial⟩, hunder⟩
  · obtain ⟨p, hgrant, hunder⟩ := h.granted (hleaves.deadline ▸ hopen)
    obtain ⟨hunder', hnot⟩ := hunder.leavesOpen hleaves
    exact ⟨_, hgrant.snoc hnot, hunder'⟩

def opened (stored : Stored) (now : ℕ) : Node := ⟨stored, .default, now, [], []⟩

lemma reached (stored : Stored) (now : ℕ) (past : List Event) :
    Reached codec journal (opened stored now) past
      (run (Node.next codec journal) (opened stored now) past) :=
  run_past (I := Reached codec journal (opened stored now))
    ⟨.of_empty rfl rfl, fun hopen => absurd rfl hopen⟩ fun _ event h => h.next event

/-! ## The permanent fence -/

/-- The journal is fenced, or its policy lacks the fence it has to have. -/
def Blocked (journal : ReplayJournal) (stored : Stored) : Prop :=
  stored.header.admissionFenced = true ∨
    ∃ policy, stored.admission = some policy ∧ journal.matchesLiveAssignment policy = false

lemma Blocked.append (h : Blocked journal stored) (frame : ReplayJournalFrame) :
    Blocked journal (stored.append frame) := h

/-- A policy that lacks its fence is not read. -/
lemma readPolicy_fenced {held : Option ReplayAdmissionPolicy}
    (h : journal.readPolicy codec stored = .ok held) (hstored : stored.admission = some policy)
    (hlive : journal.matchesLiveAssignment policy = false) : stored.header.admissionFenced = true := by
  have hread : journal.storedPolicy codec stored policy = .ok held →
      stored.header.admissionFenced = true := by
    intro h
    obtain ⟨_, -, _, -, _, -, h⟩ := bind₃_ok.1 h
    obtain ⟨⟨⟩, hfence, -⟩ := bind_ok.1 h
    simpa [hlive] using hfence
  unfold ReplayJournal.readPolicy at h
  rw [hstored] at h
  split at h
  · exact nomatch ‹some policy = none›
  · obtain rfl := some.inj ‹some policy = some _›
    exact hread h
  · obtain rfl := some.inj ‹some policy = some _›
    exact hread h
  · cases h

lemma Blocked.persist (h : Blocked journal stored)
    (hpers : journal.persistAuthorization codec stored policy = .ok stored') :
    Blocked journal stored' := by
  have hfenced : stored.header.admissionFenced = true := by
    rcases h with hfenced | ⟨policy, hpol, hlive⟩
    · exact hfenced
    · obtain ⟨_, -, _, -, _, -, hpers⟩ := bind₃_ok.1 hpers
      obtain ⟨_, hheld, -⟩ := bind_ok.1 hpers
      exact readPolicy_fenced hheld hpol hlive
  rcases persistAuthorization_ok hpers with ⟨rfl, -⟩ | rfl
  · exact .inl hfenced
  · exact .inl (by simp [ReplayJournal.record, hfenced])

lemma Blocked.end (h : Blocked journal stored) (h' : Blocked journal stored') (commit : Commit) :
    Blocked journal (commit.end stored stored').1 := by
  cases commit with
  | done | unreported => exact h'
  | failed => exact h

lemma Blocked.publish (h : Blocked journal s.stored) {commit : Commit} {wait persist : ℕ} :
    Blocked journal (s.publish codec journal r policy commit wait persist).2.stored := by
  unfold Node.publish
  split
  · exact h
  split
  · exact h
  split
  · exact h
  · rename_i stored' hpers
    dsimp only
    split
    · exact h.end (h.persist hpers) commit
    · exact h.end (h.persist hpers) commit

/-- **The fence is kept by every step**, a restart included. -/
theorem Blocked.next (h : Blocked journal s.stored) (event : Event) :
    Blocked journal (s.next codec journal event).stored := by
  cases event with
  | session =>
    dsimp only [Node.next, Node.openSession]
    split <;> exact h
  | begin session validFor ago =>
    dsimp only [Node.next]
    split
    · split
      · unfold beginRefresh
        split
        · exact h
        split
        · exact h
        split <;> exact h
      · exact h
    · exact h
  | publish index policy commit wait persist =>
    dsimp only [Node.next]
    split
    · split
      · exact h.publish
      · exact h
    · exact h
  | forget refresh | suspend | wait time | restart => exact h
  | drop session =>
    dsimp only [Node.next]
    split
    · split <;> exact h
    · exact h
  | authorize policy commit =>
    obtain ⟨-, -, -, hstored | ⟨stored', hpers, hstored⟩⟩ := s.authorize_cases policy commit
    · exact hstored.symm ▸ h
    · exact hstored.symm ▸ h.persist hpers
  | offer frame peer commit wait append =>
    obtain ⟨-, -, -, hstored | hstored⟩ := s.offer_cases frame peer commit wait append
    · exact hstored.symm ▸ h
    · exact hstored.symm ▸ h.append frame

lemma Blocked.refuses (h : Blocked journal stored) :
    acceptInner codec journal stored fresh frame (some peer) first last ≠ .ok (receipt, stored') := by
  intro hacc
  obtain ⟨hfenced, ⟨policy, hpol, hadm⟩, -⟩ := acceptInner_ok hacc
  rcases h with h | ⟨policy', hpol', hlive⟩
  · exact nomatch hfenced.symm.trans h
  · obtain rfl := some.inj (hpol'.symm.trans (readPolicy_eq_some hpol))
    exact nomatch hlive.symm.trans hadm.live

/-! ## The theorem -/

/-- **When a peer's frame is taken, and when none is taken again.** A frame is taken only under a refresh
that was published as the newest one of the newest session, before its deadline, if its policy admits the
peer and nothing has closed admission since. Once a policy of another assignment is recorded, no run leads
to a state in which a frame of a peer is taken. -/
theorem frames_admitted (codec : Codec) (journal : ReplayJournal) (stored : Stored) (now : ℕ)
    (past : List Event) (s : Node)
    (hreached : s = run (Node.next codec journal) (opened stored now) past) :
    (∀ frame peer first last receipt stored',
      acceptInner codec journal s.stored s.fresh frame (some peer) first last = .ok (receipt, stored') →
      ∃ p : Publication, Grant codec journal (opened stored now) past p ∧ Admits journal p.policy peer ∧
        last < p.refresh.deadline) ∧
    (∀ policy, s.stored.admission = some policy → journal.matchesLiveAssignment policy = false →
      ∀ future frame peer first last receipt stored',
        acceptInner codec journal (run (Node.next codec journal) s future).stored
          (run (Node.next codec journal) s future).fresh frame (some peer) first last ≠
            .ok (receipt, stored')) := by
  constructor
  · intro frame peer first last receipt stored' haccept
    obtain ⟨-, ⟨policy, hpolicy, hadmits⟩, deadline, hdeadline, hlast⟩ := acceptInner_ok haccept
    obtain ⟨p, hgrant, hunder⟩ := (hreached ▸ reached stored now past : Reached codec journal _ past s).granted
      (hdeadline ▸ some_ne_none deadline)
    obtain rfl := some.inj (hdeadline.symm.trans hunder.deadline)
    have hsame : policy = p.policy :=
      some.inj ((readPolicy_eq_some hpolicy).symm.trans hunder.stored)
    exact ⟨p, hgrant, hsame ▸ hadmits, hlast⟩
  · intro policy hpolicy hlive future frame peer first last receipt stored'
    have hblocked : Blocked journal (run (next codec journal) s future).stored :=
      run_past (I := fun _ (u : Node) => Blocked journal u.stored) (.inr ⟨policy, hpolicy, hlive⟩)
        fun _ event h => h.next event
    exact hblocked.refuses

/-! ## A run -/

def digestOf (byte : UInt8) : Bytes := List.replicate 32 byte

def plainCodec : Codec where
  frameLen := fun frame => frame.record.length
  policyLen := fun _ => 0
  walRecord := fun _ => .ok ⟨1, 5, true⟩
  frameDigest := fun _ _ => digestOf 1

def liveJournal : ReplayJournal where
  binding := ⟨1, "w", "c", "source", List.replicate 16 1, 1, 1, "target", List.replicate 16 2, 1, 1, [],
    0, digestOf 0, digestOf 0⟩
  digest := digestOf 2

def firstFrame : ReplayJournalFrame := ⟨1, 5, digestOf 2, [0], digestOf 1⟩

def livePolicy : ReplayAdmissionPolicy where
  contractVersion := 1
  authorityId := List.replicate 16 3
  revision := 1
  bindingSha256 := digestOf 2
  sourceCertificateSha256 := [digestOf 4]
  sourceHistoryId := List.replicate 16 1
  targetHistoryId := List.replicate 16 2
  sourceWriteEpoch := 1
  targetWriteEpoch := 1
  sourceResidency := .server
  targetResidency := .server
  enabled := true

def refreshed : List Event := [.session, .begin 0 100 0, .publish 0 livePolicy .done 0 0]

def stateAfter (events : List Event) : Node :=
  run (Node.next plainCodec liveJournal) (opened liveJournal.create 0) events

theorem frames_admitted_refreshed :
    ∃ p : Publication, Grant plainCodec liveJournal (opened liveJournal.create 0) refreshed p ∧
      Admits liveJournal p.policy (digestOf 4) ∧ 1 < p.refresh.deadline := by
  have htaken : (acceptInner plainCodec liveJournal (stateAfter refreshed).stored
      (stateAfter refreshed).fresh firstFrame (some (digestOf 4)) 1 1).isOk = true := by decide +kernel
  cases hresult : acceptInner plainCodec liveJournal (stateAfter refreshed).stored
      (stateAfter refreshed).fresh firstFrame (some (digestOf 4)) 1 1 with
  | error e => exact nomatch hresult ▸ htaken
  | ok result =>
    exact (frames_admitted plainCodec liveJournal liveJournal.create 0 refreshed (stateAfter refreshed)
      rfl).1 firstFrame (digestOf 4) 1 1 result.1 result.2 hresult

/-- **A refresh under way does not close admission.** The session has begun a second refresh, the newest
one, and has not published it; a frame is taken under what the first one published. -/
theorem taken_while_refreshing :
    (acceptInner plainCodec liveJournal (stateAfter (refreshed ++ [.begin 0 100 0])).stored
      (stateAfter (refreshed ++ [.begin 0 100 0])).fresh firstFrame (some (digestOf 4)) 1 1).isOk = true ∧
    (∃ r, Newest (stateAfter (refreshed ++ [.begin 0 100 0])) 1 r) ∧
    ∀ policy commit wait persist,
      Event.publish 1 policy commit wait persist ∉ refreshed ++ [.begin 0 100 0] := by
  refine ⟨by decide +kernel, ⟨⟨0, 1, 2, 100, true⟩, ?_⟩, fun policy commit wait persist => ?_⟩
  · have h : Handles (stateAfter (refreshed ++ [.begin 0 100 0])) := (reached _ _ _).handles
    exact h.current (by decide +kernel) rfl (by decide +kernel)
  · simp [refreshed]

end ProtomoltSearch.Receiver
