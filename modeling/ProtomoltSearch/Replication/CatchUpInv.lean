import ProtomoltSearch.Foundations.Following
import ProtomoltSearch.Foundations.Tiling
import ProtomoltSearch.Replication.CatchUp

/-!
# What the children of a split are due

The rows of the log after the baseline that a child owns are due to it, in the order of the log. At every
moment each leg of a child holds its image and a first part of what is due (`Inv`). A child that an
attempt has asked is known by the number of its slots (`Surveyed`), as long as it loses none of them.
-/

namespace ProtomoltSearch.Replication

open List

variable {F P M : Type}

/-- The rows a record adds to a leg, each with its own key. -/
def WalRecord.rows (record : WalRecord F P M) : Kind → List (Row F P)
  | .vectors =>
    match record.op with
    | some (.addVectors ⟨_, some batch, keys⟩) =>
      if batch.dim ≠ 0 ∧ batch.vectors.length % batch.dim = 0 ∧
          keys.length = batch.vectors.length / batch.dim then
        ((chunksExact batch.dim batch.vectors).zip keys).map fun row => .vector row.1 row.2
      else []
    | _ => []
  | .documents =>
    match record.op with
    | some (.addDocuments ⟨_, documents, keys⟩) =>
      if keys.length = documents.length then (documents.zip keys).map fun row => .document row.1 row.2
      else []
    | _ => []

lemma rows_addVectors {firstId : ℕ} {batch : AddVectorsRequest F} {keys : List Bytes}
    (hdim : batch.dim ≠ 0 ∧ batch.vectors.length % batch.dim = 0)
    (hkeys : keys.length = batch.vectors.length / batch.dim) :
    (⟨some (.addVectors ⟨firstId, some batch, keys⟩)⟩ : WalRecord F P M).rows .vectors =
      ((chunksExact batch.dim batch.vectors).zip keys).map fun row => .vector row.1 row.2 :=
  if_pos ⟨hdim.1, hdim.2, hkeys⟩

lemma rows_addDocuments {firstId : ℕ} {documents : List (AddDocumentsRequest P)} {keys : List Bytes}
    (hkeys : keys.length = documents.length) :
    (⟨some (.addDocuments ⟨firstId, documents, keys⟩)⟩ : WalRecord F P M).rows .documents =
      (documents.zip keys).map fun row => .document row.1 row.2 :=
  if_pos hkeys

def rowsOf (log : List (WalRecord F P M)) (k : Kind) : List (Row F P) := log.flatMap (·.rows k)

lemma rowsOf_append (log log' : List (WalRecord F P M)) (k : Kind) :
    rowsOf (log ++ log') k = rowsOf log k ++ rowsOf log' k := flatMap_append

lemma rowsOf_isPrefix {log log' : List (WalRecord F P M)} (h : log <+: log') (k : Kind) :
    rowsOf log k <+: rowsOf log' k := by
  obtain ⟨more, rfl⟩ := h
  exact ⟨rowsOf more k, (rowsOf_append log more k).symm⟩

variable (child : LiveChild)

def LiveChild.owned (rows : List (Row F P)) : List (Row F P) :=
  rows.filter fun row => child.owns row.key

/-- The rows after a clock that a child owns. -/
def dueRows (cutoff : ℕ) (log : List (WalRecord F P M)) (k : Kind) : List (Row F P) :=
  child.owned (rowsOf (log.drop cutoff) k)

/-- The slots they take, one after the other. -/
def dueSlots (cutoff : ℕ) (log : List (WalRecord F P M)) (k : Kind) : List (Option (Row F P)) :=
  (dueRows child cutoff log k).map some

lemma owned_append (rows rows' : List (Row F P)) :
    child.owned (rows ++ rows') = child.owned rows ++ child.owned rows' := filter_append ..

lemma owned_singleton (row : Row F P) :
    child.owned [row] = if child.owns row.key then [row] else [] := by
  rw [LiveChild.owned, filter_singleton]
  cases child.owns row.key <;> rfl

lemma owned_isPrefix {rows rows' : List (Row F P)} (h : rows <+: rows') (child : LiveChild) :
    child.owned rows <+: child.owned rows' := by
  obtain ⟨more, rfl⟩ := h
  exact ⟨child.owned more, (owned_append child rows more).symm⟩

lemma drop_isPrefix {α : Type} {l l' : List α} (h : l <+: l') (n : ℕ) : l.drop n <+: l'.drop n := by
  obtain ⟨more, rfl⟩ := h
  rw [drop_append]
  exact prefix_append _ _

lemma dueSlots_isPrefix {log log' : List (WalRecord F P M)} (h : log <+: log') (child : LiveChild)
    (cutoff : ℕ) (k : Kind) : dueSlots child cutoff log k <+: dueSlots child cutoff log' k :=
  (owned_isPrefix (rowsOf_isPrefix (drop_isPrefix h cutoff) k) child).map some

/-- The ranges that pass the check tile the hash space. -/
lemma checkRanges_tiles {expected : ℕ} {ranges : List (ℕ × ℕ)} (hne : ranges ≠ [])
    (h : checkRanges expected ranges = .ok ()) : Tiles expected ranges (2 ^ 64) := by
  induction ranges generalizing expected with
  | nil => exact absurd rfl hne
  | cons r rest ih =>
    obtain ⟨lo, hi⟩ := r
    obtain ⟨⟨⟩, hfst, h⟩ := bind_ok.1 h
    obtain ⟨hlo, hle⟩ : lo = expected ∧ lo ≤ hi := by simpa using refuseIf_ok.1 hfst
    refine ⟨hlo, hle, ?_⟩
    cases rest with
    | nil =>
      have hlast : hi = 2 ^ 64 - 1 := by simpa using refuseIf_ok.1 h
      exact show hi + 1 = 2 ^ 64 by omega
    | cons s rest =>
      obtain ⟨_, h⟩ := rest_ok h
      exact ih (by simp) h

variable {children : List LiveChild}

/-- Each key is owned by one child. -/
lemma owns_unique (h : validateChildRanges children = .ok ()) {i j : ℕ}
    {c d : LiveChild} {key : Bytes} (hc : children[i]? = some c) (hd : children[j]? = some d)
    (hci : c.owns key = true) (hdj : d.owns key = true) : i = j := by
  obtain ⟨⟨⟩, hne, h⟩ := bind_ok.1 h
  have hne : children ≠ [] := by simpa using refuseIf_ok.1 hne
  have hperm := perm_insertionSort (fun r s : ℕ × ℕ => r.1 ≤ s.1)
    (children.map fun child => (child.hashLo, child.hashHi))
  have htiles := checkRanges_tiles (by simpa [← length_eq_zero_iff, hperm.length_eq] using hne) h
  have hcnt : children.countP (fun child => child.owns key) = 1 := by
    have hcovers := htiles.countP_covers (stableRoutingHash key)
    rw [if_pos ⟨Nat.zero_le _, (fnv1a64Bytes key).isLt⟩, hperm.countP_eq, countP_map] at hcovers
    exact hcovers
  obtain ⟨n, -, huniq⟩ := countP_eq_one_iff.1 hcnt
  exact (huniq i ⟨c, hc, hci⟩).trans (huniq j ⟨d, hd, hdj⟩).symm

variable {i : ℕ}

/-- A key that is routed is owned by the child it is routed to. -/
lemma route_ok {state : LiveReshardState} {key : Bytes} (h : state.route key = .ok i) :
    ∃ child, state.children[i]? = some child ∧ child.owns key = true := by
  have h := okOr_ok.1 h
  obtain ⟨hi, howns, -⟩ := findIdx?_eq_some_iff_getElem.1 h
  exact ⟨_, getElem?_eq_getElem hi, howns⟩

/-- A leg follows what is due to it, and its image and the rows of the checkpoint are flushed. -/
structure LegInv {α : Type} (base due : List α) (applied : ℕ) (leg : Leg α) : Prop where
  follows : Follows base due leg.slots
  durable : base.length + applied ≤ leg.flushed
  flushed : leg.flushed ≤ leg.slots.length

section

variable {α : Type} {base due due' seen : List α} {applied : ℕ} {leg : Leg α} {row : α}

section

variable (h : LegInv base due applied leg)

include h

lemma LegInv.grow (hdue : due <+: due') : LegInv base due' applied leg :=
  ⟨h.follows.grow hdue, h.durable, h.flushed⟩

lemma LegInv.restart (kept : ℕ) : LegInv base due applied (leg.restart kept) := by
  have hdur := h.durable
  refine ⟨h.follows.take (by omega), hdur, ?_⟩
  have hflushed := h.flushed
  simp only [Leg.restart, length_take]
  omega

lemma LegInv.flush : LegInv base due applied leg.flush :=
  ⟨h.follows, h.durable.trans h.flushed, Nat.le_refl _⟩

lemma LegInv.push (hnext : seen ++ [row] <+: due)
    (hlen : leg.slots.length = base.length + seen.length) : LegInv base due applied (leg.push [row]) := by
  refine ⟨h.follows.push hnext hlen, h.durable, ?_⟩
  have hflushed := h.flushed
  simp only [Leg.push, length_append]
  omega

end

lemma Leg.restart_of_le {kept : ℕ} (h : leg.slots.length ≤ max leg.flushed kept) :
    leg.restart kept = leg := by
  rw [Leg.restart, take_of_length_le h]

end

def LiveChild.fixed : LiveChild := { child with applied := ⟨0, 0⟩ }

/-- A baseline: the clock it was cut at, the children as they were captured, and their images. -/
structure Baseline (F P : Type) where
  cutoff : ℕ
  children : List LiveChild
  images : ℕ → Child F P
  valid : validateChildRanges children = .ok ()
  tips : ∀ (i : ℕ) (child : LiveChild) (k : Kind), children[i]? = some child →
    child.base.get k = ((images i).legs.get k).slots.length

variable {b : Baseline F P} {saved : LiveReshardState} {w : World F P M}

def World.slots (w : World F P M) (i : ℕ) (k : Kind) : List (Option (Row F P)) :=
  ((w.children i).legs.get k).slots

def Baseline.slots (b : Baseline F P) (i : ℕ) (k : Kind) : List (Option (Row F P)) :=
  ((b.images i).legs.get k).slots

/-- What holds at every moment, with the state that is saved. -/
structure Inv (b : Baseline F P) (saved : LiveReshardState) (w : World F P M) : Prop where
  fixed : saved.children.map LiveChild.fixed = b.children
  cutoff : b.cutoff ≤ saved.sourceClock
  clock : saved.sourceClock ≤ w.source.log.length
  applied : ∀ (i : ℕ) (child : LiveChild) (k : Kind), saved.children[i]? = some child →
    child.applied.get k = (dueRows child b.cutoff (w.source.log.take saved.sourceClock) k).length
  legs : ∀ (i : ℕ) (child : LiveChild) (k : Kind), saved.children[i]? = some child →
    LegInv (b.slots i k) (dueSlots child b.cutoff w.source.log k) (child.applied.get k)
      ((w.children i).legs.get k)

variable {child : LiveChild}

section

variable (h : children.map LiveChild.fixed = b.children)

include h

lemma fixed_getElem? (hchild : children[i]? = some child) : b.children[i]? = some child.fixed := by
  rw [← h, getElem?_map, hchild]
  rfl

lemma tips_of_fixed (hchild : children[i]? = some child) (k : Kind) :
    child.base.get k = (b.slots i k).length :=
  b.tips i child.fixed k (fixed_getElem? h hchild)

lemma owns_of_fixed {i j : ℕ} {c d : LiveChild} {key : Bytes} (hc : children[i]? = some c)
    (hd : children[j]? = some d) (hci : c.owns key = true) (hdj : d.owns key = true) : i = j :=
  owns_unique b.valid (fixed_getElem? h hc) (fixed_getElem? h hd) hci hdj

end

/-- The invariant speaks of the log and the legs only. -/
lemma Inv.congr {w' : World F P M} (h : Inv b saved w) (hlog : w'.source.log = w.source.log)
    (hlegs : ∀ (i : ℕ) (child : LiveChild) (k : Kind), saved.children[i]? = some child →
      LegInv (b.slots i k) (dueSlots child b.cutoff w.source.log k) (child.applied.get k)
        ((w'.children i).legs.get k)) : Inv b saved w' := by
  refine ⟨h.fixed, h.cutoff, ?_, ?_, ?_⟩
  · rw [hlog]
    exact h.clock
  · rw [hlog]
    exact h.applied
  · rw [hlog]
    exact hlegs

lemma take_of_prefix {α : Type} {l l' : List α} (h : l <+: l') {n : ℕ} (hn : n ≤ l.length) :
    l'.take n = l.take n := by
  obtain ⟨more, rfl⟩ := h
  rw [take_append_of_le_length hn]

lemma children_withChild (w : World F P M) (i j : ℕ) (child : Child F P) :
    (w.withChild i child).children j = if j = i then child else w.children j :=
  Function.update_apply ..

/-- Whatever happens besides the calls keeps the invariant. -/
lemma Inv.happen (h : Inv b saved w) (happening : Happening F P M) : Inv b saved (w.happen happening) := by
  cases happening with
  | append record health =>
    have hpre : w.source.log <+: w.source.log ++ [record] := prefix_append _ _
    refine ⟨h.fixed, h.cutoff, h.clock.trans hpre.length_le, fun i child k hchild => ?_,
      fun i child k hchild => (h.legs i child k hchild).grow (dueSlots_isPrefix hpre child b.cutoff k)⟩
    rw [World.happen, take_of_prefix hpre h.clock]
    exact h.applied i child k hchild
  | restart j kept =>
    refine h.congr rfl fun i child k hchild => ?_
    have hleg := h.legs i child k hchild
    rw [World.happen, children_withChild]
    split
    · rename_i hij
      subst hij
      cases k with
      | vectors => exact hleg.restart kept.vectors
      | documents => exact hleg.restart kept.documents
    · exact hleg

lemma inv_stable (b : Baseline F P) (saved : LiveReshardState) :
    (setting : Setting _ (Reply F P M) _ _).Stable (Inv b saved) :=
  fun _ event _ h => h.happen event

/-- A child the attempt has asked keeps its rows, whatever happens. -/
lemma rows_of_asked {happening : Happening F P M} (hmay : KeepsAsked w happening)
    (hi : i ∈ w.asked) (k : Kind) : ((w.happen happening).children i).legs.get k =
      (w.children i).legs.get k := by
  cases happening with
  | append record health => rfl
  | restart j kept =>
    rw [World.happen, children_withChild]
    split
    · rename_i hij
      subst hij
      obtain ⟨hvecs, hdocs⟩ := hmay hi
      cases k with
      | vectors => exact Leg.restart_of_le hvecs
      | documents => exact Leg.restart_of_le hdocs
    · rfl

lemma asked_happen (w : World F P M) (happening : Happening F P M) :
    (w.happen happening).asked = w.asked := by
  cases happening <;> rfl

lemma log_happen (w : World F P M) (happening : Happening F P M) :
    w.source.log <+: (w.happen happening).source.log := by
  cases happening with
  | append record health => exact prefix_append _ _
  | restart i kept => exact prefix_rfl

/-- A child was asked, and holds its checkpoint and some rows beyond it. -/
structure Surveyed (w : World F P M) (i : ℕ) (child : LiveChild) (skip : Kind → ℕ) : Prop where
  asked : i ∈ w.asked
  held : ∀ k, (w.slots i k).length = child.base.get k + child.applied.get k + skip k

lemma Surveyed.happen {skip : Kind → ℕ} (h : Surveyed w i child skip)
    {happening : Happening F P M} (hmay : KeepsAsked w happening) :
    Surveyed (w.happen happening) i child skip := by
  refine ⟨by rw [asked_happen]; exact h.asked, fun k => ?_⟩
  rw [World.slots, rows_of_asked hmay h.asked]
  exact h.held k

/-- An attempt that has failed asks nothing more of the world. -/
lemma secured_failed {α : Type} {Q : Except String α → World F P M → Prop} {e : String}
    (hQ : ∀ w, Q (.error e) w) (h : Inv b saved w) :
    setting.Secured (Inv b saved) Q (.done (.error e)) w :=
  Setting.secured_done (inv_stable b saved) h fun w hw => ⟨hw, hQ w⟩

/-- A check of an attempt, and then the rest of it. -/
lemma secured_guard {α β : Type} {R : Except String β → World F P M → Prop} {x : Except String α}
    {f : α → Program F P M β} (hR : ∀ e w, R (.error e) w) (h : Inv b saved w)
    (hok : ∀ a, x = .ok a → setting.Secured (Inv b saved) R (f a) w) :
    setting.Secured (Inv b saved) R ((.done x : Program F P M α) >>= f) w :=
  Setting.secured_check (fun e _ => secured_failed (hR e) h) hok

/-- What is kept while children are asked. -/
structure Frame (b : Baseline F P) (saved : LiveReshardState) (A : World F P M → Prop) : Prop where
  stable : setting.Stable A
  asks : ∀ w i, A w → A { w with asked := i :: w.asked }
  inv : ∀ w, A w → Inv b saved w

variable {A : World F P M → Prop}

/-- A child is asked for its health, and then the attempt goes on. -/
lemma secured_health {β : Type} (hA : Frame b saved A)
    {said : String → String} {f : HealthResponse → Program F P M β}
    {R : Except String β → World F P M → Prop} (hR : ∀ e w, R (.error e) w) (hw : A w)
    (hok : ∀ w, A w → setting.Secured (Inv b saved) R (f (w.children i).healthResponse)
      { w with asked := i :: w.asked }) :
    setting.Secured (Inv b saved) R (ask (.childHealth i) said >>= f) w := by
  refine Setting.secured_rpc_of_inv hR (inv_stable b saved) hA.stable hw hA.inv ?_ ?_
  · exact fun w _ hw _ _ => hA.inv _ (hA.asks w i hw)
  · rintro w reply w' hw - hserve
    obtain ⟨hreply, rfl⟩ := Prod.mk.inj hserve
    cases hreply
    exact hok w hw

/-- The children of a list, from a place on, were asked. -/
def SurveyedFrom (rest : List LiveChild) (i : ℕ) (skip : Legs (List ℕ)) (w : World F P M) : Prop :=
  ∀ (j : ℕ) (child : LiveChild), rest[j]? = some child →
    Surveyed w (i + j) child fun k => (skip.get k).getD j 0

lemma Frame.and_surveyed (hA : Frame b saved A) (i : ℕ) (child : LiveChild)
    (skip : Kind → ℕ) : Frame b saved fun w => A w ∧ Surveyed w i child skip :=
  ⟨fun w event hmay h => ⟨hA.stable w event hmay h.1, h.2.happen hmay⟩,
    fun w j h => ⟨hA.asks w j h.1, mem_cons_of_mem _ h.2.asked, h.2.held⟩,
    fun w h => hA.inv w h.1⟩

lemma Frame.and_surveyedFrom (hA : Frame b saved A) (rest : List LiveChild)
    (i : ℕ) (skip : Legs (List ℕ)) : Frame b saved fun w => A w ∧ SurveyedFrom rest i skip w :=
  ⟨fun w event hmay h => ⟨hA.stable w event hmay h.1, fun j child hj => (h.2 j child hj).happen hmay⟩,
    fun w j h => ⟨hA.asks w j h.1, fun j' child hj =>
      ⟨mem_cons_of_mem _ (h.2 j' child hj).asked, (h.2 j' child hj).held⟩⟩,
    fun w h => hA.inv w h.1⟩

lemma Surveyed.now (hasked : i ∈ w.asked)
    (hle : ∀ k, child.base.get k + child.applied.get k ≤ (w.slots i k).length) :
    Surveyed w i child fun k => (w.slots i k).length - (child.base.get k + child.applied.get k) :=
  ⟨hasked, fun k => (Nat.add_sub_cancel' (hle k)).symm⟩

lemma SurveyedFrom.cons {rest : List LiveChild} {skip : Legs (List ℕ)}
    {n : Kind → ℕ} (hchild : Surveyed w i child n) (hrest : SurveyedFrom rest (i + 1) skip w) :
    SurveyedFrom (child :: rest) i ⟨n .vectors :: skip.vectors, n .documents :: skip.documents⟩ w := by
  intro j c hj
  cases j with
  | zero =>
    cases hj
    refine ⟨hchild.asked, fun k => ?_⟩
    rw [Nat.add_zero, hchild.held k]
    cases k <;> rfl
  | succ j =>
    have h := hrest j c hj
    rw [Nat.add_right_comm] at h
    refine ⟨h.asked, fun k => ?_⟩
    rw [← Nat.add_assoc, h.held k]
    cases k <;> rfl

/-- **Asking the children** tells how many rows each of them holds beyond its checkpoint. -/
theorem secured_survey (hA : Frame b saved A) (rest : List LiveChild) (i : ℕ)
    (hw : A w) : setting.Secured (Inv b saved) (fun result w => ∀ out, result = .ok out →
      A w ∧ SurveyedFrom rest i out.1 w) (surveyChildren i rest) w := by
  induction rest generalizing i A w with
  | nil =>
    refine Setting.secured_done hA.stable hw fun w hw => ⟨hA.inv w hw, fun out _ => ⟨hw, ?_⟩⟩
    intro j child hj
    cases hj
  | cons child rest ih =>
    refine secured_health hA (fun _ _ _ h => nomatch h) hw fun w hw => ?_
    refine secured_guard (fun _ _ _ h => nomatch h) (hA.inv _ (hA.asks w i hw)) fun _ hchk => ?_
    have hle : ∀ k, child.base.get k + child.applied.get k ≤ (w.slots i k).length := by
      have hchk := refuseIf_ok.1 hchk
      simp only [decide_eq_false_iff_not, not_or, Nat.not_lt] at hchk
      intro k
      cases k with
      | vectors => exact hchk.1
      | documents => exact hchk.2
    have hsurv : Surveyed { w with asked := i :: w.asked } i child
        fun k => (w.slots i k).length - (child.base.get k + child.applied.get k) :=
      .now mem_cons_self hle
    have hA' := hA.and_surveyed i child
      fun k => (w.slots i k).length - (child.base.get k + child.applied.get k)
    refine Setting.Secured.bind ((ih hA' (i + 1) ⟨hA.asks w i hw, hsurv⟩).mono ?_)
    rintro (e | ⟨skip, versions⟩) u hu
    · exact fun _ h => nomatch h
    · refine Setting.secured_done (hA'.and_surveyedFrom rest (i + 1) skip).stable (hu _ rfl) fun v hv => ?_
      refine ⟨hA'.inv v hv.1, fun out hout => ?_⟩
      cases hout
      exact ⟨hv.1.1, .cons hv.1.2 hv.2⟩

end ProtomoltSearch.Replication
