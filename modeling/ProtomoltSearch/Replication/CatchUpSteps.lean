import ProtomoltSearch.Replication.CatchUpInv

/-!
# The steps of an attempt

An attempt passes the rows of the log it was sent, one after the other (`Progress`). The next row that is
routed to a child is either one of those the child was found to hold, or the one due to it next
(`Progress.skip`, `Progress.push`). When the whole log is passed and the children are flushed, each of them
holds exactly what was due up to the watermark (`Settled.exact`).
-/

namespace ProtomoltSearch.Replication

open List Function Setting

variable {F P M : Type} {b : Baseline F P} {saved : LiveReshardState} {w : World F P M}

/-! ## Applying rows -/

/-- How far an attempt has come in its log: the rows of each leg it has passed, and those to come. -/
structure Progress (b : Baseline F P) (saved : LiveReshardState) (log : List (WalRecord F P M))
    (a : Attempt) (past up : Kind → List (Row F P)) (w : World F P M) : Prop where
  inv : Inv b saved w
  snapshot : log <+: w.source.log
  coming : ∀ k, past k ++ up k = rowsOf (log.drop b.cutoff) k
  fixed : a.updated.children.map LiveChild.fixed = b.children
  applied : ∀ (i : ℕ) (child : LiveChild) (k : Kind), a.updated.children[i]? = some child →
    child.applied.get k = (child.owned (past k)).length
  surveyed : ∀ (i : ℕ) (child : LiveChild), a.updated.children[i]? = some child →
    Surveyed w i child fun k => (a.skip.get k).getD i 0

section Rows

variable {log : List (WalRecord F P M)} {a : Attempt} {past up : Kind → List (Row F P)} {k : Kind}
  {row : Row F P} {rest : List (Row F P)} {j : ℕ}

lemma progress_stable : (setting : Setting _ (Reply F P M) _ _).Stable
    (Progress b saved log a past up) := fun w event hmay h =>
  ⟨h.inv.happen event, h.snapshot.trans (log_happen w event), h.coming, h.fixed, h.applied,
    fun i child hchild => (h.surveyed i child hchild).happen hmay⟩

/-- The children of an attempt after a row is counted. -/
lemma count_children {i : ℕ} {c' : LiveChild} (h : (a.count k j).updated.children[i]? = some c') :
    ∃ c, a.updated.children[i]? = some c ∧ c'.fixed = c.fixed ∧
      ∀ k', c'.applied.get k' = c.applied.get k' + if k = k' ∧ j = i then 1 else 0 := by
  rw [Attempt.count, getElem?_modify] at h
  obtain ⟨c, hc, rfl⟩ := Option.map_eq_some_iff.1 h
  refine ⟨c, hc, ?_, fun k' => ?_⟩
  · split <;> rfl
  by_cases hk : k = k'
  · subst hk
    by_cases hij : j = i
    · simp [hij]
    · simp [hij]
  · by_cases hij : j = i
    · simp [hk, hij, Legs.get_modify_of_ne _ _ hk]
    · simp [hij]

lemma count_fixed : (a.count k j).updated.children.map LiveChild.fixed =
    a.updated.children.map LiveChild.fixed := by
  refine ext_getElem? fun i => ?_
  rw [Attempt.count, getElem?_map, getElem?_map, getElem?_modify]
  cases a.updated.children[i]? with
  | none => rfl
  | some c => exact congrArg some (by dsimp only; split <;> rfl)

lemma skipOne_getD (k' : Kind) (i : ℕ) : ((a.skipOne k j).skip.get k').getD i 0 =
    (a.skip.get k').getD i 0 - if k = k' ∧ j = i then 1 else 0 := by
  rw [Attempt.skipOne]
  by_cases hk : k = k'
  · subst hk
    rw [Legs.get_modify_self, getD_eq_getElem?_getD, getElem?_modify, getD_eq_getElem?_getD]
    cases (a.skip.get k)[i]? with
    | none => simp
    | some n => by_cases hij : j = i <;> simp [hij]
  · simp [hk, Legs.get_modify_of_ne _ _ hk]

lemma owned_of_fixed {c c' : LiveChild} (h : c'.fixed = c.fixed) (rows : List (Row F P)) :
    c'.owned rows = c.owned rows := by
  have howns : c'.owns = c.owns := show c'.fixed.owns = c.fixed.owns by rw [h]
  rw [LiveChild.owned, howns]
  rfl

lemma base_of_fixed {c c' : LiveChild} (h : c'.fixed = c.fixed) : c'.base = c.base :=
  show c'.fixed.base = c.fixed.base by rw [h]

section

variable (h : Progress b saved log a past up w)

include h

/-- A row that is passed is counted for the child that owns it, and for no other. -/
lemma Progress.count (howner : ∃ c, a.updated.children[j]? = some c ∧ c.owns row.key = true)
    (i : ℕ) (c' : LiveChild) (k' : Kind) (hc' : (a.count k j).updated.children[i]? = some c') :
    c'.applied.get k' = (c'.owned (Function.update past k (past k ++ [row]) k')).length := by
  obtain ⟨c, hc, hfixed, happl⟩ := count_children hc'
  rw [owned_of_fixed hfixed, happl, h.applied i c k' hc]
  by_cases hk : k = k'
  · subst hk
    rw [update_self, owned_append, owned_singleton]
    obtain ⟨d, hd, hd'⟩ := howner
    by_cases hij : j = i
    · subst hij
      cases hc.symm.trans hd
      simp [hd']
    · have hnot : ¬c.owns row.key = true := fun hown => hij (owns_of_fixed h.fixed hd hc hd' hown)
      simp [hij, hnot]
  · rw [update_of_ne (Ne.symm hk)]
    simp [hk]

/-- What has passed and what is to come make up the rows of the log. -/
lemma Progress.next_coming (hup : up k = row :: rest) (k' : Kind) :
    Function.update past k (past k ++ [row]) k' ++ Function.update up k rest k' =
      rowsOf (log.drop b.cutoff) k' := by
  by_cases hk : k' = k
  · subst hk
    rw [update_self, update_self, append_assoc, singleton_append, ← hup]
    exact h.coming k'
  · rw [update_of_ne hk, update_of_ne hk]
    exact h.coming k'

/-- A row its child holds is skipped. -/
lemma Progress.skip (hup : up k = row :: rest)
    (howner : ∃ c, a.updated.children[j]? = some c ∧ c.owns row.key = true)
    (hskip : 0 < (a.skip.get k).getD j 0) : Progress b saved log ((a.skipOne k j).count k j)
      (Function.update past k (past k ++ [row])) (Function.update up k rest) w := by
  refine ⟨h.inv, h.snapshot, h.next_coming hup, count_fixed.trans h.fixed, ?_, fun i c' hc' => ?_⟩
  · exact h.count howner
  · obtain ⟨c, hc, hfixed, happl⟩ := count_children hc'
    have hsurv := h.surveyed i c hc
    refine ⟨hsurv.asked, fun k' => ?_⟩
    have hleft : ((a.skipOne k j).count k j).skip = (a.skipOne k j).skip := rfl
    rw [hsurv.held k', happl, base_of_fixed hfixed, hleft, skipOne_getD]
    by_cases hkj : k = k' ∧ j = i
    · obtain ⟨rfl, rfl⟩ := hkj
      simp only [and_self, if_true]
      omega
    · simp only [if_neg hkj]
      rfl

end

/-- The legs of the children after one of them is sent a row. -/
lemma legs_add (w : World F P M) (hstep : InStep w (.add j row)) (i : ℕ) (k' : Kind) :
    ((w.serve (.add j row)).2.children i).legs.get k' = if row.kind = k' ∧
    j = i then ((w.children i).legs.get k').push [some row] else (w.children i).legs.get k' := by
  have hplaced : (w.children j).placed row = [some row] := by
    cases row with
    | vector values key => rfl
    | document document key =>
      have hle : (w.children j).legs.vectors.slots.length ≤ (w.children j).legs.documents.slots.length :=
        hstep
      simp only [Child.placed, Row.kind, Nat.sub_eq_zero_of_le hle, replicate_zero, nil_append]
  rw [World.serve, children_withChild]
  by_cases hij : i = j
  · subst hij
    rw [Child.add, hplaced]
    by_cases hk : row.kind = k'
    · subst hk
      simp
    · simp [hk, Legs.get_modify_of_ne _ _ hk]
  · simp [hij, Ne.symm hij]

/-- A row its child does not hold is the next one due to it, and is sent. -/
lemma Progress.push (h : Progress b saved log a past up w) (hup : up k = row :: rest)
    (howner : ∃ c, a.updated.children[j]? = some c ∧ c.owns row.key = true) (hkind : row.kind = k)
    (hskip : (a.skip.get k).getD j 0 = 0) (hstep : InStep w (.add j row)) :
    Progress b saved log (a.count k j)
      (Function.update past k (past k ++ [row])) (Function.update up k rest) (w.serve (.add j row)).2 := by
  refine ⟨h.inv.congr rfl fun i child k' hchild => ?_, h.snapshot, h.next_coming hup,
    count_fixed.trans h.fixed, h.count howner, fun i c' hc' => ?_⟩
  · rw [legs_add w hstep]
    have hleg := h.inv.legs i child k' hchild
    split
    · rename_i hkj
      obtain ⟨rfl, rfl⟩ := hkj
      subst hkind
      obtain ⟨c, hc, howns⟩ := howner
      have hsame : child.fixed = c.fixed := by
        exact Option.some.inj ((fixed_getElem? h.inv.fixed hchild).symm.trans (fixed_getElem? h.fixed hc))
      have hlen : (w.slots j row.kind).length = (b.slots j row.kind).length +
          ((child.owned (past row.kind)).map some).length := by
        rw [length_map, (h.surveyed j c hc).held row.kind, hskip, tips_of_fixed h.fixed hc,
          h.applied j c row.kind hc, owned_of_fixed hsame, Nat.add_zero]
      refine hleg.push ?_ hlen
      have hpast : past row.kind ++ [row] <+: rowsOf (w.source.log.drop b.cutoff) row.kind := by
        refine List.IsPrefix.trans ?_ (rowsOf_isPrefix (drop_isPrefix h.snapshot b.cutoff) row.kind)
        exact ⟨rest, by rw [← h.coming row.kind, hup, append_assoc, singleton_append]⟩
      have howned : child.owned (past row.kind) ++ [row] = child.owned (past row.kind ++ [row]) := by
        have hown : child.owned [row] = c.owned [row] := owned_of_fixed hsame _
        rw [owned_append, hown, owned_singleton, if_pos howns]
      rw [← map_singleton, ← map_append, howned]
      exact (owned_isPrefix hpast child).map some
    · exact hleg
  · obtain ⟨c, hc, hfixed, happl⟩ := count_children hc'
    have hsurv := h.surveyed i c hc
    refine ⟨hsurv.asked, fun k' => ?_⟩
    have hheld : ((w.children i).legs.get k').slots.length = _ := hsurv.held k'
    have hleft : (a.count k j).skip = a.skip := rfl
    rw [World.slots, legs_add w hstep, happl, base_of_fixed hfixed, hleft, hkind]
    split
    · simp only [Leg.push, length_append, length_singleton]
      omega
    · exact hheld

/-- An attempt that fails has nothing to show; one that goes on has come this far. -/
def Comes (b : Baseline F P) (saved : LiveReshardState) (log : List (WalRecord F P M))
    (past up : Kind → List (Row F P)) (result : Except String Attempt) (w : World F P M) : Prop :=
  ∀ a, result = .ok a → Progress b saved log a past up w

lemma comes_error (e : String) (w : World F P M) : Comes b saved log past up (.error e) w :=
  fun _ h => nomatch h

lemma Progress.secured (h : Progress b saved log a past up w) :
    setting.Secured (Inv b saved) (Comes b saved log past up) (pure a) w := by
  refine secured_done progress_stable h fun w hw => ⟨hw.inv, fun a' ha' => ?_⟩
  cases ha'
  exact hw

lemma secured_applyRow (h : Progress b saved log a past up w) (hup : up k = row :: rest)
    (howner : ∃ c, a.updated.children[j]? = some c ∧ c.owns row.key = true) (hkind : row.kind = k) :
    setting.Secured (Inv b saved)
      (Comes b saved log (Function.update past k (past k ++ [row])) (Function.update up k rest))
      (applyRow k a j row) w := by
  unfold applyRow
  split
  · exact (h.skip hup howner ‹_›).secured
  · have hskip : (a.skip.get k).getD j 0 = 0 := by omega
    refine secured_rpc_of_inv (P := Progress b saved log a past up) comes_error
      (inv_stable b saved) progress_stable h (fun w hw => hw.inv) ?_ ?_
    · intro w outcome hw hallows hserved
      cases outcome with
      | lost error => exact absurd rfl (hserved error)
      | served | unreported error => exact (hw.push hup howner hkind hskip hallows).inv
    · intro w version w' hw hallows hserve
      obtain ⟨-, rfl⟩ := Prod.mk.inj hserve
      have hpush := hw.push hup howner hkind hskip hallows
      refine secured_guard comes_error hpush.inv fun _ _ => ?_
      exact hpush.secured

/-- After the first rows of a leg, the others. -/
lemma update_append (rows rows' : List (Row F P)) : Function.update (Function.update past k
    (past k ++ rows)) k (Function.update past k (past k ++ rows) k ++ rows') =
      Function.update past k (past k ++ (rows ++ rows')) := by
  rw [update_idem, update_self, append_assoc]

section

variable {later : List (Row F P)}

/-- A record without rows leaves the progress as it is. -/
lemma Progress.secured_none (h : Progress b saved log a past up w) (hup : up k = later) :
    setting.Secured (Inv b saved) (Comes b saved log
      (Function.update past k (past k ++ [])) (Function.update up k later)) (pure a) w := by
  subst hup
  rw [append_nil, update_eq_self, update_eq_self]
  exact h.secured

/-- The loop over the rows of a record, for either leg; `later` are the rows of records after it. -/
lemma secured_applyVectors (rows : List (List F × Bytes)) (h : Progress b saved log a past up w)
    (hup : up .vectors = rows.map (fun row => .vector row.1 row.2) ++ later) :
    setting.Secured (Inv b saved) (Comes b saved log
        (Function.update past .vectors (past .vectors ++ rows.map fun row => .vector row.1 row.2))
        (Function.update up .vectors later)) (applyVectors a rows) w := by
  induction rows generalizing a past up w with
  | nil =>
    exact h.secured_none hup
  | cons row rows ih =>
    refine secured_guard comes_error h.inv fun child hroute => ?_
    refine Setting.Secured.bind ((secured_applyRow h hup (route_ok hroute) rfl).mono ?_)
    rintro (e | a') u hu
    · exact comes_error _ _
    · have hnext := ih (hu a' rfl) (update_self ..)
      rw [update_append, update_idem] at hnext
      exact hnext

lemma secured_applyDocuments (rows : List (AddDocumentsRequest P × Bytes))
    (h : Progress b saved log a past up w)
    (hup : up .documents = rows.map (fun row => .document row.1 row.2) ++ later) :
    setting.Secured (Inv b saved) (Comes b saved log
        (Function.update past .documents (past .documents ++ rows.map fun row => .document row.1 row.2))
        (Function.update up .documents later)) (applyDocuments a rows) w := by
  induction rows generalizing a past up w with
  | nil =>
    exact h.secured_none hup
  | cons row rows ih =>
    refine secured_guard comes_error h.inv fun child hroute => ?_
    refine secured_guard comes_error h.inv fun _ _ => ?_
    refine secured_guard comes_error h.inv fun _ _ => ?_
    refine Setting.Secured.bind ((secured_applyRow h hup (route_ok hroute) rfl).mono ?_)
    rintro (e | a') u hu
    · exact comes_error _ _
    · have hnext := ih (hu a' rfl) (update_self ..)
      rw [update_append, update_idem] at hnext
      exact hnext

end

/-- One record. The rows it adds are passed; it has none where the attempt refuses it. -/
lemma secured_applyRecord (record : WalRecord F P M) {later : Kind → List (Row F P)}
    (h : Progress b saved log a past up w) (hup : ∀ k, up k = record.rows k ++ later k) :
    setting.Secured (Inv b saved) (Comes b saved log (fun k => past k ++ record.rows k) later)
      (applyRecord a record) w := by
  -- a record that adds no rows
  have hnone : (∀ k, record.rows k = []) → setting.Secured (Inv b saved)
      (Comes b saved log (fun k => past k ++ record.rows k) later) (pure a) w := by
    intro hrows
    have hpast : (fun k => past k ++ record.rows k) = past := by
      funext k
      rw [hrows k, append_nil]
    have hlater : later = up := by
      funext k
      rw [hup k, hrows k, nil_append]
    rw [hpast, hlater]
    exact h.secured
  obtain ⟨op⟩ := record
  match op with
  | some (.addVectors ⟨firstId, batch, keys⟩) =>
    refine secured_guard comes_error h.inv fun batch hbatch => ?_
    obtain rfl := okOr_ok.1 hbatch
    refine secured_guard comes_error h.inv fun _ hdim => ?_
    refine secured_guard comes_error h.inv fun _ hkeys => ?_
    have hdim : batch.dim ≠ 0 ∧ batch.vectors.length % batch.dim = 0 := by
      simpa using refuseIf_ok.1 hdim
    have hkeys : keys.length = batch.vectors.length / batch.dim := by
      simpa using refuseIf_ok.1 hkeys
    have hrows := hup .vectors
    rw [rows_addVectors hdim hkeys] at hrows
    refine (secured_applyVectors _ h hrows).mono fun result u hu a' ha' => ?_
    convert hu a' ha' using 1
    · funext k
      cases k with
      | vectors => rw [update_self, rows_addVectors hdim hkeys]
      | documents => exact append_nil _
    · funext k
      cases k with
      | vectors => rw [update_self]
      | documents => exact (hup .documents).symm
  | some (.addDocuments ⟨firstId, documents, keys⟩) =>
    refine secured_guard comes_error h.inv fun _ hkeys => ?_
    have hkeys : keys.length = documents.length := by simpa using refuseIf_ok.1 hkeys
    have hrows := hup .documents
    rw [rows_addDocuments hkeys] at hrows
    refine (secured_applyDocuments _ h hrows).mono fun result u hu a' ha' => ?_
    convert hu a' ha' using 1
    · funext k
      cases k with
      | vectors => exact append_nil _
      | documents => rw [update_self, rows_addDocuments hkeys]
    · funext k
      cases k with
      | vectors => exact (hup .vectors).symm
      | documents => rw [update_self]
  | some (.deleteDocument _) | some (.replacement _ _) | some (.snapshot _) =>
    exact secured_failed (comes_error _) h.inv
  | some (.bind binding) | some .flush | none => exact hnone fun k => by cases k <;> rfl

/-! ## The stream -/

/-- The next message of the stream, and then the attempt goes on. -/
lemma secured_message {β : Type} {A : World F P M → Prop} (hA : setting.Stable A)
    (hinv : ∀ w, A w → Inv b saved w) {said : String → String} {f : Unit → Program F P M β}
    {R : Except String β → World F P M → Prop} (hR : ∀ e w, R (.error e) w) (hw : A w)
    (hok : ∀ w, A w → setting.Secured (Inv b saved) R (f ()) w) :
    setting.Secured (Inv b saved) R (ask .message said >>= f) w := by
  refine secured_rpc_of_inv hR (inv_stable b saved) hA hw hinv (fun w _ hw _ _ => hinv w hw) ?_
  rintro w reply w' hw - hserve
  obtain ⟨-, rfl⟩ := Prod.mk.inj hserve
  exact hok w hw

/-- The attempt has passed the whole log it was sent. -/
structure Passed (b : Baseline F P) (saved : LiveReshardState) (log : List (WalRecord F P M)) (a : Attempt)
    (w : World F P M) : Prop where
  progress : Progress b saved log a (rowsOf (log.drop b.cutoff)) (fun _ => []) w
  watermark : a.highWatermark = log.length

lemma passed_stable : (setting : Setting _ (Reply F P M) _ _).Stable (Passed b saved log a) :=
  fun w event hmay h => ⟨progress_stable w event hmay h.progress, h.watermark⟩

/-- The stream: its records, and the frame at its end. -/
lemma secured_applyFrames {source : Source F P M} (hlog : source.log = log)
    (records : List (WalRecord F P M)) (h : Progress b saved log a past (rowsOf records) w) :
    setting.Secured (Inv b saved) (fun result w => ∀ a, result = .ok a → Passed b saved log a w)
      (applyFrames a (records.map source.frame ++ [source.completion])) w := by
  induction records generalizing a past w with
  | nil =>
    refine secured_message progress_stable (fun w hw => hw.inv) (fun _ _ _ h => nomatch h) h fun w hw => ?_
    -- the frame at the end changes the watermark
    have hpast : past = rowsOf (log.drop b.cutoff) := by
      funext k
      rw [← hw.coming k]
      exact (append_nil _).symm
    have hpassed : Passed b saved log { a with
        highWatermark := source.log.length
        completed := true
        prefixHealth := some source.health } w := by
      refine ⟨?_, congrArg _ hlog⟩
      rw [← hpast]
      exact ⟨hw.inv, hw.snapshot, hw.coming, hw.fixed, hw.applied, hw.surveyed⟩
    refine secured_message passed_stable (fun w hw => hw.progress.inv) (fun _ _ _ h => nomatch h) hpassed
      fun w hw => ?_
    refine secured_done passed_stable hw fun w hw => ⟨hw.progress.inv, fun a' ha' => ?_⟩
    cases ha'
    exact hw
  | cons record records ih =>
    refine secured_message progress_stable (fun w hw => hw.inv) (fun _ _ _ h => nomatch h) h fun w hw => ?_
    have hw' : Progress b saved log { a with highWatermark := source.log.length } past
        (rowsOf (record :: records)) w :=
      ⟨hw.inv, hw.snapshot, hw.coming, hw.fixed, hw.applied, hw.surveyed⟩
    have hcoming : ∀ k, rowsOf (record :: records) k = record.rows k ++ rowsOf records k := fun k => rfl
    refine Setting.Secured.bind ((secured_applyRecord record hw' hcoming).mono ?_)
    rintro (e | a') u hu
    · exact fun _ h => nomatch h
    · exact ih (hu a' rfl)

/-! ## The end of an attempt -/

/-- The attempt has passed its log, and the first children are flushed. -/
structure Settled (b : Baseline F P) (saved : LiveReshardState) (log : List (WalRecord F P M)) (a : Attempt)
    (n : ℕ) (w : World F P M) : Prop where
  passed : Passed b saved log a w
  flushed : ∀ (i : ℕ) (child : LiveChild) (k : Kind), i < n → a.updated.children[i]? = some child →
    ((w.children i).legs.get k).flushed = (w.slots i k).length

variable {n : ℕ}

lemma settled_frame : Frame b saved (Settled b saved log a n) where
  stable := by
    intro w event hmay h
    refine ⟨passed_stable w event hmay h.passed, fun i child k hi hchild => ?_⟩
    have hasked := (h.passed.progress.surveyed i child hchild).asked
    have hleg := rows_of_asked hmay hasked k
    change (((w.happen event).children i).legs.get k).flushed =
      (((w.happen event).children i).legs.get k).slots.length
    rw [hleg]
    exact h.flushed i child k hi hchild
  asks := by
    intro w i h
    have hprog := h.passed.progress
    refine ⟨⟨⟨hprog.inv.congr rfl hprog.inv.legs, hprog.snapshot, hprog.coming,
      hprog.fixed, hprog.applied, fun j child hchild => ?_⟩, h.passed.watermark⟩, h.flushed⟩
    have hsurv := hprog.surveyed j child hchild
    exact ⟨mem_cons_of_mem _ hsurv.asked, hsurv.held⟩
  inv := fun w h => h.passed.progress.inv

/-- The legs of the children after one of them is flushed. -/
lemma legs_flush (w : World F P M) (i j : ℕ) (k : Kind) :
    ((w.serve (.flush j)).2.children i).legs.get k =
      if i = j then ((w.children i).legs.get k).flush else (w.children i).legs.get k := by
  rw [World.serve, children_withChild]
  split
  · subst_vars
    cases k <;> rfl
  · rfl

lemma Settled.flush (h : Settled b saved log a n w) : Settled b saved log a (n + 1)
    (w.serve (.flush n)).2 := by
  have hprog := h.passed.progress
  have hrows : ∀ i k, (w.serve (.flush n)).2.slots i k = w.slots i k := by
    intro i k
    rw [World.slots, legs_flush]
    split <;> rfl
  refine ⟨⟨⟨hprog.inv.congr rfl fun i child k hchild => ?_, hprog.snapshot, hprog.coming,
    hprog.fixed, hprog.applied, fun i child hchild => ?_⟩, h.passed.watermark⟩,
    fun i child k hi hchild => ?_⟩
  · rw [legs_flush]
    split
    · exact (hprog.inv.legs i child k hchild).flush
    · exact hprog.inv.legs i child k hchild
  · have hsurv := hprog.surveyed i child hchild
    exact ⟨hsurv.asked, fun k => (congrArg _ (hrows i k)).trans (hsurv.held k)⟩
  · rw [hrows, legs_flush]
    split
    · rfl
    · exact h.flushed i child k (by omega) hchild

lemma secured_flushChildren (rest : List LiveChild) (h : Settled b saved log a n w) :
    setting.Secured (Inv b saved) (fun result w => result = .ok () →
      Settled b saved log a (n + rest.length) w) (flushChildren n rest) w := by
  induction rest generalizing n w with
  | nil =>
    exact secured_done settled_frame.stable h fun w hw => ⟨settled_frame.inv w hw, fun _ => hw⟩
  | cons child rest ih =>
    refine secured_rpc_of_inv (fun _ _ h => nomatch h) (inv_stable b saved) settled_frame.stable h
      settled_frame.inv ?_ ?_
    · exact fun w _ hw _ _ => settled_frame.inv _ hw.flush
    · rintro w reply w' hw - hserve
      obtain ⟨-, rfl⟩ := Prod.mk.inj hserve
      have hnext := ih hw.flush
      rw [Nat.add_assoc, Nat.add_comm 1] at hnext
      exact hnext

lemma secured_verifyChildren {A : World F P M → Prop} (hA : Frame b saved A) (scoring : String)
    (rest : List LiveChild) (i : ℕ) (hw : A w) : setting.Secured (Inv b saved)
      (fun result w => ∀ sum, result = .ok sum → A w) (verifyChildren scoring i rest) w := by
  induction rest generalizing i w with
  | nil => exact secured_done hA.stable hw fun w hw => ⟨hA.inv w hw, fun _ _ => hw⟩
  | cons child rest ih =>
    refine secured_health hA (fun _ _ _ h => nomatch h) hw fun w hw => ?_
    have hasked := hA.asks w i hw
    refine secured_guard (fun _ _ _ h => nomatch h) (hA.inv _ hasked) fun _ _ => ?_
    refine Setting.Secured.bind ((ih (i + 1) hasked).mono ?_)
    rintro (e | sum) u hu
    · exact fun _ h => nomatch h
    · exact secured_done hA.stable (hu sum rfl) fun w hw => ⟨hA.inv w hw, fun _ _ => hw⟩

/-- **What success leaves**: each child holds its image and its rows up to the new clock. -/
structure Exact (b : Baseline F P) (updated : LiveReshardState) (w : World F P M) : Prop where
  inv : Inv b updated w
  slots : ∀ (i : ℕ) (child : LiveChild) (k : Kind), updated.children[i]? = some child →
    w.slots i k = b.slots i k ++ dueSlots child b.cutoff (w.source.log.take updated.sourceClock) k

lemma Settled.exact (h : Settled b saved log a a.updated.children.length w)
    (hskip : ∀ i k, (a.skip.get k).getD i 0 = 0) (hsince : saved.sourceClock ≤ log.length) :
    Exact b { a.updated with sourceClock := a.highWatermark } w := by
  obtain ⟨⟨hprog, hmark⟩, hflushed⟩ := h
  have htake : w.source.log.take a.highWatermark = log := by
    rw [hmark, take_of_prefix hprog.snapshot (Nat.le_refl _), take_length]
  have hlen : ∀ (i : ℕ) (child : LiveChild) (k : Kind), a.updated.children[i]? = some child →
      (w.slots i k).length = (b.slots i k).length + child.applied.get k := by
    intro i child k hchild
    rw [(hprog.surveyed i child hchild).held k, hskip, tips_of_fixed hprog.fixed hchild,
      Nat.add_zero]
  -- the invariant, with the children of the saved state
  have hfol : ∀ (i : ℕ) (child : LiveChild) (k : Kind), a.updated.children[i]? = some child →
      LegInv (b.slots i k) (dueSlots child b.cutoff w.source.log k) 0 ((w.children i).legs.get k) := by
    intro i child k hchild
    have hb := fixed_getElem? hprog.fixed hchild
    rw [← hprog.inv.fixed, getElem?_map] at hb
    obtain ⟨c, hc, hsame⟩ := Option.map_eq_some_iff.1 hb
    have hleg := hprog.inv.legs i c k hc
    rw [dueSlots, dueRows, owned_of_fixed hsame] at hleg
    exact ⟨hleg.follows, (Nat.le_add_right _ _).trans hleg.durable, hleg.flushed⟩
  refine ⟨⟨hprog.fixed, ?_, ?_, fun i child k hchild => ?_, fun i child k hchild => ?_⟩,
    fun i child k hchild => ?_⟩
  · exact (hprog.inv.cutoff.trans hsince).trans_eq hmark.symm
  · exact hmark.trans_le hprog.snapshot.length_le
  · rw [htake]
    exact hprog.applied i child k hchild
  · have hleg := hfol i child k hchild
    refine ⟨hleg.follows, ?_, hleg.flushed⟩
    rw [hflushed i child k (List.getElem?_eq_some_iff.1 hchild).1 hchild, hlen i child k hchild]
  · rw [htake]
    refine (hfol i child k hchild).follows.eq_of_length (dueSlots_isPrefix hprog.snapshot child _ k) ?_
    rw [show ((w.children i).legs.get k).slots = w.slots i k from rfl, hlen i child k hchild,
      hprog.applied i child k hchild, dueSlots, length_map]
    rfl

lemma getD_of_any {l : List ℕ} (h : l.any (· != 0) = false) (i : ℕ) : l.getD i 0 = 0 := by
  rw [getD_eq_getElem?_getD]
  cases hi : l[i]? with
  | none => rfl
  | some m =>
    by_contra hm
    exact any_eq_false.1 h m (mem_of_getElem? hi) (by simpa using hm)

/-- An attempt that fails has nothing to show; one that succeeds is exact. -/
def Succeeds (b : Baseline F P) (result : Except String LiveReshardState) (w : World F P M) : Prop :=
  ∀ updated, result = .ok updated → Exact b updated w

lemma succeeds_error (e : String) (w : World F P M) : Succeeds b
    (.error e) w := fun _ h => nomatch h

lemma secured_finishAttempt (health : HealthResponse) (h : Passed b saved log a w)
    (hsince : saved.sourceClock ≤ log.length) :
    setting.Secured (Inv b saved) (Succeeds b) (finishAttempt health a) w := by
  have hinv := h.progress.inv
  refine secured_guard succeeds_error hinv fun _ hcomp => ?_
  have hskip : ∀ i k, (a.skip.get k).getD i 0 = 0 := by
    have hcomp := refuseIf_ok.1 hcomp
    simp only [Bool.or_eq_false_iff] at hcomp
    intro i k
    cases k with
    | vectors => exact getD_of_any hcomp.1.2 i
    | documents => exact getD_of_any hcomp.2 i
  refine secured_guard succeeds_error hinv fun expected _ => ?_
  refine secured_guard succeeds_error hinv fun _ _ => ?_
  have hnone : Settled b saved log a 0 w := ⟨h, fun _ _ _ hi _ => absurd hi (Nat.not_lt_zero _)⟩
  refine Setting.Secured.bind ((secured_flushChildren a.updated.children hnone).mono ?_)
  rintro (e | ⟨⟩) u hu
  · exact succeeds_error _ _
  have hsett := hu rfl
  rw [Nat.zero_add] at hsett
  refine Setting.Secured.bind
    ((secured_verifyChildren settled_frame expected.scoringFingerprint _ 0 hsett).mono ?_)
  rintro (e | sum) v hv
  · exact succeeds_error _ _
  refine secured_guard succeeds_error (settled_frame.inv _ (hv sum rfl)) fun _ _ => ?_
  refine secured_done settled_frame.stable (hv sum rfl) fun w hw => ⟨settled_frame.inv w hw, ?_⟩
  intro updated hupdated
  cases hupdated
  exact hw.exact hskip hsince

end Rows

end ProtomoltSearch.Replication
