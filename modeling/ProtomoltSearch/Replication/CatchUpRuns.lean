import ProtomoltSearch.Replication.CatchUpSteps

/-!
# What the children of a split hold

An attempt keeps the invariant, because the number of rows a child holds says which rows they are. It
does not where a child passes over document slots or loses rows while an attempt is running
(`gaps_in_children`). In a run without either, the children hold a first part of what is due to them, and
what is due up to the new clock when an attempt succeeds (`children_hold_prefixes`).
-/

namespace ProtomoltSearch.Replication

open List Setting

variable {F P M : Type} {b : Baseline F P} {saved : LiveReshardState} {w : World F P M}

lemma inv_frame (b : Baseline F P) (saved : LiveReshardState) :
    Frame b saved (Inv b saved : World F P M → Prop) :=
  ⟨inv_stable b saved, fun _ _ h => h.congr rfl h.legs, fun _ h => h⟩

lemma readWal_ok {source : Source F P M} {generation afterClock : ℕ}
    {frames : List (ReadWalResponse F P M)} (h : source.readWal generation afterClock = .ok frames) :
    afterClock ≤ source.log.length ∧
      frames = (source.log.drop afterClock).map source.frame ++ [source.completion] := by
  obtain ⟨_, -, ⟨⟩, hle, h⟩ := bind₂_ok.1 h
  exact ⟨by simpa using refuseIf_ok.1 hle, (pure_ok.1 h).symm⟩

/-- The rows up to the checkpoint have passed, and those after it are to come. -/
lemma SurveyedFrom.progress {skip : Legs (List ℕ)} {versions : List ℕ} (h : Inv b saved w)
    (hsurv : SurveyedFrom saved.children 0 skip w) :
    Progress b saved w.source.log ⟨saved, skip, versions, saved.sourceClock, false, none⟩
      (rowsOf ((w.source.log.take saved.sourceClock).drop b.cutoff))
      (rowsOf (w.source.log.drop saved.sourceClock)) w := by
  refine ⟨h, prefix_rfl, fun k => ?_, h.fixed, h.applied, fun i child hchild => ?_⟩
  · rw [← rowsOf_append, ← drop_append_of_le_length, take_append_drop]
    rw [length_take, Nat.min_eq_left h.clock]
    exact h.cutoff
  · have hi := hsurv i child hchild
    rw [Nat.zero_add] at hi
    exact hi

/-- An attempt keeps the invariant at every moment, and is exact if it succeeds. -/
lemma secured_catchUpChildrenOnce (h : Inv b saved w) :
    setting.Secured (Inv b saved) (Succeeds b) (catchUpChildrenOnce saved : Program F P M _) w := by
  have hstab : (setting : Setting _ (Reply F P M) _ _).Stable (Inv b saved) := inv_stable b saved
  refine secured_guard succeeds_error h fun _ _ => ?_
  refine secured_rpc_of_inv succeeds_error hstab hstab h (fun _ hw => hw) (fun _ _ hw _ _ => hw) ?_
  rintro w health w' hw - hserve
  obtain ⟨-, rfl⟩ := Prod.mk.inj hserve
  refine secured_guard succeeds_error hw fun _ _ => ?_
  refine secured_guard succeeds_error hw fun _ _ => ?_
  refine Setting.Secured.bind ((secured_survey (inv_frame b saved) saved.children 0 hw).mono ?_)
  rintro (e | ⟨skip, versions⟩) u hu
  · exact succeeds_error _ _
  have hframe := (inv_frame (M := M) b saved).and_surveyedFrom saved.children 0 skip
  refine secured_rpc_of_inv succeeds_error hstab hframe.stable (hu _ rfl) hframe.inv
    (fun _ _ hw _ _ => hw.1) ?_
  rintro v frames v' ⟨hv, hsurv⟩ - hserve
  obtain ⟨hread, rfl⟩ := Prod.mk.inj hserve
  obtain ⟨hsince, rfl⟩ := readWal_ok hread
  refine Setting.Secured.bind ((secured_applyFrames rfl _ (hsurv.progress hv)).mono ?_)
  rintro (e | a) u hu
  · exact succeeds_error _ _
  · exact secured_finishAttempt health (hu a rfl) hsince

structure SystemInv (b : Baseline F P) (s : System F P M) : Prop where
  inv : Inv b s.saved s.world
  attempt : ∀ p, s.attempt = some p → setting.Secured (Inv b s.saved) (Succeeds b) p s.world

/-- The condition, on a step: no child that the running attempt has asked loses rows, and a document
takes effect only where its child has no more vectors than document slots. -/
def Quiet (s : System F P M) : Event F P M → Prop
  | .happen happening => KeepsAsked s.world happening
  | .call outcome =>
    match s.attempt with
    | some p => setting.Allowed p s.world outcome
    | none => True
  | _ => True

instance decidableAllowed {α : Type} (w : World F P M) : ∀ (p : Program F P M α) (outcome : Outcome),
    Decidable (setting.Allowed p w outcome)
  | .done _, _ | .call _ _, .lost _ => inferInstanceAs (Decidable True)
  | .call req _, .served | .call req _, .unreported _ => inferInstanceAs (Decidable (InStep w req))

instance decidableQuiet (s : System F P M) : ∀ event, Decidable (Quiet s event)
  | .happen happening => inferInstanceAs (Decidable (KeepsAsked s.world happening))
  | .call outcome =>
    match h : s.attempt with
    | some p => decidable_of_iff (setting.Allowed p s.world outcome) (by simp [Quiet, h])
    | none => isTrue (by simp [Quiet, h])
  | .start | .finish _ | .abandon => inferInstanceAs (Decidable True)

variable {s : System F P M}

lemma SystemInv.stop (h : SystemInv b s) : SystemInv b s.stop :=
  ⟨h.inv.congr rfl h.inv.legs, fun _ hp => nomatch hp⟩

lemma SystemInv.next (h : SystemInv b s) {event : Event F P M} (hquiet : Quiet s event) :
    SystemInv b (s.next event) := by
  cases event with
  | start =>
    dsimp only [System.next]
    split
    · refine ⟨h.inv, fun p hp => ?_⟩
      cases hp
      exact secured_catchUpChildrenOnce h.inv
    · exact h
  | call outcome =>
    dsimp only [System.next]
    split
    · exact h
    · rename_i p hp
      have hstep := (h.attempt p hp).step (by simpa only [Quiet, hp] using hquiet)
      refine ⟨hstep.now, fun p' hp' => ?_⟩
      cases hp'
      exact hstep
  | finish persisted =>
    dsimp only [System.next]
    split
    · rename_i updated hp
      split
      · have hexact := (h.attempt _ hp).result updated rfl
        exact ⟨hexact.inv.congr rfl hexact.inv.legs, fun _ hp => nomatch hp⟩
      · exact h.stop
    · exact h.stop
    · exact h
  | abandon => exact h.stop
  | happen happening =>
    exact ⟨h.inv.happen happening, fun p hp => (h.attempt p hp).env hquiet⟩

/-- The children that are captured: the tips are those of the images. -/
lemma captureTips_ok {children captured : List LiveChild} {i : ℕ}
    (h : (setting.eval (captureTips i children) w).1 = .ok captured) :
    captured = children.mapIdx fun j child => { child with
      base := ⟨(w.slots (i + j) .vectors).length, (w.slots (i + j) .documents).length⟩
      applied := ⟨0, 0⟩ } := by
  induction children generalizing i w captured with
  | nil => exact (Except.ok.inj h).symm
  | cons child rest ih =>
    obtain ⟨_, hhealth, h⟩ := eval_bind_ok h
    obtain rfl := Except.ok.inj (eval_rpc_ok hhealth)
    obtain ⟨⟨⟩, -, h⟩ := eval_bind_ok h
    obtain ⟨others, hoth, h⟩ := eval_bind_ok h
    rw [← Except.ok.inj h, ih hoth, mapIdx_cons]
    simp only [Nat.add_assoc, Nat.add_comm 1]
    rfl

/-- The ranges of the children are all that is validated. -/
lemma validateChildRanges_congr {children children' : List LiveChild}
    (h : children.map (fun child => (child.hashLo, child.hashHi)) =
      children'.map fun child => (child.hashLo, child.hashHi)) :
    validateChildRanges children = validateChildRanges children' := by
  have hempty : children.isEmpty = children'.isEmpty := by
    rw [← isEmpty_map, h, isEmpty_map]
  rw [validateChildRanges, validateChildRanges, h, hempty]

/-- **The state `initialize_live_reshard` returns is a baseline.** -/
theorem initializeLiveReshard_baseline {source : String} {generation cutoff old new : ℕ}
    {children : List LiveChild} {state : LiveReshardState}
    (h : (setting.eval (initializeLiveReshard source generation cutoff old new children) w).1 =
    .ok state) : ∃ b : Baseline F P, b.cutoff = cutoff ∧ b.children = state.children ∧
    b.images = w.children ∧ state.sourceClock = cutoff ∧ cutoff ≤ w.source.log.length ∧
    ∀ (i : ℕ) (child : LiveChild), state.children[i]? = some child → child.applied = ⟨0, 0⟩ := by
  obtain ⟨⟨⟩, -, h⟩ := eval_bind_ok h
  obtain ⟨⟨⟩, hvalid, h⟩ := eval_bind_ok h
  obtain ⟨_, hhealth, h⟩ := eval_bind_ok h
  obtain rfl := Except.ok.inj (eval_rpc_ok hhealth)
  obtain ⟨⟨⟩, hcutoff, h⟩ := eval_bind_ok h
  obtain ⟨captured, hcap, h⟩ := eval_bind_ok h
  have hcap := captureTips_ok hcap
  cases h
  have hle : cutoff ≤ w.source.log.length := by
    have hcutoff := refuseIf_ok.1 hcutoff
    simp only [Bool.or_eq_false_iff, decide_eq_false_iff_not, Nat.not_lt] at hcutoff
    exact hcutoff.2
  have htips : ∀ (i : ℕ) (child : LiveChild), captured[i]? = some child →
      child.base = ⟨(w.slots i .vectors).length, (w.slots i .documents).length⟩ ∧ child.applied = ⟨0, 0⟩ := by
    intro i child hchild
    rw [hcap, getElem?_mapIdx] at hchild
    obtain ⟨c, -, rfl⟩ := Option.map_eq_some_iff.1 hchild
    rw [Nat.zero_add]
    exact ⟨rfl, rfl⟩
  have hranges : validateChildRanges captured = .ok () := by
    refine (validateChildRanges_congr ?_).trans hvalid
    refine ext_getElem? fun i => ?_
    rw [hcap, getElem?_map, getElem?_map, getElem?_mapIdx]
    cases children[i]? <;> rfl
  refine ⟨⟨cutoff, captured, w.children, hranges, fun i child k hchild => ?_⟩, rfl, rfl, rfl, rfl, hle,
    fun i child hchild => (htips i child hchild).2⟩
  rw [(htips i child hchild).1]
  cases k <;> rfl

/-- A state that was just initialized is consistent with the images. -/
lemma inv_of_baseline {state : LiveReshardState} (hchildren : b.children = state.children)
    (himages : b.images = w.children) (hclock : state.sourceClock = b.cutoff)
    (hle : b.cutoff ≤ w.source.log.length)
    (happl : ∀ (i : ℕ) (child : LiveChild), state.children[i]? = some child → child.applied = ⟨0, 0⟩)
    (hdur : ∀ i k, ((w.children i).legs.get k).flushed = (w.slots i k).length) : Inv b state w := by
  have hzero : ∀ (i : ℕ) (child : LiveChild) (k : Kind), state.children[i]? = some child →
      child.applied.get k = 0 := by
    intro i child k hchild
    rw [happl i child hchild]
    cases k <;> rfl
  have hrows : ∀ i k, b.slots i k = w.slots i k := fun i k => by rw [Baseline.slots, himages]; rfl
  refine ⟨?_, hclock.ge, hclock.trans_le hle, fun i child k hchild => ?_, fun i child k hchild => ?_⟩
  · rw [hchildren]
    refine ext_getElem? fun i => ?_
    rw [getElem?_map]
    cases hi : state.children[i]? with
    | none => rfl
    | some child =>
      refine congrArg some ?_
      rw [LiveChild.fixed, ← happl i child hi]
  · rw [hzero i child k hchild, hclock, dueRows, drop_of_length_le (length_take_le _ _)]
    rfl
  · rw [hzero i child k hchild, hrows]
    exact ⟨.start, (hdur i k).ge, (hdur i k).le⟩

/-- **What the children hold.** The children were captured by `initialize_live_reshard` with images that
are flushed. In every run in which no child loses rows after the running attempt has asked for them, at
every moment each leg of each child holds its image and a first part of the rows after the baseline that
are routed to it, and when an attempt succeeds, exactly those up to the new clock. -/
theorem children_hold_prefixes (world : World F P M) (source : String) (generation cutoff old new : ℕ)
    (children : List LiveChild) (state : LiveReshardState)
    (hdurable : ∀ i k, ((world.children i).legs.get k).flushed = (world.slots i k).length)
    (hinit : (setting.eval (initializeLiveReshard source generation cutoff old new children) world).1 =
      .ok state)
    (events : List (Event F P M))
    (hquiet : Runs.Meets System.next Quiet ⟨{ world with asked := [] }, state, none⟩ events)
    (s : System F P M)
    (hs : s = Runs.run System.next ⟨{ world with asked := [] }, state, none⟩ events) :
    ∀ (i : ℕ) (child : LiveChild) (k : Kind), state.children[i]? = some child →
      Follows (world.slots i k) (dueSlots child cutoff s.world.source.log k) (s.world.slots i k) ∧
      ∀ updated, s.succeeded = some updated → updated.sourceClock ≤ s.world.source.log.length ∧
        s.world.slots i k = world.slots i k ++
          dueSlots child cutoff (s.world.source.log.take updated.sourceClock) k := by
  obtain ⟨b, rfl, hchildren, himages, hclock, hle, happlied⟩ := initializeLiveReshard_baseline hinit
  have hstart : SystemInv b (⟨{ world with asked := [] }, state, none⟩ : System F P M) :=
    ⟨inv_of_baseline hchildren himages hclock hle happlied hdurable, fun _ hp => nomatch hp⟩
  have hinv : SystemInv b s := hs ▸ Runs.run_history (I := fun _ s => SystemInv b s) hstart
    (fun _ _ h hquiet => h.next hquiet) hquiet
  have hrows : ∀ i k, b.slots i k = world.slots i k := fun i k => by rw [Baseline.slots, himages]; rfl
  intro i child k hchild
  rw [← hrows]
  -- the child, as another state of the same baseline has it
  have hsame : ∀ {children : List LiveChild}, children.map LiveChild.fixed = b.children →
      ∃ c, children[i]? = some c ∧ c.fixed = child := by
    intro children hfixed
    have hb := hchildren ▸ hchild
    rw [← hfixed, getElem?_map] at hb
    exact Option.map_eq_some_iff.1 hb
  constructor
  · obtain ⟨c, hc, rfl⟩ := hsame hinv.inv.fixed
    exact (hinv.inv.legs i c k hc).follows
  · intro updated hsucceeded
    have hattempt : s.attempt = some (.done (.ok updated)) := by
      unfold System.succeeded at hsucceeded
      split at hsucceeded
      · rename_i heq
        rw [heq, Option.some.inj hsucceeded]
      · cases hsucceeded
    have hexact := (hinv.attempt _ hattempt).result updated rfl
    obtain ⟨c, hc, rfl⟩ := hsame hexact.inv.fixed
    exact ⟨hexact.inv.clock, hexact.slots i c k hc⟩

def emptyChild : Child ℕ Unit := ⟨⟨⟨[], 0⟩, ⟨[], 0⟩⟩, 0, 2, ""⟩

/-- One child for the whole hash space. -/
def onlyChild : LiveChild := ⟨"child", 0, 2 ^ 64 - 1, 0, ⟨0, 0⟩, ⟨0, 0⟩⟩

/-- A row of a vector, and of a document. -/
def vectorRow (n : ℕ) : Row ℕ Unit := .vector [n] []

def documentRow (n : ℕ) : Row ℕ Unit := .document ⟨[], [], [], [], none, some n, none, ()⟩ []

def recordOf : Row ℕ Unit → WalRecord ℕ Unit Unit
  | .vector values key => ⟨some (.addVectors ⟨0, some ⟨values, 1⟩, [key]⟩)⟩
  | .document document key => ⟨some (.addDocuments ⟨0, [document], [key]⟩)⟩

/-- A source of the rows, after an empty baseline. -/
def sourceOf (rows : List (Row ℕ Unit)) (vectors documents : ℕ) : World ℕ Unit Unit where
  source := ⟨1, rows.map recordOf, ⟨vectors, documents, 0, 0, "", 0⟩⟩
  children := fun _ => emptyChild
  asked := []

def startState : LiveReshardState := ⟨"source", 1, 0, 0, 1, [onlyChild]⟩

def served (n : ℕ) : List (Event ℕ Unit Unit) := List.replicate n (.call .served)

def stateAfter (world : World ℕ Unit Unit) (events : List (Event ℕ Unit Unit)) : System ℕ Unit Unit :=
  Runs.run System.next ⟨{ world with asked := [] }, startState, none⟩ events

def twoVectors : World ℕ Unit Unit := sourceOf [vectorRow 7, vectorRow 8] 2 0

/-- The state an attempt leaves that has applied some rows. -/
def appliedState (clock vectors documents : ℕ) : LiveReshardState :=
  { startState with sourceClock := clock, children := [{ onlyChild with applied := ⟨vectors, documents⟩ }] }

/-- An attempt that is not disturbed. -/
theorem children_hold_prefixes_served :
    (stateAfter twoVectors (.start :: served 12)).succeeded = some (appliedState 2 2 0) ∧
    (stateAfter twoVectors (.start :: served 12)).world.slots 0 .vectors =
      [some (vectorRow 7), some (vectorRow 8)] := by
  have hsucceeded : (stateAfter twoVectors (.start :: served 12)).succeeded =
      some (appliedState 2 2 0) := by decide +kernel
  have h := children_hold_prefixes twoVectors "source" 1 0 0 1 [onlyChild] startState
    (fun i k => by cases k <;> rfl) (by decide +kernel) (.start :: served 12) (by decide +kernel)
    (stateAfter twoVectors (.start :: served 12)) rfl 0 onlyChild .vectors rfl
  exact ⟨hsucceeded, (h.2 _ hsucceeded).2.trans (by decide +kernel)⟩

/-- A vector and a document are caught up; then two documents are appended, and the next attempt takes the
slot the first document passed over for one of them. -/
def passedOver : System ℕ Unit Unit :=
  stateAfter (sourceOf [vectorRow 7, documentRow 1] 1 2) (.start :: served 11 ++ [.finish true,
    .happen (.append (recordOf (documentRow 2)) ⟨1, 3, 0, 0, "", 0⟩),
    .happen (.append (recordOf (documentRow 3)) ⟨1, 4, 0, 0, "", 0⟩), .start] ++ served 6)

/-- The child restarts after it was sent the first vector and before the second. The attempt fails; the
next one takes the second vector for the first, sends the second once more, and succeeds. -/
def restarted : System ℕ Unit Unit :=
  stateAfter twoVectors (.start :: served 5 ++ [.happen (.restart 0 ⟨0, 0⟩)] ++ served 7 ++
    [.finish true, .start] ++ served 11)

/-- **Two ways to a gap.** Document slots are not documents where a child has more vectors than documents:
without any failure the child holds the first and the third document. And a child that loses rows in the
middle of an attempt is sent the rows after them, which the next attempt does not see. -/
theorem gaps_in_children :
    ((passedOver.world.slots 0 .documents).filterMap id = [documentRow 1, documentRow 3] ∧
      dueRows onlyChild 0 passedOver.world.source.log .documents =
        [documentRow 1, documentRow 2, documentRow 3]) ∧
    (restarted.succeeded = some (appliedState 2 2 0) ∧
      (restarted.world.slots 0 .vectors).filterMap id = [vectorRow 8, vectorRow 8] ∧
      dueRows onlyChild 0 restarted.world.source.log .vectors = [vectorRow 7, vectorRow 8]) := by
  decide +kernel

end ProtomoltSearch.Replication
