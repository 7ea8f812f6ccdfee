import ProtomoltSearch.ControlPlane.Reconcile

/-!
# Operations and their durable writes

An instance holds the state in memory, the file it is stored in, and a latch that is set when the
outcome of a write is not known; its clones share all three (`Plane`). A write makes a candidate file,
renames it over the file and syncs the directory (`writeBytes`); once the rename is tried, the file of a
write that fails may hold either state.

`exec_atomic`: after every operation, whatever its write does, the file and the memory agree, or
nothing has changed, or the latch is set, and then every later operation fails.
-/

namespace ProtomoltSearch.ControlPlane

/-! ## Writes -/

/-- What the calls of a write answer. A rename that fails may have replaced the file. -/
structure WriteOutcome where
  candidate : Except String Unit
  publish : Except (String × Bool) Unit
  sync : Except String Unit

structure StateWriteError where
  message : String
  mayHavePublished : Bool

/-- `write_bytes`, over a file that holds a state. -/
def writeBytes (outcome : WriteOutcome) (old new : StoredState) :
    StoredState × Except StateWriteError Unit :=
  match outcome.candidate, outcome.publish, outcome.sync with
  | .error message, _, _ => (old, .error ⟨message, false⟩)
  | _, .error (message, replaced), _ => (if replaced then new else old, .error ⟨message, true⟩)
  | _, _, .error message => (new, .error ⟨message, true⟩)
  | _, _, _ => (new, .ok ())

/-- An instance and its clones. An instance in memory has no file. -/
structure Plane where
  state : StoredState
  path : String
  file : Option StoredState
  persistenceUncertain : Bool
  retired : Bool

def uncertainControlState : String :=
  "control state persistence outcome is uncertain; close every clone and reopen existing durable " ++
    "state before continuing"

def retiredControlState : String :=
  "legacy control authority is durably retired for import; recover its retirement record, never " ++
    "restart it as a writer"

namespace Plane

/-- Persist a state; the latch is set when the outcome is not known. -/
def persistLocked (plane : Plane) (state : StoredState) (outcome : WriteOutcome) :
    Plane × Except String Unit :=
  if plane.persistenceUncertain then (plane, .error uncertainControlState)
  else if plane.retired then (plane, .error retiredControlState)
  else
    match plane.file with
    | none => (plane, .ok ())
    | some old =>
      let (file, written) := writeBytes outcome old state
      let plane := { plane with file := some file }
      match written with
      | .ok () => (plane, .ok ())
      | .error error =>
        if error.mayHavePublished then ({ plane with persistenceUncertain := true },
          .error (uncertainControlState ++ ": " ++ error.message))
        else (plane, .error error.message)

/-- The state, unless the instance is closed. -/
def lockState (plane : Plane) : Except Status StoredState := do
  refuseIf plane.persistenceUncertain (.failedPrecondition uncertainControlState)
  refuseIf plane.retired (.failedPrecondition retiredControlState)
  .ok plane.state

end Plane

section

variable (policy : ControlPolicy) (plane : Plane)

/-! ## Operations -/

/-- Why an operation failed: a status, or a text where the source answers one. -/
inductive Refusal where
  | status (status : Status)
  | text (message : String)

inductive Reply where
  | done
  | lease (lease : NodeLease)
  | plan (state : StoredState) (changed : Bool)

/-- An operation, with the time it runs at where it reads the clock. -/
inductive Op where
  | withCollection (name : String)
  | bootstrapTopology (generation : U64) (routes : List Coordinator.TopologyRoute)
  | register (req : RegisterNodeRequest) (now : U64)
  | renew (req : RenewNodeLeaseRequest) (now : U64)
  | drain (req : DrainNodeRequest) (now : U64)
  | report (req : ReportShardRequest) (now : U64)
  | completeAction (req : CompletePlacementActionRequest) (now : U64)
  | reconcile (dryRun : Bool) (now : U64)
  | rollback (requested : U64)
  | plan

/-- What an operation leaves and answers. -/
abbrev Step := Plane × Except Refusal Reply

/-- Nothing has happened. -/
def refused (status : Status) : Step := (plane, .error (.status status))

def refusedText (message : String) : Step := (plane, .error (.text message))

/-- Change the state in place, persist it, and put the old one back when that fails. -/
def commitInPlace (after : StoredState) (reply : Reply) (outcome : WriteOutcome) : Step :=
  let before := plane.state
  match Plane.persistLocked { plane with state := after } after outcome with
  | (plane, .ok ()) => (plane, .ok reply)
  | (plane, .error message) => refused { plane with state := before } (.internal message)

/-- Persist a candidate, then make it the state. -/
def commitCandidate (candidate : StoredState) (reply : Reply)
    (outcome : WriteOutcome) : Plane × Except String Reply :=
  match plane.persistLocked candidate outcome with
  | (plane, .ok ()) => ({ plane with state := candidate }, .ok reply)
  | (plane, .error message) => (plane, .error message)

/-- What a candidate's commit answers, with its text as a refusal. -/
def answered (refusal : String → Refusal) : Plane × Except String Reply → Step
  | (plane, .ok reply) => (plane, .ok reply)
  | (plane, .error message) => (plane, .error (refusal message))

/-- Run an operation whose every check comes before its first change. -/
def runChecked (result : Except Status (StoredState × Reply)) (outcome : WriteOutcome) : Step :=
  match result with
  | .error status => refused plane status
  | .ok (after, reply) => commitInPlace plane after reply outcome

/-- Complete an action. Where the mutation fails midway, the state from before is put back. -/
def completeInPlace (req : CompletePlacementActionRequest) (outcome : WriteOutcome)
    (s : StoredState) : Step :=
  match checkCompletion s req with
  | .error status => refused plane status
  | .ok c =>
    let before := s
    match mutate s c.action c.source req.nodeId c.outputs with
    | .error (status, changed) =>
      let dirty := { plane with state := changed }
      refused { dirty with state := before } status
    | .ok t => commitInPlace plane (finishAction t c.action c.revision) .done outcome

def completeLocked (req : CompletePlacementActionRequest) (now : U64)
    (outcome : WriteOutcome) (s : StoredState) : Step :=
  match validateLease s req.nodeId req.leaseToken now with
  | .error status => refused plane status
  | .ok _ =>
    if isCompleted s req.actionId then (plane, .ok .done) else completeInPlace plane req outcome s

def reconcileStep (dryRun : Bool) (now : U64) (outcome : WriteOutcome) (s : StoredState) : Step :=
  match reconcileLocked policy s now with
  | .error status => refused plane status
  | .ok (candidate, changed) =>
    if dryRun then (plane, .ok (.plan candidate changed))
    else answered (fun message => .status (.internal message))
      (commitCandidate plane candidate (.plan candidate changed) outcome)

def bootstrapStep (generation : U64) (routes : List Route) (outcome : WriteOutcome)
    (s : StoredState) : Step :=
  if isPristine s then
    match commitInPlace plane (bootstrapLocked s generation routes) .done outcome with
    | (plane, .error (.status status)) => refusedText plane status.message
    | step => step
  else (plane, .ok .done)

def collectionStep (name : String) (outcome : WriteOutcome) (s : StoredState) : Step :=
  match bindCollection (if plane.file.isNone then "(in memory)" else plane.path) s name with
  | .error message => refusedText plane message
  | .ok candidate => answered .text (commitCandidate plane candidate .done outcome)

def locked (refuse : Status → Step) (body : StoredState → Step) : Step :=
  match plane.lockState with
  | .error status => refuse status
  | .ok s => body s

/-- Run an operation that checks its request before taking the lock. -/
def checked {α : Type} (plane : Plane) (request : Except Status α) (body : α → StoredState → Step) :
    Step :=
  match request with
  | .error status => refused plane status
  | .ok a => locked plane (refused plane) (body a)

def withDone (x : Except Status StoredState) : Except Status (StoredState × Reply) :=
  x.map (·, .done)

def withLease (x : Except Status (StoredState × NodeLease)) : Except Status (StoredState × Reply) :=
  x.map fun r => (r.1, .lease r.2)

/-- Run an operation on an instance, with what becomes of its write. -/
def exec (op : Op) (outcome : WriteOutcome) : Step :=
  match op with
  | .withCollection name =>
    locked plane (fun status => refusedText plane status.message) (collectionStep plane name outcome)
  | .bootstrapTopology generation routes =>
    match bootstrapRoutes routes with
    | .error message => refusedText plane message
    | .ok routes => locked plane (fun status => refusedText plane status.message)
        (bootstrapStep plane generation routes outcome)
  | .register req now => checked plane (registerDuration policy req) fun duration s =>
      runChecked plane (withLease (registerLocked s req duration now)) outcome
  | .renew req now => checked plane (leaseDuration policy req.leaseMs) fun duration s =>
      runChecked plane (withLease (renewLocked s req duration now)) outcome
  | .drain req now =>
    locked plane (refused plane) fun s => runChecked plane (withDone (drain s req now)) outcome
  | .report req now => checked plane (checkReport req.replica) fun copy s =>
      runChecked plane (withDone (reportLocked s req copy now)) outcome
  | .completeAction req now => locked plane (refused plane) (completeLocked plane req now outcome)
  | .reconcile dryRun now =>
    locked plane (refused plane) (reconcileStep policy plane dryRun now outcome)
  | .rollback requested => locked plane (refused plane) fun s =>
      runChecked plane ((rollback s requested).map fun t => (t, .plan t true)) outcome
  | .plan => locked plane (refused plane) fun s => (plane, .ok (.plan s false))

end

/-- The state an operation leaves when it is accepted. -/
def apply (policy : ControlPolicy) (s : StoredState) : Op → Option StoredState
  | .withCollection name => (bindCollection "" s name).toOption
  | .bootstrapTopology generation routes =>
    (bootstrapRoutes routes).toOption.map (bootstrapLocked s generation)
  | .register req now => (register policy s req now).toOption.map Prod.fst
  | .renew req now => (renew policy s req now).toOption.map Prod.fst
  | .drain req now => (drain s req now).toOption
  | .report req now => (report s req now).toOption
  | .completeAction req now => (completeAction s req now).toOption
  | .reconcile dryRun now =>
    (reconcileLocked policy s now).toOption.map fun r => if dryRun then s else r.1
  | .rollback requested => (rollback s requested).toOption
  | .plan => some s

/-! ## Atomicity -/

variable {policy : ControlPolicy} {plane : Plane} {op : Op} {outcome : WriteOutcome}

/-- The file, if there is one, holds the state in memory. -/
def Plane.Durable (plane : Plane) : Prop := ∀ stored, plane.file = some stored → stored = plane.state

/-- The three ways an operation ends: it succeeds and the file holds the state in memory; it fails
and nothing has changed; or it fails and the latch is set. -/
def EndsAtomically (before : Plane) (step : Step) : Prop :=
  (∃ reply, step.2 = .ok reply ∧ step.1.Durable) ∨
    (∃ e, step.2 = .error e ∧ step.1 = before) ∨
      ∃ e, step.2 = .error e ∧ step.1.persistenceUncertain = true

/-- What a step of an operation does: it is refused, or the instance is open and it ends atomically,
in the state from before or in the one the operation leaves. -/
def Ends (policy : ControlPolicy) (plane : Plane) (op : Op) (step : Step) : Prop :=
  (∃ e, step = (plane, .error e)) ∨
    plane.persistenceUncertain = false ∧ (plane.Durable → EndsAtomically plane step) ∧
      (step.1.state = plane.state ∨ apply policy plane.state op = some step.1.state)

lemma writeBytes_cases (outcome : WriteOutcome) (old new : StoredState) :
    writeBytes outcome old new = (new, .ok ()) ∨
      (∃ message, writeBytes outcome old new = (old, .error ⟨message, false⟩)) ∨
        ∃ file message, writeBytes outcome old new = (file, .error ⟨message, true⟩) := by
  unfold writeBytes
  split
  · exact .inr (.inl ⟨_, rfl⟩)
  · exact .inr (.inr ⟨_, _, rfl⟩)
  · exact .inr (.inr ⟨_, _, rfl⟩)
  · exact .inl rfl

/-- How a write ends: the file holds the state, nothing has changed, or the latch is set. -/
lemma persistLocked_cases (plane : Plane) (state : StoredState) (outcome : WriteOutcome) :
    (∃ file, (∀ stored, file = some stored → stored = state) ∧
        plane.persistLocked state outcome = ({ plane with file := file }, .ok ())) ∨
      (∃ message, plane.persistLocked state outcome = (plane, .error message)) ∨
        ∃ file message, plane.persistLocked state outcome =
          ({ plane with file := file, persistenceUncertain := true }, .error message) := by
  unfold Plane.persistLocked
  split
  · exact .inr (.inl ⟨_, rfl⟩)
  split
  · exact .inr (.inl ⟨_, rfl⟩)
  split
  · rename_i hfile
    exact .inl ⟨none, fun _ h => (nomatch h), by rw [← hfile]⟩
  · rename_i old hfile
    rcases writeBytes_cases outcome old state with h | ⟨message, h⟩ | ⟨file, message, h⟩
    · rw [h]
      exact .inl ⟨_, fun _ h => (Option.some.inj h).symm, rfl⟩
    · rw [h]
      exact .inr (.inl ⟨message, by simp [← hfile]⟩)
    · rw [h]
      exact .inr (.inr ⟨some file, _, rfl⟩)

lemma ends_refused {e : Refusal} : Ends policy plane op (plane, .error e) := .inl ⟨e, rfl⟩

lemma lockState_ok {s : StoredState} (h : plane.lockState = .ok s) :
    plane.persistenceUncertain = false ∧ s = plane.state := by
  obtain ⟨_, hunc, h⟩ := bind_ok.1 h
  obtain ⟨_, h⟩ := rest_ok h
  exact ⟨refuseIf_ok.1 hunc, (Except.ok.inj h).symm⟩

lemma ends_locked {refuse : Status → Step} {body : StoredState → Step}
    (hrefuse : ∀ status, ∃ e, refuse status = (plane, .error e))
    (hbody : plane.persistenceUncertain = false → Ends policy plane op (body plane.state)) :
    Ends policy plane op (locked plane refuse body) := by
  unfold locked
  cases h : plane.lockState with
  | error status => exact .inl (hrefuse status)
  | ok s =>
    obtain ⟨hopen, rfl⟩ := lockState_ok h
    exact hbody hopen

section

variable (hopen : plane.persistenceUncertain = false)

include hopen

lemma ends_kept {reply : Reply} : Ends policy plane op (plane, .ok reply) :=
  .inr ⟨hopen, fun hdur => .inl ⟨reply, rfl, hdur⟩, .inl rfl⟩

lemma ends_commitInPlace {after : StoredState} {reply : Reply}
    (h : apply policy plane.state op = some after) :
    Ends policy plane op (commitInPlace plane after reply outcome) := by
  unfold commitInPlace
  rcases persistLocked_cases { plane with state := after } after outcome with
    ⟨file, hfile, hpers⟩ | ⟨message, hpers⟩ | ⟨file, message, hpers⟩
  · rw [hpers]
    exact .inr ⟨hopen, fun _ => .inl ⟨reply, rfl, hfile⟩, .inr h⟩
  · rw [hpers]
    exact ends_refused
  · rw [hpers]
    exact .inr ⟨hopen, fun _ => .inr (.inr ⟨_, rfl, rfl⟩), .inl rfl⟩

lemma ends_answered {refusal : String → Refusal} {candidate : StoredState} {reply : Reply}
    (h : apply policy plane.state op = some candidate) :
    Ends policy plane op (answered refusal (commitCandidate plane candidate reply outcome)) := by
  unfold commitCandidate
  rcases persistLocked_cases plane candidate outcome with
    ⟨file, hfile, hpers⟩ | ⟨message, hpers⟩ | ⟨file, message, hpers⟩
  · rw [hpers]
    exact .inr ⟨hopen, fun _ => .inl ⟨reply, rfl, hfile⟩, .inr h⟩
  · rw [hpers]
    exact ends_refused
  · rw [hpers]
    exact .inr ⟨hopen, fun _ => .inr (.inr ⟨_, rfl, rfl⟩), .inl rfl⟩

lemma ends_runChecked {result : Except Status (StoredState × Reply)}
    (h : ∀ r, result = .ok r → apply policy plane.state op = some r.1) :
    Ends policy plane op (runChecked plane result outcome) := by
  cases result with
  | error status => exact ends_refused
  | ok r => exact ends_commitInPlace hopen (h r rfl)

lemma ends_collection {name : String} : Ends policy plane (.withCollection name)
    (collectionStep plane name outcome plane.state) := by
  unfold collectionStep
  split
  · exact ends_refused
  · rename_i candidate hbind
    have hbind : bindCollection "" plane.state name = .ok candidate := by
      unfold bindCollection at hbind ⊢
      split_ifs at hbind ⊢ <;> exact hbind
    exact ends_answered hopen (by rw [apply, hbind]; rfl)

lemma ends_bootstrap {generation : U64} {routes : List Coordinator.TopologyRoute}
    {checked : List Route} (hroutes : bootstrapRoutes routes = .ok checked) :
    Ends policy plane (.bootstrapTopology generation routes)
      (bootstrapStep plane generation checked outcome plane.state) := by
  unfold bootstrapStep
  split
  · have h : Ends policy plane (.bootstrapTopology generation routes)
        (commitInPlace plane (bootstrapLocked plane.state generation checked) .done outcome) :=
      ends_commitInPlace hopen (by rw [apply, hroutes]; rfl)
    split
    · rename_i after status hstep
      rw [hstep] at h
      rcases h with ⟨e, he⟩ | ⟨-, hatomic, hstate⟩
      · cases he
        exact ends_refused
      · refine .inr ⟨hopen, fun hdur => ?_, hstate⟩
        rcases hatomic hdur with ⟨reply, hok, -⟩ | ⟨e, -, hsame⟩ | ⟨e, -, hu⟩
        · cases hok
        · exact .inr (.inl ⟨_, rfl, hsame⟩)
        · exact .inr (.inr ⟨_, rfl, hu⟩)
    · exact h
  · exact ends_kept hopen

lemma ends_complete {req : CompletePlacementActionRequest} {now : U64} :
    Ends policy plane (.completeAction req now) (completeLocked plane req now outcome plane.state) := by
  unfold completeLocked
  split
  · exact ends_refused
  rename_i lease hlease
  split
  · exact ends_kept hopen
  rename_i hnew
  unfold completeInPlace
  split
  · exact ends_refused
  rename_i c hchecked
  dsimp only
  split
  · exact ends_refused
  rename_i t hmutate
  refine ends_commitInPlace hopen ?_
  rw [apply, completeAction, hlease, ok_bind, if_neg hnew, completePending, hchecked, ok_bind, hmutate]
  rfl

lemma ends_reconcile {dryRun : Bool} {now : U64} : Ends policy plane (.reconcile dryRun now)
    (reconcileStep policy plane dryRun now outcome plane.state) := by
  unfold reconcileStep
  split
  · exact ends_refused
  · rename_i candidate changed hplan
    split
    · exact ends_kept hopen
    · rename_i hdry
      exact ends_answered hopen (by simp [apply, hplan, Except.toOption, hdry])

end

lemma ends_checked {α : Type} {request : Except Status α}
    {result : α → StoredState → Except Status (StoredState × Reply)}
    (h : ∀ a r, request = .ok a → result a plane.state = .ok r →
      apply policy plane.state op = some r.1) :
    Ends policy plane op (checked plane request fun a s => runChecked plane (result a s) outcome) := by
  cases request with
  | error status => exact ends_refused
  | ok a => exact ends_locked (fun _ => ⟨_, rfl⟩) fun hopen => ends_runChecked hopen (h a · rfl)

/-- **How an operation on an instance ends.** -/
theorem exec_ends (policy : ControlPolicy) (plane : Plane) (op : Op) (outcome : WriteOutcome) :
    Ends policy plane op (exec policy plane op outcome) := by
  cases op with
  | withCollection name => exact ends_locked (fun _ => ⟨_, rfl⟩) fun hopen => ends_collection hopen
  | bootstrapTopology generation routes =>
    unfold exec
    dsimp only
    split
    · exact ends_refused
    · exact ends_locked (fun _ => ⟨_, rfl⟩) fun hopen => ends_bootstrap hopen ‹_›
  | register req now | renew req now =>
    refine ends_checked fun duration r hduration hr => ?_
    obtain ⟨⟨t, lease⟩, hlocked, rfl⟩ := map_ok.1 hr
    simp [apply, register, renew, hduration, hlocked, Except.toOption]
  | report req now =>
    refine ends_checked fun copy r hcopy hr => ?_
    obtain ⟨t, hlocked, rfl⟩ := map_ok.1 hr
    simp [apply, report, hcopy, hlocked, Except.toOption]
  | drain req now | rollback requested =>
    refine ends_locked (fun _ => ⟨_, rfl⟩) fun hopen => ends_runChecked hopen fun r hr => ?_
    obtain ⟨t, hlocked, rfl⟩ := map_ok.1 hr
    simp [apply, hlocked, Except.toOption]
  | completeAction req now => exact ends_locked (fun _ => ⟨_, rfl⟩) fun hopen => ends_complete hopen
  | reconcile dryRun now => exact ends_locked (fun _ => ⟨_, rfl⟩) fun hopen => ends_reconcile hopen
  | plan => exact ends_locked (fun _ => ⟨_, rfl⟩) fun hopen => ends_kept hopen

lemma atomic_exec (hplane : plane.persistenceUncertain = false → plane.Durable) :
    EndsAtomically plane (exec policy plane op outcome) := by
  rcases exec_ends policy plane op outcome with ⟨e, he⟩ | ⟨hopen, hatomic, -⟩
  · rw [he]
    exact .inr (.inl ⟨e, rfl, rfl⟩)
  · exact hatomic (hplane hopen)

/-- **An operation leads to the state it leaves when it is accepted**, or changes nothing. -/
theorem exec_state (policy : ControlPolicy) (plane : Plane) (op : Op) (outcome : WriteOutcome) :
    (exec policy plane op outcome).1.state = plane.state ∨
      apply policy plane.state op = some (exec policy plane op outcome).1.state := by
  rcases exec_ends policy plane op outcome with ⟨e, he⟩ | ⟨-, -, hstate⟩
  · exact .inl (by rw [he])
  · exact hstate

variable (state : StoredState) (path : Option String)

/-! ## Runs of an instance -/

/-- An instance as it is opened: its file holds its state, or it has no file. -/
def Plane.opened (retired : Bool) : Plane where
  state := state
  path := path.getD ""
  file := path.map fun _ => state
  persistenceUncertain := false
  retired := retired

/-- The instance after operations on it or its clones, in order. -/
def runPlane (policy : ControlPolicy) (plane : Plane) (ops : List (Op × WriteOutcome)) : Plane :=
  ops.foldl (fun plane op => (exec policy plane op.1 op.2).1) plane

def answersOf (policy : ControlPolicy) (plane : Plane) : List (Op × WriteOutcome) →
    List (Except Refusal Reply)
  | [] => []
  | op :: ops =>
    (exec policy plane op.1 op.2).2 :: answersOf policy (exec policy plane op.1 op.2).1 ops

/-- A closed instance refuses every operation and stays as it is. -/
lemma exec_of_uncertain (h : plane.persistenceUncertain = true) (op : Op) (outcome : WriteOutcome) :
    (∃ e, (exec policy plane op outcome).2 = .error e) ∧ (exec policy plane op outcome).1 = plane := by
  rcases exec_ends policy plane op outcome with ⟨e, he⟩ | ⟨hopen, -⟩
  · rw [he]
    exact ⟨⟨e, rfl⟩, rfl⟩
  · exact absurd (hopen.symm.trans h) Bool.false_ne_true

/-- **No operation on a closed instance or a clone of it succeeds.** -/
theorem answersOf_of_uncertain (h : plane.persistenceUncertain = true)
    (ops : List (Op × WriteOutcome)) : ∀ answer ∈ answersOf policy plane ops, ∃ e, answer = .error e := by
  induction ops with
  | nil => exact fun answer ha => absurd ha List.not_mem_nil
  | cons op ops ih =>
    obtain ⟨herr, hsame⟩ := exec_of_uncertain h op.1 op.2
    rw [answersOf, hsame]
    exact List.forall_mem_cons.2 ⟨herr, ih⟩

/-- Along every run the instance is closed or its file holds its state. -/
lemma durable_runPlane (hplane : plane.persistenceUncertain = false → plane.Durable)
    (ops : List (Op × WriteOutcome)) : (runPlane policy plane ops).persistenceUncertain = false →
      (runPlane policy plane ops).Durable := by
  induction ops generalizing plane with
  | nil => exact hplane
  | cons op ops ih =>
    have hstep : EndsAtomically plane (exec policy plane op.1 op.2) := atomic_exec hplane
    refine ih ?_
    dsimp only
    intro hopen
    rcases hstep with ⟨reply, -, hdur⟩ | ⟨e, -, hsame⟩ | ⟨e, -, hunc⟩
    · exact hdur
    · rw [hsame] at hopen ⊢
      exact hplane hopen
    · rw [hunc] at hopen
      cases hopen

lemma durable_opened (retired : Bool) : (Plane.opened state path retired).Durable := by
  intro stored hstored
  obtain ⟨_, -, rfl⟩ := Option.map_eq_some_iff.1 hstored
  rfl

/-- **Every operation is atomic.** After any run of an opened instance, whatever becomes of the writes,
an operation succeeds and the file holds the state in memory, or fails and changes neither, or closes
the instance so that no later operation on it or a clone succeeds; a dry run changes neither. -/
theorem exec_atomic (policy : ControlPolicy) (state : StoredState) (path : Option String)
    (retired : Bool) (ops : List (Op × WriteOutcome)) (op : Op) (outcome : WriteOutcome) :
    let before := runPlane policy (Plane.opened state path retired) ops
    let step := exec policy before op outcome
    ((∃ reply, step.2 = .ok reply ∧ step.1.Durable) ∨
      (∃ e, step.2 = .error e ∧ step.1 = before) ∨
        (∃ e, step.2 = .error e) ∧ step.1.persistenceUncertain = true ∧
          ∀ later, ∀ answer ∈ answersOf policy step.1 later, ∃ e, answer = .error e) ∧
    ∀ now, op = .reconcile true now → step.1 = before := by
  intro before step
  refine ⟨?_, ?_⟩
  · have hbefore : before.persistenceUncertain = false → before.Durable :=
      durable_runPlane (fun _ => durable_opened state path retired) ops
    rcases atomic_exec hbefore with h | h | ⟨e, herror, huncertain⟩
    · exact .inl h
    · exact .inr (.inl h)
    · exact .inr (.inr ⟨⟨e, herror⟩, huncertain, answersOf_of_uncertain huncertain⟩)
  · rintro now rfl
    show (locked before (refused before) (reconcileStep policy before true now outcome)).1 = before
    unfold locked reconcileStep
    split
    · rfl
    · split
      · rfl
      · rfl

end ProtomoltSearch.ControlPlane
