import ProtomoltSearch.Foundations.Runs

/-!
# Programs that call servers

A program makes calls one after the other and ends with a value or with an error (`Calls`). A call is
served, or lost on the way, or served and its reply is lost (`Outcome`); between two calls the
environment changes the world (`Setting`).

`Secured Q p w` says that the program `p`, started in the world `w`, keeps the invariant `I` at every
moment and that `Q` holds of what it ends with, from then on. Programs are put together by
`Secured.bind`; an assertion that holds between two calls has to be `Stable`.
-/

namespace ProtomoltSearch

variable {Req : Type} {Rep : Req → Type} {α β W E : Type}

/-- A program that makes calls. -/
inductive Calls (Req : Type) (Rep : Req → Type) (α : Type) : Type where
  | done (result : Except String α)
  | call (req : Req) (next : Except String (Rep req) → Calls Req Rep α)

namespace Calls

protected def bind : Calls Req Rep α → (α → Calls Req Rep β) → Calls Req Rep β
  | done (.ok a), f => f a
  | done (.error e), _ => done (.error e)
  | call req next, f => call req fun reply => (next reply).bind f

instance : Monad (Calls Req Rep) where
  pure a := done (.ok a)
  bind := Calls.bind

instance : MonadLift (Except String) (Calls Req Rep) where
  monadLift := done

/-- A call whose failure ends the program. -/
def rpc (req : Req) (said : String → String) : Calls Req Rep (Rep req) :=
  call req fun reply => done (reply.mapError said)

end Calls

/-- How a call can end. -/
inductive Outcome where
  | served
  | lost (error : String)
  | unreported (error : String)
  deriving DecidableEq

/-- The servers and the environment: how a request is served, what an event of the environment does, and
which events and which outcomes of a request there may be. -/
structure Setting (Req : Type) (Rep : Req → Type) (W E : Type) where
  serve : (req : Req) → W → Except String (Rep req) × W
  env : W → E → W
  may : W → E → Prop
  allows : Req → W → Outcome → Prop

namespace Setting

variable (σ : Setting Req Rep W E)

/-- What the caller learns, and the world after the call. -/
def answer (req : Req) (w : W) : Outcome → Except String (Rep req) × W
  | .served => σ.serve req w
  | .lost e => (.error e, w)
  | .unreported e => (.error e, (σ.serve req w).2)

/-- The next call of a program is made. -/
def step : Calls Req Rep α → W → Outcome → Calls Req Rep α × W
  | .done result, w, _ => (.done result, w)
  | .call req next, w, outcome => (next (σ.answer req w outcome).1, (σ.answer req w outcome).2)

/-- A program that runs undisturbed: what it ends with, and the world it leaves. -/
def eval : Calls Req Rep α → W → Except String α × W
  | .done result, w => (result, w)
  | .call req next, w => eval (next (σ.serve req w).1) (σ.serve req w).2

/-- The next call of a program may have this outcome. -/
def Allowed : Calls Req Rep α → W → Outcome → Prop
  | .done _, _, _ => True
  | .call req _, w, outcome => σ.allows req w outcome

/-- The environment cannot break the assertion. -/
def Stable (P : W → Prop) : Prop := ∀ w event, σ.may w event → P w → P (σ.env w event)

/-- The assertion holds now and whatever the environment does. -/
def Always (P : W → Prop) (w : W) : Prop :=
  ∀ events, Runs.Meets σ.env σ.may w events → P (Runs.run σ.env w events)

/-- The program is safe: the invariant holds at every moment, and `Q` of what it ends with. -/
def Secured (I : W → Prop) (Q : Except String α → W → Prop) : Calls Req Rep α → W → Prop
  | .done result, w => σ.Always (fun w => I w ∧ Q result w) w
  | .call req next, w => σ.Always (fun w => I w ∧ ∀ outcome, σ.allows req w outcome →
      Secured I Q (next (σ.answer req w outcome).1) (σ.answer req w outcome).2) w

variable {σ} {I P : W → Prop} {Q : Except String α → W → Prop} {R : Except String β → W → Prop} {w : W}
  {event : E} {p : Calls Req Rep α} {f : α → Calls Req Rep β} {said : String → String}

lemma eval_bind_ok {b : β} (h : (σ.eval (p >>= f) w).1 = .ok b) :
    ∃ a, (σ.eval p w).1 = .ok a ∧ (σ.eval (f a) (σ.eval p w).2).1 = .ok b := by
  induction p generalizing w with
  | done result =>
    cases result with
    | ok a => exact ⟨a, rfl, h⟩
    | error e => cases h
  | call req next ih => exact ih _ h

lemma eval_rpc_ok {req : Req} {reply : Rep req}
    (h : (σ.eval (Calls.rpc req said) w).1 = .ok reply) : (σ.serve req w).1 = .ok reply := by
  cases hserve : (σ.serve req w).1 with
  | ok r => exact (congrArg (·.mapError said) hserve).symm.trans h
  | error e => exact nomatch (congrArg (·.mapError said) hserve).symm.trans h

lemma Always.now (h : σ.Always P w) : P w := h [] trivial

lemma Always.env (h : σ.Always P w) (hmay : σ.may w event) : σ.Always P (σ.env w event) :=
  fun events hmeets => h (event :: events) ⟨hmay, hmeets⟩

lemma Stable.always (h : σ.Stable P) (hw : P w) : σ.Always P w := by
  intro events hmeets
  induction events generalizing w with
  | nil => exact hw
  | cons event events ih => exact ih (h w event hmeets.1 hw) hmeets.2

lemma Always.mono {P' : W → Prop} (h : σ.Always P w) (hmono : ∀ w, P w → P' w) : σ.Always P' w :=
  fun events hmeets => hmono _ (h events hmeets)

lemma Secured.now (h : σ.Secured I Q p w) : I w := by
  cases p with
  | done result | call req next => exact (Always.now h).1

lemma Secured.result {result : Except String α} (h : σ.Secured I Q (.done result) w) : Q result w :=
  (Always.now h).2

lemma Secured.env (h : σ.Secured I Q p w) (hmay : σ.may w event) :
    σ.Secured I Q p (σ.env w event) := by
  cases p with
  | done result | call req next => exact Always.env h hmay

/-- A call does not make a program unsafe. -/
lemma Secured.step {outcome : Outcome} (h : σ.Secured I Q p w)
    (hallows : σ.Allowed p w outcome) : σ.Secured I Q (σ.step p w outcome).1 (σ.step p w outcome).2 := by
  cases p with
  | done result => exact h
  | call req next => exact (Always.now h).2 outcome hallows

lemma Secured.mono {Q' : Except String α → W → Prop} (h : σ.Secured I Q p w)
    (hmono : ∀ result w, Q result w → Q' result w) : σ.Secured I Q' p w := by
  induction p generalizing w with
  | done result => exact Always.mono h fun w hw => ⟨hw.1, hmono result w hw.2⟩
  | call req next ih =>
    exact Always.mono h fun w hw => ⟨hw.1, fun outcome hallows => ih _ (hw.2 outcome hallows)⟩

lemma secured_done {result : Except String α} (hstab : σ.Stable P) (hw : P w)
    (h : ∀ w, P w → I w ∧ Q result w) : σ.Secured I Q (.done result) w :=
  (hstab.always hw).mono h

/-- One program after the other. -/
lemma Secured.bind (h : σ.Secured I (fun result w => match result with
      | .ok a => σ.Secured I R (f a) w
      | .error e => R (.error e) w) p w) : σ.Secured I R (p >>= f) w := by
  induction p generalizing w with
  | done result =>
    cases result with
    | ok a => exact (Always.now h).2
    | error e => exact h
  | call req next ih =>
    exact Always.mono h fun w hw => ⟨hw.1, fun outcome hallows => ih _ (hw.2 outcome hallows)⟩

lemma secured_check {x : Except String α} (herr : ∀ e, x = .error e → σ.Secured I R (.done (.error e)) w)
    (hok : ∀ a, x = .ok a → σ.Secured I R (f a) w) :
    σ.Secured I R ((.done x : Calls Req Rep α) >>= f) w := by
  cases x with
  | ok a => exact hok a rfl
  | error e => exact herr e rfl

/-- **A call, and then a program.** Where the call fails, the program ends. -/
theorem secured_rpc {req : Req} {f : Rep req → Calls Req Rep β} (hstab : σ.Stable P) (hw : P w)
    (hI : ∀ w, P w → I w)
    (herr : ∀ w outcome e, P w → σ.allows req w outcome → (σ.answer req w outcome).1 = .error e →
    σ.Secured I R (.done (.error (said e))) (σ.answer req w outcome).2)
    (hok : ∀ w reply w', P w → σ.allows req w .served → σ.serve req w = (.ok reply, w') →
    σ.Secured I R (f reply) w') : σ.Secured I R (Calls.rpc req said >>= f) w := by
  refine (hstab.always hw).mono fun w hw => ⟨hI w hw, fun outcome hallows => ?_⟩
  cases hreply : (σ.answer req w outcome).1 with
  | error e => exact herr w outcome e hw hallows hreply
  | ok reply =>
    cases outcome with
    | served => exact hok w reply _ hw hallows (Prod.ext hreply rfl)
    | lost error | unreported error => cases hreply

/-- The same of a program that owes nothing but the invariant where it fails. -/
lemma secured_rpc_of_inv {req : Req} {f : Rep req → Calls Req Rep β}
    (hR : ∀ e w, R (.error e) w) (hstableI : σ.Stable I)
    (hstab : σ.Stable P) (hw : P w) (hI : ∀ w, P w → I w)
    (hserve : ∀ w outcome, P w → σ.allows req w outcome → (∀ e, outcome ≠ .lost e) → I (σ.serve req w).2)
    (hok : ∀ w reply w', P w → σ.allows req w .served → σ.serve req w = (.ok reply, w') →
      σ.Secured I R (f reply) w') :
    σ.Secured I R (Calls.rpc req said >>= f) w := by
  refine secured_rpc hstab hw hI (fun w outcome e hw hallows _ => ?_) hok
  have hinv : I (σ.answer req w outcome).2 := by
    cases outcome with
    | served | unreported error => exact hserve w _ hw hallows fun _ h => nomatch h
    | lost error => exact hI w hw
  exact secured_done hstableI hinv fun w hw => ⟨hw, hR _ w⟩

end Setting

end ProtomoltSearch
