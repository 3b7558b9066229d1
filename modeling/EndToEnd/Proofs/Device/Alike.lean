import EndToEnd.Proofs.Device.Fatal

/-!
# States that are alike

Two states are alike to the envelopes of a sender if they hold the same session with it and the same
bundle of our own. Then an envelope that is refused in one of them is refused for the same cause in
the other, whatever else they hold, and whatever random numbers come next. The time makes a
difference only by the skipped keys that expire.

Main statements:

- `Session.openMessage_matches`: how what a message says depends on the time;
- `Agrees.bind`, `Agrees.bind_repeats`: how two actions go the same way;
- `openEntry_agrees`, `decrypt_repeats`: an envelope in two states that are alike.
-/

namespace EndToEnd

namespace Session

variable {S : Suite} {config : Config} {now now' : UInt64} {s : Session}

/-- Two clocks that find the same keys fresh leave the same keys. -/
theorem prune_eq_of_isFresh
    (h : ∀ k ∈ s.skipped, k.isFresh now config.maxAge = k.isFresh now' config.maxAge) :
    s.prune config now = s.prune config now' := by
  rw [prune, prune, List.filter_congr h]

/-- On its chain a message says the same at any time: only the keys that are kept bear the time. -/
theorem openOnChain_matches (S : Suite) (config : Config) (now now' : UInt64) (s : Session)
    (body mac : Bytes) (m : Wire.RatchetMessage) :
    Matches (fun a b => a.1 = b.1) (s.openOnChain S config now body mac m)
      (s.openOnChain S config now' body mac m) := by
  unfold openOnChain
  cases s.receiveChain with
  | none => exact .error _
  | some chain =>
    dsimp only
    split
    next => exact .error _
    next =>
      split
      next => exact .error _
      next =>
        split
        next =>
          refine (Matches.refl _).bind ?_
          rintro plaintext _ rfl
          refine (Matches.refl _).bind ?_
          rintro next _ rfl
          exact .ok rfl
        next => exact .error _

/-- What a message says depends on the time only by the skipped keys that are left. -/
theorem openMessage_matches (S : Suite) (h : s.prune config now = s.prune config now')
    (payload : Bytes) (isHandshake : Bool) :
    Matches (fun a b => a.1 = b.1) (s.openMessage S config now payload isHandshake)
      (s.openMessage S config now' payload isHandshake) := by
  unfold openMessage
  rw [h]
  refine (Matches.refl _).bind ?_
  rintro ⟨body, mac⟩ _ rfl
  refine (Matches.refl _).bind ?_
  rintro message _ rfl
  refine (Matches.refl _).bind ?_
  rintro opened _ rfl
  cases opened with
  | some opened => exact .ok rfl
  | none =>
    have hchain (reached : Session) :=
      openOnChain_matches S config now now' reached body mac.bytes message
    dsimp only
    split
    next =>
      refine (Matches.refl _).bind ?_
      rintro reached _ rfl
      exact (hchain reached).bind fun _ _ htext => .ok htext
    next => exact (hchain _).bind fun _ _ htext => .ok htext

end Session

namespace Device

variable {σ α β γ δ ε : Type} {S : Suite} {d : Device} {s t : State σ}

/-! ## Actions that agree -/

/-- Two actions are refused for the same cause, or answer what is related, and the states after them
are related. -/
def Agrees (R : State σ → State σ → Prop) (P : α → β → Prop) (x : Action σ α) (y : Action σ β)
    (s t : State σ) : Prop :=
  Matches P (x s).1 (y t).1 ∧ R (x s).2 (y t).2

namespace Agrees

variable {R : State σ → State σ → Prop} {P : α → β → Prop} {Q : γ → δ → Prop}

/-- Actions that agree, followed by actions that agree, do so together. -/
theorem bind {x : Action σ α} {y : Action σ β} {f : α → Action σ γ} {g : β → Action σ δ}
    (hx : Agrees R P x y s t)
    (hf : ∀ a b s' t', P a b → R s' t' → Agrees R Q (f a) (g b) s' t') :
    Agrees R Q (x >>= f) (y >>= g) s t := by
  obtain ⟨hresults, hstates⟩ := hx
  cases hxs : x s with
  | mk result s' =>
    cases hyt : y t with
    | mk result' t' =>
      rw [hxs, hyt] at hresults hstates
      cases hresults with
      | error cause =>
        rw [Agrees, run_bind_error hxs, run_bind_error hyt]
        exact ⟨.error cause, hstates⟩
      | ok h =>
        rw [Agrees, run_bind_ok hxs, run_bind_ok hyt]
        exact hf _ _ s' t' h hstates

theorem pure {a : α} {b : β} (h : P a b) (hR : R s t) :
    Agrees R P (pure a : Action σ α) (pure b) s t := ⟨.ok h, hR⟩

theorem throw (cause : DeviceError) (hR : R s t) :
    Agrees R P (throw cause : Action σ α) (throw cause) s t := ⟨.error cause, hR⟩

theorem attempt {x : Except ε α} {y : Except ε β} (h : Matches P x y) (refuse : ε → DeviceError)
    (hR : R s t) : Agrees R P (attempt refuse x : Action σ α) (attempt refuse y) s t :=
  ⟨h.mapError refuse, hR⟩

end Agrees

/-- Whatever the first action is refused for, the second is refused for as well. -/
def Repeats (x : Action σ α) (y : Action σ β) (s t : State σ) : Prop :=
  Refuses (fun cause => ∃ t', y t = (.error cause, t')) x s

namespace Agrees

variable {R : State σ → State σ → Prop} {P : α → β → Prop} {x : Action σ α} {y : Action σ β}

/-- What agrees is the same when it is done again. -/
theorem repeats (h : Agrees R P x y s t) : Repeats x y s t := by
  intro cause s' hx
  obtain ⟨hresults, -⟩ := h
  rw [hx] at hresults
  cases hyt : y t with
  | mk result t' =>
    rw [hyt] at hresults
    cases hresults
    exact ⟨t', rfl⟩

/-- The same for an action of which only the beginning agrees. -/
theorem bind_repeats {f : α → Action σ γ} {g : β → Action σ δ} (h : Agrees R P x y s t)
    (hf : ∀ a b s' t', x s = (.ok a, s') → P a b → R s' t' → Repeats (f a) (g b) s' t') :
    Repeats (x >>= f) (y >>= g) s t := by
  intro cause s'' hrefused
  rcases bind_run_error hrefused with hx | ⟨a, s', hx, hrest⟩
  · obtain ⟨t', hy⟩ := h.repeats cause s'' hx
    exact ⟨t', run_bind_error hy⟩
  · obtain ⟨hresults, hstates⟩ := h
    rw [hx] at hresults hstates
    cases hyt : y t with
    | mk result t' =>
      rw [hyt] at hresults hstates
      cases hresults with
      | ok hab =>
        obtain ⟨t'', hy⟩ := hf a _ s' t' hx hab hstates cause s'' hrest
        exact ⟨t'', (run_bind_ok hyt).trans hy⟩

end Agrees

/-! ## States that are alike -/

variable [Store σ] [LawfulStore σ] {now now' : UInt64} {sender : DeviceId}

/-- Two states, each at a time of its own, on stores that refuse nothing and hold the same of a
sender and of our own. -/
structure Alike (sender : DeviceId) (now now' : UInt64) (s t : State σ) : Prop where
  healthy : s.Healthy ∧ t.Healthy
  session : t.records.session sender = s.records.session sender
  current : t.records.current = s.records.current
  clock : s.env.clock = now ∧ t.env.clock = now'

namespace Alike

/-- Asking both for what they hold alike. -/
theorem ask (h : Alike sender now now' s t) {request : Store.Request α} (hquery : IsQuery request)
    (hsame : (t.records.answer request).1 = (s.records.answer request).1) :
    Agrees (Alike sender now now') Eq (ask request : Action σ α) (ask request) s t := by
  rcases ask_cases request s with ⟨s', hs, hsrecords, hsenv, -, hshealthy⟩ | ⟨hno, -⟩
  · rcases ask_cases request t with ⟨t', ht, htrecords, htenv, -, hthealthy⟩ | ⟨hno, -⟩
    · rw [Agrees, hs, ht]
      rw [hquery] at hsrecords htrecords
      refine ⟨.ok hsame.symm, ⟨hshealthy h.healthy.1, hthealthy h.healthy.2⟩, ?_, ?_, ?_⟩
      · rw [hsrecords, htrecords, h.session]
      · rw [hsrecords, htrecords, h.current]
      · rw [hsenv, htenv]
        exact h.clock
    · exact absurd h.healthy.2 hno
  · exact absurd h.healthy.1 hno

/-- Both states give the same current bundle. -/
theorem currentBundle (h : Alike sender now now' s t) :
    Agrees (Alike sender now now') Eq (currentBundle : Action σ Bundle) currentBundle s t := by
  refine (h.ask isQuery_current h.current).bind ?_
  rintro answer _ s' t' rfl h'
  cases answer with
  | none => exact .throw _ h'
  | some bundle => exact .pure rfl h'

/-- What is drawn may differ, and the clock does not. -/
theorem draw (h : Alike sender now now' s t) {f g : Environment → α × Environment}
    (hf : ∀ env, (f env).2.clock = env.clock) (hg : ∀ env, (g env).2.clock = env.clock) :
    Agrees (Alike sender now now') (fun _ _ => True) (draw f : Action σ α) (draw g) s t :=
  ⟨.ok trivial, h.healthy, h.session, h.current, (hf _).trans h.clock.1, (hg _).trans h.clock.2⟩

theorem time (h : Alike sender now now' s t) :
    Agrees (Alike sender now now') (fun a b => a = now ∧ b = now')
      (Device.now : Action σ UInt64) Device.now s t :=
  ⟨.ok h.clock, h⟩

end Alike

/-- Two openings differ at most in the one-time keys that were drawn. -/
def SameOpening (o o' : Opening) : Prop := o'.session = o.session ∧ o'.payload = o.payload

/-- A handshake message is answered alike, but for the one-time keys that are drawn. -/
theorem respond_agrees (S : Suite) (d : Device) (h : Alike sender now now' s t) (own : Bundle)
    (oneTime : KeyPair) (m : Wire.HandshakeMessage) :
    Agrees (Alike sender now now') SameOpening (d.respond S own oneTime m)
      (d.respond S own oneTime m) s t := by
  unfold respond
  refine (Agrees.attempt (.refl _) _ h).bind ?_
  rintro secret _ s₁ t₁ rfl h₁
  refine (Agrees.attempt (.refl _) _ h₁).bind ?_
  rintro parts _ s₂ t₂ rfl h₂
  refine (Agrees.attempt (.refl _) _ h₂).bind ?_
  rintro first _ s₃ t₃ rfl h₃
  refine (Agrees.attempt (.refl _) _ h₃).bind ?_
  rintro session _ s₄ t₄ rfl h₄
  have hclock (env : Environment) := Bundle.clock_replenish S (own.erase m.oneTimeKey)
    d.config.oneTimeKeys env
  refine (h₄.draw hclock hclock).bind ?_
  rintro bundle bundle' s₅ t₅ - h₅
  exact .pure ⟨rfl, rfl⟩ h₅

/-- A handshake is opened alike on both states. -/
theorem openHandshake_agrees (S : Suite) (d : Device) (h : Alike sender now now' s t) (key : Bytes)
    (existing : Option Session) :
    Agrees (Alike sender now now') SameOpening (d.openHandshake S sender key existing)
      (d.openHandshake S sender key existing) s t := by
  unfold openHandshake
  refine (Agrees.attempt (.refl _) _ h).bind ?_
  rintro m _ s₁ t₁ rfl h₁
  refine h₁.currentBundle.bind ?_
  rintro own _ s₂ t₂ rfl h₂
  split
  next oneTime _ => exact respond_agrees S d h₂ own oneTime m
  next => exact .pure ⟨rfl, rfl⟩ h₂
  next => exact .throw _ h₂

/-- States that are alike open an entry alike, or refuse it for the same cause. -/
theorem openEntry_agrees (S : Suite) (d : Device) (h : Alike sender now now' s t)
    (entry : Wire.Entry) :
    Agrees (Alike sender now now') SameOpening (d.openEntry S sender entry)
      (d.openEntry S sender entry) s t := by
  unfold openEntry
  refine (h.ask (isQuery_session sender) h.session).bind ?_
  rintro existing _ s₁ t₁ rfl h₁
  split
  next => exact openHandshake_agrees S d h₁ entry.key existing
  next =>
    split
    next => exact .pure ⟨rfl, rfl⟩ h₁
    next => exact .throw _ h₁

/-- Skipped keys of a sender are as fresh at one time as at the other. -/
def NoneExpired (d : Device) (sender : DeviceId) (s : State σ) (now now' : UInt64) : Prop :=
  ∀ session, s.records.session sender = some session → ∀ k ∈ session.skipped,
    k.isFresh now d.config.maxAge = k.isFresh now' d.config.maxAge

/-- The session that an entry is opened with is left alike by the time. -/
theorem OpensWith.prune_eq {entry : Wire.Entry} {opening : Opening}
    (h : OpensWith S d s.records sender entry opening) (hfresh : NoneExpired d sender s now now') :
    opening.session.prune d.config now = opening.session.prune d.config now' := by
  apply Session.prune_eq_of_isFresh
  by_cases hnone : opening.bundle = none
  · exact hfresh opening.session (h.stored hnone)
  · rw [(h.unused_of_fresh hnone).2]
    exact nofun

/-- An envelope that is refused is refused for the same cause in every state that is alike. -/
theorem decrypt_repeats (S : Suite) (d : Device) {e : Wire.Envelope}
    (h : Alike e.sender now now' s t) (hfresh : NoneExpired d e.sender s now now') :
    Repeats (d.decrypt S e) (d.decrypt S e) s t := by
  unfold decrypt
  split
  next => exact (Agrees.throw (P := Eq) _ h).repeats
  next entry _ =>
    refine (openEntry_agrees S d h entry).bind_repeats ?_
    rintro opening opening' s₁ t₁ hopen ⟨hsession, hpayload⟩ h₁
    rw [hsession, hpayload]
    have hprune := (openEntry_ok hopen).prune_eq hfresh
    refine h₁.time.bind_repeats ?_
    rintro _ _ s₂ t₂ - ⟨rfl, rfl⟩ h₂
    refine (Agrees.attempt (Session.openMessage_matches S hprune opening.payload
      entry.isHandshake) _ h₂).bind_repeats ?_
    rintro ⟨bodyKey, after⟩ ⟨_, after'⟩ s₃ t₃ - rfl h₃
    refine (Agrees.attempt (.refl _) _ h₃).bind_repeats ?_
    rintro plaintext _ s₄ t₄ - rfl h₄
    -- behind the body nothing is refused
    refine .bind (.ask h₄.healthy.1 _) ?_
    intro _ s₅ hsaved
    have hhealthy := ask_staysHealthy (.saveSession e.sender after) s₄
    rw [hsaved] at hhealthy
    cases opening.bundle with
    | none => exact .pure _
    | some bundle =>
      refine .bind (replaceBundle_refuses bundle (hhealthy h₄.healthy.1)) ?_
      intro _ s₆ _
      exact .pure _

end Device

end EndToEnd
