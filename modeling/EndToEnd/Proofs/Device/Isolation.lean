import EndToEnd.Device.Publication
import EndToEnd.Proofs.Device.Addressees
import EndToEnd.Proofs.Device.Sending
import EndToEnd.Proofs.Primitive.Plain
import EndToEnd.Proofs.Session.Room

/-!
# What one peer's bundle does to the others

An envelope is for all devices of its recipients or for none: it is refused as a whole if the entry
for one device is. What is stored for a device lasts for so many entries, and lasts whatever is drawn
on the way; if it lasts for every device as often as it is listed, only two things are left to refuse
an envelope, the store and a key of a bundle that a session has to be started from.

So a device whose bundle becomes known does not take the envelope from the others, as long as no
bundle in use has a key that contributes nothing. Such a key is stored like any other, and with it
every envelope that the device is listed for is refused.

Main statements:

- `servesAll_of_encrypt`: what is stored lasted for an envelope that was sealed;
- `encrypt_goesThrough`: what lasts is not refused, but for the store or a key of a bundle;
- `encrypt_isolates`: one more bundle takes the envelope from nobody, unless a key of a bundle does;
- `encrypt_ne_ok`: an identity key that contributes nothing takes it from everybody.
-/

namespace EndToEnd

/-- No handshake with the bundle is refused, whichever one-time key is drawn. -/
def Bundle.Usable (S : Suite) (b : Bundle) : Prop :=
  ∀ k ∈ b.oneTimeKeys, S.Contributes b.identity.publicKey ∧ S.Contributes k.pair.publicKey

namespace Records

variable {S : Suite} {r r' : Records} {peer : DeviceId} {session : Session} {count : Nat}

/-- What is stored lasts for so many messages to a device: the session with it can seal and has room
for them, or the chain of a session still to be started has. -/
def Serves (S : Suite) (r : Records) (peer : DeviceId) (count : Nat) : Prop :=
  match r.session peer with
  | some session => count = 0 ∨ session.CanSeal S ∧ count ≤ session.room
  | none => r.reaches peer = true → count < UInt32.size

/-- A stored session lasts for as many messages as it can seal and has room for. -/
theorem serves_of_session (h : r.session peer = some session) :
    r.Serves S peer count ↔ count = 0 ∨ session.CanSeal S ∧ count ≤ session.room := by
  rw [Serves, h]

/-- A session still to be started has a whole chain, and nothing is needed for a device out of
reach. -/
theorem serves_of_none (h : r.session peer = none) :
    r.Serves S peer count ↔ (r.reaches peer = true → count < UInt32.size) := by
  rw [Serves, h]

/-- A device out of reach needs nothing. -/
theorem serves_of_unreached (h : r.reaches peer = false) : r.Serves S peer count := by
  cases hsession : r.session peer with
  | some session => exact nomatch h.symm.trans (reaches_of_session hsession)
  | none => exact (serves_of_none hsession).mpr fun hreach => nomatch h.symm.trans hreach

/-- Nothing is needed for no message. -/
theorem serves_zero : r.Serves S peer 0 := by
  cases hsession : r.session peer with
  | some session => exact (serves_of_session hsession).mpr (.inl rfl)
  | none => exact (serves_of_none hsession).mpr fun _ => by decide

/-- How long it lasts for a device is a matter of its session and of whether it is in reach. -/
theorem serves_congr (hsession : r'.session peer = r.session peer)
    (hreaches : r'.reaches peer = r.reaches peer) :
    r'.Serves S peer count ↔ r.Serves S peer count := by
  rw [Serves, Serves, hsession, hreaches]

theorem bundle_saveBundle (r : Records) (peer : DeviceId) (bundle : Bundle) :
    (r.answer (.saveBundle peer bundle)).2.bundle peer = some bundle :=
  Function.update_self _ _ _

theorem bundle_saveBundle_of_ne {other : DeviceId} (h : other ≠ peer) (r : Records)
    (bundle : Bundle) : (r.answer (.saveBundle peer bundle)).2.bundle other = r.bundle other :=
  Function.update_of_ne h _ _

end Records

namespace Device

variable {σ α β : Type} [Store σ] [LawfulStore σ] {S : Suite} {d : Device} {peer : DeviceId}
  {bodyKey : Key} {s s' t : State σ} {r : Records} {name : String} {recipients : List String}
  {plaintext : Bytes} {turns rest : List DeviceId} {own : Bundle}

/-- What is stored lasts for an entry at each turn of every device but this one. -/
def ServesAll (S : Suite) (d : Device) (r : Records) (turns : List DeviceId) : Prop :=
  ∀ peer, peer ≠ d.id → r.Serves S peer (turns.count peer)

/-- The turns of the others are not taken by the one whose turn it was. -/
theorem ServesAll.of_turn {r' : Records} (h : ServesAll S d r turns)
    (hcount : ∀ other, other ≠ peer → turns.count other = rest.count other)
    (hsession : ∀ other, other ≠ peer → r'.session other = r.session other)
    (hreaches : r'.reaches = r.reaches)
    (hself : peer ≠ d.id → r'.Serves S peer (rest.count peer)) : ServesAll S d r' rest := by
  intro other hother
  by_cases hpeer : other = peer
  · subst hpeer
    exact hself hother
  · rw [Records.serves_congr (hsession other hpeer) (congrFun hreaches other), ← hcount other hpeer]
    exact h other hother

/-- What lasts still does when one more bundle is stored. -/
theorem ServesAll.saveBundle (h : ServesAll S d r turns) (hsession : r.session peer = none)
    (hturns : turns.count peer < UInt32.size) (bundle : Bundle) :
    ServesAll S d (r.answer (.saveBundle peer bundle)).2 turns := by
  have hsame (other : DeviceId) :
      (r.answer (.saveBundle peer bundle)).2.session other = r.session other := rfl
  intro other hother
  by_cases hpeer : other = peer
  · subst hpeer
    exact (Records.serves_of_none ((hsame other).trans hsession)).mpr fun _ => hturns
  · refine (Records.serves_congr (hsame other) ?_).mpr (h other hother)
    rw [Records.reaches, Records.reaches, hsame, Records.bundle_saveBundle_of_ne hpeer]

/-! ## An envelope that was sealed -/

section Sealed

variable (hS : S.RefusesByPublicKey)
include hS

/-- What is stored lasted for one more entry before it was sealed. -/
theorem Seals.serves {entry : Wire.Entry} {session after : Session} {env : Environment} {count : Nat}
    (h : Seals S peer bodyKey s entry s' session env after)
    (hafter : s'.records.Serves S peer count) : s.records.Serves S peer (count + 1) := by
  have hsaved : s'.records.session peer = some after := by
    rw [h.records]
    exact Function.update_self _ _ _
  obtain ⟨-, hroom⟩ := Session.canSeal_after h.sealed
  have hcount : count ≤ after.room := by
    rcases (Records.serves_of_session hsaved).mp hafter with rfl | ⟨-, hle⟩
    · exact Nat.zero_le _
    · exact hle
  rcases h.source with hstored |
    ⟨hnone, bundle, k, own, ephemeral, secret, ratchet, -, -, -, -, rfl⟩
  · exact (Records.serves_of_session hstored).mpr
      (.inr ⟨Session.canSeal_of_sealForPeer hS h.sealed, by omega⟩)
  · rw [Session.room_initiator] at hroom
    exact (Records.serves_of_none hnone).mpr fun _ => by omega

/-- What lasts for the others once a device has had its turn lasted for the turn as well. -/
theorem servesAll_of_entryFor {result : Option Wire.Entry}
    (h : d.entryFor S bodyKey peer s = (.ok result, s')) (hrest : ServesAll S d s'.records rest) :
    ServesAll S d s.records (peer :: rest) := by
  have hcount (other : DeviceId) (hother : other ≠ peer) :
      rest.count other = (peer :: rest).count other :=
    (List.count_cons_of_ne (Ne.symm hother)).symm
  rcases entryFor_ok h with ⟨-, hout, hkeeps⟩ | ⟨entry, session, env, after, -, hself, hseals⟩
  · rw [hkeeps.1] at hrest
    refine hrest.of_turn hcount (fun _ _ => rfl) rfl fun hself => ?_
    exact Records.serves_of_unreached (hout.resolve_left hself)
  · refine hrest.of_turn hcount (fun other hother => ?_) hseals.steady.reaches.symm fun _ => ?_
    · rw [hseals.records]
      exact (Function.update_of_ne hother _ _).symm
    · rw [List.count_cons_self]
      exact hseals.serves hS (hrest peer hself)

omit hS in
/-- What is needed for the rest of a list, with what each link needs more, is needed for all of it. -/
theorem servesAll_of_mapM {f : α → Action σ β} {listed : α → List DeviceId} {Inv : State σ → Prop}
    (hstep : ∀ a s b s', Inv s → f a s = (.ok b, s') →
      Inv s' ∧ ∀ rest, ServesAll S d s'.records rest → ServesAll S d s.records (listed a ++ rest))
    {as : List α} {bs : List β} (hs : Inv s) (h : as.mapM f s = (.ok bs, s'))
    (hrest : ServesAll S d s'.records rest) :
    ServesAll S d s.records (as.flatMap listed ++ rest) := by
  induction as generalizing s bs with
  | nil =>
    rw [List.mapM_nil] at h
    obtain ⟨-, rfl⟩ := Prod.mk.inj h
    exact hrest
  | cons a as ih =>
    rw [List.mapM_cons] at h
    obtain ⟨b, s₁, hb, h⟩ := bind_run_ok h
    obtain ⟨bs', s₂, hbs', h⟩ := bind_run_ok h
    obtain ⟨-, rfl⟩ := Prod.mk.inj h
    obtain ⟨hs₁, hneeds⟩ := hstep a s b s₁ hs hb
    rw [List.flatMap_cons, List.append_assoc]
    exact hneeds _ (ih hs₁ hbs')

/-- The same once all devices of a name have had theirs. -/
theorem servesAll_of_entriesFor {entries : List Wire.Entry} (hs : Steady r s.records)
    (h : d.entriesFor S bodyKey name s = (.ok entries, s'))
    (hrest : ServesAll S d s'.records rest) :
    ServesAll S d s.records (r.devices name ++ rest) := by
  obtain ⟨devices, s₁, hask, h⟩ := bind_run_ok h
  obtain ⟨hdevices, hkeeps⟩ := query_ok (isQuery_devices name) hask
  obtain ⟨results, s₂, hresults, h⟩ := bind_run_ok h
  obtain ⟨-, rfl⟩ := Prod.mk.inj h
  have hstep (peer : DeviceId) (s : State σ) (result : Option Wire.Entry) (s' : State σ)
      (_ : True) (h : d.entryFor S bodyKey peer s = (.ok result, s')) :
      True ∧ ∀ rest, ServesAll S d s'.records rest → ServesAll S d s.records ([peer] ++ rest) :=
    ⟨trivial, fun _ => servesAll_of_entryFor hS h⟩
  have hneeds := servesAll_of_mapM hstep trivial hresults hrest
  have hlisted : devices = r.devices name := by
    rw [← hs.devices]
    exact hdevices
  rw [List.flatMap_singleton', hlisted] at hneeds
  rw [← hkeeps.1]
  exact hneeds

/-- What is stored lasted for an envelope that was sealed. -/
theorem servesAll_of_encrypt {e : Wire.Envelope}
    (h : d.encrypt S recipients plaintext s = (.ok e, s')) :
    ServesAll S d s.records (recipients.flatMap s.records.devices) := by
  obtain ⟨s₁, entries, hkeeps, hentries, -⟩ := encrypt_ok h
  have hstep (name : String) (s₁ : State σ) (entries : List Wire.Entry) (s₂ : State σ)
      (hs : Steady s.records s₁.records)
      (h : d.entriesFor S (s.env.draw 32).1 name s₁ = (.ok entries, s₂)) :
      Steady s.records s₂.records ∧ ∀ rest, ServesAll S d s₂.records rest →
        ServesAll S d s₁.records (s.records.devices name ++ rest) :=
    ⟨(entriesFor_addressees hs h).1, fun _ => servesAll_of_entriesFor hS hs h⟩
  have hnothing : ServesAll S d s'.records [] := fun peer _ => by
    rw [List.count_nil]
    exact Records.serves_zero
  have hneeds := servesAll_of_mapM hstep hkeeps.steady hentries hnothing
  rw [List.append_nil, hkeeps.1] at hneeds
  exact hneeds

end Sealed

/-! ## An envelope that is not refused -/

/-- The action is answered as said, or a call of the store is refused, or an agreement is, which is
to blame on something. -/
def GoesThrough (blame : Prop) (x : Action σ α) (s : State σ) (P : α → State σ → Prop) : Prop :=
  (∃ a s', x s = (.ok a, s') ∧ P a s' ∧ (s.Healthy → s'.Healthy)) ∨
  (¬ s.Healthy ∧ ∃ cause s', x s = (.error (.store cause), s')) ∨
  (blame ∧ ∃ s', x s = (.error (.session (.crypto .nonContributory)), s'))

namespace GoesThrough

variable {blame : Prop} {x : Action σ α} {P : α → State σ → Prop} {Q : β → State σ → Prop}

/-- A sequence goes through if its first action does, and the second behind it. -/
theorem bind {f : α → Action σ β} (hx : GoesThrough blame x s P)
    (hf : ∀ a s', P a s' → GoesThrough blame (f a) s' Q) : GoesThrough blame (x >>= f) s Q := by
  rcases hx with ⟨a, s₁, hok, ha, hhealthy⟩ | ⟨hno, cause, s₁, herror⟩ | ⟨hblame, s₁, herror⟩
  · rcases hf a s₁ ha with ⟨b, s₂, hok', hb, hhealthy'⟩ | ⟨hno, cause, s₂, h⟩ | ⟨hblame, s₂, h⟩
    · exact .inl ⟨b, s₂, (run_bind_ok hok).trans hok', hb, fun h => hhealthy' (hhealthy h)⟩
    · exact .inr (.inl ⟨fun h => hno (hhealthy h), cause, s₂, (run_bind_ok hok).trans h⟩)
    · exact .inr (.inr ⟨hblame, s₂, (run_bind_ok hok).trans h⟩)
  · exact .inr (.inl ⟨hno, cause, s₁, run_bind_error herror⟩)
  · exact .inr (.inr ⟨hblame, s₁, run_bind_error herror⟩)

theorem pure {a : α} (h : P a s) : GoesThrough blame (pure a : Action σ α) s P :=
  .inl ⟨a, s, rfl, h, fun h => h⟩

theorem mono {P' : α → State σ → Prop} (hx : GoesThrough blame x s P)
    (h : ∀ a s', P a s' → P' a s') : GoesThrough blame x s P' :=
  hx.imp_left fun ⟨a, s', hok, ha, hhealthy⟩ => ⟨a, s', hok, h a s' ha, hhealthy⟩

/-- An action that only reads goes through. -/
theorem of_reads {R : α → Prop} (h : Reads x s R) :
    GoesThrough blame x s (fun a s' => R a ∧ s'.records = s.records) := by
  rcases h with ⟨a, s₁, hok, ha, hkeeps, hhealthy⟩ | ⟨hno, cause, s₁, herror, -⟩
  · exact .inl ⟨a, s₁, hok, ⟨ha, hkeeps.1⟩, hhealthy⟩
  · exact .inr (.inl ⟨hno, cause, s₁, herror⟩)

theorem tryDraw {ε : Type} {refuse : ε → DeviceError} {a : α}
    {f : Environment → Except ε α × Environment} (h : (f s.env).1 = .ok a) :
    GoesThrough blame (tryDraw refuse f) s (fun b s' => b = a ∧ s'.records = s.records) :=
  .inl ⟨a, { s with env := (f s.env).2 }, by rw [run_tryDraw, h]; rfl, ⟨rfl, rfl⟩, fun h => h⟩

/-- A call is answered from the records, unless the store refuses it. -/
theorem ask (request : Store.Request α) :
    GoesThrough blame (ask request) s
      (fun a s' => a = (s.records.answer request).1 ∧ s'.records = (s.records.answer request).2) := by
  rcases ask_cases request s with ⟨s₁, hok, hrecords, -, -, hhealthy⟩ | ⟨hno, cause, s₁, herror, -⟩
  · exact .inl ⟨_, s₁, hok, ⟨rfl, hrecords⟩, hhealthy⟩
  · exact .inr (.inl ⟨hno, cause, s₁, herror⟩)

end GoesThrough

/-- On the way to an envelope: what is stored lasts for the turns still to come. -/
structure Ready (S : Suite) (d : Device) (r : Records) (turns : List DeviceId) (s : State σ) :
    Prop where
  steady : Steady r s.records
  serves : ServesAll S d s.records turns

/-- If each of a list goes through at its turns, so does the list. -/
theorem GoesThrough.mapM {blame : Prop} {f : α → Action σ β} {listed : α → List DeviceId}
    {as : List α}
    (hf : ∀ a ∈ as, ∀ rest s, Ready S d r (listed a ++ rest) s →
      GoesThrough blame (f a) s fun _ s' => Ready S d r rest s')
    (h : Ready S d r (as.flatMap listed ++ rest) s) :
    GoesThrough blame (as.mapM f) s fun _ s' => Ready S d r rest s' := by
  induction as generalizing s with
  | nil =>
    rw [List.mapM_nil]
    exact .pure h
  | cons a as ih =>
    rw [List.flatMap_cons, List.append_assoc] at h
    rw [List.mapM_cons]
    refine (hf a List.mem_cons_self _ s h).bind fun b s₁ hs₁ => ?_
    refine (ih (fun a' ha' => hf a' (List.mem_cons_of_mem _ ha')) hs₁).bind fun bs s₂ hs₂ => ?_
    exact .pure hs₂

/-- A bundle is to blame that a session would have to be started from for one of the listed devices:
it has a key that contributes nothing. -/
def Blamed (S : Suite) (d : Device) (r : Records) (listed : List DeviceId) : Prop :=
  ∃ peer bundle, peer ∈ listed ∧ peer ≠ d.id ∧ r.session peer = none ∧
    r.bundle peer = some bundle ∧ ¬ bundle.Usable S

section Forward

variable {blame : Prop} (hcurrent : s.records.current = some own)
  (hprivate : own.identity.hasPrivate = true)
include hcurrent hprivate

/-- A session is started, unless a key of the bundle is refused, or the device is out of reach. -/
theorem initiate_goesThrough (hnone : s.records.session peer = none)
    (hblame : ∀ b, s.records.bundle peer = some b → ¬ b.Usable S → blame) :
    GoesThrough blame (initiate S peer) s fun found s' =>
      s'.records = s.records ∧
        match found with
        | none => s.records.reaches peer = false
        | some session => s.records.reaches peer = true ∧ session.CanSeal S ∧
          session.room = UInt32.size - 1 := by
  refine (GoesThrough.of_reads (.ask (P := (· = s.records.bundle peer)) (isQuery_bundle peer)
    rfl)).bind ?_
  rintro _ s₁ ⟨rfl, hs₁⟩
  cases hbundle : s.records.bundle peer with
  | none => exact .pure ⟨hs₁, by rw [Records.reaches, hnone, hbundle]; rfl⟩
  | some bundle =>
    refine (GoesThrough.of_reads (.draw (P := (· = (bundle.drawOneTimeKey s₁.env).1)) rfl)).bind ?_
    rintro oneTime s₂ ⟨honeTime, hs₂⟩
    replace hs₂ := hs₂.trans hs₁
    cases oneTime with
    | none =>
      refine .pure ⟨hs₂, ?_⟩
      have hempty := drawOneTimeKey_eq_none honeTime.symm
      rw [Records.reaches, hnone, hbundle, Option.any_some, hempty]
      rfl
    | some oneTime =>
      obtain ⟨k, hk, rfl⟩ := mem_of_drawOneTimeKey (Prod.ext honeTime.symm rfl)
      have hreaches := Records.reaches_of_oneTimeKey hbundle hk
      refine (GoesThrough.of_reads (.currentBundle (P := (· = own)) (hs₂ ▸ hcurrent) rfl)).bind ?_
      rintro _ s₃ ⟨rfl, hs₃⟩
      refine (GoesThrough.of_reads (.draw (P := fun p => p.hasPrivate = true) rfl)).bind ?_
      rintro ephemeral s₄ ⟨hephemeral, hs₄⟩
      replace hs₄ := (hs₄.trans hs₃).trans hs₂
      -- only here can more than the store refuse: a key of the bundle contributes nothing
      rcases Handshake.initiatorSecret_cases (S := S) hprivate hephemeral bundle.identity.publicKey
        k.pair.publicKey with ⟨secret, hsecret⟩ | ⟨hrefused, hno⟩
      · refine (GoesThrough.of_reads (.attempt (P := fun _ => True) hsecret trivial)).bind ?_
        rintro _ s₅ ⟨-, hs₅⟩
        refine (GoesThrough.of_reads (.draw (P := fun session => session.CanSeal S ∧
          session.room = UInt32.size - 1) ⟨Session.canSeal_initiator, Session.room_initiator⟩)).bind ?_
        rintro session s₆ ⟨⟨hcan, hroom⟩, hs₆⟩
        exact .pure ⟨(hs₆.trans hs₅).trans hs₄, hreaches, hcan, hroom⟩
      · refine .inr (.inr ⟨hblame bundle hbundle fun husable => hno (husable k hk), s₄, ?_⟩)
        exact run_bind_error (by rw [run_attempt, hrefused]; rfl)

/-- The session that is found for a device, or started with it, has the room that it needs. -/
theorem sessionWith_goesThrough {count : Nat} (hserves : s.records.Serves S peer (count + 1))
    (hblame : ∀ b, s.records.session peer = none → s.records.bundle peer = some b →
      ¬ b.Usable S → blame) :
    GoesThrough blame (sessionWith S peer) s fun found s' =>
      s'.records = s.records ∧
        match found with
        | none => s.records.reaches peer = false
        | some session => s.records.reaches peer = true ∧ session.CanSeal S ∧
          count + 1 ≤ session.room := by
  refine (GoesThrough.of_reads (.ask (P := (· = s.records.session peer)) (isQuery_session peer)
    rfl)).bind ?_
  rintro _ s₁ ⟨rfl, hs₁⟩
  cases hsession : s.records.session peer with
  | some session =>
    have hlasts := (Records.serves_of_session hsession).mp hserves
    exact .pure ⟨hs₁, Records.reaches_of_session hsession,
      hlasts.resolve_left (Nat.succ_ne_zero count)⟩
  | none =>
    have hcurrent₁ : s₁.records.current = some own := hs₁ ▸ hcurrent
    have hsession₁ : s₁.records.session peer = none := hs₁ ▸ hsession
    have hblame₁ (b : Bundle) (hbundle : s₁.records.bundle peer = some b) : ¬ b.Usable S → blame :=
      hblame b hsession (hs₁ ▸ hbundle)
    have hroom := (Records.serves_of_none hsession).mp hserves
    have hinitiate := initiate_goesThrough hcurrent₁ hprivate hsession₁ hblame₁
    rw [hs₁] at hinitiate
    refine hinitiate.mono fun found s₂ hfound => ⟨hfound.1, ?_⟩
    cases found with
    | none => exact hfound.2
    | some session =>
      obtain ⟨hreaches, hcan, hfresh⟩ := hfound.2
      have := hroom hreaches
      exact ⟨hreaches, hcan, by omega⟩

/-- A turn that it lasts for goes through, unless the bundle to start from is to blame. -/
theorem entryFor_goesThrough (hserves : ServesAll S d s.records (peer :: rest))
    (hblame : ∀ b, peer ≠ d.id → s.records.session peer = none → s.records.bundle peer = some b →
      ¬ b.Usable S → blame) :
    GoesThrough blame (d.entryFor S bodyKey peer) s fun _ s' =>
      Steady s.records s'.records ∧ ServesAll S d s'.records rest := by
  have hcount (other : DeviceId) (hother : other ≠ peer) :
      (peer :: rest).count other = rest.count other := List.count_cons_of_ne (Ne.symm hother)
  have hleft (hself : peer ≠ d.id → s.records.Serves S peer (rest.count peer)) :
      ServesAll S d s.records rest := hserves.of_turn hcount (fun _ _ => rfl) rfl hself
  unfold entryFor
  split
  next hself => exact .pure ⟨.refl _, hleft fun hother => absurd hself hother⟩
  next hself =>
    have hpeer := hserves peer hself
    rw [List.count_cons_self] at hpeer
    refine (sessionWith_goesThrough hcurrent hprivate hpeer fun b => hblame b hself).bind ?_
    rintro found s₁ ⟨hs₁, hfound⟩
    cases found with
    | none =>
      rw [← hs₁] at hfound hleft ⊢
      exact .pure ⟨.refl _, hleft fun _ => Records.serves_of_unreached hfound⟩
    | some session =>
      obtain ⟨hreaches, hcan, hroom⟩ := hfound
      obtain ⟨key, after, hsealed⟩ :=
        hcan.exists_sealForPeer (Nat.lt_of_lt_of_le (Nat.succ_pos _) hroom) bodyKey s₁.env
      -- one message less fits behind this one, and one turn less is left
      obtain ⟨hcan', hroom'⟩ := Session.canSeal_after hsealed
      refine (GoesThrough.tryDraw hsealed).bind ?_
      rintro _ s₂ ⟨rfl, hs₂⟩
      refine (GoesThrough.ask (.saveSession peer after)).bind ?_
      rintro _ s₃ ⟨-, hs₃⟩
      have hsaved : s₃.records = s.records.withSession peer after := by
        rw [hs₃, hs₂, hs₁]
        rfl
      have hsteady : Steady s.records s₃.records := hsaved ▸ steady_withSession hreaches after
      refine .pure ⟨hsteady, hserves.of_turn hcount (fun other hother => ?_) hsteady.reaches
        fun _ => ?_⟩
      · rw [hsaved]
        exact Function.update_of_ne hother _ _
      · have hstored : s₃.records.session peer = some after := by
          rw [hsaved]
          exact Function.update_self _ _ _
        exact (Records.serves_of_session hstored).mpr (.inr ⟨hcan', by omega⟩)

end Forward

section Envelope

variable {listed : List DeviceId} (hcurrent : r.current = some own)
  (hprivate : own.identity.hasPrivate = true)
include hcurrent hprivate

/-- The turns of a name go through, if it is ready for them and for those behind. -/
theorem entriesFor_goesThrough (hlisted : ∀ peer ∈ r.devices name, peer ∈ listed)
    (hready : Ready S d r (r.devices name ++ rest) s) :
    GoesThrough (Blamed S d r listed) (d.entriesFor S bodyKey name) s fun _ s' =>
      Ready S d r rest s' := by
  refine (GoesThrough.of_reads (.ask (P := (· = r.devices name)) (isQuery_devices name)
    (congrFun hready.steady.devices name))).bind ?_
  rintro _ s₁ ⟨rfl, hs₁⟩
  have hstep (peer : DeviceId) (hpeer : peer ∈ r.devices name) (rest : List DeviceId) (s : State σ)
      (h : Ready S d r ([peer] ++ rest) s) :
      GoesThrough (Blamed S d r listed) (d.entryFor S bodyKey peer) s fun _ s' =>
        Ready S d r rest s' := by
    refine (entryFor_goesThrough (h.steady.current.trans hcurrent) hprivate h.serves
      fun b hself hnone hbundle husable => ?_).mono fun _ _ h' => ⟨h.steady.trans h'.1, h'.2⟩
    rw [h.steady.bundle] at hbundle
    exact ⟨peer, b, hlisted peer hpeer, hself, h.steady.session peer hnone, hbundle, husable⟩
  have hready' : Ready S d r ((r.devices name).flatMap (fun peer => [peer]) ++ rest) s₁ := by
    rw [List.flatMap_singleton']
    exact ⟨hs₁ ▸ hready.steady, hs₁ ▸ hready.serves⟩
  exact (GoesThrough.mapM hstep hready').bind fun entries s₂ hs₂ => .pure hs₂

/-- What lasts for an envelope is not refused, but for a call of the store or a key of a bundle. -/
theorem encrypt_goesThrough (hs : s.records = r)
    (hserves : ServesAll S d r (recipients.flatMap r.devices)) :
    GoesThrough (Blamed S d r (recipients.flatMap r.devices))
      (d.encrypt S recipients plaintext) s fun _ _ => True := by
  refine (GoesThrough.of_reads (.draw (P := fun _ => True) trivial)).bind ?_
  rintro bodyKey s₁ ⟨-, hs₁⟩
  refine (GoesThrough.of_reads (.draw (P := fun _ => True) trivial)).bind ?_
  rintro iv s₂ ⟨-, hs₂⟩
  replace hs₂ : s₂.records = r := (hs₂.trans hs₁).trans hs
  have hstep (name : String) (hname : name ∈ recipients) (rest : List DeviceId) (s : State σ)
      (h : Ready S d r (r.devices name ++ rest) s) :
      GoesThrough (Blamed S d r (recipients.flatMap r.devices)) (d.entriesFor S bodyKey name) s
        fun _ s' => Ready S d r rest s' :=
    entriesFor_goesThrough hcurrent hprivate
      (fun peer hpeer => List.mem_flatMap.mpr ⟨name, hname, hpeer⟩) h
  have hready : Ready S d r (recipients.flatMap r.devices ++ []) s₂ := by
    rw [List.append_nil]
    exact ⟨hs₂ ▸ .refl r, hs₂ ▸ hserves⟩
  exact (GoesThrough.mapM hstep hready).bind fun entries s₃ _ => .pure trivial

end Envelope

/-! ## A key that contributes nothing -/

/-- An envelope has an entry for every listed device in reach. -/
theorem addressed_ne_nil {e : Wire.Envelope}
    (h : d.encrypt S recipients plaintext s = (.ok e, s'))
    (hlisted : peer ∈ recipients.flatMap s.records.devices) (hother : peer ≠ d.id)
    (hreaches : s.records.reaches peer = true) : addressed peer e.entries ≠ [] := by
  have haddressed : peer ∈ e.entries.map (·.recipient) := by
    rw [encrypt_addressees h, addressees, List.mem_filter]
    exact ⟨hlisted, by simp [hother, hreaches]⟩
  obtain ⟨entry, hentry, hrecipient⟩ := List.mem_map.mp haddressed
  exact List.ne_nil_of_mem (List.mem_filter.mpr ⟨hentry, decide_eq_true hrecipient⟩)

/-- An envelope is never sealed while it is for a device that a session has to be started with, and
whose identity key no private key agrees with. -/
theorem encrypt_ne_ok {bundle : Bundle} (hlisted : peer ∈ recipients.flatMap s.records.devices)
    (hother : peer ≠ d.id) (hsession : s.records.session peer = none)
    (hbundle : s.records.bundle peer = some bundle) (hkeys : bundle.oneTimeKeys ≠ [])
    (hrefused : ∀ own, S.sharedSecret own bundle.identity.publicKey = none) (e : Wire.Envelope)
    (s' : State σ) : d.encrypt S recipients plaintext s ≠ (.ok e, s') := by
  intro h
  obtain ⟨k, hk⟩ := List.exists_mem_of_ne_nil _ hkeys
  have hentry := addressed_ne_nil h hlisted hother (Records.reaches_of_oneTimeKey hbundle hk)
  have htells := encrypt_tells S d recipients plaintext peer s
  rw [h] at htells
  obtain ⟨session, hstored | ⟨-, hstarted⟩⟩ := htells.1.sessionFrom hentry
  · exact absurd (hsession.symm.trans hstored) (Option.some_ne_none _).symm
  · obtain ⟨bundle', k, own, ephemeral, secret, ratchet, hbundle', -, -, hsecret, -⟩ := hstarted
    obtain rfl := Option.some.inj (hbundle.symm.trans hbundle')
    obtain ⟨own', hown'⟩ := Handshake.exists_sharedSecret_of_initiatorSecret hsecret
    rw [hrefused] at hown'
    exact absurd hown' Bool.false_ne_true

/-! ## Bob and Carol -/

/-- A device that writes to Bob and Carol. -/
def writer : Device := ⟨.ofNat 1, {}⟩

/-- The writer has a session with Bob's device, and knows of Carol's that there is one. -/
def acquainted (S : Suite) : State Memory where
  store := {
    current := some ⟨writer.id, .ofPrivate S (.ofNatLE 32 1), [], 0⟩
    devices := ⟨[("bob", [.ofNat 2]), ("carol", [.ofNat 3])]⟩
    sessions := ⟨[(.ofNat 2, .initiator S [] (.ofPrivate S (.ofNatLE 32 1))
      (.ofPrivate S (.ofNatLE 32 4)) (.ofNatLE 32 2) (.ofPrivate S (.ofNatLE 32 5)))]⟩ }
  env := .ofSeed 7
  unpublished := false

/-- What Carol's device publishes: an identity key, and a one-time key. -/
def carols (identity : Key) : Wire.PublishedBundle :=
  ⟨.ofNat 3, identity.bytes, [⟨0, (Octets.ofNatLE 32 6).bytes⟩]⟩

/-- What is stored of it. -/
def carolsStored (identity : Key) : Bundle :=
  ⟨.ofNat 3, .ofPublic identity, [⟨0, .ofPublic (.ofNatLE 32 6)⟩], 1⟩

theorem listed_acquainted (S : Suite) :
    ["bob", "carol"].flatMap (acquainted S).records.devices = [.ofNat 2, .ofNat 3] := rfl

/-- The session with Bob lasts, and Carol is out of reach. -/
theorem servesAll_acquainted (S : Suite) :
    ServesAll S writer (acquainted S).records [.ofNat 2, .ofNat 3] := by
  intro peer _
  by_cases hbob : peer = .ofNat 2
  · subst hbob
    refine (Records.serves_of_session rfl).mpr (.inr ⟨Session.canSeal_initiator, ?_⟩)
    rw [Session.room_initiator]
    decide
  · refine Records.serves_of_unreached ?_
    have hnone : (acquainted S).records.session peer = none := by
      show List.lookup peer [(DeviceId.ofNat 2, _)] = none
      rw [List.lookup_cons, beq_eq_false_iff_ne.mpr hbob]
      rfl
    rw [Records.reaches, hnone]
    rfl

/-- Only Bob's device is in reach: nothing is stored to start a session with Carol's from. -/
theorem addressees_acquainted (S : Suite) :
    writer.addressees (acquainted S).records ["bob", "carol"] = [.ofNat 2] := rfl

/-- Before anything of Carol's device is stored, the writer can write to Bob. -/
theorem encrypt_acquainted (S : Suite) (plaintext : Bytes) :
    ∃ e s', writer.encrypt S ["bob", "carol"] plaintext (acquainted S) = (.ok e, s') := by
  have hthrough : GoesThrough (Blamed S writer (acquainted S).records [.ofNat 2, .ofNat 3])
      (writer.encrypt S ["bob", "carol"] plaintext) (acquainted S) fun _ _ => True :=
    encrypt_goesThrough rfl rfl rfl (servesAll_acquainted S)
  rcases hthrough with ⟨e, s', hok, -⟩ | ⟨hno, -⟩ | ⟨⟨peer, bundle, -, -, -, hbundle, -⟩, -⟩
  · exact ⟨e, s', hok⟩
  · exact absurd trivial hno
  · exact nomatch hbundle

/-- Once Carol's bundle is stored hers is in reach too, whatever its identity key. -/
theorem addressees_learned (S : Suite) (identity : Key) :
    writer.addressees ((acquainted S).records.answer
      (.saveBundle (.ofNat 3) (carolsStored identity))).2 ["bob", "carol"] =
        [.ofNat 2, .ofNat 3] := by
  rfl

/-- Her bundle is stored as it was published: nothing looks at its identity key. -/
theorem ofPublished_carols (identity : Key) :
    Bundle.ofPublished (carols identity) = .ok (carolsStored identity) := by
  simp only [Bundle.ofPublished, carols, KeyPair.ofPublicBytes, Key.parse_bytes, List.mapM_cons,
    List.mapM_nil, OneTimeKey.ofPublished]
  rfl

/-- What Carol's device publishes is stored, whatever its identity key is. -/
theorem learnBundle_acquainted (S : Suite) (identity : Key) :
    ∃ s, writer.learnBundle (carols identity) (acquainted S) = (.ok true, s) ∧
      s.records =
        ((acquainted S).records.answer (.saveBundle (.ofNat 3) (carolsStored identity))).2 := by
  have hother : (carols identity).device ≠ writer.id := by
    show DeviceId.ofNat 3 ≠ DeviceId.ofNat 1
    decide
  rw [learnBundle, if_neg hother, ofPublished_carols]
  exact ⟨_, rfl, (Memory.answer_records (.saveBundle (.ofNat 3) (carolsStored identity)) _).2⟩

/-! ## One more bundle -/

/-- An envelope that is sealed before a bundle is stored of a device without a session, in particular
while the device is left out, is sealed afterwards as well, and has an entry for every listed device
in reach; or the store refuses a call, or an agreement is refused, for a key of a bundle that a
session is started from. -/
theorem encrypt_isolates (hS : S.RefusesByPublicKey) {bundle : Bundle} {e : Wire.Envelope}
    (hcurrent : s.records.current = some own) (hprivate : own.identity.hasPrivate = true)
    (hsession : s.records.session peer = none)
    (hturns : (recipients.flatMap s.records.devices).count peer < UInt32.size)
    (hsealed : d.encrypt S recipients plaintext s = (.ok e, s'))
    (hstored : t.records = (s.records.answer (.saveBundle peer bundle)).2) :
    (∃ e' t', d.encrypt S recipients plaintext t = (.ok e', t') ∧
      e'.entries.map (·.recipient) = d.addressees t.records recipients) ∨
    (¬ t.Healthy ∧ ∃ cause t', d.encrypt S recipients plaintext t = (.error (.store cause), t')) ∨
    (Blamed S d t.records (recipients.flatMap t.records.devices) ∧ ∃ t',
      d.encrypt S recipients plaintext t = (.error (.session (.crypto .nonContributory)), t')) := by
  have hserves : ServesAll S d t.records (recipients.flatMap t.records.devices) := by
    rw [hstored]
    exact (servesAll_of_encrypt hS hsealed).saveBundle hsession hturns bundle
  rcases encrypt_goesThrough (by rw [hstored]; exact hcurrent) hprivate rfl hserves with
    ⟨e', t', hok, -, -⟩ | hrefused
  · exact .inl ⟨e', t', hok, encrypt_addressees hok⟩
  · exact .inr hrefused

/-- With a bundle of Carol's that has no key to refuse, she is written to beside Bob. -/
theorem encrypt_isolates_carol :
    ∃ s, writer.learnBundle (carols (.ofNatLE 32 3)) (acquainted .plainNonzero) = (.ok true, s) ∧
      ∃ e s', writer.encrypt .plainNonzero ["bob", "carol"] [1] s = (.ok e, s') ∧
        e.entries.map (·.recipient) = [.ofNat 2, .ofNat 3] := by
  obtain ⟨e, s', hok⟩ := encrypt_acquainted .plainNonzero [1]
  obtain ⟨t, hlearned, hrecords⟩ := learnBundle_acquainted .plainNonzero (.ofNatLE 32 3)
  have hturns : (["bob", "carol"].flatMap
      (acquainted .plainNonzero).records.devices).count (.ofNat 3) < UInt32.size := by
    rw [listed_acquainted]
    decide
  refine ⟨t, hlearned, ?_⟩
  rcases encrypt_isolates Suite.plainNonzero_refusesByPublicKey rfl rfl rfl hturns hok hrecords
    with ⟨e', t', hok', haddressees⟩ | ⟨hno, -⟩ | ⟨⟨peer, bundle, -, -, -, hbundle, husable⟩, -⟩
  · refine ⟨e', t', hok', haddressees.trans ?_⟩
    rw [hrecords]
    exact addressees_learned _ _
  · exact absurd trivial hno
  · rw [hrecords] at hbundle
    by_cases hcarol : peer = .ofNat 3
    · subst hcarol
      rw [Records.bundle_saveBundle] at hbundle
      obtain rfl := Option.some.inj hbundle
      refine absurd (fun k hk => ?_) husable
      obtain rfl := List.mem_singleton.mp hk
      exact ⟨Suite.plainNonzero_contributes (by decide), Suite.plainNonzero_contributes (by decide)⟩
    · rw [Records.bundle_saveBundle_of_ne hcarol] at hbundle
      exact nomatch hbundle

/-- One bundle takes the envelope from everybody. The writer can write to Bob, and leaves out Carol,
of whose device nothing is stored; then a bundle of hers with the identity key zero is taken as it
is, and from then on nothing is sealed for Bob that Carol is to read as well. -/
theorem refused_for_zero_key :
    (∃ e s', writer.encrypt .standard ["bob", "carol"] [1] (acquainted .standard) = (.ok e, s') ∧
      e.entries.map (·.recipient) = [.ofNat 2]) ∧
    ∃ s, writer.learnBundle (carols (.replicate 32 0)) (acquainted .standard) = (.ok true, s) ∧
      ∃ s', writer.encrypt .standard ["bob", "carol"] [1] s =
        (.error (.session (.crypto .nonContributory)), s') := by
  obtain ⟨e, s', hok⟩ := encrypt_acquainted .standard [1]
  obtain ⟨s, hlearned, hrecords⟩ := learnBundle_acquainted .standard (.replicate 32 0)
  refine ⟨⟨e, s', hok, (encrypt_addressees hok).trans (addressees_acquainted _)⟩, s, hlearned, ?_⟩
  have hlisted : DeviceId.ofNat 3 ∈ ["bob", "carol"].flatMap s.records.devices := by
    rw [hrecords]
    exact List.mem_cons_of_mem _ List.mem_cons_self
  have hsession : s.records.session (.ofNat 3) = none := by
    rw [hrecords]
    rfl
  have hbundle : s.records.bundle (.ofNat 3) = some (carolsStored (.replicate 32 0)) := by
    rw [hrecords]
    exact Records.bundle_saveBundle _ _ _
  have hserves : ServesAll .standard writer s.records
      (["bob", "carol"].flatMap s.records.devices) := by
    rw [hrecords]
    exact (servesAll_acquainted .standard).saveBundle rfl (by decide) _
  have hcurrent : s.records.current = (acquainted .standard).records.current := by
    rw [hrecords]
    rfl
  have hthrough : GoesThrough (Blamed .standard writer s.records
      (["bob", "carol"].flatMap s.records.devices))
      (writer.encrypt .standard ["bob", "carol"] [1]) s fun _ _ => True :=
    encrypt_goesThrough hcurrent rfl rfl hserves
  rcases hthrough with ⟨e, s', hsealed, -⟩ | ⟨hno, -⟩ | ⟨-, hrefused⟩
  · exact absurd hsealed (encrypt_ne_ok hlisted (by decide) hsession hbundle
      (List.cons_ne_nil _ _) Suite.sharedSecret_standard_zero e s')
  · exact absurd trivial hno
  · exact hrefused

end Device

end EndToEnd
