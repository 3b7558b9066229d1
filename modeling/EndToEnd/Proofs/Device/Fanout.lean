import EndToEnd.Proofs.Device.Addressees

/-!
# What encrypting for many leaves behind

The devices of all recipients take their turns one after the other, and the session with each is saved
before the next one's turn. So whichever call of the store fails, there is a point up to which all
devices have had their turn: their sessions have advanced by one message for each, and nothing else
has changed. An answer is behind the last of them, and has the messages by which the sessions were
advanced, in the order of the turns; a refusal loses them.

Main statements:

- `SealedInTurn`: entries sealed one after the other, each in the session that is found then;
- `Serves.mapM`: the turns of a list are those of each of it, one behind the other;
- `advances_sealForPeer`, `SealedInTurn.session_ne_iff`: no session comes back to what it was;
- `encrypt_inTurn`: what is stored after encrypting, whether it is answered or refused.
-/

namespace EndToEnd

/-- How far a session has come with sending, from none at all: a step that is due is ahead of the
chain that it begins. -/
def Session.sendProgress : Option Session → Nat
  | none => 0
  | some s => if s.sendStepDue.isSome then 1 else s.sendIndex.toNat + 2

namespace Device

variable {σ α β : Type} [Store σ] [LawfulStore σ] {S : Suite} {d : Device} {peer : DeviceId}
  {bodyKey : Key} {r r' r'' : Records} {s s' s'' : State σ} {entries first rest : List Wire.Entry}
  {targets : List DeviceId}

/-! ## Turns -/

/-- Entries are sealed one after the other, each in the session that is found or started with its
recipient then. It says whether that session still sends handshake messages, and the session after it
is the only record that is replaced. -/
inductive SealedInTurn (S : Suite) (bodyKey : Key) : Records → List Wire.Entry → Records → Prop
  | nil {r : Records} : SealedInTurn S bodyKey r [] r
  | cons {r r' : Records} {entry : Wire.Entry} {entries : List Wire.Entry} {session after : Session}
      {env : Environment}
      (source : SessionFrom S r entry.recipient session)
      (isHandshake : entry.isHandshake = !session.isEstablished)
      (sealed : (session.sealForPeer S bodyKey.bytes env).1 = .ok (entry.key, after))
      (rest : SealedInTurn S bodyKey (r.withSession entry.recipient after) entries r') :
      SealedInTurn S bodyKey r (entry :: entries) r'

namespace SealedInTurn

/-- Entries sealed after one another are all sealed in turn. -/
theorem append (h : SealedInTurn S bodyKey r first r') (h' : SealedInTurn S bodyKey r' rest r'') :
    SealedInTurn S bodyKey r (first ++ rest) r'' := by
  induction h with
  | nil => exact h'
  | cons source isHandshake sealed _ ih => exact .cons source isHandshake sealed (ih h')

/-- Sealing replaces sessions alone, so who is listed and in reach stays as it was. -/
theorem steady (h : SealedInTurn S bodyKey r entries r') : Steady r r' := by
  induction h with
  | nil => exact .refl _
  | cons source _ _ _ ih => exact (steady_withSession (reaches_of_sessionFrom source) _).trans ih

/-- The session with a device that has no turn is left alone. -/
theorem session_eq (h : SealedInTurn S bodyKey r entries r')
    (hpeer : peer ∉ entries.map (·.recipient)) : r'.session peer = r.session peer := by
  induction h with
  | nil => rfl
  | cons _ _ _ _ ih =>
    rw [List.map_cons, List.mem_cons, not_or] at hpeer
    exact (ih hpeer.2).trans (Records.session_withSession_of_ne _ _ hpeer.1)

end SealedInTurn

/-! ## No session comes back -/

open Session (sendProgress)

/-- Sealing gets a session ahead. -/
theorem advances_sealForPeer {session after : Session} {plaintext bytes : Bytes} {env : Environment}
    (h : (session.sealForPeer S plaintext env).1 = .ok (bytes, after)) :
    sendProgress (some session) < sendProgress (some after) ∧ 2 ≤ sendProgress (some after) := by
  obtain ⟨mid, payload, hmid, hnext, -⟩ := Session.sealForPeer_eq_ok.mp h
  have hready := Session.sendStepDue_sealNext (Session.sendStepDue_readied hmid) hnext
  obtain ⟨chain, pair, next, -, -, hindex, -, rfl⟩ := Session.sealNext_eq_ok.mp hnext
  replace hindex : next.toNat = mid.sendIndex.toNat + 1 := Session.nextIndex_eq_ok.mp hindex
  have hafter : sendProgress (some { mid with
      sendChain := some (nextChainKey S chain), sendIndex := next }) = next.toNat + 2 := by
    rw [sendProgress, hready]
    rfl
  rw [hafter]
  refine ⟨?_, by omega⟩
  rcases Session.readied_eq_ok.mp hmid with ⟨hnone, rfl⟩ | ⟨their, shared, hdue, -, -⟩
  · rw [sendProgress, hnone, Option.isSome_none, if_neg Bool.false_ne_true]
    omega
  · rw [sendProgress, hdue, Option.isSome_some, if_pos rfl]
    omega

/-- The session that is found or started with a device is no further back than the stored one. -/
theorem SessionFrom.sendProgress_lt {session after : Session} {plaintext bytes : Bytes}
    {env : Environment} (h : SessionFrom S r peer session)
    (hsealed : (session.sealForPeer S plaintext env).1 = .ok (bytes, after)) :
    sendProgress (r.session peer) < sendProgress (some after) := by
  obtain ⟨hlt, hpos⟩ := advances_sealForPeer hsealed
  rcases h with hstored | ⟨hnone, -⟩
  · rw [hstored]
    exact hlt
  · rw [hnone]
    exact Nat.lt_of_lt_of_le Nat.two_pos hpos

namespace SealedInTurn

/-- No session falls back: sealing takes each of them further or leaves it. -/
theorem sendProgress_le (h : SealedInTurn S bodyKey r entries r') (peer : DeviceId) :
    sendProgress (r.session peer) ≤ sendProgress (r'.session peer) := by
  induction h with
  | nil => exact Nat.le_refl _
  | @cons r r' entry entries session after env source isHandshake sealed rest ih =>
    refine Nat.le_trans ?_ ih
    by_cases hpeer : peer = entry.recipient
    · subst hpeer
      rw [Records.session_withSession_self]
      exact Nat.le_of_lt (source.sendProgress_lt sealed)
    · exact Nat.le_of_eq
        (congrArg sendProgress (Records.session_withSession_of_ne r after hpeer).symm)

/-- The session of a device that an entry is sealed for comes further. -/
theorem sendProgress_lt (h : SealedInTurn S bodyKey r entries r')
    (hpeer : peer ∈ entries.map (·.recipient)) :
    sendProgress (r.session peer) < sendProgress (r'.session peer) := by
  induction h with
  | nil => exact absurd hpeer List.not_mem_nil
  | @cons r r' entry entries session after env source isHandshake sealed rest ih =>
    by_cases hfirst : peer = entry.recipient
    · subst hfirst
      have hrest := rest.sendProgress_le entry.recipient
      rw [Records.session_withSession_self] at hrest
      exact Nat.lt_of_lt_of_le (source.sendProgress_lt sealed) hrest
    · have hrest := ih ((List.mem_cons.mp hpeer).resolve_left hfirst)
      rw [Records.session_withSession_of_ne _ _ hfirst] at hrest
      exact hrest

/-- The sessions that are not what they were are those of the devices that have had a turn. -/
theorem session_ne_iff (h : SealedInTurn S bodyKey r entries r') (peer : DeviceId) :
    r'.session peer ≠ r.session peer ↔ peer ∈ entries.map (·.recipient) := by
  constructor
  · intro hne
    by_contra hpeer
    exact hne (h.session_eq hpeer)
  · intro hpeer hsame
    have hlt := h.sendProgress_lt hpeer
    rw [hsame] at hlt
    exact Nat.lt_irrefl _ hlt

end SealedInTurn

/-! ## Actions that give devices their turns -/

/-- Entries are sealed in turn from one state to another, and nothing else is changed. -/
def Sealed (S : Suite) (bodyKey : Key) (s : State σ) (entries : List Wire.Entry) (s' : State σ) :
    Prop :=
  SealedInTurn S bodyKey s.records entries s'.records ∧ s'.unpublished = s.unpublished

theorem Keeps.sealed (h : Keeps s s') : Sealed S bodyKey s [] s' := by
  refine ⟨?_, h.2⟩
  rw [h.1]
  exact .nil

/-- Entries sealed by one action and then by the next are sealed in turn. -/
theorem Sealed.append (h : Sealed S bodyKey s first s') (h' : Sealed S bodyKey s' rest s'') :
    Sealed S bodyKey s (first ++ rest) s'' :=
  ⟨h.1.append h'.1, h'.2.trans h.2⟩

/-- An action gives devices their turns, wherever who is listed and in reach is as in `r`. It tells
the entries that are sealed for all of them, or it is refused behind the turn of one. -/
def Serves (S : Suite) (bodyKey : Key) (r : Records) (targets : List DeviceId) (x : Action σ α)
    (told : α → List Wire.Entry) : Prop :=
  ∀ s, Steady r s.records → match x s with
    | (.ok a, s') =>
      Sealed S bodyKey s (told a) s' ∧ (told a).map (·.recipient) = targets
    | (.error _, s') =>
      ∃ lost, Sealed S bodyKey s lost s' ∧ lost.map (·.recipient) <+: targets

/-- One device has its turn unless it is this one or out of reach. -/
theorem entryFor_serves (S : Suite) (d : Device) (bodyKey : Key) (r : Records) (peer : DeviceId) :
    Serves (σ := σ) S bodyKey r ([peer].filter fun p => p ≠ d.id && r.reaches p)
      (d.entryFor S bodyKey peer) (·.toList) := by
  intro s hs
  rcases entryFor_cases S d bodyKey peer s with
    ⟨cause, s', h, hkeeps⟩ | ⟨s', h, hkeeps⟩ | ⟨entry, s', session, env, after, h, hseals⟩
  · rw [h]
    exact ⟨[], hkeeps.sealed, List.nil_prefix⟩
  · have htargets := (entryFor_addressees hs h).2
    rw [h]
    exact ⟨hkeeps.sealed, htargets⟩
  · have htargets := (entryFor_addressees hs h).2
    rw [h]
    obtain ⟨hsource, hsealed, rfl, hhandshake, hrecords, hflag⟩ := hseals
    refine ⟨⟨.cons hsource hhandshake hsealed ?_, hflag⟩, htargets⟩
    rw [hrecords]
    exact .nil

namespace Serves

variable {x : Action σ α} {told : α → List Wire.Entry} {told' : β → List Wire.Entry}

/-- What only reads comes before the first turn. -/
theorem bind_of_keeps {P : α → Prop} {f : α → Action σ β}
    (hx : ∀ s, Steady r s.records → Keeps s (x s).2 ∧ ∀ a s', x s = (.ok a, s') → P a)
    (hf : ∀ a, P a → Serves S bodyKey r targets (f a) told') :
    Serves S bodyKey r targets (x >>= f) told' := by
  intro s hs
  obtain ⟨hkeeps, hanswer⟩ := hx s hs
  cases hxs : x s with
  | mk result s₁ =>
    rw [hxs] at hkeeps
    cases result with
    | error cause =>
      rw [run_bind_error hxs]
      exact ⟨[], hkeeps.sealed, List.nil_prefix⟩
    | ok a =>
      rw [run_bind_ok hxs]
      have hrest := hf a (hanswer a s₁ hxs) s₁ (hs.trans hkeeps.steady)
      cases hfa : f a s₁ with
      | mk result s₂ =>
        rw [hfa] at hrest
        cases result with
        | error cause =>
          obtain ⟨lost, hlost, htargets⟩ := hrest
          exact ⟨lost, hkeeps.sealed.append hlost, htargets⟩
        | ok b => exact ⟨hkeeps.sealed.append hrest.1, hrest.2⟩

/-- The same entries, told in another form. -/
theorem map (hx : Serves S bodyKey r targets x told) {g : α → β} (htold : ∀ a, told' (g a) = told a) :
    Serves S bodyKey r targets (x >>= fun a => pure (g a)) told' := by
  intro s hs
  have hserved := hx s hs
  cases hxs : x s with
  | mk result s₁ =>
    rw [hxs] at hserved
    cases result with
    | error cause =>
      rw [run_bind_error hxs]
      exact hserved
    | ok a =>
      rw [run_bind_ok hxs, run_pure]
      show Sealed S bodyKey s (told' (g a)) s₁ ∧ (told' (g a)).map _ = targets
      rw [htold]
      exact hserved

/-- The turns of a list are those of each of it, one behind the other. -/
theorem mapM {turns : α → List DeviceId} {f : α → Action σ β}
    (hf : ∀ a, Serves S bodyKey r (turns a) (f a) told') (as : List α) :
    Serves S bodyKey r (as.flatMap turns) (as.mapM f) (·.flatMap told') := by
  induction as with
  | nil =>
    intro s _
    rw [List.mapM_nil]
    exact ⟨(Keeps.refl s).sealed, rfl⟩
  | cons a as ih =>
    intro s hs
    have hfirst := hf a s hs
    rw [List.mapM_cons, List.flatMap_cons]
    cases hfa : f a s with
    | mk result s₁ =>
      rw [hfa] at hfirst
      cases result with
      | error cause =>
        -- the turns that follow are not reached
        obtain ⟨lost, hlost, htargets⟩ := hfirst
        rw [run_bind_error hfa]
        exact ⟨lost, hlost, htargets.trans (List.prefix_append _ _)⟩
      | ok b =>
        obtain ⟨hserved, htargets⟩ := hfirst
        have hrest := ih s₁ (hs.trans hserved.1.steady)
        rw [run_bind_ok hfa]
        cases has : as.mapM f s₁ with
        | mk result s₂ =>
          rw [has] at hrest
          cases result with
          | error cause =>
            obtain ⟨lost, hlost, hbehind⟩ := hrest
            rw [run_bind_error has]
            refine ⟨told' b ++ lost, hserved.append hlost, ?_⟩
            rw [List.map_append, htargets]
            exact (List.prefix_append_right_inj _).mpr hbehind
          | ok bs =>
            rw [run_bind_ok has, run_pure]
            refine ⟨hserved.append hrest.1, ?_⟩
            show (told' b ++ bs.flatMap told').map _ = _
            rw [List.map_append, htargets, hrest.2]

end Serves

/-- The devices of a name have their turns in the order in which they are listed. -/
theorem entriesFor_serves (S : Suite) (d : Device) (bodyKey : Key) (r : Records) (name : String) :
    Serves (σ := σ) S bodyKey r ((r.devices name).filter fun p => p ≠ d.id && r.reaches p)
      (d.entriesFor S bodyKey name) fun entries => entries := by
  refine Serves.bind_of_keeps (P := (· = r.devices name)) ?_ ?_
  · intro s hs
    refine ⟨query_keeps (isQuery_devices name) s, ?_⟩
    intro devices s' hask
    rw [← hs.devices]
    exact (query_ok (isQuery_devices name) hask).1
  · rintro devices rfl
    have hall := Serves.mapM (entryFor_serves (σ := σ) S d bodyKey r) (r.devices name)
    rw [← List.filter_flatMap, List.flatMap_singleton'] at hall
    exact hall.map fun _ => rfl

/-- Encrypting gives the addressees their turns, in order. It advances the sessions of those that
have a turn, by one message for each, and changes nothing else. If it is answered all have had their
turn, and the envelope has one entry for each: the message by which the session was advanced, marked
as a handshake message if that session did not know a ratchet key of the peer. If it is refused there
is one from which on none have had a turn. -/
theorem encrypt_inTurn (S : Suite) (d : Device) (recipients : List String) (plaintext : Bytes)
    (s : State σ) :
    ∃ entries s', (d.encrypt S recipients plaintext s).2 = s' ∧
      SealedInTurn S (s.env.draw 32).1 s.records entries s'.records ∧
      (∀ peer, s'.records.session peer ≠ s.records.session peer ↔
        peer ∈ entries.map (·.recipient)) ∧
      s'.records.current = s.records.current ∧ s'.records.devices = s.records.devices ∧
      s'.records.bundle = s.records.bundle ∧ s'.unpublished = s.unpublished ∧
      match (d.encrypt S recipients plaintext s).1 with
      | .ok e => e.entries = entries ∧
          entries.map (·.recipient) = d.addressees s.records recipients
      | .error _ => entries.map (·.recipient) <+: d.addressees s.records recipients := by
  have hserved : ∃ entries,
      Sealed S (s.env.draw 32).1 s entries (d.encrypt S recipients plaintext s).2 ∧
      match (d.encrypt S recipients plaintext s).1 with
      | .ok e => e.entries = entries ∧
          entries.map (·.recipient) = d.addressees s.records recipients
      | .error _ => entries.map (·.recipient) <+: d.addressees s.records recipients := by
    unfold encrypt addressees
    rw [run_bind_ok (run_draw _ _), run_bind_ok (run_draw _ _), List.filter_flatMap]
    -- the body key and the vector are drawn first, and nothing below depends on what they are
    generalize (s.env.draw 32).1 = bodyKey
    generalize (Environment.draw 16 _).1 = iv
    generalize hs₁ : ({ s with env := _ } : State σ) = s₁
    have hkeeps : Keeps s s₁ := hs₁ ▸ ⟨rfl, rfl⟩
    have hentries := Serves.mapM (entriesFor_serves (σ := σ) S d bodyKey s.records) recipients s₁
      hkeeps.steady
    cases hrun : recipients.mapM (d.entriesFor S bodyKey) s₁ with
    | mk result s₂ =>
      rw [hrun] at hentries
      cases result with
      | error cause =>
        obtain ⟨lost, hlost, htargets⟩ := hentries
        rw [run_bind_error hrun]
        exact ⟨lost, hkeeps.sealed.append hlost, htargets⟩
      | ok entries =>
        rw [run_bind_ok hrun, run_pure]
        exact ⟨_, hkeeps.sealed.append hentries.1, List.flatMap_id.symm, hentries.2⟩
  obtain ⟨entries, ⟨hsealed, hflag⟩, hresult⟩ := hserved
  have hsteady := hsealed.steady
  exact ⟨entries, _, rfl, hsealed, hsealed.session_ne_iff, hsteady.current, hsteady.devices,
    hsteady.bundle, hflag, hresult⟩

end Device

end EndToEnd
