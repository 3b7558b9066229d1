import EndToEnd.Proofs.Correspondence.Run
import EndToEnd.Proofs.Device.Events

/-!
# What a device writes

Whatever happens to a device, no two of the ratchet messages that it has handed out for one other
device are at the same position of the same chain, so no message key is used for two of them. Every
session with that device seals on a chain whose ratchet key it has drawn, at a position behind those
it has used. A handshake that the other device starts replaces the session by one without a ratchet
key, which draws another before it seals. A refusal loses what was sealed before it, but never gives
its positions back once the session after it is saved; and what is sealed in a session that cannot be
saved is in no envelope.

Main statements:

- `place_of_sealForPeer`: where a session seals, and where it goes on;
- `Accounted.seals`, `Accounted.sealsEach`: sealing for a device uses places that nothing was sealed
  at before;
- `Accounts.run`: what is handed out is part of that, after every run;
- `places_distinct`: no place is used twice.
-/

namespace EndToEnd

/-- Where a ratchet message was sealed: the ratchet key that names the chain, and the position. -/
abbrev Place := Bytes × UInt32

namespace Wire

/-- Where the ratchet message of an entry was sealed. -/
def Entry.place? (entry : Entry) : Option Place := do
  let payload ← Lifetime.ratchetMessage entry
  let message ← Session.ratchetMessage? payload
  return (message.ratchetKey, message.chainIndex)

end Wire

/-! ## Places -/

namespace Session

variable {S : Suite} {s after : Session} {env : Environment} {plaintext bytes : Bytes}

/-- A session seals under the ratchet key that it has then, at the position before the one where it
goes on, and no step is due any more. Without a step, it is where the session was before. -/
theorem place_of_sealForPeer (h : (s.sealForPeer S plaintext env).1 = .ok (bytes, after)) :
    ∃ payload pair index, s.Carries payload bytes ∧ after.ratchet = some pair ∧
      after.sendStepDue = none ∧ after.sendIndex.toNat = index.toNat + 1 ∧
      (∃ message, ratchetMessage? payload = some message ∧
        (message.ratchetKey, message.chainIndex) = (pair.publicKey.bytes, index)) ∧
      (s.sendStepDue = none → s.ratchet = some pair ∧ s.sendIndex = index) := by
  obtain ⟨mid, payload, hmid, hnext, hcarries⟩ := sealForPeer_eq_ok.mp h
  obtain ⟨chain, pair, next, -, hpair, hindex, hpayload, rfl⟩ := sealNext_eq_ok.mp hnext
  obtain ⟨body, hbody, hpayload⟩ := bind_eq_ok.mp hpayload
  obtain rfl := Except.ok.inj hpayload
  refine ⟨_, pair, mid.sendIndex, hcarries, hpair, ?_, nextIndex_eq_ok.mp hindex, ?_, ?_⟩
  · exact sendStepDue_sealNext (sendStepDue_readied hmid) hnext
  · exact ⟨_, ratchetMessage?_eq_some (Wire.splitMac_append _ _)
      (Wire.RatchetMessage.decode_encode rfl hbody), rfl⟩
  · intro hready
    rcases readied_eq_ok.mp hmid with ⟨-, rfl⟩ | ⟨their, shared, hdue, -⟩
    · exact ⟨hpair, rfl⟩
    · cases hready.symm.trans hdue

end Session

/-! ## Authorship -/

/-- The life of a device, and what it has handed out. -/
structure Authorship (σ : Type) where
  life : Lifetime σ
  /-- The envelopes that encrypting has answered with, the oldest first. -/
  written : List Post
  /-- The ratchet keys that sessions with the other device have drawn to seal under, the oldest
  first. -/
  ratchets : List Key

namespace Authorship

variable {σ : Type}

/-- The ratchet key that a session has drawn when something was sealed: one that is new has drawn its
first, and one to which a step was due another. -/
def drawn : (before after : Option Session) → List Key
  | none, some after => after.ratchetPublic.toList
  | some before, some after =>
    if before.sendStepDue.isSome && after.sendStepDue.isNone then after.ratchetPublic.toList else []
  | _, none => []

/-- All entries for a device, in the order in which they were sealed. -/
def entriesFor (peer : DeviceId) (posts : List Post) : List Wire.Entry :=
  posts.flatMap fun p => Device.addressed peer p.envelope.entries

variable [Store σ] [LawfulStore σ]

/-- A device before anything has happened, on a store. -/
def begin (peer : DeviceId) (state : Device.State σ) : Authorship σ where
  life := .begin state
  written := []
  ratchets := ((state.records.session peer).bind (·.ratchetPublic)).toList

/-- The session with a device. -/
def session (x : Authorship σ) (peer : DeviceId) : Option Session := x.life.records.session peer

/-- What a device hands out when it encrypts, if it is not refused. -/
def post? (S : Suite) (x : Lifetime σ) (recipients : List String) (plaintext : Bytes) :
    Option Post := do
  let d ← x.device
  let envelope ← (d.encrypt S recipients plaintext x.state).1.toOption
  return ⟨envelope, plaintext, (x.state.env.draw 32).1, false⟩

/-- The authorship after something has happened to the device. -/
def step (S : Suite) (peer : DeviceId) (x : Authorship σ) (e : Lifetime.Event) : Authorship σ :=
  let after := { x with life := x.life.step S peer e }
  match e with
  | .encrypt recipients plaintext =>
    { after with
      written := x.written ++ (post? S x.life recipients plaintext).toList
      ratchets := x.ratchets ++ drawn (x.session peer) (after.session peer) }
  | _ => after

/-- The authorship after everything in a list has happened. -/
def run (S : Suite) (peer : DeviceId) (x : Authorship σ) (events : List Lifetime.Event) :
    Authorship σ :=
  events.foldl (step S peer) x

variable {S : Suite} {peer : DeviceId} {x : Authorship σ} {ratchets : List Key}
  {places : List Place} {before after : Option Session} {session sealed : Session}
  {bodyKey : Key} {s s' : Device.State σ} {env : Environment} {entry : Wire.Entry}
  {entries : List Wire.Entry}

/-! ## Drawing ratchet keys -/

/-- A session is as it was, or something was sealed in it, which leaves no step due. -/
def SealedIn (before after : Option Session) : Prop :=
  after = before ∨ ∃ a, after = some a ∧ a.sendStepDue = none ∧
    ∀ b, before = some b → b.sendStepDue = none → a.ratchet = b.ratchet

theorem drawn_self (session : Option Session) : drawn session session = [] := by
  cases session with
  | none => rfl
  | some s => cases h : s.sendStepDue <;> simp [drawn, h]

/-- Only the first that is sealed in a session can draw. -/
theorem drawn_settled {a b : Session} (h : a.sendStepDue = none) :
    drawn (some a) (some b) = [] := by
  rw [drawn, h]
  rfl

/-- What was drawn in two turns. -/
theorem SealedIn.trans {mid : Option Session} (h : SealedIn before mid) (h' : SealedIn mid after) :
    SealedIn before after ∧ drawn before after = drawn before mid ++ drawn mid after := by
  rcases h with rfl | ⟨a, rfl, ha, hkept⟩
  · rw [drawn_self]
    exact ⟨h', rfl⟩
  rcases h' with rfl | ⟨b, rfl, hb, hkept'⟩
  · rw [drawn_self, List.append_nil]
    exact ⟨.inr ⟨a, rfl, ha, hkept⟩, rfl⟩
  · have hratchet : b.ratchet = a.ratchet := hkept' a rfl ha
    refine ⟨.inr ⟨b, rfl, hb, fun c hc hready => hratchet.trans (hkept c hc hready)⟩, ?_⟩
    rw [drawn_settled ha, List.append_nil]
    cases before with
    | none => simp only [drawn, Session.ratchetPublic, hratchet]
    | some c => simp only [drawn, Session.ratchetPublic, hratchet, ha, hb]

/-- Sealing for a device. -/
theorem sealedIn_seals (h : Device.Seals S peer bodyKey s entry s' session env sealed) :
    s'.records.session peer = some sealed ∧
      SealedIn (s.records.session peer) (s'.records.session peer) := by
  obtain ⟨-, pair, index, -, hratchet, hsettled, -, -, hsame⟩ :=
    Session.place_of_sealForPeer h.sealed
  have hafter : s'.records.session peer = some sealed := by
    rw [h.records]
    exact Function.update_self _ _ _
  refine ⟨hafter, .inr ⟨sealed, hafter, hsettled, fun b hb hready => ?_⟩⟩
  rcases h.source with hstored | ⟨hnone, -⟩
  · obtain rfl := Option.some.inj (hb.symm.trans hstored)
    exact hratchet.trans (hsame hready).1.symm
  · cases hnone.symm.trans hb

theorem sealedIn_sealsEach (h : Device.SealsEach S peer bodyKey s entries s') :
    SealedIn (s.records.session peer) (s'.records.session peer) := by
  induction h with
  | nothing spares => exact .inl spares.1
  | one seals => exact (sealedIn_seals seals).2
  | append _ _ ih ih' => exact (ih.trans ih').1

/-! ## Accounting for places -/

/-- The places of what was sealed for a device are all different, on chains that were drawn, and
behind them is the position at which the session with it goes on. -/
structure Accounted (ratchets : List Key) (places : List Place) (session : Option Session) :
    Prop where
  named : ∀ place ∈ places, ∃ key ∈ ratchets, key.bytes = place.1
  distinct : places.Nodup
  drawn : ∀ s key, session = some s → s.ratchetPublic = some key → key ∈ ratchets
  behind : ∀ s key, session = some s → s.ratchetPublic = some key →
    ∀ place ∈ places, place.1 = key.bytes → place.2.toNat < s.sendIndex.toNat

/-- Before anything is sealed, the ratchet key of the session is all there is. -/
theorem Accounted.start (session : Option Session) :
    Accounted (session.bind (·.ratchetPublic)).toList [] session := by
  have hnone {place : Place} : place ∉ [] := List.not_mem_nil
  refine ⟨fun _ h => absurd h hnone, .nil, fun s key hs hkey => ?_,
    fun _ _ _ _ _ h => absurd h hnone⟩
  rw [hs, Option.bind_some, hkey]
  exact List.mem_cons_self

/-- A session without a ratchet key has nothing to account for, nor has one that goes on where the
one before it did. -/
theorem Accounted.of_frame (h : Accounted ratchets places before)
    (hsame : ∀ a pair, after = some a → a.ratchet = some pair →
      ∃ b, before = some b ∧ b.ratchet = some pair ∧ b.sendIndex = a.sendIndex) :
    Accounted ratchets places after := by
  have hbefore {a : Session} {key : Key} (ha : after = some a) (hkey : a.ratchetPublic = some key) :
      ∃ b, before = some b ∧ b.ratchetPublic = some key ∧ b.sendIndex = a.sendIndex := by
    obtain ⟨pair, hpair, rfl⟩ := Option.map_eq_some_iff.mp hkey
    obtain ⟨b, hb, hratchet, hindex⟩ := hsame a pair ha hpair
    exact ⟨b, hb, by rw [Session.ratchetPublic, hratchet]; rfl, hindex⟩
  refine ⟨h.named, h.distinct, fun a key ha hkey => ?_, fun a key ha hkey => ?_⟩
  · obtain ⟨b, hb, hkey', -⟩ := hbefore ha hkey
    exact h.drawn b key hb hkey'
  · obtain ⟨b, hb, hkey', hindex⟩ := hbefore ha hkey
    rw [← hindex]
    exact h.behind b key hb hkey'

/-- The next place on a chain, when all places on it are before that one. -/
theorem Accounted.next (h : Accounted ratchets places before) {added : List Key} {key : Key}
    {index : UInt32} (hkey : sealed.ratchetPublic = some key)
    (hindex : sealed.sendIndex.toNat = index.toNat + 1) (hdrawn : key ∈ ratchets ++ added)
    (hbehind : ∀ place ∈ places, place.1 = key.bytes → place.2.toNat < index.toNat) :
    Accounted (ratchets ++ added) (places ++ [(key.bytes, index)]) (some sealed) := by
  have hnew : (key.bytes, index) ∉ places := fun hin => Nat.lt_irrefl _ (hbehind _ hin rfl)
  have hcurrent {s : Session} {other : Key} (hs : some sealed = some s)
      (hother : s.ratchetPublic = some other) : sealed = s ∧ key = other := by
    obtain rfl := Option.some.inj hs
    exact ⟨rfl, Option.some.inj (hkey.symm.trans hother)⟩
  refine ⟨fun place hplace => ?_, ?_, fun s other hs hother => ?_, fun s other hs hother => ?_⟩
  · rcases List.mem_append.mp hplace with hplace | hplace
    · obtain ⟨key', hkey', hbytes⟩ := h.named place hplace
      exact ⟨key', List.mem_append_left _ hkey', hbytes⟩
    · rw [List.mem_singleton.mp hplace]
      exact ⟨key, hdrawn, rfl⟩
  · rw [← List.concat_eq_append]
    exact h.distinct.concat hnew
  · obtain ⟨rfl, rfl⟩ := hcurrent hs hother
    exact hdrawn
  · obtain ⟨rfl, rfl⟩ := hcurrent hs hother
    intro place hplace hname
    rw [hindex]
    rcases List.mem_append.mp hplace with hplace | hplace
    · exact Nat.lt_succ_of_lt (hbehind place hplace hname)
    · rw [List.mem_singleton.mp hplace]
      exact Nat.lt_succ_self _

/-- On a chain that was just drawn nothing was sealed before. -/
theorem Accounted.behind_fresh (h : Accounted ratchets places before) {key : Key} {index : UInt32}
    (hdistinct : (ratchets ++ [key]).Nodup) :
    ∀ place ∈ places, place.1 = key.bytes → place.2.toNat < index.toNat := by
  intro place hplace hname
  obtain ⟨key', hkey', hbytes⟩ := h.named place hplace
  obtain rfl : key' = key := Octets.ext (hbytes.trans hname)
  exact absurd rfl ((List.nodup_append.mp hdistinct).2.2 _ hkey' _ List.mem_cons_self)

/-- What is sealed for a device is at a place of its own. -/
theorem Accounted.seals (h : Accounted ratchets places (s.records.session peer))
    (hseals : Device.Seals S peer bodyKey s entry s' session env sealed)
    (hdistinct :
      (ratchets ++ Authorship.drawn (s.records.session peer) (s'.records.session peer)).Nodup) :
    ∃ place, entry.place? = some place ∧
      Accounted (ratchets ++ Authorship.drawn (s.records.session peer) (s'.records.session peer))
        (places ++ [place]) (s'.records.session peer) := by
  obtain ⟨payload, pair, index, hcarries, hratchet, hsettled, hindex, ⟨message, hmessage, hplace⟩,
    hsame⟩ := Session.place_of_sealForPeer hseals.sealed
  have hkey : sealed.ratchetPublic = some pair.publicKey := by
    rw [Session.ratchetPublic, hratchet]
    rfl
  refine ⟨(pair.publicKey.bytes, index), ?_, ?_⟩
  · have hpayload : Lifetime.ratchetMessage entry = some payload := by
      rw [Lifetime.ratchetMessage, hseals.isHandshake]
      unfold Session.Carries at hcarries
      split at hcarries
      next hest =>
        rw [hest, hcarries]
        rfl
      next hest =>
        obtain ⟨identity, ephemeral, oneTime, -, -, -, hencode⟩ := hcarries
        rw [if_pos (by simpa using hest), Wire.HandshakeMessage.decode_encode rfl hencode]
        rfl
    rw [Wire.Entry.place?, hpayload, Option.bind_eq_bind, Option.bind_some, hmessage, ← hplace]
    rfl
  · rw [(sealedIn_seals hseals).1] at hdistinct ⊢
    rcases hseals.source with hstored | ⟨hnone, -⟩
    · rw [hstored] at h hdistinct ⊢
      -- the place is the next one on the chain, or the first on a chain with a fresh key
      cases hdue : session.sendStepDue with
      | none =>
        obtain ⟨hpair, rfl⟩ := hsame hdue
        have hkey' : session.ratchetPublic = some pair.publicKey := by
          rw [Session.ratchetPublic, hpair]
          rfl
        exact h.next hkey hindex (List.mem_append_left _ (h.drawn session _ rfl hkey'))
          (h.behind session _ rfl hkey')
      | some their =>
        have hfresh : Authorship.drawn (some session) (some sealed) = [pair.publicKey] := by
          simp only [Authorship.drawn, hdue, hsettled, hkey]
          rfl
        rw [hfresh] at hdistinct ⊢
        exact h.next hkey hindex (List.mem_append_right _ List.mem_cons_self)
          (h.behind_fresh hdistinct)
    · rw [hnone] at h hdistinct ⊢
      have hfresh : Authorship.drawn none (some sealed) = [pair.publicKey] := by
        simp only [Authorship.drawn, hkey]
        rfl
      rw [hfresh] at hdistinct ⊢
      exact h.next hkey hindex (List.mem_append_right _ List.mem_cons_self)
        (h.behind_fresh hdistinct)

/-- Whatever is sealed for a device, one entry after the other, each is at a place of its own. -/
theorem Accounted.sealsEach (hseals : Device.SealsEach S peer bodyKey s entries s')
    (h : Accounted ratchets places (s.records.session peer))
    (hdistinct :
      (ratchets ++ Authorship.drawn (s.records.session peer) (s'.records.session peer)).Nodup) :
    ∃ more, entries.map (·.place?) = more.map some ∧
      Accounted (ratchets ++ Authorship.drawn (s.records.session peer) (s'.records.session peer))
        (places ++ more) (s'.records.session peer) := by
  induction hseals generalizing ratchets places with
  | nothing spares =>
    rw [spares.1, drawn_self, List.append_nil]
    exact ⟨[], rfl, (List.append_nil places).symm ▸ h⟩
  | one seals =>
    obtain ⟨place, hplace, haccounted⟩ := h.seals seals hdistinct
    exact ⟨[place], congrArg (fun place => [place]) hplace, haccounted⟩
  | append first rest ih ih' =>
    obtain ⟨-, hdrawn⟩ := (sealedIn_sealsEach first).trans (sealedIn_sealsEach rest)
    rw [hdrawn, ← List.append_assoc] at hdistinct ⊢
    obtain ⟨more, hmore, haccounted⟩ := ih h (List.nodup_append.mp hdistinct).1
    obtain ⟨more', hmore', haccounted'⟩ := ih' haccounted hdistinct
    refine ⟨more ++ more', ?_, List.append_assoc places more more' ▸ haccounted'⟩
    rw [List.map_append, List.map_append, hmore, hmore']

/-! ## Events -/

/-- What a device hands out: the entries that were sealed for another device, and a body under the
key that is sealed in them. -/
structure Hands (S : Suite) (peer : DeviceId) (x : Lifetime σ) (plaintext : Bytes)
    (entries : List Wire.Entry) (p : Post) : Prop where
  entries : Device.addressed peer p.envelope.entries = entries
  sender : ∃ d, x.device = some d ∧ p.envelope.sender = d.id
  plaintext : p.plaintext = plaintext
  bodyKey : p.bodyKey = (x.state.env.draw 32).1
  body : p.envelope.body = S.encryptWith p.bodyKey p.envelope.iv p.plaintext

/-- Encrypting seals entries for another device and hands all of them out, or hands nothing out. -/
theorem sealsEach_encrypt (S : Suite) (peer : DeviceId) (x : Lifetime σ) (recipients : List String)
    (plaintext : Bytes) :
    ∃ entries, Device.SealsEach S peer (x.state.env.draw 32).1 x.state entries
        (x.step S peer (.encrypt recipients plaintext)).state ∧
      ∀ p ∈ post? S x recipients plaintext, Hands S peer x plaintext entries p := by
  simp only [Lifetime.step, Lifetime.does, post?, Option.bind_eq_bind]
  cases hdevice : x.device with
  | none =>
    refine ⟨[], .nothing (.of_records rfl), fun p hp => ?_⟩
    cases hp
  | some d =>
    have htells := Device.encrypt_tells S d recipients plaintext peer x.state
    cases hencrypt : d.encrypt S recipients plaintext x.state with
    | mk result state =>
      rw [hencrypt] at htells
      cases result with
      | error cause =>
        obtain ⟨lost, hlost⟩ := htells
        simp only [Option.bind_some, hencrypt]
        refine ⟨lost, hlost, fun p hp => ?_⟩
        cases hp
      | ok e =>
        obtain ⟨hseals, hsender, hbody⟩ := htells
        simp only [Option.bind_some, hencrypt]
        refine ⟨_, hseals, fun p hp => ?_⟩
        cases hp
        exact ⟨rfl, ⟨d, hdevice, hsender⟩, rfl, rfl, hbody⟩

/-- What was handed out for a device is accounted for, with what was lost. -/
def Accounts (peer : DeviceId) (x : Authorship σ) : Prop :=
  ∃ places told : List Place, Accounted x.ratchets places (x.session peer) ∧ told.Sublist places ∧
    (entriesFor peer x.written).map (·.place?) = told.map some

/-- Decrypting leaves the places where they are: a session that replaces another has no ratchet key
yet. -/
theorem Accounted.decrypt {x : Lifetime σ} {e : Wire.Envelope}
    (h : Accounted ratchets places (x.records.session peer)) :
    Accounted ratchets places ((x.step S peer (.decrypt e)).records.session peer) := by
  rcases Lifetime.session_decrypt S peer x e with
    hsame | ⟨d, entry, opening, now, bodyKey, after, -, hunlocks, hupdate⟩
  · rw [hsame]
    exact h
  · rw [hupdate]
    by_cases hsender : peer = e.sender
    · subst hsender
      rw [Function.update_self]
      refine h.of_frame fun a pair ha hratchet => ?_
      obtain rfl := Option.some.inj ha
      have hframe := Session.openMessage_frame hunlocks.opened
      rw [hframe] at hratchet ⊢
      cases hbundle : opening.bundle with
      | none => exact ⟨_, hunlocks.opensWith.stored hbundle, hratchet, rfl⟩
      | some bundle =>
        obtain ⟨hnone, -⟩ := hunlocks.opensWith.unused_of_fresh (by rw [hbundle]; nofun)
        cases hnone.symm.trans hratchet
    · rw [Function.update_of_ne hsender]
      exact h

/-- What is handed out stays accounted for, whatever happens to the device. -/
theorem Accounts.step (h : x.Accounts peer) (e : Lifetime.Event)
    (hdistinct : (x.step S peer e).ratchets.Nodup) : (x.step S peer e).Accounts peer := by
  obtain ⟨places, told, haccounted, htold, hwritten⟩ := h
  have hlife (h : Accounted x.ratchets places ((x.life.step S peer e).records.session peer)) :
      Accounts peer { x with life := x.life.step S peer e } :=
    ⟨places, told, h, htold, hwritten⟩
  have hquiet (hquiet : e.IsQuiet) : Accounts peer { x with life := x.life.step S peer e } :=
    hlife (by rw [Lifetime.session_quiet hquiet]; exact haccounted)
  cases e with
  | encrypt recipients plaintext =>
    obtain ⟨entries, hseals, hhands⟩ := sealsEach_encrypt S peer x.life recipients plaintext
    obtain ⟨more, hmore, haccounted'⟩ := haccounted.sealsEach hseals hdistinct
    have hentries : entriesFor peer (x.step S peer (.encrypt recipients plaintext)).written =
        entriesFor peer x.written ++
          entriesFor peer (post? S x.life recipients plaintext).toList := List.flatMap_append
    rw [Accounts, hentries, List.map_append, hwritten]
    cases hpost : post? S x.life recipients plaintext with
    | none => exact ⟨places ++ more, told, haccounted', htold.trans (List.sublist_append_left _ _),
        List.append_nil _⟩
    | some p =>
      refine ⟨places ++ more, told ++ more, haccounted', htold.append_right more, ?_⟩
      rw [Option.toList_some, entriesFor, List.flatMap_singleton, (hhands p hpost).entries, hmore,
        List.map_append]
  | decrypt e => exact hlife haccounted.decrypt
  | _ => exact hquiet trivial

theorem ratchets_prefix_step (S : Suite) (peer : DeviceId) (x : Authorship σ)
    (e : Lifetime.Event) : x.ratchets <+: (x.step S peer e).ratchets := by
  cases e with
  | encrypt recipients plaintext => exact List.prefix_append _ _
  | _ => exact List.prefix_rfl

/-- Everything that a device hands out is accounted for, as long as no ratchet key is drawn twice. -/
theorem Accounts.run (h : x.Accounts peer) (events : List Lifetime.Event)
    (hdistinct : (x.run S peer events).ratchets.Nodup) : (x.run S peer events).Accounts peer := by
  induction events using List.reverseRecOn with
  | nil => exact h
  | append_singleton events e ih =>
    rw [Authorship.run, List.foldl_append] at hdistinct ⊢
    exact (ih ((ratchets_prefix_step S peer _ e).sublist.nodup hdistinct)).step e hdistinct

/-- No two of the ratchet messages that a device hands out for another device are sealed at the same
position under the same ratchet key, whatever happens to the device, as long as no ratchet key is
drawn twice. -/
theorem places_distinct (S : Suite) (peer : DeviceId) (state : Device.State σ)
    (events : List Lifetime.Event)
    (hdistinct : ((begin peer state).run S peer events).ratchets.Nodup) :
    ∃ places : List Place,
      (entriesFor peer ((begin peer state).run S peer events).written).map (·.place?) =
        places.map some ∧ places.Nodup := by
  have hbegin : (begin peer state).Accounts peer := ⟨[], [], .start _, .refl _, rfl⟩
  obtain ⟨places, told, haccounted, htold, hwritten⟩ := hbegin.run events hdistinct
  exact ⟨told, hwritten, htold.nodup haccounted.distinct⟩

open Correspondent (alice bob)

/-- Alice is started and writes, reads an answer, writes for Bob twice in one envelope, is started
again in another environment and writes once more. -/
def busyDay (answer : Wire.Envelope) : List Lifetime.Event :=
  [.start Correspondent.twoKeys alice.state.env, .encrypt ["bob"] [1], .decrypt answer,
    .encrypt ["bob", "bob"] [3], .start Correspondent.twoKeys (Correspondent.stepping 7),
    .encrypt ["bob"] [4]]

/-- Four ratchet messages under two ratchet keys. -/
theorem places_distinct_alice :
    let correspondence := (Correspondence.start alice bob).run .plain
      [.write .initiator [1], .read .responder, .write .responder [2]]
    ∃ p, correspondence.sent .responder = [p] ∧
      let x := (begin bob.device.id alice.state).run .plain bob.device.id (busyDay p.envelope)
      x.ratchets.length = 2 ∧ ∃ places : List Place, places.length = 4 ∧
        (entriesFor bob.device.id x.written).map (·.place?) = places.map some ∧ places.Nodup := by
  have hrun :
      let correspondence := (Correspondence.start alice bob).run .plain
        [.write .initiator [1], .read .responder, .write .responder [2]]
      (correspondence.sent .responder).length = 1 ∧ ∀ p ∈ correspondence.sent .responder,
        let x := (begin bob.device.id alice.state).run .plain bob.device.id (busyDay p.envelope)
        x.ratchets.length = 2 ∧ x.ratchets.Nodup ∧
          (entriesFor bob.device.id x.written).length = 4 := by
    decide +kernel
  obtain ⟨hone, hall⟩ := hrun
  obtain ⟨p, hsent⟩ := List.length_eq_one_iff.mp hone
  obtain ⟨hratchets, hdistinct, hentries⟩ := hall p (hsent ▸ List.mem_singleton_self p)
  obtain ⟨places, hplaces, hnodup⟩ := places_distinct .plain bob.device.id alice.state _ hdistinct
  have hlength := congrArg List.length hplaces
  rw [List.length_map, List.length_map, hentries] at hlength
  exact ⟨p, hsent, hratchets, places, hlength.symm, hplaces, hnodup⟩

end Authorship

end EndToEnd
