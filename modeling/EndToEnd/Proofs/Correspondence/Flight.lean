import EndToEnd.Proofs.Correspondence.Posts
import EndToEnd.Proofs.Device.Authorship
import EndToEnd.Proofs.Session.AnyOrder

/-!
# A flight of envelopes

Until it has read an answer, a device that has started a session writes inside handshake messages,
and all that it writes is on the first chain of one meeting. The envelopes that it hands out meanwhile
are a flight: each carries a letter of that chain, and the letters are in the order of their
positions. A position is missing where a refusal has lost what was sealed, or where an envelope has
more than one entry for the other device, which reads the first.

Whatever else the device does makes no difference: it may write to others, and to the same device
several times in one envelope, read what others write, learn bundles, be refused, and be started
again.

Main statements:

- `Session.Introduces.sealForPeer`: sealing before an answer adds a letter to the first chain;
- `Departs.step`, `Departs.run`: what everything that can happen to a device leaves of its flight;
- `flight_run`: the envelopes that are handed out before an answer was read are a flight;
- `IsFlight.passedOver_eq_nil`: no position is missing if there are as many envelopes as positions.
-/

namespace EndToEnd

variable {S : Suite} {m m' : Meeting} {theirIdentity : Key} {s after : Session}
  {sealed letters : List Letter} {l : Letter} {writer reader : DeviceId} {p : Post}

/-! ## The first chain -/

/-- A session was started by a meeting with the owner of an identity key. -/
structure Meeting.Started (S : Suite) (m : Meeting) (theirIdentity : Key) (s : Session) : Prop where
  made : m.MadeWith S theirIdentity
  identity : s.identity = some m.identity
  ephemeral : s.ephemeral = some m.ephemeral
  theirOneTime : s.theirOneTime = some m.theirOneTime
  ratchet : s.ratchet = some m.ratchet

/-- The meeting that has started a session with the owner of an identity key, if we wrote first. -/
def Session.meeting? (S : Suite) (theirIdentity : Key) (s : Session) : Option Meeting := do
  let identity ← s.identity
  let ephemeral ← s.ephemeral
  let theirOneTime ← s.theirOneTime
  let ratchet ← s.ratchet
  let secret ← (Handshake.initiatorSecret S identity ephemeral theirIdentity.bytes
    theirOneTime.bytes).toOption
  return ⟨identity, ephemeral, theirOneTime, secret, ratchet⟩

theorem Session.meeting?_eq_some :
    s.meeting? S theirIdentity = some m ↔ m.Started S theirIdentity s := by
  have hsecret {x : Except CryptoError Bytes} {a : Bytes} : x.toOption = some a ↔ x = .ok a := by
    cases x <;> simp [Except.toOption]
  simp only [meeting?, Option.bind_eq_bind, Option.bind_eq_some_iff, hsecret]
  constructor
  · rintro ⟨identity, hidentity, ephemeral, hephemeral, oneTime, honeTime, ratchet, hratchet, secret,
      hmade, hm⟩
    obtain rfl := Option.some.inj hm
    exact ⟨hmade, hidentity, hephemeral, honeTime, hratchet⟩
  · rintro ⟨hmade, hidentity, hephemeral, honeTime, hratchet⟩
    exact ⟨_, hidentity, _, hephemeral, _, honeTime, _, hratchet, _, hmade, rfl⟩

/-- A session was started by one meeting. -/
theorem Meeting.Started.unique (h : m.Started S theirIdentity s)
    (h' : m'.Started S theirIdentity s) : m = m' :=
  Option.some.inj ((Session.meeting?_eq_some.mpr h).symm.trans (Session.meeting?_eq_some.mpr h'))

namespace Session

/-- A session of a meeting has sealed letters on the first chain, from its first position on, and has
read nothing. -/
structure Introduces (S : Suite) (m : Meeting) (theirIdentity : Key) (s : Session)
    (sealed : List Letter) : Prop where
  started : m.Started S theirIdentity s
  unanswered : s.theirRatchet = none
  sends : Sends S s m.ratchet (m.chain S)
  inTransit : InTransit .complete S m.ratchet.publicKey (m.chain S) 0 s.sendIndex.toNat sealed
  handshakes : ∀ l ∈ sealed, l.isHandshake = true

theorem Introduces.start (hmade : m.MadeWith S theirIdentity) :
    Introduces S m theirIdentity (m.initiator S) [] :=
  ⟨⟨hmade, rfl, rfl, rfl, rfl⟩, rfl, ⟨rfl, rfl⟩, rfl, nofun⟩

/-- Sealing before an answer was read adds the next letter, inside a handshake message. -/
theorem Introduces.sealForPeer (h : Introduces S m theirIdentity s sealed) {plaintext bytes : Bytes}
    {env : Environment} (hsealed : (s.sealForPeer S plaintext env).1 = .ok (bytes, after)) :
    ∃ l : Letter, Introduces S m theirIdentity after (sealed ++ [l]) ∧ l.plaintext = plaintext ∧
      Wire.HandshakeMessage.decode bytes = .ok (m.message l.payload) := by
  obtain ⟨mid, payload, hmid, hnext, hcarries⟩ := sealForPeer_eq_ok.mp hsealed
  have hready : s.sendStepDue = none := by
    rw [sendStepDue, h.unanswered, ite_self]
  rcases readied_eq_ok.mp hmid with ⟨-, rfl⟩ | ⟨their, shared, hdue, -⟩
  · obtain ⟨chain, pair, next, hchain, -⟩ := sealNext_eq_ok.mp hnext
    have hkey : mid.sendChain.map (messageKey S) = some (messageKey S chain) := by rw [hchain]; rfl
    obtain ⟨hl, hsends, hindex, hframe⟩ := h.sends.letter hkey hnext true
    refine ⟨⟨mid.sendIndex, true, messageKey S chain, plaintext, payload⟩,
      ⟨?_, ?_, hsends, ?_, ?_⟩, rfl, ?_⟩
    · rw [hframe]
      exact ⟨h.started.made, h.started.identity, h.started.ephemeral, h.started.theirOneTime,
        h.started.ratchet⟩
    · rw [hframe]
      exact h.unanswered
    · rw [hindex]
      exact h.inTransit.concat hl rfl
    · intro l hl
      rcases List.mem_append.mp hl with hl | hl
      · exact h.handshakes l hl
      · rw [List.mem_singleton.mp hl]
    · have hest : mid.isEstablished = false := by
        rw [isEstablished, h.unanswered]
        rfl
      rw [Carries, hest, if_neg Bool.false_ne_true] at hcarries
      obtain ⟨identity, ephemeral, oneTime, hidentity, hephemeral, honeTime, hencode⟩ := hcarries
      obtain rfl := Option.some.inj (hidentity.symm.trans h.started.identity)
      obtain rfl := Option.some.inj (hephemeral.symm.trans h.started.ephemeral)
      obtain rfl := Option.some.inj (honeTime.symm.trans h.started.theirOneTime)
      exact Wire.HandshakeMessage.decode_encode rfl hencode
  · cases hready.symm.trans hdue

end Session

open Session (Introduces)

/-! ## Entries -/

/-- An entry has the handshake message of a meeting around a letter. -/
def Wire.Entry.Introduces (m : Meeting) (entry : Wire.Entry) (l : Letter) : Prop :=
  entry.isHandshake = true ∧ Wire.HandshakeMessage.decode entry.key = .ok (m.message l.payload)

/-- What was sealed for a device before an answer was read: letters with the key of a body behind
those sealed before, each inside a handshake message. -/
def Introduced (S : Suite) (m : Meeting) (theirIdentity bodyKey : Key) (sealed : List Letter)
    (entries : List Wire.Entry) (session : Option Session) : Prop :=
  ∃ after added, session = some after ∧ Introduces S m theirIdentity after (sealed ++ added) ∧
    List.Forall₂ (Wire.Entry.Introduces m) entries added ∧
    ∀ l ∈ added, l.plaintext = bodyKey.bytes

section Sealing

variable {σ : Type} [Store σ] [LawfulStore σ] {st st' : Device.State σ} {bodyKey : Key}
  {entry : Wire.Entry} {entries : List Wire.Entry} {env : Environment}

open Device (Seals SealsEach)

theorem Session.Introduces.seals (h : Introduces S m theirIdentity s sealed)
    (hseals : Seals S reader bodyKey st entry st' s env after) :
    Introduced S m theirIdentity bodyKey sealed [entry] (st'.records.session reader) := by
  obtain ⟨l, hafter, hplaintext, hdecode⟩ := h.sealForPeer hseals.sealed
  have hhandshake : entry.isHandshake = true := by
    rw [hseals.isHandshake, Session.isEstablished, h.unanswered]
    rfl
  refine ⟨after, [l], (Authorship.sealedIn_seals hseals).1, hafter,
    .cons ⟨hhandshake, hdecode⟩ .nil, fun l' hl => ?_⟩
  rw [List.mem_singleton.mp hl]
  exact hplaintext

/-- Whatever is sealed in a session before an answer was read is on its first chain. -/
theorem Session.Introduces.sealsEach (hseals : SealsEach S reader bodyKey st entries st')
    (h : Introduces S m theirIdentity s sealed) (hstored : st.records.session reader = some s) :
    Introduced S m theirIdentity bodyKey sealed entries (st'.records.session reader) := by
  induction hseals generalizing s sealed with
  | nothing spares =>
    refine ⟨s, [], spares.1.trans hstored, ?_, .nil, nofun⟩
    rw [List.append_nil]
    exact h
  | one seals =>
    rcases seals.source with hsource | ⟨hnone, -⟩
    · obtain rfl := Option.some.inj (hstored.symm.trans hsource)
      exact h.seals seals
    · cases hnone.symm.trans hstored
  | append _ _ ih ih' =>
    obtain ⟨mid, first, hmid, hfirst, hentries, htexts⟩ := ih h hstored
    obtain ⟨after, rest, hafter, hrest, hentries', htexts'⟩ := ih' hfirst hmid
    refine ⟨after, first ++ rest, hafter, List.append_assoc _ _ _ ▸ hrest,
      List.rel_append hentries hentries', fun l hl => ?_⟩
    exact (List.mem_append.mp hl).elim (htexts l) (htexts' l)

/-- What is sealed for a device without a session with it: nothing, or what starts one. -/
theorem introduced_of_none (hseals : SealsEach S reader bodyKey st entries st')
    (hnone : st.records.session reader = none)
    (hgenuine : ∀ b, st.records.bundle reader = some b → b.identity.publicKey = theirIdentity) :
    (st'.records.session reader = none ∧ entries = []) ∨
      ∃ m, Introduced S m theirIdentity bodyKey [] entries (st'.records.session reader) := by
  induction hseals with
  | nothing spares => exact .inl ⟨spares.1.trans hnone, rfl⟩
  | one seals =>
    rcases seals.source with hstored | ⟨-, bundle, k, own, ephemeral, secret, ratchet, hbundle, -, -,
      hsecret, rfl⟩
    · cases hnone.symm.trans hstored
    · refine .inr ⟨⟨own.identity, ephemeral, k.pair.publicKey, secret, ratchet⟩, ?_⟩
      exact (Introduces.start (hgenuine bundle hbundle ▸ hsecret)).seals seals
  | append first rest ih ih' =>
    rcases ih hnone hgenuine with ⟨hmid, rfl⟩ | ⟨m, mid, added, hmid, hadded, hentries, htexts⟩
    · exact ih' hmid (first.bundles.1 ▸ hgenuine)
    · obtain ⟨after, added', hafter, hadded', hentries', htexts'⟩ := hadded.sealsEach rest hmid
      refine .inr ⟨m, after, added ++ added', hafter, hadded', List.rel_append hentries hentries',
        fun l hl => ?_⟩
      exact (List.mem_append.mp hl).elim (htexts l) (htexts' l)

end Sealing

/-! ## Envelopes -/

namespace Post

/-- The letter that an envelope has for a device, on the first chain of a meeting. -/
def letter? (S : Suite) (m : Meeting) (reader : DeviceId) (p : Post) : Option Letter := do
  let entry ← p.envelope.entryFor reader
  let payload ← Lifetime.ratchetMessage entry
  let message ← Session.ratchetMessage? payload
  return ⟨message.chainIndex, entry.isHandshake,
    messageKeyAt S (m.chain S) message.chainIndex.toNat, p.bodyKey.bytes, payload⟩

/-- The entry of an envelope that carries a letter inside a handshake message. -/
theorem Holds.exists_entry (h : p.Holds S m writer reader l) (hhandshake : l.isHandshake = true) :
    ∃ entry, p.envelope.entryFor reader = some entry ∧ entry.isHandshake = true ∧
      Wire.HandshakeMessage.decode entry.key = .ok (m.message l.payload) ∧
      Lifetime.ratchetMessage entry = some l.payload := by
  obtain ⟨entry, hentry, hflag, hkey⟩ := h.entry
  rw [hhandshake] at hflag
  rw [hhandshake, if_pos rfl] at hkey
  refine ⟨entry, hentry, hflag, hkey, ?_⟩
  rw [Lifetime.ratchetMessage, if_pos hflag, hkey]
  rfl

/-- An envelope that carries a letter inside a handshake message has it for its reader. -/
theorem Holds.letter?_eq (h : p.Holds S m writer reader l) (hhandshake : l.isHandshake = true) :
    p.letter? S m reader = some l := by
  obtain ⟨entry, hentry, hflag, -, hpayload⟩ := h.exists_entry hhandshake
  have hl := h.first hhandshake
  obtain ⟨body, mac, hsplit, hdecode, -⟩ := hl.parts
  simp only [letter?, hentry, hpayload, Session.ratchetMessage?_eq_some hsplit hdecode,
    Option.bind_eq_bind, Option.bind_some]
  show some (Letter.mk l.index entry.isHandshake (messageKeyAt S (m.chain S) l.index.toNat)
    p.bodyKey.bytes l.payload) = some l
  rw [hflag, ← hhandshake, ← hl.key, ← h.bodyKey]

end Post

/-- The letters that envelopes have for a device. -/
def Post.lettersFor (S : Suite) (m : Meeting) (reader : DeviceId) (posts : List Post) : List Letter :=
  posts.filterMap (·.letter? S m reader)

/-- Envelopes of a flight carry letters of the first chain of a meeting, in the order of their
positions, which are below `high`. -/
def IsFlight (S : Suite) (m : Meeting) (writer reader : DeviceId) (high : Nat) (posts : List Post)
    (letters : List Letter) : Prop :=
  List.Forall₂ (Post.Holds S m writer reader) posts letters ∧ ∃ sealed, letters.Sublist sealed ∧
    InTransit .complete S m.ratchet.publicKey (m.chain S) 0 high sealed ∧
    ∀ l ∈ sealed, l.isHandshake = true

namespace IsFlight

variable {high : Nat} {posts : List Post} {l' : Letter}

/-- Every envelope of a flight carries a letter. -/
theorem exists_letter (h : IsFlight S m writer reader high posts letters) (hp : p ∈ posts) :
    ∃ l ∈ letters, p.Holds S m writer reader l := exists_of_forall₂ h.1 hp

/-- The letters of a flight are letters of the first chain, inside handshake messages. -/
theorem letter (h : IsFlight S m writer reader high posts letters) (hl : l ∈ letters) :
    l.IsSealed S m.ratchet.publicKey (m.chain S) ∧ l.isHandshake = true ∧
      l.index.toNat < high := by
  obtain ⟨-, sealed, hsublist, htransit, hhandshakes⟩ := h
  have hin : l ∈ sealed := hsublist.mem hl
  refine ⟨Session.isSealed_of_inTransit htransit hin, hhandshakes l hin, ?_⟩
  have hlt := (Session.index_bounds_of_inTransit htransit hin).2
  rw [Session.high_of_inTransit htransit]
  exact hlt

/-- The letters of a flight are what its envelopes have for the reader. -/
theorem letters_eq (h : IsFlight S m writer reader high posts letters) :
    Post.lettersFor S m reader posts = letters := by
  have hflags : ∀ l ∈ letters, l.isHandshake = true := fun l hl => (h.letter hl).2.1
  obtain ⟨hheld, -⟩ := h
  induction hheld with
  | nil => rfl
  | cons hfirst _ ih =>
    rw [Post.lettersFor, List.filterMap_cons_some
      (hfirst.letter?_eq (hflags _ List.mem_cons_self))]
    exact congrArg _ (ih fun l hl => hflags l (List.mem_cons_of_mem _ hl))

/-- Letters of a flight at one position are the same letter. -/
theorem eq_of_position (h : IsFlight S m writer reader high posts letters) (hl : l ∈ letters)
    (hl' : l' ∈ letters) (hsame : l.index.toNat = l'.index.toNat) : l = l' := by
  obtain ⟨-, sealed, hsublist, htransit, -⟩ := h
  exact Session.eq_of_position htransit (hsublist.mem hl) (hsublist.mem hl') hsame

/-- Letters of a flight with one payload are the same letter. -/
theorem eq_of_payload (h : IsFlight S m writer reader high posts letters) (hl : l ∈ letters)
    (hl' : l' ∈ letters) (hsame : l.payload = l'.payload) : l = l' := by
  obtain ⟨body, mac, hsplit, hdecode, -⟩ := (h.letter hl).1.parts
  obtain ⟨body', mac', hsplit', hdecode', -⟩ := (h.letter hl').1.parts
  rw [hsame] at hsplit
  obtain ⟨rfl, rfl⟩ := Prod.mk.inj (Except.ok.inj (hsplit.symm.trans hsplit'))
  have hmessage := Except.ok.inj (hdecode.symm.trans hdecode')
  exact h.eq_of_position hl hl' (congrArg (·.chainIndex.toNat) hmessage)

/-- If there are as many envelopes as positions, every position has a letter, and none is passed
over. -/
theorem passedOver_eq_nil (h : IsFlight S m writer reader high posts letters)
    (hall : posts.length = high) : passedOver 0 (letters.map (·.index.toNat)) = [] := by
  have hletter := fun l hl => (h.letter (l := l) hl).2.2
  obtain ⟨hheld, sealed, hsublist, htransit, -⟩ := h
  have hhigh := Session.high_of_inTransit htransit
  rw [Nat.zero_add] at hhigh
  have hsame : letters = sealed := by
    refine hsublist.eq_of_length ?_
    rw [← hheld.length_eq, hall, hhigh]
  refine List.eq_nil_iff_forall_not_mem.mpr fun i hi => ?_
  obtain ⟨-, hlt, hmissing⟩ := mem_passedOver.mp hi
  have hpast : past 0 (letters.map (·.index.toNat)) ≤ high := by
    refine past_le (Nat.zero_le _) fun i hi => ?_
    obtain ⟨l, hl, rfl⟩ := List.mem_map.mp hi
    exact hletter l hl
  rw [hsame, Session.map_index_of_inTransit htransit, List.mem_range'_1] at hmissing
  omega

end IsFlight

/-- An envelope with letters for a device carries the first of them. -/
theorem Authorship.Hands.holds {σ : Type} [Store σ] [LawfulStore σ] {x : Lifetime σ} {own : Bundle}
    {plaintext : Bytes} {entry : Wire.Entry} {entries : List Wire.Entry}
    (h : Hands S reader x plaintext (entry :: entries) p) (hown : x.Owned own)
    (hentry : entry.Introduces m l) (hl : l.IsSealed S m.ratchet.publicKey (m.chain S))
    (hhandshake : l.isHandshake = true) (hplaintext : l.plaintext = p.bodyKey.bytes) :
    p.Holds S m own.device reader l := by
  obtain ⟨d, hdevice, hsender⟩ := h.sender
  refine ⟨hsender.trans (hown.device d hdevice), ⟨entry, ?_, ?_, ?_⟩, fun _ => hl, hplaintext,
    h.body⟩
  · rw [Wire.Envelope.entryFor, ← List.head?_filter]
    exact congrArg List.head? h.entries
  · rw [hhandshake]
    exact hentry.1
  · rw [hhandshake, if_pos rfl]
    exact hentry.2

/-! ## Writing -/

/-- Nothing that the other device has sent is read, and a bundle of it that is learned has its
identity key. -/
def Lifetime.Event.IsOneSided (theirs : Bundle) : Lifetime.Event → Prop
  | .decrypt e => e.sender ≠ theirs.device
  | .learnBundle p => p.device = theirs.device →
    ∀ b, Bundle.ofPublished p = .ok b → b.identity.publicKey = theirs.identity.publicKey
  | _ => True

namespace Authorship

variable {σ : Type} [Store σ] [LawfulStore σ] {x : Authorship σ} {ours theirs : Bundle}

/-- The envelopes with an entry for a device. -/
def flight (x : Authorship σ) (reader : DeviceId) : List Post :=
  x.written.filter fun p => (p.envelope.entryFor reader).isSome

/-- A device with a bundle writes to another one without having read an answer: it has no session with
it, or its session has sealed letters on the first chain, some of which its envelopes carry. -/
structure Departs (S : Suite) (ours theirs : Bundle) (x : Authorship σ) : Prop where
  owned : x.life.Owned ours
  genuine : ∀ b, x.life.records.bundle theirs.device = some b →
    b.identity.publicKey = theirs.identity.publicKey
  carries : (x.session theirs.device = none ∧ x.flight theirs.device = []) ∨
    ∃ (m : Meeting) (s : Session) (sealed letters : List Letter), x.session theirs.device = some s ∧
      Introduces S m theirs.identity.publicKey s sealed ∧ letters.Sublist sealed ∧
      List.Forall₂ (Post.Holds S m ours.device theirs.device) (x.flight theirs.device) letters

/-- What is handed out with letters behind those of a flight is part of it. -/
theorem forall₂_flight {plaintext : Bytes} {posts : List Post} {post : Option Post} {bodyKey : Key}
    {entries : List Wire.Entry} {added : List Letter} {life : Lifetime σ}
    (hown : life.Owned ours)
    (hflight : List.Forall₂ (Post.Holds S m ours.device reader) posts letters)
    (hletters : letters.Sublist sealed)
    (hpost : ∀ p ∈ post, Hands S reader life plaintext entries p ∧ p.bodyKey = bodyKey)
    (hafter : Introduces S m theirIdentity after (sealed ++ added))
    (hentries : List.Forall₂ (Wire.Entry.Introduces m) entries added)
    (htexts : ∀ l ∈ added, l.plaintext = bodyKey.bytes) :
    ∃ letters', letters'.Sublist (sealed ++ added) ∧
      List.Forall₂ (Post.Holds S m ours.device reader)
        (posts ++ post.toList.filter fun p => (p.envelope.entryFor reader).isSome) letters' := by
  have hsame : ∃ letters', letters'.Sublist (sealed ++ added) ∧
      List.Forall₂ (Post.Holds S m ours.device reader) (posts ++ []) letters' := by
    rw [List.append_nil]
    exact ⟨letters, hletters.trans (List.sublist_append_left _ _), hflight⟩
  cases post with
  | none => exact hsame
  | some p =>
    obtain ⟨hhands, rfl⟩ := hpost p rfl
    cases hentries with
    | nil =>
      have hnone : p.envelope.entryFor reader = none := by
        rw [Wire.Envelope.entryFor, ← List.head?_filter]
        exact congrArg List.head? hhands.entries
      rw [Option.toList_some, List.filter_cons_of_neg (by rw [hnone]; exact Bool.false_ne_true)]
      exact hsame
    | @cons entry l entries added hentry hentries =>
      have hl : l ∈ sealed ++ l :: added := List.mem_append_right _ List.mem_cons_self
      have hholds : p.Holds S m ours.device reader l :=
        hhands.holds hown hentry (Session.isSealed_of_inTransit hafter.inTransit hl)
          (hafter.handshakes l hl) (htexts l List.mem_cons_self)
      obtain ⟨entry', hsome, -⟩ := hholds.entry
      rw [Option.toList_some, List.filter_cons_of_pos (by rw [hsome]; rfl), List.filter_nil]
      exact ⟨letters ++ [l], hletters.append (List.singleton_sublist.mpr List.mem_cons_self),
        List.rel_append hflight (.cons hholds .nil)⟩

/-- What the device knows of the other's bundle stays genuine. -/
theorem Departs.genuine_step (h : x.Departs S ours theirs) {e : Lifetime.Event}
    (he : e.IsOneSided theirs) (b : Bundle)
    (hb : (x.life.step S theirs.device e).records.bundle theirs.device = some b) :
    b.identity.publicKey = theirs.identity.publicKey := by
  rcases Lifetime.bundle_step S theirs.device theirs.device x.life e with
    hsame | ⟨p, bundle, rfl, hdevice, hread, hbundle⟩
  · exact h.genuine b (hsame.symm.trans hb)
  · obtain rfl := Option.some.inj (hbundle.symm.trans hb)
    exact he hdevice _ hread

/-- What the device writes continues its flight. -/
theorem Departs.encrypts (h : x.Departs S ours theirs) (recipients : List String)
    (plaintext : Bytes) :
    (x.step S theirs.device (.encrypt recipients plaintext)).Departs S ours theirs := by
  obtain ⟨entries, hseals, hhands⟩ :=
    sealsEach_encrypt S theirs.device x.life recipients plaintext
  have hpost (p : Post) (hp : p ∈ post? S x.life recipients plaintext) :=
    And.intro (hhands p hp) (hhands p hp).bodyKey
  have hflight : (x.step S theirs.device (.encrypt recipients plaintext)).flight theirs.device =
      x.flight theirs.device ++ (post? S x.life recipients plaintext).toList.filter
        fun p => (p.envelope.entryFor theirs.device).isSome := List.filter_append _ _
  have howned : Lifetime.Owned ours
      (x.life.step S theirs.device (.encrypt recipients plaintext)) := h.owned.step _
  refine ⟨howned, h.genuine_step trivial, ?_⟩
  rw [hflight]
  rcases h.carries with ⟨hnone, hempty⟩ | ⟨m, s, sealed, letters, hs, hintroduces, hletters, hheld⟩
  · rcases introduced_of_none hseals hnone h.genuine with
      ⟨hnone', rfl⟩ | ⟨m, after, added, hafter, hintroduces, hentries, htexts⟩
    · refine .inl ⟨hnone', ?_⟩
      rw [hempty, List.nil_append, List.filter_eq_nil_iff]
      intro p hp
      rw [Wire.Envelope.entryFor, ← List.head?_filter]
      have hnil := (hhands p (Option.mem_toList.mp hp)).entries
      rw [show p.envelope.entries.filter _ = [] from hnil]
      exact Bool.false_ne_true
    · have hheld : List.Forall₂ (Post.Holds S m ours.device theirs.device)
          (x.flight theirs.device) [] := by
        rw [hempty]
        exact .nil
      obtain ⟨letters', hsublist, hheld'⟩ :=
        forall₂_flight h.owned hheld (.refl []) hpost hintroduces hentries htexts
      exact .inr ⟨m, after, added, letters', hafter, hintroduces, hsublist, hheld'⟩
  · obtain ⟨after, added, hafter, hintroduces', hentries, htexts⟩ :=
      hintroduces.sealsEach hseals hs
    obtain ⟨letters', hsublist, hheld'⟩ :=
      forall₂_flight h.owned hheld hletters hpost hintroduces' hentries htexts
    exact .inr ⟨m, after, sealed ++ added, letters', hafter, hintroduces', hsublist, hheld'⟩

/-- Whatever happens to the device, its envelopes stay a flight until it reads an answer. -/
theorem Departs.step (h : x.Departs S ours theirs) {e : Lifetime.Event}
    (he : e.IsOneSided theirs) : (x.step S theirs.device e).Departs S ours theirs := by
  -- An event that hands nothing out has only to leave the session as it is.
  have hlife (hsession : (x.life.step S theirs.device e).records.session theirs.device =
      x.session theirs.device) :
      Departs S ours theirs { x with life := x.life.step S theirs.device e } := by
    have hcarries := h.carries
    rw [← hsession] at hcarries
    exact ⟨h.owned.step e, h.genuine_step he, hcarries⟩
  have hquiet (hquiet : e.IsQuiet) :
      Departs S ours theirs { x with life := x.life.step S theirs.device e } :=
    hlife (congrFun (Lifetime.session_quiet hquiet) _)
  cases e with
  | decrypt e => exact hlife (Lifetime.session_decrypt_of_ne he)
  | encrypt recipients plaintext => exact h.encrypts recipients plaintext
  | _ => exact hquiet trivial

theorem Departs.run (h : x.Departs S ours theirs) {events : List Lifetime.Event}
    (hevents : ∀ e ∈ events, e.IsOneSided theirs) :
    (x.run S theirs.device events).Departs S ours theirs := by
  induction events generalizing x with
  | nil => exact h
  | cons e events ih =>
    exact ih (h.step (hevents e List.mem_cons_self)) fun e' he' =>
      hevents e' (List.mem_cons_of_mem _ he')

/-- What is asked of a device and of what happens to it: it has a bundle and no session with the other
device, what it knows of that device is genuine, and it reads nothing of it. -/
structure Unanswered (ours theirs : Bundle) (state : Device.State σ)
    (events : List Lifetime.Event) : Prop where
  current : state.records.current = some ours
  noSession : state.records.session theirs.device = none
  genuine : ∀ b, state.records.bundle theirs.device = some b →
    b.identity.publicKey = theirs.identity.publicKey
  oneSided : ∀ e ∈ events, e.IsOneSided theirs

/-- A session whose device has read no answer was started by a meeting, and the envelopes that were
handed out are a flight of it. -/
theorem flight_run {state : Device.State σ} {events : List Lifetime.Event}
    (h : Unanswered ours theirs state events)
    (hsession : ((begin theirs.device state).run S theirs.device events).session theirs.device =
      some s) :
    ∃ m letters, m.Started S theirs.identity.publicKey s ∧
      IsFlight S m ours.device theirs.device s.sendIndex.toNat
        (((begin theirs.device state).run S theirs.device events).flight theirs.device) letters := by
  have hbegin : (begin theirs.device state).Departs S ours theirs :=
    ⟨⟨⟨ours, h.current, rfl, rfl⟩, nofun⟩, h.genuine, .inl ⟨h.noSession, rfl⟩⟩
  rcases (hbegin.run h.oneSided).carries with
    ⟨hnone, -⟩ | ⟨m, s', sealed, letters, hs, hintroduces, hsublist, hheld⟩
  · cases hnone.symm.trans hsession
  · obtain rfl := Option.some.inj (hs.symm.trans hsession)
    exact ⟨m, letters, hintroduces.started, hheld, sealed, hsublist, hintroduces.inTransit,
      hintroduces.handshakes⟩

end Authorship

end EndToEnd
