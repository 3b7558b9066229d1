import EndToEnd.Proofs.Correspondence.Run
import EndToEnd.Proofs.Device.Publishing
import EndToEnd.Proofs.Device.Reading
import EndToEnd.Proofs.Device.Writing

/-!
# Envelopes on their way

Every envelope between two devices carries one letter of the session between them, and in that
letter the key of its body. What it is opened with follows from what its reader has stored: the
session that answers its handshake if it names a one-time key that is still held, and the stored
session otherwise.

Main statements:

- `write_cases`: what a side puts on its way when it writes;
- `Post.Holds.opensWith_stored`, `Post.Holds.opensWith_fresh`: what an envelope is opened with.
-/

namespace EndToEnd

variable {S : Suite} {m : Meeting} {sender recipient : DeviceId} {p : Post} {l : Letter}

/-- Where two lists are related entry by entry, an entry of the first is related to one of the
second. -/
theorem exists_of_forall₂ {α β : Type} {R : α → β → Prop} {as : List α} {bs : List β} {a : α}
    (h : List.Forall₂ R as bs) (ha : a ∈ as) : ∃ b ∈ bs, R a b := by
  induction h with
  | nil => cases ha
  | @cons first b as bs hfirst _ ih =>
    rcases List.mem_cons.mp ha with rfl | ha
    · exact ⟨b, List.mem_cons_self, hfirst⟩
    · obtain ⟨b', hb', hrelated⟩ := ih ha
      exact ⟨b', List.mem_cons_of_mem _ hb', hrelated⟩

/-- An envelope carries a letter from one device to another, and in it the key of its body. A letter
inside a handshake message belongs to the first chain of the meeting. -/
structure Post.Holds (S : Suite) (m : Meeting) (sender recipient : DeviceId) (p : Post)
    (l : Letter) : Prop where
  sender : p.envelope.sender = sender
  entry : ∃ entry, p.envelope.entryFor recipient = some entry ∧
    entry.isHandshake = l.isHandshake ∧
    if l.isHandshake then Wire.HandshakeMessage.decode entry.key = .ok (m.message l.payload)
    else entry.key = l.payload
  first : l.isHandshake = true → l.IsSealed S m.ratchet.publicKey (m.chain S)
  bodyKey : l.plaintext = p.bodyKey.bytes
  body : p.envelope.body = S.encryptWith p.bodyKey p.envelope.iv p.plaintext

namespace Post.Holds

open Device

variable {d : Device} {r : Records} {entry : Wire.Entry} {session : Session}

/-- The body is decrypted with what the letter says. -/
theorem decrypts (h : p.Holds S m sender recipient l) (hcipher : S.CipherUndoes) :
    S.decrypt l.plaintext p.envelope.iv.bytes p.envelope.body = .ok p.plaintext := by
  rw [h.bodyKey, h.body, Suite.decrypt_bytes, Suite.decryptWith_encryptWith hcipher]

/-- An envelope that names no one-time key that is held is opened with the stored session. -/
theorem opensWith_stored (h : p.Holds S m sender recipient l)
    (hentry : p.envelope.entryFor recipient = some entry)
    (hstored : r.session sender = some session)
    (hspent : l.isHandshake = true →
      ∃ own, r.current = some own ∧ own.find? m.theirOneTime.bytes = none) :
    OpensWith S d r p.envelope.sender entry ⟨session, l.payload, none⟩ := by
  obtain ⟨entry', hentry', hhandshake, hkey⟩ := h.entry
  obtain rfl := Option.some.inj (hentry.symm.trans hentry')
  rw [h.sender]
  cases hl : l.isHandshake with
  | true =>
    rw [hl] at hhandshake
    rw [hl, if_pos rfl] at hkey
    obtain ⟨own, hcurrent, hfind⟩ := hspent hl
    exact .known hhandshake hkey hcurrent hfind hstored
  | false =>
    rw [hl] at hhandshake
    rw [hl, if_neg Bool.false_ne_true] at hkey
    rw [← hkey]
    exact .message hhandshake hstored

/-- An envelope that names a one-time key that is held is opened with the session that answers its
handshake. -/
theorem opensWith_fresh {own : Bundle} {oneTime : KeyPair} (h : p.Holds S m sender recipient l)
    (hentry : p.envelope.entryFor recipient = some entry) (hhandshake : l.isHandshake = true)
    (hcurrent : r.current = some own)
    (hheld : own.find? m.theirOneTime.bytes = some oneTime)
    (hagreed : Handshake.responderSecret S own.identity oneTime m.identity.publicKey.bytes
      m.ephemeral.publicKey.bytes = .ok m.secret) (env : Environment) :
    Wire.HandshakeMessage.decode entry.key = .ok (m.message l.payload) ∧
    OpensWith S d r p.envelope.sender entry ⟨m.responder S, l.payload,
      some ((own.erase m.theirOneTime.bytes).replenish S d.config.oneTimeKeys env).2.1⟩ := by
  obtain ⟨entry', hentry', hentryHandshake, hkey⟩ := h.entry
  obtain rfl := Option.some.inj (hentry.symm.trans hentry')
  rw [hhandshake] at hentryHandshake
  rw [hhandshake, if_pos rfl] at hkey
  obtain ⟨body, mac, hsplit, hdecode, -⟩ := (h.first hhandshake).parts
  exact ⟨hkey, .fresh hentryHandshake hkey hcurrent hheld hagreed hsplit hdecode
    (m.responder_eq S)⟩

end Post.Holds

namespace Correspondence

variable {σ : Type} [Store σ] [LawfulStore σ] {x : Correspondence σ} {writer : Side}

/-- The two devices are different, and each knows no other device of the other side. -/
structure Placed (x : Correspondence σ) : Prop where
  apart : x.id .initiator ≠ x.id .responder
  devices : ∀ side, (x.records side).devices (x.party side.peer).name = [] ∨
    (x.records side).devices (x.party side.peer).name = [x.id side.peer]

/-- What a side has put on its way: an envelope whose key is sealed in its session with the other,
and that session saved. -/
structure Wrote (S : Suite) (x : Correspondence σ) (writer : Side) (plaintext : Bytes) (p : Post)
    (state : Device.State σ) (entry : Wire.Entry) (session : Session) (env : Environment)
    (after : Session) : Prop where
  source : Device.SessionFrom S (x.records writer) (x.id writer.peer) session
  sealed : (session.sealForPeer S p.bodyKey.bytes env).1 = .ok (entry.key, after)
  sender : p.envelope.sender = x.id writer
  addressed : p.envelope.entryFor (x.id writer.peer) = some entry
  isHandshake : entry.isHandshake = !session.isEstablished
  body : p.envelope.body = S.encryptWith p.bodyKey p.envelope.iv p.plaintext
  plaintext : p.plaintext = plaintext
  notStale : p.stale = false
  records : state.records = (x.records writer).withSession (x.id writer.peer) after

/-- A side that writes puts an envelope on its way, or saves nothing. -/
theorem write_cases (S : Suite) (h : x.Placed) (writer : Side) (plaintext : Bytes) :
    (∃ state, x.write S writer plaintext = x.withState writer state ∧
      Device.Keeps (x.party writer).state state) ∨
    ∃ p state entry session env after, x.write S writer plaintext = x.posted writer p state ∧
      Wrote S x writer plaintext p state entry session env after := by
  have hwritten := Device.encrypt_cases S (x.party writer).device plaintext (h.devices writer)
  unfold write written
  rcases hwritten with ⟨cause, state, hencrypt, hkeeps⟩ | ⟨e, state, hencrypt, hentries, hkeeps⟩ |
    ⟨iv, entry, state, session, env, after, hencrypt, hseals⟩
  · exact .inl ⟨state, by rw [hencrypt], hkeeps⟩
  · refine .inl ⟨state, ?_, hkeeps⟩
    simp only [hencrypt, Wire.Envelope.entryFor, hentries, List.find?_nil, Option.isNone_none,
      if_true]
  · have hentry : Wire.Envelope.entryFor ⟨(x.party writer).device.id, iv, [entry],
        S.encryptWith ((x.party writer).state.env.draw 32).1 iv plaintext⟩ (x.id writer.peer) =
        some entry :=
      List.find?_cons_of_pos (decide_eq_true hseals.recipient)
    refine .inr ⟨⟨⟨(x.party writer).device.id, iv, [entry],
      S.encryptWith ((x.party writer).state.env.draw 32).1 iv plaintext⟩, plaintext,
      ((x.party writer).state.env.draw 32).1, false⟩, state, entry, session, env, after, ?_,
      ⟨hseals.source, hseals.sealed, rfl, hentry, hseals.isHandshake, rfl, rfl, rfl,
        hseals.records⟩⟩
    simp only [hencrypt, hentry, Option.isNone_some, Bool.false_eq_true, if_false]

/-- A side writes inside handshake messages as long as it knows no ratchet key of the other. -/
theorem isHandshake_of_written {plaintext : Bytes} {e : Wire.Envelope} {entry : Wire.Entry}
    (h : x.Placed) (hwritten : (x.written S writer plaintext).1 = .ok e)
    (hentry : entry ∈ e.entries) :
    (∃ session, x.session writer = some session ∧ entry.isHandshake = !session.isEstablished) ∨
      x.session writer = none ∧ entry.isHandshake = true := by
  rw [written] at hwritten
  rcases Device.encrypt_cases S (x.party writer).device plaintext (h.devices writer) with
    ⟨cause, state, hencrypt, -⟩ | ⟨e', state, hencrypt, hnil, -⟩ |
      ⟨iv, entry', state, session, env, after, hencrypt, hseals⟩
  all_goals rw [show Device.encrypt S _ _ _ _ = _ from hencrypt] at hwritten
  · exact nomatch hwritten
  · obtain rfl := Except.ok.inj hwritten
    rw [hnil] at hentry
    exact nomatch hentry
  · obtain rfl := Except.ok.inj hwritten
    obtain rfl : entry = entry' := List.mem_singleton.mp hentry
    rcases hseals.source with hstored | ⟨hnone, _, _, _, _, _, _, -, -, -, -, rfl⟩
    · exact .inl ⟨session, hstored, hseals.isHandshake⟩
    · exact .inr ⟨hnone, hseals.isHandshake⟩

/-- The envelope that a side has put on its way carries the letter that its session has sealed. -/
theorem Wrote.holds {plaintext : Bytes} {state : Device.State σ} {entry : Wire.Entry}
    {session after : Session} {env : Environment}
    (h : Wrote S x writer plaintext p state entry session env after)
    (hhandshake : l.isHandshake = !session.isEstablished) (hplaintext : l.plaintext = p.bodyKey.bytes)
    (hcarries : session.Carries l.payload entry.key)
    (hkeys : session.isEstablished = false → session.identity = some m.identity ∧
      session.ephemeral = some m.ephemeral ∧ session.theirOneTime = some m.theirOneTime)
    (hfirst : session.isEstablished = false → l.IsSealed S m.ratchet.publicKey (m.chain S)) :
    p.Holds S m (x.id writer) (x.id writer.peer) l := by
  refine ⟨h.sender, ⟨entry, h.addressed, h.isHandshake.trans hhandshake.symm, ?_⟩, fun hl => ?_,
    hplaintext, h.body⟩
  · unfold Session.Carries at hcarries
    rw [hhandshake]
    cases hest : session.isEstablished with
    | true =>
      rw [hest, if_pos rfl] at hcarries
      exact hcarries
    | false =>
      rw [hest, if_neg Bool.false_ne_true] at hcarries
      obtain ⟨identity, ephemeral, oneTime, hidentity, hephemeral, honeTime, hencode⟩ := hcarries
      obtain ⟨hidentity', hephemeral', honeTime'⟩ := hkeys hest
      obtain rfl := Option.some.inj (hidentity.symm.trans hidentity')
      obtain rfl := Option.some.inj (hephemeral.symm.trans hephemeral')
      obtain rfl := Option.some.inj (honeTime.symm.trans honeTime')
      exact Wire.HandshakeMessage.decode_encode rfl hencode
  · rw [hhandshake] at hl
    exact hfirst (by simpa using hl)

end Correspondence

end EndToEnd
