import EndToEnd.Proofs.Correspondence.InTouch
import EndToEnd.Proofs.Session.Answering

/-!
# The envelopes of one side

When both devices write before they read, each starts a handshake of its own, and the envelopes of
the two go their ways without touching. A side writes letters of its own handshake until it has read
something; from then on its session answers the other's handshake, so what it writes is strange to
the reader, whose session answers the first.

A lane is what a correspondence is to the envelopes of one side. Every step changes it in one of four
ways: its writer writes or reads, or its reader does.

Main statements:

- `Course.start`, `Course.writes`, `Course.reads`, `Course.starts`: what the writer does keeps a lane
  on its course;
- `Course.peerWrites`, `Course.peerReads`, `Course.peerStarts`: so does what the reader does.
-/

namespace EndToEnd.Correspondence

open Session

variable {S : Suite} {v : View} {side : Side} {m : Meeting} {g session b after : Session}
  {early late rest : List Post} {letters : List Letter} {l : Letter} {p : Post} {entry : Wire.Entry}
  {env : Environment} {config : Config} {now : UInt64} {bodyKey : Bytes} {own stored : Bundle}

/-! ## Lanes -/

/-- What a correspondence is to the envelopes of one side. -/
structure Lane where
  writer : DeviceId
  reader : DeviceId
  /-- The session of the writer. -/
  session : Option Session
  /-- The session of the reader. -/
  sessionToo : Option Session
  /-- The bundle of the reader. -/
  current : Option Bundle
  sent : List Post
  /-- The key pairs that the writer has generated. -/
  generated : List KeyPair
  /-- How many envelopes the writer has read. -/
  read : Nat
  /-- How many envelopes the reader has read. -/
  readToo : Nat

/-- The lane of the envelopes of a side. -/
def View.lane (v : View) (side : Side) : Lane where
  writer := v.id side
  reader := v.id side.peer
  session := v.session side
  sessionToo := v.session side.peer
  current := v.current side.peer
  sent := v.sent side
  generated := v.generated side
  read := v.read side
  readToo := v.read side.peer

/-- The lane of the other side is the same view seen from there. -/
theorem View.lane_peer (v : View) (side : Side) :
    v.lane side.peer =
      { writer := v.id side.peer
        reader := v.id side
        session := v.session side.peer
        sessionToo := v.session side
        current := v.current side
        sent := v.sent side.peer
        generated := v.generated side.peer
        read := v.read side.peer
        readToo := v.read side } := by
  cases side <;> rfl

/-- A side that posts has a new session in its own lane, one more post and the keys it has drawn. -/
theorem View.lane_posted :
    (v.posted side p after).lane side =
      { v.lane side with
        session := some after
        sent := v.sent side ++ [p]
        generated := v.generated side ++ drawnKeys (v.session side) (some after) } := by
  cases side <;> rfl

/-- The other lane sees of a post the session that it leaves. -/
theorem View.lane_posted_peer :
    (v.posted side p after).lane side.peer =
      { v.lane side.peer with sessionToo := some after } := by
  cases side <;> rfl

/-- A side that opens a post has a new session in its own lane, and one more read. -/
theorem View.lane_opened :
    (v.opened side rest after).lane side =
      { v.lane side with session := some after, read := v.read side + 1 } := by
  cases side <;> rfl

/-- In the other lane the post is off its way, and read. -/
theorem View.lane_opened_peer :
    (v.opened side rest after).lane side.peer =
      { v.lane side.peer with
        sessionToo := some after
        sent := rest
        readToo := v.read side + 1 } := by
  cases side <;> rfl

/-- A side that starts a session by reading may leave its own posts behind, sealed in the old one.
-/
theorem View.lane_started :
    (v.started side rest after own stored).lane side =
      { v.lane side with
        session := some after
        sent := outdated (replaces (v.session side) (some after)) (v.sent side)
        generated := v.generated side ++ addedKeys (some own) (some stored)
        read := v.read side + 1 } := by
  cases side <;> rfl

/-- The other lane sees the session, the bundle without the key that was used, and the post read. -/
theorem View.lane_started_peer :
    (v.started side rest after own stored).lane side.peer =
      { v.lane side.peer with
        sessionToo := some after
        current := some stored
        sent := rest
        readToo := v.read side + 1 } := by
  cases side <;> rfl

/-! ## The course of a lane -/

variable {w : Lane}

/-- The reader of a lane holds the one-time key of a meeting. -/
def Lane.Holding (w : Lane) (m : Meeting) : Prop :=
  ∃ own, w.current = some own ∧ (own.find? m.theirOneTime.bytes).isSome

/-- The writer has read nothing and writes in the session it has started, or it has read something
and writes under another ratchet key. -/
inductive Writer (m : Meeting) (g : Session) (late : List Post) (w : Lane) : Prop
  | waiting (unread : w.read = 0) (session : w.session = some g) (nothing : late = [])
  | answering (b : Session) (hasRead : 0 < w.read) (session : w.session = some b)
      (established : b.isEstablished = true)
      (changed : ∀ pair, b.ratchet = some pair → pair.publicKey ≠ m.ratchet.publicKey)

/-- The reader has read nothing and still holds the one-time key, or its session has answered the
letters up to those on their way. -/
inductive Reader (S : Suite) (m : Meeting) (g : Session) (letters : List Letter) (w : Lane) : Prop
  | waiting (unread : w.readToo = 0) (holding : w.Holding m) (some : letters ≠ [])
      (stream : Stream .complete S g (m.responder S) letters)
  | answering (b : Session) (hasRead : 0 < w.readToo) (spent : ¬ w.Holding m)
      (session : w.sessionToo = some b) (answers : Answers S m b)
      (stream : Stream .complete S g b letters)

/-- An envelope that carries a message of a session that does not answer the meeting. -/
def Strays (w : Lane) (m : Meeting) (p : Post) : Prop :=
  p.envelope.sender = w.writer ∧ ∃ entry, p.envelope.entryFor w.reader = some entry ∧
    entry.isHandshake = false ∧ Strange m entry.key

/-- The envelopes on a lane are letters of one meeting, in the session that its writer has started,
and behind them strange ones. -/
structure Course (S : Suite) (w : Lane) (m : Meeting) (g : Session) (early late : List Post)
    (letters : List Letter) : Prop where
  sent : w.sent = early ++ late
  carried : List.Forall₂ (Post.Holds S m w.writer w.reader) early letters
  waiting : Waiting S m g letters
  unread : g.isEstablished = false
  identity : m.identity ∈ w.generated
  ephemeral : m.ephemeral ∈ w.generated
  ratchet : m.ratchet ∈ w.generated
  made : ∃ own, w.current = some own ∧ m.MadeWith S own.identity.publicKey
  stray : ∀ p ∈ late, Strays w m p
  writer : Writer m g late w
  reader : Reader S m g letters w

/-! ## Writing -/

/-- A session that started a handshake and has read nothing seals one more letter of it. -/
theorem exists_letter_of_waiting (h : Waiting S m g letters) (hunread : g.isEstablished = false)
    (hsealed : (g.sealForPeer S p.bodyKey.bytes env).1 = .ok (entry.key, after)) :
    ∃ l : Letter, l.isHandshake = true ∧ l.plaintext = p.bodyKey.bytes ∧
      g.Carries l.payload entry.key ∧ l.IsSealed S m.ratchet.publicKey (m.chain S) ∧
      Waiting S m after (letters ++ [l]) ∧ after.isEstablished = false ∧
      ∀ b ls, Stream .complete S g b ls → Stream .complete S after b (ls ++ [l]) := by
  obtain ⟨l, hhandshake, hplaintext, hcarries, hsealing, hstream, -⟩ :=
    exists_letter_of_sealForPeer hsealed
  have hready := sendStepDue_of_unread hunread
  obtain ⟨hl, hafter⟩ := hsealing m.ratchet (m.chain S) hready h.sends
  refine ⟨l, by rw [hhandshake, hunread]; rfl, hplaintext, hcarries, hl,
    h.sealed hunread hafter hsealed hhandshake, ?_, fun b ls => hstream _ b ls hready⟩
  rw [sealForPeer_frame hsealed]
  exact hunread

/-- What the envelope of a session carries, if that has started a handshake. -/
def Carrying (S : Suite) (w : Lane) (m : Meeting) (session : Session) (p : Post)
    (entry : Wire.Entry) : Prop :=
  session.isEstablished = false → ∀ l : Letter, l.isHandshake = true →
    l.plaintext = p.bodyKey.bytes → session.Carries l.payload entry.key →
    l.IsSealed S m.ratchet.publicKey (m.chain S) → p.Holds S m w.writer w.reader l

/-- The first envelope puts a lane on its course. -/
theorem Course.start (hsent : w.sent = []) (hread : w.read = 0) (hreadToo : w.readToo = 0)
    (hidentity : m.identity ∈ w.generated)
    (hmade : ∃ own, w.current = some own ∧ m.MadeWith S own.identity.publicKey)
    (hholding : w.Holding m)
    (hsealed : ((m.initiator S).sealForPeer S p.bodyKey.bytes env).1 = .ok (entry.key, after))
    (hcarrying : Carrying S w m (m.initiator S) p entry) :
    ∃ letters, Course S { w with
      session := some after
      sent := w.sent ++ [p]
      generated := w.generated ++ [m.ephemeral, m.ratchet] } m after [p] [] letters := by
  have hwaiting : Waiting S m (m.initiator S) [] := ⟨rfl, rfl, rfl, ⟨rfl, rfl⟩, rfl, nofun⟩
  obtain ⟨l, hhandshake, hplaintext, hcarries, hl, hafter, hunread, hstream⟩ :=
    exists_letter_of_waiting hwaiting rfl hsealed
  have hempty : Stream .complete S (m.initiator S) (m.responder S) [] :=
    ⟨m.ratchet, m.chain S, ⟨rfl, rfl⟩, ⟨rfl, rfl⟩, .refl _ 0⟩
  refine ⟨[l], ?_, .cons ?_ .nil, hafter, hunread, ?_, ?_, ?_, hmade, nofun, .waiting hread rfl rfl,
    .waiting hreadToo hholding (List.cons_ne_nil _ _) (hstream _ _ hempty)⟩
  · rw [hsent]
    rfl
  · exact hcarrying rfl l hhandshake hplaintext hcarries hl
  · exact List.mem_append_left _ hidentity
  · exact List.mem_append_right _ List.mem_cons_self
  · exact List.mem_append_right _ (List.mem_cons_of_mem _ List.mem_cons_self)

/-- A ratchet key that is drawn is not one that was drawn before. -/
theorem ratchet_ne_of_sealed {generated : List KeyPair} {k : KeyPair} {payload key : Bytes}
    (hsealed : (b.sealForPeer S payload env).1 = .ok (key, after)) (hk : k ∈ generated)
    (hchanged : ∀ pair, b.ratchet = some pair → pair.publicKey ≠ k.publicKey)
    (hdistinct : ((generated ++ drawnKeys (some b) (some after)).map (·.publicKey)).Nodup)
    (pair : KeyPair) (hpair : after.ratchet = some pair) : pair.publicKey ≠ k.publicKey := by
  have hratchet := sealForPeer_ratchet hsealed
  cases hdue : b.sendStepDue.isSome with
  | false =>
    rw [hdue, if_neg Bool.false_ne_true] at hratchet
    exact hchanged pair (hratchet.symm.trans hpair)
  | true =>
    have hdrawn : drawnKeys (some b) (some after) = [pair] := by
      show (if b.sendStepDue.isSome then after.ratchet.toList else []) = _
      rw [if_pos hdue, hpair]
      rfl
    rw [hdrawn, List.map_append, List.nodup_append] at hdistinct
    exact fun heq => hdistinct.2.2 _ (List.mem_map_of_mem hk) _ List.mem_cons_self heq.symm

/-- The writer of a lane writes: one more letter of its own handshake, if it has read nothing, and a
strange one if it has. -/
theorem Course.writes (h : Course S w m g early late letters) (hsession : w.session = some session)
    (hsealed : (session.sealForPeer S p.bodyKey.bytes env).1 = .ok (entry.key, after))
    (hsender : p.envelope.sender = w.writer) (hentry : p.envelope.entryFor w.reader = some entry)
    (hhandshake : entry.isHandshake = !session.isEstablished)
    (hcarrying : Carrying S w m session p entry)
    (hdistinct : ((w.generated ++ drawnKeys w.session (some after)).map (·.publicKey)).Nodup) :
    ∃ g early late letters, Course S { w with
      session := some after
      sent := w.sent ++ [p]
      generated := w.generated ++ drawnKeys w.session (some after) } m g early late letters := by
  have hidentity := List.mem_append_left (drawnKeys w.session (some after)) h.identity
  have hephemeral := List.mem_append_left (drawnKeys w.session (some after)) h.ephemeral
  have hratchet := List.mem_append_left (drawnKeys w.session (some after)) h.ratchet
  -- a writer that has read something writes under another ratchet key: its post is strange
  cases h.writer with
  | waiting unread ours nothing =>
    obtain rfl : session = g := Option.some.inj (hsession.symm.trans ours)
    obtain ⟨l, hletter, hplaintext, hcarries, hl, hafter, hunread, hstream⟩ :=
      exists_letter_of_waiting h.waiting h.unread hsealed
    refine ⟨after, early ++ [p], [], letters ++ [l], ?_, ?_, hafter, hunread, hidentity, hephemeral,
      hratchet, h.made, nofun, .waiting unread rfl rfl, ?_⟩
    · show w.sent ++ [p] = _
      rw [h.sent, nothing, List.append_nil, List.append_nil]
    · exact List.rel_append h.carried
        (.cons (hcarrying h.unread l hletter hplaintext hcarries hl) .nil)
    · cases h.reader with
      | waiting unread holding some stream =>
        exact .waiting unread holding (List.append_ne_nil_of_left_ne_nil some _) (hstream _ _ stream)
      | answering b hasRead spent session answers stream =>
        exact .answering b hasRead spent session answers (hstream _ _ stream)
  | answering b hasRead ours established changed =>
    obtain rfl : session = b := Option.some.inj (hsession.symm.trans ours)
    rw [ours] at hdistinct
    have hne := ratchet_ne_of_sealed hsealed h.ratchet changed hdistinct
    refine ⟨g, early, late ++ [p], letters, ?_, h.carried, h.waiting, h.unread, hidentity,
      hephemeral, hratchet, h.made, fun p' hp' => ?_, .answering after hasRead rfl ?_ hne, ?_⟩
    · show w.sent ++ [p] = _
      rw [h.sent, List.append_assoc]
    · rcases List.mem_append.mp hp' with hp' | hp'
      · exact h.stray p' hp'
      · obtain rfl := List.mem_singleton.mp hp'
        obtain ⟨pair, payload, body, mac, message, hpair, hcarries, hsplit, hdecode, hkey⟩ :=
          exists_message_of_sealForPeer hsealed
        rw [Carries, if_pos established] at hcarries
        rw [established] at hhandshake
        refine ⟨hsender, entry, hentry, hhandshake, body, mac, message, pair.publicKey, ?_, hdecode,
          hkey, hne pair hpair⟩
        rw [hcarries]
        exact hsplit
    · rw [sealForPeer_frame hsealed]
      exact established
    · cases h.reader with
      | waiting unread holding some stream => exact .waiting unread holding some stream
      | answering b hasRead spent session answers stream =>
        exact .answering b hasRead spent session answers stream

/-- The reader of a lane writes in the other. -/
theorem Course.peerWrites (h : Course S w m g early late letters)
    (hsession : ∀ b, w.sessionToo = some b → b = session) {key payload : Bytes}
    (hsealed : (session.sealForPeer S payload env).1 = .ok (key, after)) :
    Course S { w with sessionToo := some after } m g early late letters := by
  refine ⟨h.sent, h.carried, h.waiting, h.unread, h.identity, h.ephemeral, h.ratchet, h.made,
    h.stray, ?_, ?_⟩
  · cases h.writer with
    | waiting unread session nothing => exact .waiting unread session nothing
    | answering b hasRead session established changed =>
      exact .answering b hasRead session established changed
  · cases h.reader with
    | waiting unread holding some stream => exact .waiting unread holding some stream
    | answering b hasRead spent theirs answers stream =>
      obtain rfl := hsession b theirs
      obtain ⟨pair, chain, hsends, hreceives, htransit⟩ := stream
      refine .answering after hasRead spent rfl (answers.sealed hsealed) ⟨pair, chain, hsends, ?_⟩
      rw [sealForPeer_frame hsealed]
      exact ⟨⟨hreceives.1, hreceives.2⟩, htransit⟩

/-! ## Reading with the stored session -/

/-- The writer of a lane reads in the other with the session it has. -/
theorem Course.reads (h : Course S w m g early late letters) (hread : 0 < w.read)
    (hsession : w.session = some session) {payload : Bytes} {isHandshake : Bool}
    (hopen : session.openMessage S config now payload isHandshake = .ok (bodyKey, after)) :
    Course S { w with session := some after, read := w.read + 1 } m g early late letters := by
  refine ⟨h.sent, h.carried, h.waiting, h.unread, h.identity, h.ephemeral, h.ratchet, h.made,
    h.stray, ?_, ?_⟩
  · cases h.writer with
    | waiting unread => exact absurd unread (Nat.ne_of_gt hread)
    | answering b hasRead ours established changed =>
      obtain rfl : session = b := Option.some.inj (hsession.symm.trans ours)
      refine .answering after (Nat.succ_pos _) rfl
        (isEstablished_of_openMessage hopen (.inl established)) ?_
      rw [openMessage_frame hopen]
      exact changed
  · cases h.reader with
    | waiting unread holding some stream => exact .waiting unread holding some stream
    | answering b hasRead spent session answers stream =>
      exact .answering b hasRead spent session answers stream

/-- The reader of a lane reads the next letter with the session it has. -/
theorem Course.peerReads (h : Course S w m g (p :: early) late (l :: letters))
    (hread : 0 < w.readToo) (hsession : w.sessionToo = some session)
    (hopen : session.openMessage S config now l.payload l.isHandshake = .ok (bodyKey, after)) :
    Course S { w with sessionToo := some after, sent := early ++ late, readToo := w.readToo + 1 } m g
      early late letters := by
  obtain ⟨-, hcarried⟩ := List.forall₂_cons.mp h.carried
  have hwaiting : Waiting S m g letters := { h.waiting with
    letters := fun l' hl' => h.waiting.letters l' (List.mem_cons_of_mem l hl') }
  refine ⟨rfl, hcarried, hwaiting, h.unread, h.identity, h.ephemeral, h.ratchet, h.made, h.stray, ?_,
    ?_⟩
  · cases h.writer with
    | waiting unread session nothing => exact .waiting unread session nothing
    | answering b hasRead session established changed =>
      exact .answering b hasRead session established changed
  · cases h.reader with
    | waiting unread => exact absurd unread (Nat.ne_of_gt hread)
    | answering b hasRead spent theirs answers stream =>
      obtain rfl : session = b := Option.some.inj (hsession.symm.trans theirs)
      obtain ⟨hanswers, hstream⟩ := answers.opened stream hopen
      exact .answering after (Nat.succ_pos _) spent rfl hanswers hstream

/-! ## Starting to answer -/

/-- Outdated envelopes carry what they carried. -/
theorem carried_outdated (replaced : Bool) {sender recipient : DeviceId}
    (h : List.Forall₂ (Post.Holds S m sender recipient) early letters) :
    List.Forall₂ (Post.Holds S m sender recipient) (outdated replaced early) letters := by
  cases replaced with
  | false => exact h
  | true =>
    refine List.forall₂_map_left_iff.mpr (h.imp fun p l hp => ?_)
    exact ⟨hp.sender, hp.entry, hp.first, hp.bodyKey, hp.body⟩

/-- The writer of a lane starts to answer in the other: what it writes from now on is strange. -/
theorem Course.starts (h : Course S w m g early late letters) (hread : w.read = 0)
    (hestablished : after.isEstablished = true) (hratchet : after.ratchet = none)
    (replaced : Bool) (added : List KeyPair) :
    Course S { w with
      session := some after
      sent := outdated replaced w.sent
      generated := w.generated ++ added
      read := w.read + 1 } m g (outdated replaced early) [] letters := by
  cases h.writer with
  | answering b hasRead => exact absurd hread (Nat.ne_of_gt hasRead)
  | waiting unread session nothing =>
    refine ⟨?_, carried_outdated replaced h.carried, h.waiting, h.unread,
      List.mem_append_left _ h.identity, List.mem_append_left _ h.ephemeral,
      List.mem_append_left _ h.ratchet, h.made, nofun,
      .answering after (Nat.succ_pos _) rfl hestablished ?_, ?_⟩
    · show outdated replaced w.sent = _
      rw [h.sent, nothing, List.append_nil, List.append_nil]
    · rw [hratchet]
      exact nofun
    · cases h.reader with
      | waiting unread holding some stream => exact .waiting unread holding some stream
      | answering b hasRead spent session answers stream =>
        exact .answering b hasRead spent session answers stream

/-- The reader of a lane starts to answer: it has used up the one-time key. -/
theorem Course.peerStarts (h : Course S w m g (p :: early) late (l :: letters))
    (hread : w.readToo = 0) (hown : w.current = some own)
    (hidentity : stored.identity = own.identity)
    (hspent : ¬ ∃ own', some stored = some own' ∧ (own'.find? m.theirOneTime.bytes).isSome)
    (hopen : (m.responder S).openMessage S config now l.payload l.isHandshake =
      .ok (bodyKey, after)) :
    Course S { w with
      sessionToo := some after
      current := some stored
      sent := early ++ late
      readToo := w.readToo + 1 } m g early late letters := by
  obtain ⟨-, hcarried⟩ := List.forall₂_cons.mp h.carried
  have hwaiting : Waiting S m g letters := { h.waiting with
    letters := fun l' hl' => h.waiting.letters l' (List.mem_cons_of_mem l hl') }
  refine ⟨rfl, hcarried, hwaiting, h.unread, h.identity, h.ephemeral, h.ratchet, ?_, h.stray, ?_, ?_⟩
  · obtain ⟨own', hown', hmade⟩ := h.made
    obtain rfl := Option.some.inj (hown'.symm.trans hown)
    exact ⟨stored, rfl, hidentity ▸ hmade⟩
  · cases h.writer with
    | waiting unread session nothing => exact .waiting unread session nothing
    | answering b hasRead session established changed =>
      exact .answering b hasRead session established changed
  · cases h.reader with
    | answering b hasRead => exact absurd hread (Nat.ne_of_gt hasRead)
    | waiting unread holding some stream =>
      obtain ⟨hanswers, hstream⟩ := (Answers.start S m).opened stream hopen
      exact .answering after (Nat.succ_pos _) hspent rfl hanswers hstream

end EndToEnd.Correspondence
