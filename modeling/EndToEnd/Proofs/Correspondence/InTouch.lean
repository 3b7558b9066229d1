import EndToEnd.Proofs.Correspondence.Keys
import Mathlib.Data.List.Forall2

/-!
# Two devices in touch

When one device has written to another, the letters between them follow one meeting. Until the other
has read any, its one-time key waits for the first; from then on the two sessions are in step. A
reader whose store has failed half-way is in between: it has a session that has read the first letter
and still holds the one-time key, so it may read the letter again and replace that session.

What it had sent in the replaced session is then outdated. As long as nothing of it has been read,
the two devices stay in touch, because the writer's session is still in step with the one that
answers the meeting first.

Main statements:

- `Met.initiatorWrites`, `Met.responderWrites`: writing keeps two devices in touch;
- `Met.initiatorReads`, `Met.responderReads`: so does reading with the stored session;
- `Met.responderStarts`, `Met.responderHalts`: so does starting a session, however far it comes;
- `Met.initiatorLoses`, `Met.responderLoses`: so does the loss of an envelope.
-/

namespace EndToEnd.Correspondence

open Session

variable {d : Delivery} {S : Suite} {v : View} {m : Meeting} {a b after : Session}
  {letters back : List Letter} {l : Letter} {p : Post} {rest : List Post} {entry : Wire.Entry}
  {env : Environment} {config : Config} {now : UInt64} {key bodyKey payload : Bytes}
  {isHandshake : Bool}

/-! ## What is kept -/

/-- The initiator has read nothing yet: all that it has sent is inside handshake messages. -/
structure Waiting (S : Suite) (m : Meeting) (a : Session) (letters : List Letter) : Prop where
  identity : a.identity = some m.identity
  ephemeral : a.ephemeral = some m.ephemeral
  oneTime : a.theirOneTime = some m.theirOneTime
  sends : Sends S a m.ratchet (m.chain S)
  skipped : a.skipped = []
  letters : ∀ l ∈ letters, l.isHandshake = true

/-- How far the responder has read the letters on their way to it. -/
inductive Reading (d : Delivery) (S : Suite) (v : View) (m : Meeting) (a b : Session)
    (letters back : List Letter) : Prop
  | inStep (h : Lockstep d S a b letters back)
  /-- It has read the first one, but its store has failed half-way. -/
  | halfway {l : Letter} {rest : List Letter} (lossy : d = .lossy) (holding : v.Holding .responder m)
      (first : letters = l :: rest) (handshake : l.isHandshake = true)
      (h : Lockstep d S a b rest back)

/-- The responder has a session, and what it has sent is outdated or belongs to that session. -/
structure Answering (d : Delivery) (S : Suite) (v : View) (m : Meeting) (a b : Session)
    (letters : List Letter) : Prop where
  established : b.isEstablished = true
  ratchet : ∀ pair, b.ratchet = some pair → pair ∈ v.generated .responder
  plain : ∀ p ∈ v.sent .responder, p.envelope.sender = v.id .responder ∧
    ∃ entry, p.envelope.entryFor (v.id .initiator) = some entry ∧ entry.isHandshake = false
  replies : ∃ old new back, v.sent .responder = old ++ new ∧ (∀ p ∈ old, p.stale = true) ∧
    (∀ p ∈ new, p.stale = false) ∧ (d = .complete → old = []) ∧
    List.Forall₂ (Post.Holds S m (v.id .responder) (v.id .initiator)) new back ∧
    Reading d S v m a b letters back
  whole : d = .complete → a.skipped = [] ∧ b.skipped = [] ∧ ¬ v.Holding .responder m

/-- Whether the responder has read anything. -/
inductive Partner (d : Delivery) (S : Suite) (v : View) (m : Meeting) (a : Session)
    (letters : List Letter) : Prop
  | absent (none : v.session .responder = none) (unread : a.isEstablished = false)
      (silent : v.sent .responder = []) (holding : v.Holding .responder m)
  | present (b : Session) (some : v.session .responder = some b)
      (answering : Answering d S v m a b letters)

/-- The initiator has written to the responder, and the two are in touch. -/
structure Met (d : Delivery) (S : Suite) (v : View) (m : Meeting) (a : Session)
    (letters : List Letter) : Prop where
  ours : v.session .initiator = some a
  carried : List.Forall₂ (Post.Holds S m (v.id .initiator) (v.id .responder)) (v.sent .initiator)
    letters
  identity : m.identity ∈ v.generated .initiator
  ephemeral : m.ephemeral ∈ v.generated .initiator
  ratchet : ∀ pair, a.ratchet = some pair → pair ∈ v.generated .initiator
  made : ∃ own, v.current .responder = some own ∧ m.MadeWith S own.identity.publicKey
  waiting : a.isEstablished = false → Waiting S m a letters
  /-- The session that answers the meeting first is still in step. -/
  fresh : a.isEstablished = false → (d = .complete → v.session .responder = none) →
    Lockstep d S a (m.responder S) letters []
  partner : Partner d S v m a letters
  counts : d = .complete → (a.isEstablished = true ↔ 0 < v.read .initiator) ∧
    (v.session .responder = none ↔ v.read .responder = 0)

/-! ## Without the first letter -/

/-- What an initiator waits with is the same when fewer of its letters are on their way. -/
theorem Waiting.subset {fewer : List Letter} (h : Waiting S m a letters) (hsub : fewer ⊆ letters) :
    Waiting S m a fewer :=
  { h with letters := fun l hl => h.letters l (hsub hl) }

/-- The envelopes behind the first carry the letters behind the first. -/
theorem Met.carried_rest (h : Met d S v m a (l :: letters)) (hsent : v.sent .initiator = p :: rest) :
    List.Forall₂ (Post.Holds S m (v.id .initiator) (v.id .responder)) rest letters := by
  have hcarried := h.carried
  rw [hsent] at hcarried
  exact (List.forall₂_cons.mp hcarried).2

/-- Where letters may be lost, the session that answers the meeting first can do without the first
letter. -/
theorem Met.fresh_rest (h : Met d S v m a (l :: letters)) (hunread : a.isEstablished = false)
    (hlossy : d ≠ .complete) : Lockstep d S a (m.responder S) letters [] := by
  cases d with
  | complete => exact absurd rfl hlossy
  | lossy => exact (h.fresh hunread nofun).lost

/-! ## Sealing and opening -/

/-- A session that seals keeps what it knows of the other, and takes into use the keys that it
draws. -/
theorem sealed_keys {generated : List KeyPair}
    (hsealed : (a.sealForPeer S payload env).1 = .ok (key, after))
    (hratchet : ∀ pair, a.ratchet = some pair → pair ∈ generated)
    (hdistinct : ((generated ++ drawnKeys (some a) (some after)).map (·.publicKey)).Nodup) :
    after.isEstablished = a.isEstablished ∧ after.skipped = a.skipped ∧
      (∀ pair, after.ratchet = some pair → pair ∈ generated ++ drawnKeys (some a) (some after)) ∧
      ∀ old new, a.sendStepDue.isSome → a.ratchet = some old → after.ratchet = some new →
        old.publicKey ≠ new.publicKey := by
  have hframe := sealForPeer_frame hsealed
  have hnewest := sealForPeer_ratchet hsealed
  have hdrawn : drawnKeys (some a) (some after) =
      if a.sendStepDue.isSome then after.ratchet.toList else [] := rfl
  refine ⟨by rw [hframe]; rfl, by rw [hframe], fun pair hpair => ?_,
    fun old new hdue hold hnew => ?_⟩
  · cases hdue : a.sendStepDue.isSome with
    | true =>
      rw [hdrawn, if_pos hdue, hpair]
      exact List.mem_append_right _ List.mem_cons_self
    | false =>
      rw [hnewest, if_neg (by rw [hdue]; exact Bool.false_ne_true)] at hpair
      exact List.mem_append_left _ (hratchet pair hpair)
  · rw [hdrawn, if_pos hdue, hnew, List.map_append, List.nodup_append] at hdistinct
    exact hdistinct.2.2 _ (List.mem_map_of_mem (hratchet old hold)) _ List.mem_cons_self

/-- A session knows a ratchet key of the other once it has opened a message on a chain. -/
theorem isEstablished_of_openMessage
    (h : a.openMessage S config now payload isHandshake = .ok (bodyKey, after))
    (hknown : a.isEstablished = true ∨ isHandshake = false ∧ a.skipped = []) :
    after.isEstablished = true := by
  rcases openMessage_changes h with ⟨kept, hsome, rfl⟩ | ⟨_, _, _, hside, -, rfl⟩ |
    ⟨_, _, _, _, _, _, -, -, -, rfl⟩
  · rcases hknown with hknown | ⟨-, hnil⟩
    · exact hknown
    · exact absurd hnil hsome
  · rcases hknown with hknown | ⟨hno, -⟩
    · exact hknown
    · exact hside.resolve_left (hno ▸ Bool.false_ne_true)
  · rfl

/-! ## How far the responder has read -/

namespace Reading

/-- What keeps two sessions in step keeps them so however far the responder has read. -/
theorem map {v' : View} {a' b' : Session} {back' : List Letter}
    (h : Reading d S v m a b letters back)
    (hholding : v.Holding .responder m → v'.Holding .responder m)
    (hstep : ∀ ls, Lockstep d S a b ls back → Lockstep d S a' b' ls back') :
    Reading d S v' m a' b' letters back' := by
  cases h with
  | inStep h => exact .inStep (hstep _ h)
  | halfway lossy holding first handshake h =>
    exact .halfway lossy (hholding holding) first handshake (hstep _ h)

/-- The same for one more letter. -/
theorem concat {v' : View} {a' : Session} (h : Reading d S v m a b letters back)
    (hholding : v.Holding .responder m → v'.Holding .responder m)
    (hstep : ∀ ls, Lockstep d S a b ls back → Lockstep d S a' b (ls ++ [l]) back) :
    Reading d S v' m a' b (letters ++ [l]) back := by
  cases h with
  | inStep h => exact .inStep (hstep _ h)
  | halfway lossy holding first handshake h =>
    exact .halfway lossy (hholding holding) (by rw [first]; rfl) handshake (hstep _ h)

/-- The first letter lost. -/
theorem lost {v' : View} (h : Reading .lossy S v m a b (l :: letters) back) :
    Reading .lossy S v' m a b letters back := by
  cases h with
  | inStep h => exact .inStep h.lost
  | halfway lossy holding first handshake h =>
    obtain ⟨rfl, rfl⟩ := List.cons.inj first
    exact .inStep h

/-- A responder that has not sent is one that nothing was read of. -/
theorem unanswered (h : Reading d S v m a b letters back) (hratchet : b.ratchet = none) :
    back = [] ∧ a.isEstablished = false := by
  have hstep {ls : List Letter} (h : Lockstep d S a b ls back) :
      back = [] ∧ a.isEstablished = false := by
    obtain ⟨hnil, hnone⟩ := h.unanswered hratchet
    exact ⟨hnil, by rw [isEstablished, hnone]; rfl⟩
  cases h with
  | inStep h => exact hstep h
  | halfway _ _ _ _ h => exact hstep h

end Reading

/-! ## Writing -/

/-- A session that knows no ratchet key of the other takes no step. -/
theorem sendStepDue_of_unread (h : a.isEstablished = false) : a.sendStepDue = none := by
  have hnone : a.theirRatchet = none :=
    Option.isNone_iff_eq_none.mp (Option.isSome_eq_false_iff.mp h)
  rw [sendStepDue, hnone, ite_self]

/-- An initiator that has read nothing writes one more letter of the first chain. -/
theorem Waiting.sealed (h : Waiting S m a letters) (hunread : a.isEstablished = false)
    (hafter : Sends S after m.ratchet (m.chain S))
    (hsealed : (a.sealForPeer S payload env).1 = .ok (key, after))
    (hhandshake : l.isHandshake = !a.isEstablished) : Waiting S m after (letters ++ [l]) := by
  have hframe := sealForPeer_frame hsealed
  refine ⟨?_, ?_, ?_, hafter, ?_, fun l' hl' => ?_⟩
  · rw [hframe]
    exact h.identity
  · rw [hframe]
    exact h.ephemeral
  · rw [hframe]
    exact h.oneTime
  · rw [hframe]
    exact h.skipped
  · rcases List.mem_append.mp hl' with hl' | hl'
    · exact h.letters l' hl'
    · rw [List.mem_singleton.mp hl', hhandshake, hunread]
      rfl

/-- The view after a side has written, in a session that has sealed. -/
def View.posted (v : View) (side : Side) (p : Post) (after : Session) : View :=
  { v with
    session := Function.update v.session side (some after)
    sent := Function.update v.sent side (v.sent side ++ [p])
    generated := Function.update v.generated side
      (v.generated side ++ drawnKeys (v.session side) (some after)) }

/-- Two devices stay in touch when the initiator writes. -/
theorem Met.initiatorWrites (h : Met d S v m a letters)
    (hsealed : (a.sealForPeer S p.bodyKey.bytes env).1 = .ok (key, after))
    (hholds : ∀ l : Letter, l.isHandshake = !a.isEstablished → l.plaintext = p.bodyKey.bytes →
      a.Carries l.payload key →
      (a.isEstablished = false → l.IsSealed S m.ratchet.publicKey (m.chain S)) →
      p.Holds S m (v.id .initiator) (v.id .responder) l)
    (hsound : (v.posted .initiator p after).Sound S) :
    ∃ l, Met d S (v.posted .initiator p after) m after (letters ++ [l]) := by
  have hgenerated : (v.posted .initiator p after).generated .initiator =
      v.generated .initiator ++ drawnKeys (some a) (some after) := by
    rw [← h.ours]
    rfl
  have hdistinct := hsound.distinct .initiator
  rw [hgenerated] at hdistinct
  obtain ⟨hestablished, hskipped, hratchet, hchange⟩ := sealed_keys hsealed h.ratchet hdistinct
  rw [← hgenerated] at hratchet
  obtain ⟨l, hhandshake, hplaintext, hcarries, hsealing, -, hstep⟩ :=
    exists_letter_of_sealForPeer hsealed
  have hframe := sealForPeer_frame hsealed
  have hfirst (hunread : a.isEstablished = false) :=
    hsealing m.ratchet (m.chain S) (sendStepDue_of_unread hunread) (h.waiting hunread).sends
  -- in step with the responder, in the session that it has or in the one that it would start
  have hinStep (b : Session) (hb : ∀ pair, b.ratchet = some pair → pair ∈ v.generated .responder)
      (ls back : List Letter) (hlockstep : Lockstep d S a b ls back) :
      Lockstep d S after b (ls ++ [l]) back := by
    refine hstep d b ls back hlockstep hchange fun own other hown hother => ?_
    exact (hsound.agrees own (hratchet own hown) other (hb other hother)).symm
  refine ⟨l, rfl, ?_, ?_, ?_, hratchet, h.made, fun hunread => ?_, fun hunread hwhole => ?_, ?_, ?_⟩
  · refine List.rel_append h.carried (.cons ?_ .nil)
    exact hholds l hhandshake hplaintext hcarries fun hunread => (hfirst hunread).1
  · exact hgenerated ▸ List.mem_append_left _ h.identity
  · exact hgenerated ▸ List.mem_append_left _ h.ephemeral
  · rw [hestablished] at hunread
    exact (h.waiting hunread).sealed hunread (hfirst hunread).2 hsealed hhandshake
  · rw [hestablished] at hunread
    exact hinStep _ (fun _ hpair => nomatch (m.responder_ratchet S).symm.trans hpair) _ _
      (h.fresh hunread hwhole)
  · cases h.partner with
    | absent none unread silent holding =>
      exact .absent none (hestablished.trans unread) silent holding
    | present b some answering =>
      obtain ⟨old, new, back, hsent, hold, hnew, hcomplete, hback, hreading⟩ := answering.replies
      refine .present b some ⟨answering.established, answering.ratchet, answering.plain,
        ⟨old, new, back, hsent, hold, hnew, hcomplete, hback,
          hreading.concat (fun h => h) (hinStep b answering.ratchet · back)⟩, fun hd => ?_⟩
      rw [hskipped]
      exact answering.whole hd
  · rw [hestablished]
    exact h.counts

/-- Two devices stay in touch when the responder writes. -/
theorem Met.responderWrites (h : Met d S v m a letters) (hb : v.session .responder = some b)
    (hsealed : (b.sealForPeer S p.bodyKey.bytes env).1 = .ok (key, after))
    (hentry : p.envelope.entryFor (v.id .initiator) = some entry)
    (hhandshake : entry.isHandshake = !b.isEstablished)
    (hsender : p.envelope.sender = v.id .responder) (hstale : p.stale = false)
    (hholds : b.isEstablished = true → ∀ l : Letter, l.isHandshake = false →
      l.plaintext = p.bodyKey.bytes → b.Carries l.payload key →
      p.Holds S m (v.id .responder) (v.id .initiator) l)
    (hsound : (v.posted .responder p after).Sound S) :
    Met d S (v.posted .responder p after) m a letters := by
  cases h.partner with
  | absent none => exact nomatch none.symm.trans hb
  | present b' some answering =>
    obtain rfl : b' = b := Option.some.inj (some.symm.trans hb)
    have hgenerated : (v.posted .responder p after).generated .responder =
        v.generated .responder ++ drawnKeys (.some b') (.some after) := by
      rw [← hb]
      rfl
    have hdistinct := hsound.distinct .responder
    rw [hgenerated] at hdistinct
    obtain ⟨hestablished, hskipped, hratchet, hchange⟩ :=
      sealed_keys hsealed answering.ratchet hdistinct
    rw [← hgenerated] at hratchet
    obtain ⟨l, hletter, hplaintext, hcarries, -, -, hstep⟩ :=
      exists_letter_of_sealForPeer hsealed
    rw [answering.established] at hletter hhandshake
    obtain ⟨old, new, back, hsent, hold, hnew, hcomplete, hback, hreading⟩ := answering.replies
    refine ⟨h.ours, h.carried, h.identity, h.ephemeral, h.ratchet, h.made, h.waiting,
      fun hunread hwhole => h.fresh hunread fun hd => (nomatch hwhole hd),
      .present after rfl ⟨hestablished.trans answering.established, hratchet, ?_, ?_, ?_⟩, ?_⟩
    · intro p' hp'
      rcases List.mem_append.mp hp' with hp' | hp'
      · exact answering.plain p' hp'
      · rw [List.mem_singleton.mp hp']
        exact ⟨hsender, entry, hentry, hhandshake⟩
    · refine ⟨old, new ++ [p], back ++ [l], ?_, hold, ?_, hcomplete, ?_, ?_⟩
      · show v.sent .responder ++ [p] = _
        rw [hsent, List.append_assoc]
      · intro p' hp'
        rcases List.mem_append.mp hp' with hp' | hp'
        · exact hnew p' hp'
        · rw [List.mem_singleton.mp hp', hstale]
      · exact List.rel_append hback
          (.cons (hholds answering.established l hletter hplaintext hcarries) .nil)
      · refine hreading.map (fun h => h) fun ls hlockstep =>
          (hstep d a back ls hlockstep.symm hchange ?_).symm
        intro own other hown hother
        exact hsound.agrees other (h.ratchet other hother) own (hratchet own hown)
    · intro hd
      rw [hskipped]
      exact answering.whole hd
    · intro hd
      obtain ⟨hread, hreadToo⟩ := h.counts hd
      refine ⟨hread, ?_⟩
      rw [hb] at hreadToo
      exact ⟨nofun, fun hzero => (nomatch hreadToo.mpr hzero)⟩

/-! ## Reading with the stored session -/

/-- The view after a side has read the next envelope with the stored session. -/
def View.opened (v : View) (side : Side) (rest : List Post) (after : Session) : View :=
  { v with
    session := Function.update v.session side (some after)
    sent := Function.update v.sent side.peer rest
    read := Function.update v.read side (v.read side + 1) }

/-- The next envelope of the responder carries the next letter to the initiator if it is not outdated,
and two devices stay in touch when the initiator reads it. -/
theorem Met.initiatorReads (h : Met d S v m a letters) (hsent : v.sent .responder = p :: rest)
    (hstale : d = .lossy → p.stale = false) :
    ∃ l, p.Holds S m (v.id .responder) (v.id .initiator) l ∧ l.isHandshake = false ∧
      (d = .complete → a.skipped = [] ∧ ∃ b back, Lockstep d S a b letters (l :: back)) ∧
      ∀ {now config bodyKey after},
        a.openMessage S config now l.payload l.isHandshake = .ok (bodyKey, after) →
        Met d S (v.opened .initiator rest after) m after letters := by
  cases h.partner with
  | absent none unread silent => exact nomatch hsent.symm.trans silent
  | present b some answering =>
    obtain ⟨old, new, back, hposts, hold, hnew, hcomplete, hback, hreading⟩ := answering.replies
    -- an outdated post would be in front, and this one is not outdated
    obtain rfl : old = [] := by
      cases hd : d with
      | complete => exact hcomplete hd
      | lossy =>
        cases old with
        | nil => rfl
        | cons first old =>
          obtain ⟨rfl, -⟩ := List.cons.inj (hsent.symm.trans hposts)
          exact nomatch (hold p List.mem_cons_self).symm.trans (hstale hd)
    obtain rfl : new = p :: rest := hposts.symm.trans hsent
    cases hback with
    | @cons _ l _ back hp hrest =>
      obtain ⟨hsender, entry, hentry, hplain⟩ := answering.plain p (hsent ▸ List.mem_cons_self)
      have hletter : l.isHandshake = false := by
        obtain ⟨entry', hentry', hsame, -⟩ := hp.entry
        obtain rfl := Option.some.inj (hentry.symm.trans hentry')
        exact hsame.symm.trans hplain
      refine ⟨l, hp, hletter, fun hd => ⟨(answering.whole hd).1, b, back, ?_⟩,
        fun {now config bodyKey after} hopen => ?_⟩
      · cases hreading with
        | inStep hlockstep => exact hlockstep
        | halfway lossy => exact nomatch hd.symm.trans lossy
      have hframe := openMessage_frame hopen
      have hestablished : after.isEstablished = true := by
        refine isEstablished_of_openMessage hopen ?_
        cases hread : a.isEstablished with
        | true => exact .inl rfl
        | false => exact .inr ⟨hletter, (h.waiting hread).skipped⟩
      have hkept (hd : d = .complete) : a.skipped = [] := (answering.whole hd).1
      have hstep (ls : List Letter) (hlockstep : Lockstep d S a b ls (l :: back)) :
          Lockstep d S after b ls back ∧ (d = .complete → after.skipped = []) := by
        obtain ⟨hlockstep, hskipped⟩ := hlockstep.symm.opened hkept hopen
        exact ⟨hlockstep.symm, hskipped⟩
      have hskipped (hd : d = .complete) : after.skipped = [] := by
        cases hreading with
        | inStep hlockstep => exact (hstep _ hlockstep).2 hd
        | halfway lossy => exact nomatch hd.symm.trans lossy
      refine ⟨rfl, h.carried, h.identity, h.ephemeral, ?_, h.made, ?_, ?_,
        .present b some ⟨answering.established, answering.ratchet, ?_, ?_, ?_⟩, ?_⟩
      · rw [hframe]
        exact h.ratchet
      · exact fun hunread => nomatch hestablished.symm.trans hunread
      · exact fun hunread => nomatch hestablished.symm.trans hunread
      · exact fun p' hp' => answering.plain p' (hsent ▸ List.mem_cons_of_mem p hp')
      · exact ⟨[], rest, back, rfl, nofun, fun p' hp' => hnew p' (List.mem_cons_of_mem p hp'),
          fun _ => rfl, hrest, hreading.map (fun h => h) fun ls hlockstep => (hstep ls hlockstep).1⟩
      · exact fun hd => ⟨hskipped hd, (answering.whole hd).2⟩
      · exact fun hd => ⟨⟨fun _ => Nat.succ_pos _, fun _ => hestablished⟩, (h.counts hd).2⟩

/-- Two devices stay in touch when the responder reads the next envelope with the session that it
has. -/
theorem Met.responderReads (h : Met d S v m a (l :: letters))
    (hb : v.session .responder = some b) (hsent : v.sent .initiator = p :: rest)
    (hspent : l.isHandshake = true → ¬ v.Holding .responder m)
    (hopen : b.openMessage S config now l.payload l.isHandshake = .ok (bodyKey, after)) :
    Met d S (v.opened .responder rest after) m a letters := by
  cases h.partner with
  | absent none => exact nomatch none.symm.trans hb
  | present b' some answering =>
    obtain rfl : b' = b := Option.some.inj (some.symm.trans hb)
    obtain ⟨old, new, back, hposts, hold, hnew, hcomplete, hback, hreading⟩ := answering.replies
    have hlockstep : Lockstep d S a b' (l :: letters) back := by
      cases hreading with
      | inStep hlockstep => exact hlockstep
      -- half-way the one-time key is still held, and a handshake message would start anew
      | halfway lossy holding first handshake =>
        obtain ⟨rfl, rfl⟩ := List.cons.inj first
        exact absurd holding (hspent handshake)
    obtain ⟨hlockstep, hskipped⟩ := hlockstep.opened (fun hd => (answering.whole hd).2.1) hopen
    have hframe := openMessage_frame hopen
    refine ⟨h.ours, h.carried_rest hsent, h.identity, h.ephemeral, h.ratchet, h.made, fun hunread => ?_,
      fun hunread hwhole => ?_, .present after rfl ⟨?_, ?_, answering.plain, ?_, ?_⟩, ?_⟩
    · exact (h.waiting hunread).subset (List.subset_cons_self l letters)
    · exact h.fresh_rest hunread fun hd => (nomatch hwhole hd)
    · exact isEstablished_of_openMessage hopen (.inl answering.established)
    · rw [hframe]
      exact answering.ratchet
    · exact ⟨old, new, back, hposts, hold, hnew, hcomplete, hback, .inStep hlockstep⟩
    · exact fun hd => ⟨(answering.whole hd).1, hskipped hd, (answering.whole hd).2.2⟩
    · intro hd
      exact ⟨(h.counts hd).1, ⟨nofun, nofun⟩⟩

/-! ## Starting a session -/

/-- What the responder has sent when it starts a session is outdated, and the initiator has read
nothing of it, or the session that it replaces was read. -/
theorem Met.replaced (h : Met d S v m a letters) (hholding : v.Holding .responder m)
    (hratchet : after.ratchet = none)
    (hsuperseded : replaces (v.session .responder) (some after) = true → a.isEstablished = false) :
    a.isEstablished = false ∧ (d = .complete → v.session .responder = none) ∧
      (∀ p ∈ outdated (replaces (v.session .responder) (some after)) (v.sent .responder),
        p.stale = true ∧ p.envelope.sender = v.id .responder ∧
          ∃ entry, p.envelope.entryFor (v.id .initiator) = some entry ∧
            entry.isHandshake = false) ∧
      (d = .complete →
        outdated (replaces (v.session .responder) (some after)) (v.sent .responder) = []) := by
  cases h.partner with
  | absent none unread silent =>
    have hnil (replaced : Bool) : outdated replaced (v.sent .responder) = [] := by
      rw [silent]
      cases replaced <;> rfl
    refine ⟨unread, fun _ => none, fun p hp => ?_, fun _ => hnil _⟩
    rw [hnil] at hp
    exact nomatch hp
  | present b some answering =>
    have hlossy (hd : d = .complete) : False := (answering.whole hd).2.2 hholding
    rw [some] at hsuperseded ⊢
    obtain ⟨old, new, back, hsent, hold, hnew, hcomplete, hback, hreading⟩ := answering.replies
    cases hb : b.ratchet with
    | none =>
      -- nothing was sent in the session that is replaced
      obtain ⟨rfl, hunread⟩ := hreading.unanswered hb
      obtain rfl := List.forall₂_nil_right_iff.mp hback
      have hkept : replaces (.some b) (.some after) = false := by
        rw [replaces, hb]
        rfl
      refine ⟨hunread, fun hd => (hlossy hd).elim, fun p hp => ?_, fun hd => (hlossy hd).elim⟩
      rw [hkept, outdated, if_neg Bool.false_ne_true] at hp
      refine ⟨hold p ?_, answering.plain p hp⟩
      rw [hsent, List.append_nil] at hp
      exact hp
    -- a session with a ratchet key has sent, so it counts as replaced
    | some pair =>
      have hreplaced : replaces (.some b) (.some after) = true := by
        rw [replaces, hb, hratchet]
        rfl
      refine ⟨hsuperseded hreplaced, fun hd => (hlossy hd).elim, fun p hp => ?_,
        fun hd => (hlossy hd).elim⟩
      rw [hreplaced, outdated, if_pos rfl] at hp
      obtain ⟨p', hp', rfl⟩ := List.mem_map.mp hp
      exact ⟨rfl, answering.plain p' hp'⟩

/-- The view after the responder has started a session, and its store has failed half-way. -/
def View.halted (v : View) (after : Session) : View :=
  { v with
    session := Function.update v.session .responder (some after)
    sent := Function.update v.sent .responder
      (outdated (replaces (v.session .responder) (some after)) (v.sent .responder)) }

section Starting

variable (h : Met d S v m a (l :: letters)) (hholding : v.Holding .responder m)
  (hopen : (m.responder S).openMessage S config now l.payload l.isHandshake = .ok (bodyKey, after))
  (hsuperseded : replaces (v.session .responder) (some after) = true → a.isEstablished = false)
include h hholding hopen hsuperseded

/-- Two devices stay in touch when the responder starts a session. -/
theorem Met.responderStarts (hsent : v.sent .initiator = p :: rest) {own stored : Bundle}
    {target : Nat} (hown : v.current .responder = some own)
    (hstored : stored = ((own.erase m.theirOneTime.bytes).replenish S target env).2.1)
    (hcounted : v.Counted) (hsound : (v.started .responder rest after own stored).Sound S) :
    Met d S (v.started .responder rest after own stored) m a letters := by
  have hratchet : after.ratchet = none := by
    rw [openMessage_frame hopen]
    rfl
  obtain ⟨hunread, hnone, hold, hnil⟩ := h.replaced hholding hratchet hsuperseded
  obtain ⟨hlockstep, hskipped⟩ := (h.fresh hunread hnone).opened (fun _ => rfl) hopen
  have hheld : (own.find? m.theirOneTime.bytes).isSome := by
    obtain ⟨own', hown', hheld⟩ := hholding
    obtain rfl := Option.some.inj (hown'.symm.trans hown)
    exact hheld
  obtain ⟨-, -, hidentity, -⟩ := exists_addedKeys hheld hstored
  have hspent := View.not_holding_started hcounted hown hheld hstored hsound
  refine ⟨h.ours, h.carried_rest hsent, h.identity, h.ephemeral, h.ratchet, ?_, fun _ => ?_,
    fun _ hwhole => ?_, .present after rfl ⟨?_, ?_, fun p hp => (hold p hp).2, ?_, ?_⟩, fun hd => ?_⟩
  · obtain ⟨own', hown', hmade⟩ := h.made
    obtain rfl := Option.some.inj (hown'.symm.trans hown)
    exact ⟨stored, rfl, hidentity ▸ hmade⟩
  · exact (h.waiting hunread).subset (List.subset_cons_self l letters)
  · exact h.fresh_rest hunread fun hd => (nomatch hwhole hd)
  · exact isEstablished_of_openMessage hopen (.inl rfl)
  · rw [hratchet]
    exact nofun
  · exact ⟨_, [], [], (List.append_nil _).symm, fun p hp => (hold p hp).1, nofun, hnil, .nil,
      .inStep hlockstep⟩
  · exact fun hd => ⟨(h.waiting hunread).skipped, hskipped hd, hspent⟩
  · exact ⟨(h.counts hd).1, ⟨nofun, nofun⟩⟩

/-- Two devices stay in touch when the responder starts a session and its store fails half-way. -/
theorem Met.responderHalts (hd : d = .lossy) (hhandshake : l.isHandshake = true) :
    Met d S (v.halted after) m a (l :: letters) := by
  have hratchet : after.ratchet = none := by
    rw [openMessage_frame hopen]
    rfl
  obtain ⟨hunread, hnone, hold, hnil⟩ := h.replaced hholding hratchet hsuperseded
  obtain ⟨hlockstep, -⟩ := (h.fresh hunread hnone).opened (fun _ => rfl) hopen
  subst hd
  refine ⟨h.ours, h.carried, h.identity, h.ephemeral, h.ratchet, h.made, h.waiting,
    fun _ _ => h.fresh hunread nofun,
    .present after rfl ⟨?_, ?_, fun p hp => (hold p hp).2, ?_, nofun⟩, nofun⟩
  · exact isEstablished_of_openMessage hopen (.inl rfl)
  · rw [hratchet]
    exact nofun
  · exact ⟨_, [], [], (List.append_nil _).symm, fun p hp => (hold p hp).1, nofun, nofun, .nil,
      .halfway rfl hholding rfl hhandshake hlockstep⟩

end Starting

/-! ## Losing an envelope -/

/-- The view after the next envelope of a side was lost. -/
def View.lost (v : View) (side : Side) : View :=
  { v with sent := Function.update v.sent side (v.sent side).tail }

/-- Two devices stay in touch when an envelope of the initiator is lost. -/
theorem Met.initiatorLoses (h : Met .lossy S v m a letters) :
    Met .lossy S (v.lost .initiator) m a letters.tail := by
  have hcarried : List.Forall₂ (Post.Holds S m (v.id .initiator) (v.id .responder))
      (v.sent .initiator).tail letters.tail := by
    have hcarried := h.carried
    generalize v.sent .initiator = posts at hcarried
    cases hcarried with
    | nil => exact .nil
    | cons _ hrest => exact hrest
  refine ⟨h.ours, hcarried, h.identity, h.ephemeral, h.ratchet, h.made, fun hunread => ?_,
    fun hunread _ => ?_, ?_, nofun⟩
  · exact (h.waiting hunread).subset fun _ => List.mem_of_mem_tail
  · have hlockstep := h.fresh hunread nofun
    cases letters with
    | nil => exact hlockstep
    | cons l letters => exact hlockstep.lost
  · cases h.partner with
    | absent none unread silent holding => exact .absent none unread silent holding
    | present b some answering =>
      obtain ⟨old, new, back, hsent, hold, hnew, hcomplete, hback, hreading⟩ := answering.replies
      refine .present b some ⟨answering.established, answering.ratchet, answering.plain,
        ⟨old, new, back, hsent, hold, hnew, hcomplete, hback, ?_⟩, nofun⟩
      cases letters with
      | nil => exact hreading.map (fun h => h) fun _ h => h
      | cons l letters => exact hreading.lost

/-- Two devices stay in touch when an envelope of the responder is lost. -/
theorem Met.responderLoses (h : Met .lossy S v m a letters) :
    Met .lossy S (v.lost .responder) m a letters := by
  refine ⟨h.ours, h.carried, h.identity, h.ephemeral, h.ratchet, h.made, h.waiting, h.fresh, ?_,
    nofun⟩
  cases h.partner with
  | absent none unread silent holding =>
    refine .absent none unread ?_ holding
    show (v.sent .responder).tail = []
    rw [silent]
    rfl
  | present b some answering =>
    obtain ⟨old, new, back, hsent, hold, hnew, hcomplete, hback, hreading⟩ := answering.replies
    refine .present b some ⟨answering.established, answering.ratchet,
      fun p hp => answering.plain p (List.mem_of_mem_tail hp), ?_, nofun⟩
    cases old with
    | cons first old =>
      refine ⟨old, new, back, ?_, fun p hp => hold p (List.mem_cons_of_mem first hp), hnew, nofun,
        hback, hreading.map (fun h => h) fun _ h => h⟩
      show (v.sent .responder).tail = _
      rw [hsent]
      rfl
    | nil =>
      rw [List.nil_append] at hsent
      refine ⟨[], new.tail, back.tail, ?_, nofun, fun p hp => hnew p (List.mem_of_mem_tail hp),
        nofun, ?_, ?_⟩
      · show (v.sent .responder).tail = _
        rw [hsent]
        rfl
      · cases hback with
        | nil => exact .nil
        | cons _ hrest => exact hrest
      · cases back with
        | nil => exact hreading.map (fun h => h) fun _ h => h
        | cons l back => exact hreading.map (fun h => h) fun _ h => h.symm.lost.symm

end EndToEnd.Correspondence
