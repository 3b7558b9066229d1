import EndToEnd.Proofs.Session.Letters

/-!
# Two sessions in step

Two sessions that answer each other are in one of two positions. They are level when both have taken
the same steps: one of them owns the newest chain, and the other either has not sent yet or is about
to answer with a step of its own. One of them is ahead when it has taken the answering step and the
other has not read it yet. The letters on their way are then on the chain the receiver knows, and
behind them, from the one that is ahead, on the chain that its step has opened.

Sending, reading and losing a letter lead from one of these positions to another, in every order, so
the two sessions never drift apart.

Main statements:

- `exists_letter_of_sealForPeer`: sealing keeps a session in step with any other, with one more
  letter on its way;
- `Lockstep.opened`, `Lockstep.lost`: so do reading the next letter and losing it;
- `Lockstep.opens`: the next letter is opened to its plaintext.
-/

namespace EndToEnd.Session

variable {d : Delivery} {S : Suite} {a b x y after : Session} {toA toB toX toY ls : List Letter}
  {l : Letter} {config : Config} {now : UInt64} {env : Environment} {plaintext bytes : Bytes}

/-! ## Positions -/

/-- One session sends on a chain that the other receives on, with letters on their way. -/
def Stream (d : Delivery) (S : Suite) (sender receiver : Session) (ls : List Letter) : Prop :=
  ∃ pair chain, Sends S sender pair chain ∧ Receives S receiver pair.publicKey chain ∧
    InTransit d S pair.publicKey chain receiver.receiveIndex.toNat sender.sendIndex.toNat ls

/-- Letters still on their way to a session, on the chain that it receives on. -/
def Leftover (d : Delivery) (S : Suite) (receiver : Session) (ls : List Letter) : Prop :=
  ls = [] ∨ ∃ ratchetKey chain high, Receives S receiver ratchetKey chain ∧
    InTransit d S ratchetKey chain receiver.receiveIndex.toNat high ls

/-- One session sends on a chain that the other does not know yet, but opens by its next step. -/
structure Opened (S : Suite) (sender receiver : Session) (pair : KeyPair) (chain : Key) : Prop where
  sends : Sends S sender pair chain
  unknown : receiver.theirRatchet ≠ some pair.publicKey
  step : ∃ own shared, receiver.ratchet = some own ∧
    own.agree S pair.publicKey.bytes = .ok shared ∧
    RootStep.next S receiver.root shared = ⟨sender.root, chain⟩

/-- Both sessions have taken the same steps, and the first owns the newest chain. -/
structure Level (d : Delivery) (S : Suite) (x y : Session) (toY toX : List Letter) : Prop where
  root : x.root = y.root
  settled : x.stepPending = false
  newest : Stream d S x y toY
  /-- The second has not sent yet, or owes a step and has letters on its way from before. -/
  older : (y.ratchet = none ∧ y.sendChain = none ∧ x.theirRatchet = none ∧ toX = []) ∨
    (y.stepPending = true ∧ Stream d S y x toX)

/-- The first session has taken a step that the second has not read yet. -/
structure Ahead (d : Delivery) (S : Suite) (x y : Session) (toY toX : List Letter) : Prop where
  settled : x.stepPending = false
  settledToo : y.stepPending = false
  older : Stream d S y x toX
  newest : ∃ pair chain old new, toY = old ++ new ∧ Opened S x y pair chain ∧ Leftover d S y old ∧
    InTransit d S pair.publicKey chain 0 x.sendIndex.toNat new ∧ ∀ l ∈ new, l.isHandshake = false

/-- Two sessions are in step, with letters on their way in both directions. -/
inductive Lockstep (d : Delivery) (S : Suite) (a b : Session) (toB toA : List Letter) : Prop
  | level (h : Level d S a b toB toA)
  | levelOther (h : Level d S b a toA toB)
  | ahead (h : Ahead d S a b toB toA)
  | aheadOther (h : Ahead d S b a toA toB)

/-- It does not matter which side is named first. -/
theorem Lockstep.symm (h : Lockstep d S a b toB toA) : Lockstep d S b a toA toB := by
  cases h with
  | level h => exact .levelOther h
  | levelOther h => exact .level h
  | ahead h => exact .aheadOther h
  | aheadOther h => exact .ahead h

/-- The sides of a handshake are in step before anything is sent. -/
theorem Lockstep.start {secret : Bytes} {identity ephemeral ratchet : KeyPair}
    {theirOneTime : Key} (hb : responder S secret ratchet.publicKey.bytes = .ok b) :
    Lockstep d S (initiator S secret identity ephemeral theirOneTime ratchet) b [] [] := by
  obtain ⟨their, htheir, hb⟩ := bind_eq_ok.mp hb
  obtain rfl := Octets.ext (Key.parse_eq_ok.mp htheir)
  obtain rfl := Except.ok.inj hb
  refine .level ⟨rfl, rfl, ?_, .inl ⟨rfl, rfl, rfl, rfl⟩⟩
  exact ⟨ratchet, (RootStep.ofSecret S secret).chain, ⟨rfl, rfl⟩, ⟨rfl, rfl⟩, .refl d 0⟩

/-! ## Losing a letter -/

/-- A letter of a stream may be lost. -/
theorem Stream.lost (h : Stream .lossy S x y (l :: ls)) : Stream .lossy S x y ls := by
  obtain ⟨pair, chain, hsends, hreceives, htransit⟩ := h
  exact ⟨pair, chain, hsends, hreceives, htransit.tail⟩

/-- A letter that is left over may be lost. -/
theorem Leftover.lost (h : Leftover .lossy S y (l :: ls)) : Leftover .lossy S y ls := by
  rcases h with h | ⟨ratchetKey, chain, high, hreceives, htransit⟩
  · exact nomatch h
  · exact .inr ⟨ratchetKey, chain, high, hreceives, htransit.tail⟩

/-- Two sessions stay in step when the letter that arrives next is lost. -/
theorem Lockstep.lost (h : Lockstep .lossy S a b (l :: toB) toA) :
    Lockstep .lossy S a b toB toA := by
  cases h with
  | level h => exact .level { h with newest := h.newest.lost }
  | levelOther h =>
    refine .levelOther { h with older := ?_ }
    rcases h.older with ⟨-, -, -, hnil⟩ | ⟨hpending, hstream⟩
    · exact nomatch hnil
    · exact .inr ⟨hpending, hstream.lost⟩
  | ahead h =>
    obtain ⟨pair, chain, old, new, hletters, hopened, hold, hnew, hplain⟩ := h.newest
    refine .ahead { h with newest := ?_ }
    cases old with
    | cons first old =>
      obtain ⟨rfl, rfl⟩ := List.cons.inj hletters
      exact ⟨pair, chain, old, new, rfl, hopened, hold.lost, hnew, hplain⟩
    | nil =>
      obtain rfl : l :: toB = new := hletters
      exact ⟨pair, chain, [], toB, rfl, hopened, .inl rfl, hnew.tail,
        fun l hl => hplain l (List.mem_cons_of_mem _ hl)⟩
  | aheadOther h => exact .aheadOther { h with older := h.older.lost }

/-- Which keys of letters passed over are kept has no part in whether the sessions are in step. -/
theorem Lockstep.skipped (h : Lockstep d S a b toB toA) (kept : List SkippedKey) :
    Lockstep d S a { b with skipped := kept } toB toA := by
  have hreceives {ratchetKey chain : Key} (h : Receives S b ratchetKey chain) :
      Receives S { b with skipped := kept } ratchetKey chain := ⟨h.1, h.2⟩
  have hsends {pair : KeyPair} {chain : Key} (h : Sends S b pair chain) :
      Sends S { b with skipped := kept } pair chain := ⟨h.1, h.2⟩
  have hin {s : Session} {ls : List Letter} (h : Stream d S s b ls) :
      Stream d S s { b with skipped := kept } ls := by
    obtain ⟨pair, chain, hs, hr, htransit⟩ := h
    exact ⟨pair, chain, hs, hreceives hr, htransit⟩
  have hout {s : Session} {ls : List Letter} (h : Stream d S b s ls) :
      Stream d S { b with skipped := kept } s ls := by
    obtain ⟨pair, chain, hs, hr, htransit⟩ := h
    exact ⟨pair, chain, hsends hs, hr, htransit⟩
  cases h with
  | level h => exact .level ⟨h.root, h.settled, hin h.newest, h.older.imp_right (.imp_right hout)⟩
  | levelOther h =>
    exact .levelOther ⟨h.root, h.settled, hout h.newest, h.older.imp_right (.imp_right hin)⟩
  | ahead h =>
    obtain ⟨pair, chain, old, new, hletters, hopened, hold, hnew, hplain⟩ := h.newest
    refine .ahead ⟨h.settled, h.settledToo, hout h.older, pair, chain, old, new, hletters,
      ⟨hopened.sends, hopened.unknown, hopened.step⟩, ?_, hnew, hplain⟩
    refine hold.imp_right ?_
    rintro ⟨ratchetKey, chain, high, hr, htransit⟩
    exact ⟨ratchetKey, chain, high, hreceives hr, htransit⟩
  | aheadOther h =>
    obtain ⟨pair, chain, old, new, hletters, hopened, hold, hnew, hplain⟩ := h.newest
    exact .aheadOther ⟨h.settled, h.settledToo, hin h.older, pair, chain, old, new, hletters,
      ⟨hsends hopened.sends, hopened.unknown, hopened.step⟩, hold, hnew, hplain⟩

/-! ## Reading a letter -/

/-- The session expects a letter on a chain, which it knows already or is led to by a step. -/
structure Expects (d : Delivery) (S : Suite) (s : Session) (l : Letter) (ratchetKey chain : Key)
    (mid : Session) : Prop where
  isSealed : l.IsSealed S ratchetKey chain
  reached : s.reached S ratchetKey.bytes l.isHandshake = .ok mid
  receives : Receives S mid ratchetKey chain
  follows : d.Follows mid.receiveIndex.toNat l.index.toNat
  known_or_new : mid = s ∧ s.theirRatchet = some ratchetKey ∨
    s.theirRatchet ≠ some ratchetKey ∧ mid.receiveIndex = 0

/-- A letter of a chain that is known is expected on it as it is. -/
theorem Expects.known {s : Session} {ratchetKey chain : Key} (hl : l.IsSealed S ratchetKey chain)
    (h : Receives S s ratchetKey chain)
    (hfollows : d.Follows s.receiveIndex.toNat l.index.toNat) :
    Expects d S s l ratchetKey chain s :=
  ⟨hl, reached_eq_ok.mpr (.inl ⟨.inr h.theirRatchet, rfl⟩), h, hfollows,
    .inl ⟨rfl, h.theirRatchet⟩⟩

/-- The first letter of a chain that the receiver does not know leads it to the step that its sender
has taken. -/
theorem Expects.new {pair : KeyPair} {chain : Key} (h : Opened S a b pair chain)
    (hl : l.IsSealed S pair.publicKey chain) (hfollows : d.Follows 0 l.index.toNat)
    (hno : l.isHandshake = false) :
    ∃ shared, Expects d S b l pair.publicKey chain (b.steppedToReceive S pair.publicKey shared) ∧
      (b.steppedToReceive S pair.publicKey shared).root = a.root := by
  obtain ⟨own, shared, hown, hshared, hstep⟩ := h.step
  refine ⟨shared, ⟨hl, ?_, ⟨rfl, ?_⟩, hfollows, .inr ⟨h.unknown, rfl⟩⟩, ?_⟩
  · exact reached_eq_ok.mpr (.inr ⟨hno, h.unknown, own, shared, hown, hshared, rfl⟩)
  · show some (RootStep.next S b.root shared).chain = some chain
    rw [hstep]
  · show (RootStep.next S b.root shared).root = a.root
    rw [hstep]

/-- A stream goes on behind its first letter, once that is accepted. -/
theorem Stream.head (h : Stream d S a b (l :: ls)) :
    ∃ ratchetKey chain, Expects d S b l ratchetKey chain b ∧ ∀ key next kept,
      Receives S (b.advanced S key next kept) ratchetKey chain →
      next.toNat = l.index.toNat + 1 → Stream d S a (b.advanced S key next kept) ls := by
  obtain ⟨pair, chain, hsends, hreceives, hl, hle, htransit⟩ := h
  refine ⟨pair.publicKey, chain, .known hl hreceives hle, ?_⟩
  intro key next kept hafter hnext
  refine ⟨pair, chain, hsends, hafter, ?_⟩
  show InTransit d S _ _ next.toNat _ _
  rw [hnext]
  exact htransit

/-- Letters left on their way to a session go on behind the first one, once that is accepted. -/
theorem Leftover.head (h : Leftover d S b (l :: ls)) :
    ∃ ratchetKey chain, Expects d S b l ratchetKey chain b ∧ ∀ key next kept,
      Receives S (b.advanced S key next kept) ratchetKey chain →
      next.toNat = l.index.toNat + 1 → Leftover d S (b.advanced S key next kept) ls := by
  rcases h with hnil | ⟨ratchetKey, chain, high, hreceives, hl, hle, htransit⟩
  · exact nomatch hnil
  refine ⟨ratchetKey, chain, .known hl hreceives hle, ?_⟩
  intro key next kept hafter hnext
  refine .inr ⟨ratchetKey, chain, high, hafter, ?_⟩
  show InTransit d S _ _ next.toNat _ _
  rw [hnext]
  exact htransit

/-- Receiving has no part in a stream that the session sends. -/
theorem Stream.advanced (h : Stream d S b a ls) (key : Key) (next : UInt32)
    (kept : List SkippedKey) : Stream d S (b.advanced S key next kept) a ls := by
  obtain ⟨pair, chain, hsends, hreceives, htransit⟩ := h
  exact ⟨pair, chain, ⟨hsends.ratchet, hsends.sendChain⟩, hreceives, htransit⟩

/-- The next letter of a session is one it expects, and the sessions stay in step when it is
accepted. -/
theorem Lockstep.head (h : Lockstep d S a b (l :: toB) toA) :
    ∃ ratchetKey chain mid, Expects d S b l ratchetKey chain mid ∧ ∀ key next kept,
      Receives S (mid.advanced S key next kept) ratchetKey chain →
      next.toNat = l.index.toNat + 1 → Lockstep d S a (mid.advanced S key next kept) toB toA := by
  cases h with
  | level h =>
    obtain ⟨ratchetKey, chain, hexpects, hstream⟩ := h.newest.head
    refine ⟨ratchetKey, chain, b, hexpects, fun key next kept hafter hnext => ?_⟩
    exact .level ⟨h.root, h.settled, hstream key next kept hafter hnext,
      h.older.imp_right (.imp_right (·.advanced key next kept))⟩
  | levelOther h =>
    rcases h.older with ⟨-, -, -, hnil⟩ | ⟨hpending, holder⟩
    · exact nomatch hnil
    obtain ⟨ratchetKey, chain, hexpects, hstream⟩ := holder.head
    refine ⟨ratchetKey, chain, b, hexpects, fun key next kept hafter hnext => ?_⟩
    exact .levelOther ⟨h.root, h.settled, h.newest.advanced key next kept,
      .inr ⟨hpending, hstream key next kept hafter hnext⟩⟩
  | ahead h =>
    obtain ⟨pair, chain, old, new, hletters, hopened, hold, hnew, hplain⟩ := h.newest
    cases old with
    | cons first old =>
      -- a letter of the chain that the sender has left
      obtain ⟨rfl, rfl⟩ := List.cons.inj hletters
      obtain ⟨ratchetKey, left, hexpects, hleft⟩ := hold.head
      refine ⟨ratchetKey, left, b, hexpects, fun key next kept hafter hnext => ?_⟩
      exact .ahead ⟨h.settled, h.settledToo, h.older.advanced key next kept, pair, chain, old, new,
        rfl, ⟨hopened.sends, hopened.unknown, hopened.step⟩, hleft key next kept hafter hnext, hnew,
        hplain⟩
    | nil =>
      -- the first letter of the new chain: the receiver catches up
      obtain rfl : l :: toB = new := hletters
      obtain ⟨hl, hfollows, htransit⟩ := hnew
      obtain ⟨shared, hexpects, hroot⟩ :=
        Expects.new hopened hl hfollows (hplain l List.mem_cons_self)
      refine ⟨pair.publicKey, chain, _, hexpects, fun key next kept hafter hnext => ?_⟩
      obtain ⟨own, older, hown, hother, hback⟩ := h.older
      refine .level ⟨hroot.symm, h.settled, ⟨pair, chain, hopened.sends, hafter, ?_⟩,
        .inr ⟨rfl, own, older, ⟨hown.ratchet, hown.sendChain⟩, hother, hback⟩⟩
      show InTransit d S _ _ next.toNat _ _
      rw [hnext]
      exact htransit
  | aheadOther h =>
    obtain ⟨ratchetKey, chain, hexpects, hstream⟩ := h.older.head
    refine ⟨ratchetKey, chain, b, hexpects, fun key next kept hafter hnext => ?_⟩
    obtain ⟨own, newest, old, new, hletters, hopened, hrest⟩ := h.newest
    exact .aheadOther ⟨h.settled, h.settledToo, hstream key next kept hafter hnext, own, newest, old,
      new, hletters, ⟨⟨hopened.sends.ratchet, hopened.sends.sendChain⟩, hopened.unknown,
        hopened.step⟩, hrest⟩

/-- Where no letter is lost, opening the one that is expected keeps no key. -/
theorem Expects.opened_complete {s mid : Session} {ratchetKey chain : Key}
    (h : Expects .complete S s l ratchetKey chain mid) (hkept : s.skipped = [])
    (hopen : s.openMessage S config now l.payload l.isHandshake = .ok (plaintext, after)) :
    ∃ key next, after = mid.advanced S key next [] ∧ Receives S after ratchetKey chain ∧
      next.toNat = l.index.toNat + 1 := by
  rcases open_letter_cases h.isSealed hopen with
    ⟨hsome, -⟩ | ⟨mid', first, next, kept, hmid', hfirst, hle, hnext, hsublist, rfl⟩
  · exact absurd hkept hsome
  · obtain rfl := Except.ok.inj (h.reached.symm.trans hmid')
    have hindex : mid.receiveIndex.toNat = l.index.toNat := h.follows
    rw [hkept, Session.ahead, hindex, Nat.sub_self] at hsublist
    obtain rfl := List.sublist_nil.mp hsublist
    exact ⟨_, next, rfl, h.receives.advanced hfirst hle hnext [], nextIndex_eq_ok.mp hnext⟩

/-- Where no letter is lost, the one that is expected is opened to its plaintext. -/
theorem Expects.opens_complete {s mid : Session} {ratchetKey chain : Key}
    (hcipher : S.CipherUndoes) (h : Expects .complete S s l ratchetKey chain mid)
    (hkept : s.skipped = []) :
    ∃ after, s.openMessage S config now l.payload l.isHandshake = .ok (l.plaintext, after) := by
  have hindex : mid.receiveIndex.toNat = l.index.toNat := h.follows
  have hahead : mid.ahead l.index = 0 := by rw [Session.ahead, hindex, Nat.sub_self]
  exact h.receives.open_letter hcipher h.isSealed h.reached h.follows.le
    (by rw [hahead]; exact Nat.zero_le _) (.of_skipped_eq_nil hkept)

/-- Sessions stay in step when the next letter is opened. Where no letter is lost, no key is ever
kept. -/
theorem Lockstep.opened (h : Lockstep d S a b (l :: toB) toA)
    (hkept : d = .complete → b.skipped = [])
    (hopen : b.openMessage S config now l.payload l.isHandshake = .ok (plaintext, after)) :
    Lockstep d S a after toB toA ∧ (d = .complete → after.skipped = []) := by
  obtain ⟨ratchetKey, chain, mid, hexpects, hstep⟩ := h.head
  cases d with
  | complete =>
    obtain ⟨key, next, rfl, hafter, hnext⟩ := hexpects.opened_complete (hkept rfl) hopen
    exact ⟨hstep key next [] hafter hnext, fun _ => rfl⟩
  | lossy =>
    refine ⟨?_, nofun⟩
    rcases open_letter_cases hexpects.isSealed hopen with
      ⟨-, kept, rfl⟩ | ⟨mid', first, next, kept, hmid', hfirst, hle, hnext, -, rfl⟩
    · exact h.lost.skipped kept
    · obtain rfl := Except.ok.inj (hexpects.reached.symm.trans hmid')
      exact hstep _ next kept (hexpects.receives.advanced hfirst hle hnext kept)
        (nextIndex_eq_ok.mp hnext)

/-- How many positions a message is ahead of what was accepted on its chain: of none, if the chain
is new. -/
def distance (s : Session) (m : Wire.RatchetMessage) : Nat :=
  m.chainIndex.toNat - if s.isNewRatchet m.ratchetKey then 0 else s.receiveIndex.toNat

/-- A payload is at most as far ahead as a configuration allows. -/
def WithinReach (config : Config) (s : Session) (payload : Bytes) : Prop :=
  ∀ body mac m, Wire.splitMac payload = .ok (body, mac) →
    Wire.RatchetMessage.decode body = .ok m → s.distance m ≤ config.maxSkip

/-- The ratchet message of a payload, if it has one. -/
def ratchetMessage? (payload : Bytes) : Option Wire.RatchetMessage := do
  let (body, _) ← (Wire.splitMac payload).toOption
  (Wire.RatchetMessage.decode body).toOption

/-- The message of a payload is what is read in front of its authenticator. -/
theorem ratchetMessage?_eq_some {payload body : Bytes} {mac : Mac} {m : Wire.RatchetMessage}
    (hsplit : Wire.splitMac payload = .ok (body, mac))
    (hdecode : Wire.RatchetMessage.decode body = .ok m) : ratchetMessage? payload = some m := by
  rw [ratchetMessage?, hsplit]
  show (Wire.RatchetMessage.decode body).toOption = some m
  rw [hdecode]
  rfl

/-- A payload is within reach if the message in it is. -/
theorem withinReach_iff {s : Session} {payload : Bytes} :
    WithinReach config s payload ↔ ∀ m ∈ ratchetMessage? payload, s.distance m ≤ config.maxSkip := by
  unfold WithinReach ratchetMessage?
  cases hsplit : Wire.splitMac payload with
  | error cause => exact ⟨fun _ _ h => (nomatch h), fun _ _ _ _ h => (nomatch h)⟩
  | ok parts =>
    obtain ⟨body, mac⟩ := parts
    show _ ↔ ∀ m ∈ (Wire.RatchetMessage.decode body).toOption, _
    constructor
    · intro h m hm
      cases hdecode : Wire.RatchetMessage.decode body with
      | error cause => rw [hdecode] at hm; exact nomatch hm
      | ok read =>
        rw [hdecode] at hm
        obtain rfl := Option.some.inj hm
        exact h body mac read rfl hdecode
    · intro h body' mac' m hparts hdecode
      obtain ⟨rfl, rfl⟩ := Prod.mk.inj (Except.ok.inj hparts)
      exact h m (by rw [hdecode]; rfl)

instance {s : Session} {payload : Bytes} : Decidable (WithinReach config s payload) :=
  decidable_of_iff' _ withinReach_iff

/-- The next letter is opened to its plaintext, if it is not too far ahead and no other letter's
skipped key opens it. -/
theorem Lockstep.opens (hcipher : S.CipherUndoes) (h : Lockstep d S a b (l :: toB) toA)
    (hreach : WithinReach config b l.payload) (hown : Unmistaken S b l.plaintext l.payload) :
    ∃ after, b.openMessage S config now l.payload l.isHandshake = .ok (l.plaintext, after) := by
  obtain ⟨ratchetKey, chain, mid, hexpects, -⟩ := h.head
  obtain ⟨body, mac, hsplit, hdecode, -⟩ := hexpects.isSealed.parts
  have hahead : mid.ahead l.index = b.distance (l.message S ratchetKey) := by
    have hnew : b.isNewRatchet ratchetKey.bytes = true ↔ b.theirRatchet ≠ some ratchetKey :=
      isNewRatchet_bytes
    show l.index.toNat - mid.receiveIndex.toNat =
      l.index.toNat - if b.isNewRatchet ratchetKey.bytes then 0 else b.receiveIndex.toNat
    rcases hexpects.known_or_new with ⟨rfl, hknown⟩ | ⟨hother, hzero⟩
    · rw [if_neg fun h => hnew.mp h hknown]
    · rw [if_pos (hnew.mpr hother), hzero]
      rfl
  have hskip : mid.ahead l.index ≤ config.maxSkip := by
    rw [hahead]
    exact hreach body mac _ hsplit hdecode
  exact hexpects.receives.open_letter hcipher hexpects.isSealed hexpects.reached
    hexpects.follows.le hskip hown

/-- Where no letter is lost, the next letter is opened to its plaintext. -/
theorem Lockstep.opens_complete (hcipher : S.CipherUndoes)
    (h : Lockstep .complete S a b (l :: toB) toA) (hkept : b.skipped = []) :
    ∃ after, b.openMessage S config now l.payload l.isHandshake = .ok (l.plaintext, after) := by
  obtain ⟨ratchetKey, chain, mid, hexpects, -⟩ := h.head
  exact hexpects.opens_complete hcipher hkept

/-- A session that has not sent is one that the other has read nothing of. -/
theorem Lockstep.unanswered (h : Lockstep d S a b toB toA) (hratchet : b.ratchet = none) :
    toA = [] ∧ a.theirRatchet = none := by
  have hsends {pair : KeyPair} {chain : Key} (hsends : Sends S b pair chain) : False :=
    nomatch hratchet.symm.trans hsends.ratchet
  cases h with
  | level h =>
    rcases h.older with ⟨-, -, hnone, hnil⟩ | ⟨-, pair, chain, hb, -⟩
    · exact ⟨hnil, hnone⟩
    · exact (hsends hb).elim
  | levelOther h =>
    obtain ⟨pair, chain, hb, -⟩ := h.newest
    exact (hsends hb).elim
  | ahead h =>
    obtain ⟨pair, chain, hb, -⟩ := h.older
    exact (hsends hb).elim
  | aheadOther h =>
    obtain ⟨pair, chain, old, new, -, hopened, -⟩ := h.newest
    exact (hsends hopened.sends).elim

/-! ## Sending a letter -/

/-- A session that sends on a chain and owes no step takes none. -/
theorem Sends.sendStepDue {pair : KeyPair} {chain : Key} (h : Sends S a pair chain)
    (hsettled : a.stepPending = false) : a.sendStepDue = none := by
  rw [Session.sendStepDue, hsettled, h.sendChain]
  rfl

/-- A step is due only to a session that is level with the owner of the newest chain. -/
theorem Lockstep.level_of_due (h : Lockstep d S a b toB toA) {their : Key}
    (hdue : a.sendStepDue = some their) : Level d S b a toA toB := by
  have settled {pair : KeyPair} {chain : Key} (hsends : Sends S a pair chain)
      (hsettled : a.stepPending = false) : Level d S b a toA toB := by
    rw [hsends.sendStepDue hsettled] at hdue
    exact nomatch hdue
  cases h with
  | level h =>
    obtain ⟨pair, chain, hsends, -⟩ := h.newest
    exact settled hsends h.settled
  | levelOther h => exact h
  | ahead h =>
    obtain ⟨pair, chain, old, new, -, hopened, -⟩ := h.newest
    exact settled hopened.sends h.settled
  | aheadOther h =>
    obtain ⟨pair, chain, hsends, -⟩ := h.older
    exact settled hsends h.settledToo

/-- A sending step that is due puts its session ahead of the other. -/
theorem Level.stepped (h : Level d S b a toA toB) {their shared : Key} {fresh : KeyPair}
    (hdue : a.sendStepDue = some their) (hshared : fresh.agree S their.bytes = .ok shared)
    (hfresh : ∀ old, a.ratchet = some old → old.publicKey ≠ fresh.publicKey)
    (hcommute : ∀ other, b.ratchet = some other →
      other.agree S fresh.publicKey.bytes = fresh.agree S other.publicKey.bytes) :
    Ahead d S (a.steppedToSend S fresh shared) b toB toA := by
  obtain ⟨pair, chain, hsends, hreceives, htransit⟩ := h.newest
  obtain rfl : pair.publicKey = their := by
    unfold sendStepDue at hdue
    split at hdue
    · exact Option.some.inj (hreceives.theirRatchet.symm.trans hdue)
    · exact nomatch hdue
  have hopened : Opened S (a.steppedToSend S fresh shared) b fresh
      (RootStep.next S a.root shared).chain := by
    refine ⟨⟨rfl, rfl⟩, ?_, pair, shared, hsends.ratchet, ?_, ?_⟩
    · rcases h.older with ⟨-, -, hnone, -⟩ | ⟨-, own, older, hown, hother, -⟩
      · rw [hnone]
        exact nofun
      · rw [hother.theirRatchet]
        exact fun heq => hfresh own hown.ratchet (Option.some.inj heq)
    · exact (hcommute pair hsends.ratchet).trans hshared
    · rw [h.root]
      rfl
  refine ⟨rfl, h.settled, ⟨pair, chain, hsends, ⟨hreceives.1, hreceives.2⟩, htransit⟩, fresh, _,
    toB, [], (List.append_nil _).symm, hopened, ?_, .refl d 0, nofun⟩
  rcases h.older with ⟨-, -, -, hnil⟩ | ⟨-, own, older, -, hother, hletters⟩
  · exact .inl hnil
  · exact .inr ⟨_, _, _, hother, hletters⟩

/-- A stream has one more letter on its way when its sender seals one. -/
theorem Stream.sealed (h : Stream d S a b ls) {key : Key} {payload : Bytes}
    (hkey : a.sendChain.map (messageKey S) = some key)
    (hsealed : a.sealNext S plaintext = .ok (payload, after)) (isHandshake : Bool) :
    Stream d S after b (ls ++ [⟨a.sendIndex, isHandshake, key, plaintext, payload⟩]) := by
  obtain ⟨pair, chain, hsends, hreceives, htransit⟩ := h
  obtain ⟨hl, hafter, hindex, -⟩ := hsends.letter hkey hsealed isHandshake
  refine ⟨pair, chain, hafter, hreceives, ?_⟩
  rw [hindex]
  exact htransit.concat hl rfl

/-- Sealing has no part in a stream that the session receives. -/
theorem Stream.received (h : Stream d S b a ls) {sendChain : Option Key} {sendIndex : UInt32} :
    Stream d S b { a with sendChain, sendIndex } ls := by
  obtain ⟨pair, chain, hsends, hreceives, htransit⟩ := h
  exact ⟨pair, chain, hsends, ⟨hreceives.1, hreceives.2⟩, htransit⟩

/-- Two sessions stay in step when one to which no step is due seals a letter. -/
theorem Lockstep.sealed (h : Lockstep d S a b toB toA) (hready : a.sendStepDue = none) {key : Key}
    {payload : Bytes} (hkey : a.sendChain.map (messageKey S) = some key)
    (hsealed : a.sealNext S plaintext = .ok (payload, after)) :
    Lockstep d S after b (toB ++ [⟨a.sendIndex, !a.isEstablished, key, plaintext, payload⟩]) toA := by
  have hframe {pair : KeyPair} {chain : Key} (hsends : Sends S a pair chain) :=
    (hsends.letter hkey hsealed (!a.isEstablished)).2.2.2
  cases h with
  | level h =>
    have hstream := h.newest.sealed hkey hsealed (!a.isEstablished)
    obtain ⟨pair, chain, hsends, -⟩ := h.newest
    rw [hframe hsends] at hstream ⊢
    exact .level ⟨h.root, h.settled, hstream, h.older.imp_right (.imp_right (·.received))⟩
  | levelOther h =>
    obtain ⟨pair, chain, -, hreceives, -⟩ := h.newest
    -- the other owns the newest chain, so a step is due before anything is sealed
    have hdue : a.sendStepDue = some pair.publicKey := by
      rw [sendStepDue, hreceives.theirRatchet]
      rcases h.older with ⟨-, hnone, -⟩ | ⟨hpending, -⟩
      · rw [hnone, Option.isNone_none, Bool.or_true, if_pos rfl]
      · rw [hpending, Bool.true_or, if_pos rfl]
    cases hready.symm.trans hdue
  | ahead h =>
    obtain ⟨pair, chain, old, new, rfl, hopened, hold, hnew, hplain⟩ := h.newest
    obtain ⟨hl, hafter, hindex, hshape⟩ := hopened.sends.letter hkey hsealed (!a.isEstablished)
    have hest : a.isEstablished = true := by
      obtain ⟨own, older, -, hreceives, -⟩ := h.older
      rw [isEstablished, hreceives.theirRatchet, Option.isSome_some]
    have hroot : after.root = a.root := by rw [hshape]
    have hletters : InTransit d S pair.publicKey chain 0 after.sendIndex.toNat
        (new ++ [⟨a.sendIndex, !a.isEstablished, key, plaintext, payload⟩]) := by
      rw [hindex]
      exact hnew.concat hl rfl
    refine .ahead ⟨?_, h.settledToo, ?_, pair, chain, old, _, List.append_assoc _ _ _,
      ⟨hafter, hopened.unknown, ?_⟩, hold, hletters, ?_⟩
    · rw [hshape]
      exact h.settled
    · rw [hshape]
      exact h.older.received
    · rw [hroot]
      exact hopened.step
    · intro l hl
      rcases List.mem_append.mp hl with hl | hl
      · exact hplain l hl
      · rw [List.mem_singleton.mp hl, hest]
        rfl
  | aheadOther h =>
    have hstream := h.older.sealed hkey hsealed (!a.isEstablished)
    obtain ⟨pair, chain, hsends, -⟩ := h.older
    obtain ⟨own, newest, old, new, hletters, hopened, hold, hnew, hplain⟩ := h.newest
    rw [hframe hsends] at hstream ⊢
    refine .aheadOther ⟨h.settled, h.settledToo, hstream, own, newest, old, new, hletters,
      ⟨hopened.sends, hopened.unknown, hopened.step⟩, ?_, hnew, hplain⟩
    refine hold.imp_right ?_
    rintro ⟨ratchetKey, first, high, hr, htransit⟩
    exact ⟨ratchetKey, first, high, ⟨hr.1, hr.2⟩, htransit⟩

/-- Sealing makes a letter, on the chain that the session sends on, behind those on their way. The
session stays in step with any other, as long as it takes no step to the ratchet key that it has, and
agrees with the other on every key. -/
theorem exists_letter_of_sealForPeer
    (hsealed : (a.sealForPeer S plaintext env).1 = .ok (bytes, after)) :
    ∃ l : Letter, l.isHandshake = !a.isEstablished ∧ l.plaintext = plaintext ∧
      a.Carries l.payload bytes ∧
      (∀ pair chain, a.sendStepDue = none → Sends S a pair chain →
        l.IsSealed S pair.publicKey chain ∧ Sends S after pair chain) ∧
      (∀ (d : Delivery) (b : Session) (ls : List Letter), a.sendStepDue = none →
        Stream d S a b ls → Stream d S after b (ls ++ [l])) ∧
      ∀ (d : Delivery) (b : Session) (toB toA : List Letter), Lockstep d S a b toB toA →
        (∀ old new, a.sendStepDue.isSome → a.ratchet = some old → after.ratchet = some new →
          old.publicKey ≠ new.publicKey) →
        (∀ own other, after.ratchet = some own → b.ratchet = some other →
          other.agree S own.publicKey.bytes = own.agree S other.publicKey.bytes) →
        Lockstep d S after b (toB ++ [l]) toA := by
  obtain ⟨mid, payload, hmid, hnext, hcarries⟩ := sealForPeer_eq_ok.mp hsealed
  obtain ⟨chain, pair, next, hchain, hpair, -, -, hafter⟩ := sealNext_eq_ok.mp hnext
  have hkey : mid.sendChain.map (messageKey S) = some (messageKey S chain) := by rw [hchain]; rfl
  have hratchet : after.ratchet = some pair := by rw [hafter]; exact hpair
  rcases readied_eq_ok.mp hmid with ⟨hready, rfl⟩ | ⟨their, shared, hdue, hshared, rfl⟩
  · refine ⟨⟨mid.sendIndex, !mid.isEstablished, messageKey S chain, plaintext, payload⟩, rfl, rfl,
      hcarries, ?_, ?_, ?_⟩
    · intro own first _ hsends
      obtain ⟨hl, hafter', -⟩ := hsends.letter hkey hnext (!mid.isEstablished)
      exact ⟨hl, hafter'⟩
    · intro d b ls _ h
      exact h.sealed hkey hnext _
    · intro d b toB toA h _ _
      exact h.sealed hready hkey hnext
  · -- a step was due: the session is ahead first, and then seals on its new chain
    obtain rfl : (env.drawKeyPair S).1 = pair := Option.some.inj hpair
    refine ⟨⟨0, !a.isEstablished, messageKey S chain, plaintext, payload⟩, rfl, rfl, hcarries,
      ?_, ?_, ?_⟩
    · intro own first hready
      exact nomatch hdue.symm.trans hready
    · intro d b ls hready
      exact nomatch hdue.symm.trans hready
    · intro d b toB toA h hfresh hcommute
      have hahead : Lockstep d S (a.steppedToSend S (env.drawKeyPair S).1 shared) b toB toA :=
        .ahead ((h.level_of_due hdue).stepped hdue hshared
          (fun old hold => hfresh old _ (by rw [hdue]; rfl) hold hratchet)
          (fun other hother => hcommute _ other hratchet hother))
      exact hahead.sealed rfl hkey hnext

end EndToEnd.Session
