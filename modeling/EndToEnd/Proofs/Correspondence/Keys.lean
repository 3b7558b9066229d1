import EndToEnd.Proofs.Correspondence.View

/-!
# The keys of two devices

A handshake is made with a one-time key that the other side holds, as far as its writer knows. The
key is held until the first envelope of the handshake is read, and since no key pair is generated
twice, it is not held any more after that.

Main statements:

- `View.not_holding_started`: a one-time key is used up once;
- `Knows.quiet`: what a side knows of the other's bundle stays what the other holds, as long as
  neither reads;
- `Knows.exists_meeting`: the first envelope names a key that the other side holds;
- `Post.Holds.opensWith_fresh_of_holding`: an envelope that names a key that is held is opened with
  the session that answers its handshake.
-/

namespace EndToEnd

open Correspondence

variable {σ : Type} [Store σ] [LawfulStore σ] {S : Suite} {x x' : Correspondence σ} {v : View}
  {m : Meeting} {side : Side} {p : Post} {rest : List Post} {state : Device.State σ}

namespace Correspondence

/-! ## What is held and counted -/

/-- A side holds the one-time key of a meeting. -/
def View.Holding (v : View) (side : Side) (m : Meeting) : Prop :=
  ∃ own, v.current side = some own ∧ (own.find? m.theirOneTime.bytes).isSome

/-- The key pairs of every bundle are counted among those generated. -/
def View.Counted (v : View) : Prop :=
  ∀ side own, v.current side = some own → own.pairs.Sublist (v.generated side)

/-- The key pairs of the two sides agree, and those of each side are distinct. -/
structure View.Sound (S : Suite) (v : View) : Prop where
  agrees : ∀ p ∈ v.generated .initiator, ∀ q ∈ v.generated .responder, p.AgreesWith S q
  distinct : ∀ side, ((v.generated side).map (·.publicKey)).Nodup

omit [Store σ] [LawfulStore σ] in
/-- The key pairs of either side agree with those of the other. -/
theorem Agrees.peer (h : x.Agrees S) {p q : KeyPair} (hp : p ∈ x.generated side)
    (hq : q ∈ x.generated side.peer) : p.AgreesWith S q := by
  cases side with
  | initiator => exact h p hp q hq
  | responder => exact (h q hq p hp).symm

theorem View.Counted.of_prefix {v' : View} (h : v.Counted) (hcurrent : v'.current = v.current)
    (hgenerated : ∀ side, v.generated side <+: v'.generated side) : v'.Counted := by
  intro side own hown
  rw [hcurrent] at hown
  exact (h side own hown).trans (hgenerated side).sublist

theorem View.Counted.of_eq {v' : View} (h : v.Counted) (hcurrent : v'.current = v.current)
    (hgenerated : v'.generated = v.generated) : v'.Counted :=
  h.of_prefix hcurrent fun _ => hgenerated ▸ List.prefix_rfl

/-! ## Using a one-time key up -/

/-- What a bundle that has used up a key holds: the other keys, and those that are added. -/
theorem exists_addedKeys {own stored : Bundle} {name : Bytes} {target : Nat} {env : Environment}
    (hheld : (own.find? name).isSome)
    (hstored : stored = ((own.erase name).replenish S target env).2.1) :
    ∃ fresh, stored.oneTimeKeys = own.oneTimeKeys.eraseP (·.isNamed name) ++ fresh ∧
      stored.identity = own.identity ∧
      addedKeys (some own) (some stored) = fresh.map (·.pair) := by
  obtain ⟨fresh, hkeys, hidentity, hdrop⟩ := Bundle.replenish_erase hheld S target env
  have hne := Bundle.replenish_erase_ne hheld S target env
  rw [← hstored] at hkeys hidentity hdrop hne
  refine ⟨fresh, hkeys, hidentity, ?_⟩
  rw [addedKeys, if_neg hne, hdrop]

/-- The view after a side has started a session and used up the one-time key. -/
def View.started (v : View) (side : Side) (rest : List Post) (after : Session)
    (own stored : Bundle) : View :=
  { v with
    session := Function.update v.session side (some after)
    current := Function.update v.current side (some stored)
    sent := Function.update (Function.update v.sent side.peer rest) side
      (outdated (replaces (v.session side) (some after)) (v.sent side))
    generated := Function.update v.generated side
      (v.generated side ++ addedKeys (some own) (some stored))
    read := Function.update v.read side (v.read side + 1) }

section Started

variable {own stored : Bundle} {target : Nat} {env : Environment} {after : Session}
  (hcounted : v.Counted) (hown : v.current side = some own)
  (hheld : (own.find? m.theirOneTime.bytes).isSome)
  (hstored : stored = ((own.erase m.theirOneTime.bytes).replenish S target env).2.1)
include hcounted hown hheld hstored

/-- The keys of a bundle that has used one up are counted, once the fresh ones are. -/
theorem View.Counted.started : (v.started side rest after own stored).Counted := by
  intro other b hb
  simp only [View.started, Function.update_apply] at hb ⊢
  by_cases hother : other = side
  · subst hother
    rw [if_pos rfl] at hb ⊢
    obtain rfl := Option.some.inj hb
    obtain ⟨fresh, hkeys, hidentity, hadded⟩ := exists_addedKeys hheld hstored
    have hleft : (own.identity :: (own.oneTimeKeys.eraseP
        (·.isNamed m.theirOneTime.bytes)).map (·.pair)).Sublist (v.generated other) :=
      ((List.eraseP_sublist.map _).cons_cons _).trans (hcounted other own hown)
    rw [hadded, Bundle.pairs, hidentity, hkeys, List.map_append, ← List.cons_append]
    exact hleft.append_right _
  · rw [if_neg hother] at hb ⊢
    exact hcounted other b hb

/-- A one-time key is used up once: no fresh key is the one used up. -/
theorem View.not_holding_started (hsound : (v.started side rest after own stored).Sound S) :
    ¬ (v.started side rest after own stored).Holding side m := by
  rintro ⟨own', hown', hheld'⟩
  obtain rfl : stored = own' := by
    simp only [View.started, Function.update_self] at hown'
    exact Option.some.inj hown'
  obtain ⟨fresh, hkeys, -, hadded⟩ := exists_addedKeys hheld hstored
  have hdistinct := hsound.distinct side
  simp only [View.started, Function.update_self] at hdistinct
  have hpairs : (own.oneTimeKeys.map (·.pair)).Sublist (v.generated side) :=
    (List.sublist_cons_self _ _).trans (hcounted side own hown)
  have hnodup : ((own.oneTimeKeys ++ fresh).map (·.pair.publicKey)).Nodup := by
    rw [hadded] at hdistinct
    refine hdistinct.sublist ?_
    have hall := (hpairs.append_right (fresh.map (·.pair))).map (·.publicKey)
    rw [← List.map_append, List.map_map] at hall
    exact hall
  rw [Bundle.find?_replenish_erase hkeys hnodup hheld] at hheld'
  exact nomatch hheld'

end Started

/-! ## What is known of a bundle -/

/-- What a side knows of the other's bundle, or can learn of it, is what the other holds. -/
structure Knows (x : Correspondence σ) (side : Side) : Prop where
  known : ∀ stored, (x.records side).bundle (x.id side.peer) = some stored →
    ∃ own, (x.records side.peer).current = some own ∧ own.Offers stored
  published : ∀ p ∈ x.published side.peer, ∀ stored, Bundle.ofPublished p = .ok stored →
    ∃ own, (x.records side.peer).current = some own ∧ own.Offers stored

namespace Knows

/-- The same bundles, held and known and published. -/
theorem of_eq (h : x.Knows side) (hid : x'.id side.peer = x.id side.peer)
    (hcurrent : (x'.records side.peer).current = (x.records side.peer).current)
    (hbundle : (x'.records side).bundle = (x.records side).bundle)
    (hpublished : x'.published side.peer = x.published side.peer) : x'.Knows side := by
  refine ⟨?_, ?_⟩
  · rw [hid, hcurrent, hbundle]
    exact h.known
  · rw [hpublished, hcurrent]
    exact h.published

/-- A side knows what the other holds, if that is all that the other has published. -/
theorem of_offers {own stored : Bundle} (hown : (x.records side.peer).current = some own)
    (hstored : (x.records side).bundle (x.id side.peer) = some stored) (hoffers : own.Offers stored)
    (hpublished : x.published side.peer = [own.publish]) : x.Knows side := by
  refine ⟨fun s hs => ?_, fun p hp s hs => ?_⟩
  · obtain rfl := Option.some.inj (hstored.symm.trans hs)
    exact ⟨own, hown, hoffers⟩
  · rw [hpublished] at hp
    obtain rfl := List.mem_singleton.mp hp
    exact ⟨own, hown, Bundle.offers_of_ofPublished hs⟩

/-- A state with the same bundles makes no difference. -/
theorem withState (h : x.Knows side) {other : Side}
    (hcurrent : state.records.current = (x.records other).current)
    (hbundle : state.records.bundle = (x.records other).bundle) :
    (x.withState other state).Knows side := by
  refine h.of_eq id_withState ?_ ?_ rfl
  · rw [records_withState]
    split
    next heq => rw [hcurrent, heq]
    next => rfl
  · rw [records_withState]
    split
    next heq => rw [hbundle, heq]
    next => rfl

/-- Publishing keeps what is known. -/
theorem publishBy (h : x.Knows side) (publisher : Side)
    {publication : Device.Action σ (Option Wire.PublishedBundle)}
    (hwithin : Device.Within Device.SameRecords publication)
    (hbundle : ∀ {p s s'}, publication s = (.ok (some p), s') →
      ∃ own, s.records.current = some own ∧ p = own.publish) :
    (x.publishBy publisher publication).Knows side := by
  obtain ⟨state, hsame, heq | ⟨published, hrun, heq⟩⟩ := publishBy_cases x publisher hwithin
  all_goals
    have hkeeps : (x.withState publisher state).Knows side :=
      h.withState (congrArg Records.current hsame) (congrArg Records.bundle hsame)
    rw [heq]
  · exact hkeeps
  · refine ⟨hkeeps.known, fun p hp stored hstored => ?_⟩
    simp only [Function.update_apply] at hp
    split at hp
    next hpublisher =>
      rcases List.mem_append.mp hp with hp | hp
      · rw [← hpublisher] at hp
        exact hkeeps.published p hp stored hstored
      · obtain rfl := List.mem_singleton.mp hp
        obtain ⟨own, hown, rfl⟩ := hbundle hrun
        refine ⟨own, ?_, Bundle.offers_of_ofPublished hstored⟩
        show ((x.withState publisher state).records side.peer).current = some own
        rw [records_withState, if_pos hpublisher, hsame]
        exact hown
    next => exact hkeeps.published p hp stored hstored

/-- Waiting, publishing and learning keep what is known of the other's bundle what the other holds.
-/
theorem quiet (h : x.Knows side) {e : Event} (hquiet : e.IsQuiet) : (x.step S e).Knows side := by
  cases e with
  | write => exact hquiet.elim
  | read => exact hquiet.elim
  | lose => exact hquiet.elim
  | publish publisher =>
    refine h.publishBy publisher publication_sameRecords fun {p s s'} hrun => ?_
    rw [map_eq_pure_bind] at hrun
    obtain ⟨p', s₁, hpublished, hrun⟩ := Device.bind_run_ok hrun
    obtain rfl := Option.some.inj (Except.ok.inj (Prod.mk.inj hrun).1)
    exact Device.publishedBundle_ok hpublished
  | republish publisher =>
    exact h.publishBy publisher Device.takeUnpublished_sameRecords Device.takeUnpublished_ok
  | learn learner position =>
    rw [step]
    split
    next => exact h
    next published hpublished =>
      rcases Device.learnBundle_cases (x.party learner).device published
        (x.party learner).state with hsame | ⟨bundle, hbundle, hrecords⟩
      · exact h.withState (congrArg Records.current hsame) (congrArg Records.bundle hsame)
      · have hcurrent (other : Side) : ((x.withState learner ((x.party learner).device.learnBundle
            published (x.party learner).state).2).records other).current =
              (x.records other).current := by
          rw [records_withState]
          split
          next heq => rw [hrecords, heq]; rfl
          next => rfl
        refine ⟨fun stored hstored => ?_, ?_⟩
        · rw [hcurrent]
          rw [records_withState, id_withState] at hstored
          split at hstored
          next heq =>
            -- a bundle learned as the other's is one that the other has published
            subst heq
            rw [hrecords] at hstored
            dsimp only at hstored
            rw [Function.update_apply] at hstored
            split at hstored
            next =>
              obtain rfl := Option.some.inj hstored
              exact h.published published (List.mem_of_getElem? hpublished) bundle hbundle
            next => exact h.known stored hstored
          next => exact h.known stored hstored
        · rw [hcurrent]
          exact h.published
  | wait other seconds => exact h.withState rfl rfl

/-- The first envelope to a side starts a handshake with a one-time key that the other holds. -/
theorem exists_meeting (h : x.Knows side) (hnone : x.session side = none)
    (hcounted : x.view.Counted) {plaintext : Bytes} {entry : Wire.Entry} {session after : Session}
    {env : Environment} (hwrote : Wrote S x side plaintext p state entry session env after) :
    ∃ m : Meeting, session = m.initiator S ∧ m.identity ∈ x.generated side ∧
      (∃ own, (x.records side.peer).current = some own ∧ m.MadeWith S own.identity.publicKey) ∧
      x.view.Holding side.peer m ∧ drawnKeys none (some after) = [m.ephemeral, m.ratchet] := by
  rcases hwrote.source with hstored | ⟨-, bundle, k, own, ephemeral, secret, ratchet, hbundle, hk,
    hcurrent, hsecret, rfl⟩
  · exact nomatch hnone.symm.trans hstored
  obtain ⟨theirs, htheirs, hoffers⟩ := h.known bundle hbundle
  obtain ⟨k', hk', hpublic⟩ := hoffers.oneTime k hk
  refine ⟨⟨own.identity, ephemeral, k.pair.publicKey, secret, ratchet⟩, rfl, ?_,
    ⟨theirs, htheirs, ?_⟩, ⟨theirs, htheirs, ?_⟩, ?_⟩
  · exact (hcounted side own hcurrent).subset List.mem_cons_self
  · rw [← hoffers.identity]
    exact hsecret
  · exact Bundle.find?_isSome.mpr ⟨k', hk', Bundle.isNamed_bytes.mpr hpublic⟩
  · have hratchet := Session.sealForPeer_ratchet hwrote.sealed
    show after.ephemeral.toList ++ after.ratchet.toList = _
    rw [hratchet, Session.sealForPeer_frame hwrote.sealed]
    rfl

end Knows

end Correspondence

/-! ## Reading what names a one-time key -/

/-- An envelope that names a one-time key that is held is opened with the session that answers its
handshake, where the keys of the two sides agree. -/
theorem Post.Holds.opensWith_fresh_of_holding {l : Letter} {entry : Wire.Entry} {own : Bundle}
    (h : p.Holds S m (x.id side.peer) (x.id side) l)
    (hentry : p.envelope.entryFor (x.id side) = some entry) (hhandshake : l.isHandshake = true)
    (hholding : x.view.Holding side m) (hown : (x.records side).current = some own)
    (hmade : m.MadeWith S own.identity.publicKey)
    (hidentity : m.identity ∈ x.generated side.peer)
    (hephemeral : m.ephemeral ∈ x.generated side.peer) (hcounted : x.view.Counted)
    (hagrees : x.Agrees S) :
    Wire.HandshakeMessage.decode entry.key = .ok (m.message l.payload) ∧
    ∃ bundle, Device.OpensWith S (x.party side).device (x.records side) p.envelope.sender entry
      ⟨m.responder S, l.payload, some bundle⟩ := by
  obtain ⟨own', hown', hheld⟩ := hholding
  obtain rfl := Option.some.inj (hown'.symm.trans hown)
  obtain ⟨pair, hpair⟩ := Option.isSome_iff_exists.mp hheld
  obtain ⟨hpublic, hmem⟩ := Bundle.find?_eq_some hpair
  have hpairs := (hcounted side own' hown').subset
  have hagreed : Handshake.responderSecret S own'.identity pair m.identity.publicKey.bytes
      m.ephemeral.publicKey.bytes = .ok m.secret := by
    refine hmade.agreed hpublic fun q hq r hr => (hagrees.peer (?_ : r ∈ x.generated side) ?_).symm
    · rcases List.mem_pair.mp hr with rfl | rfl
      · exact hpairs List.mem_cons_self
      · exact hpairs (List.mem_cons_of_mem _ hmem)
    · rcases List.mem_pair.mp hq with rfl | rfl
      · exact hidentity
      · exact hephemeral
  obtain ⟨hdecoded, hopens⟩ := h.opensWith_fresh (d := (x.party side).device)
    (r := x.records side) hentry hhandshake hown hpair hagreed (x.party side).state.env
  exact ⟨hdecoded, _, hopens⟩

end EndToEnd
