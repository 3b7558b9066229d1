import EndToEnd.Proofs.Cbor.RoundTrip
import EndToEnd.Store.Form

/-!
# What is stored is read back

A stored form says where it ends, so a session or a bundle is read back with every one of its
fields, whichever keys it has and whatever bytes follow. The only limit is that the number of keys
in a list fits in its head, as that of every list in memory does.

Main statements:

- `Session.codec_readsBack`, `Bundle.codec_readsBack`: by their fields;
- `stored_readsBack`: sessions and bundles in their stored forms.
-/

namespace EndToEnd

open Cbor (Codec)

/-- A key is read back from storage. -/
theorem Key.codec_readsBack (k : Key) : Key.codec.ReadsBack 1 k :=
  Codec.octets_readsBack (by decide) k

theorem Key.codec_isPresent (k : Key) : Key.codec.IsPresent k :=
  Codec.octets_isPresent (by decide) k

/-- A key that may be missing is read back. -/
theorem Key.option_readsBack (k : Option Key) : Key.codec.option.ReadsBack 1 k :=
  .option fun k _ => ⟨k.codec_readsBack, k.codec_isPresent⟩

/-- A key pair is read back, with its secret half or without. -/
theorem KeyPair.codec_readsBack (p : KeyPair) : KeyPair.codec.ReadsBack 2 p := by
  refine .record ⟨by decide +kernel, by decide +kernel⟩ (by decide) rfl ?_
  exact ⟨p.publicKey.codec_readsBack, Key.option_readsBack _, trivial⟩

theorem KeyPair.option_readsBack (p : Option KeyPair) : KeyPair.codec.option.ReadsBack 2 p :=
  .option fun p _ => ⟨p.codec_readsBack, Codec.record_isPresent (by decide) p⟩

/-- A skipped key is read back with its time. -/
theorem SkippedKey.codec_readsBack (k : SkippedKey) : SkippedKey.codec.ReadsBack 2 k := by
  refine .record ⟨by decide +kernel, by decide +kernel⟩ (by decide) rfl ?_
  exact ⟨(Codec.word64_readsBack _).mono (by decide), k.key.codec_readsBack, trivial⟩

/-- A one-time key is read back with its number. -/
theorem OneTimeKey.codec_readsBack (k : OneTimeKey) : OneTimeKey.codec.ReadsBack 3 k := by
  refine .record ⟨by decide +kernel, by decide +kernel⟩ (by decide) rfl ?_
  exact ⟨(Codec.word32_readsBack _).mono (by decide), k.pair.codec_readsBack, trivial⟩

/-- A session is read back from its stored form. -/
theorem Session.codec_readsBack {s : Session} (hfits : s.skipped.length < UInt64.size) :
    Session.codec.ReadsBack 4 s := by
  refine .record ⟨by decide +kernel, by decide +kernel⟩ (by decide) rfl ?_
  have hkey (k : Option Key) : Key.codec.option.ReadsBack 3 k :=
    (Key.option_readsBack k).mono (by decide)
  have hpair (p : Option KeyPair) : KeyPair.codec.option.ReadsBack 3 p :=
    (KeyPair.option_readsBack p).mono (by decide)
  have hword (n : UInt32) : Codec.word32.ReadsBack 3 n :=
    (Codec.word32_readsBack n).mono (by decide)
  exact ⟨hpair _, hpair _, hkey _, hpair _, hkey _, (s.root.codec_readsBack).mono (by decide),
    hkey _, hword _, hkey _, hword _, (Codec.bool_readsBack _).mono (by decide),
    .list hfits fun k _ => k.codec_readsBack, trivial⟩

/-- A bundle is read back from its stored form. -/
theorem Bundle.codec_readsBack {b : Bundle} (hfits : b.oneTimeKeys.length < UInt64.size) :
    Bundle.codec.ReadsBack 5 b := by
  refine .record ⟨by decide +kernel, by decide +kernel⟩ (by decide) rfl ?_
  exact ⟨(Codec.deviceId_readsBack _).mono (by decide), b.identity.codec_readsBack.mono (by decide),
    .list hfits fun k _ => k.codec_readsBack, (Codec.word32_readsBack _).mono (by decide), trivial⟩

/-- The devices of a peer are read back from their stored form. -/
theorem deviceListCodec_readsBack {known : List DeviceId} (hfits : known.length < UInt64.size) :
    deviceListCodec.ReadsBack 1 known :=
  .list hfits fun d _ => Codec.deviceId_readsBack d

/-- What nests no deeper than a document may be is read back when it is stored. -/
theorem readStored_append {α : Type} {c : Codec α} {depth : Nat} {v : α}
    (h : c.ReadsBack depth v) (hdepth : depth ≤ 256) (more : Bytes) :
    readStored c (c.write v ++ more) = some v := by
  rw [readStored, h (.ofDocument (c.write v ++ more)) more hdepth]
  rfl

/-- What is read back at some depth is read back as a document. -/
theorem readStored_write {α : Type} {c : Codec α} {depth : Nat} {v : α} (h : c.ReadsBack depth v)
    (hdepth : depth ≤ 256) : readStored c (c.write v) = some v := by
  have hread := readStored_append h hdepth []
  rwa [List.append_nil] at hread

/-! ## Sessions and bundles -/

/-- A stored session or bundle is read back as it was, alone and whatever follows it. -/
theorem stored_readsBack :
    (∀ s : Session, s.skipped.length < UInt64.size →
      Session.decode s.encode = some s ∧ ∀ more, Session.decode (s.encode ++ more) = some s) ∧
    (∀ b : Bundle, b.oneTimeKeys.length < UInt64.size →
      Bundle.decode b.encode = some b ∧ ∀ more, Bundle.decode (b.encode ++ more) = some b) := by
  refine ⟨fun s hfits => ?_, fun b hfits => ?_⟩
  · have hback := Session.codec_readsBack hfits
    exact ⟨readStored_write hback (by decide), readStored_append hback (by decide)⟩
  · have hback := Bundle.codec_readsBack hfits
    exact ⟨readStored_write hback (by decide), readStored_append hback (by decide)⟩

/-- A session in which some keys are there and some are not, with a key that is kept. -/
def storedSession : Session :=
  { identity := some ⟨.replicate 32 1, none⟩
    ephemeral := none
    theirOneTime := some (.replicate 32 2)
    ratchet := some ⟨.replicate 32 3, some (.replicate 32 4)⟩
    theirRatchet := none
    root := .replicate 32 5
    sendChain := none
    sendIndex := 0xffffffff
    receiveChain := some (.replicate 32 6)
    receiveIndex := 7
    stepPending := true
    skipped := [⟨0xffffffffffffffff, .replicate 32 8⟩] }

/-- A bundle with the largest device number and one key of each kind. -/
def storedBundle : Bundle :=
  ⟨.ofNat 0xffffffffffffffffffffffffffffffff, ⟨.replicate 32 1, some (.replicate 32 2)⟩,
    [⟨0xffffffff, .replicate 32 3, none⟩, ⟨0, .replicate 32 4, some (.replicate 32 5)⟩], 9⟩

/-- A session and a bundle with the largest values, each alone and with bytes behind it. -/
theorem stored_readsBack_extremes :
    storedSession.skipped.length < UInt64.size ∧
      Session.decode storedSession.encode = some storedSession ∧
      Session.decode (storedSession.encode ++ [0xa0, 0xff]) = some storedSession ∧
      storedBundle.oneTimeKeys.length < UInt64.size ∧
      Bundle.decode storedBundle.encode = some storedBundle ∧
      Bundle.decode (storedBundle.encode ++ [0xa0, 0xff]) = some storedBundle := by
  have hsession : storedSession.skipped.length < UInt64.size := by decide
  have hbundle : storedBundle.oneTimeKeys.length < UInt64.size := by decide
  have hs := stored_readsBack.1 storedSession hsession
  have hb := stored_readsBack.2 storedBundle hbundle
  exact ⟨hsession, hs.1, hs.2 _, hbundle, hb.1, hb.2 _⟩

end EndToEnd
