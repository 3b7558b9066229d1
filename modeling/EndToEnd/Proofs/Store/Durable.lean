import EndToEnd.Proofs.Primitive.Plain
import EndToEnd.Proofs.Store.Form
import EndToEnd.Proofs.Store.Lawful
import EndToEnd.Store.Durable

/-!
# The durable store answers as the store in memory

The durable store has the written forms of what the store in memory has, each under the bytes of its
key. Different keys have different bytes, and every form that is stored is read back, so the two
answer every call alike. Nothing but the contents of the tables counts: the durable store may be
closed and opened again between any two calls, as long as what was written is kept.

Main statements:

- `Matches.answer`: a call is answered alike, and the stores stay alike;
- `refines_memory`: so are all calls in a row.
-/

namespace EndToEnd

open Cbor (Codec)

/-! ## Keys -/

/-- Identifiers are told apart by their bytes. -/
theorem DeviceId.bytes_injective {d d' : DeviceId} (h : d.bytes.bytes = d'.bytes.bytes) :
    d = d' := by
  have hnumber := congrArg Bytes.natBE h
  have hback (d : DeviceId) : Bytes.natBE d.bytes.bytes = d.number :=
    Bytes.natBE_bigEndian d.number_lt
  rw [hback, hback] at hnumber
  exact DeviceId.ext hnumber

namespace Durable

/-- Peers are told apart by the bytes that their devices are stored under. -/
theorem peerKey_injective : Function.Injective peerKey := fun _ _ h => Cbor.ofText_injective h

/-- Devices are told apart by the bytes that their bundles and sessions are stored under. -/
theorem deviceKey_injective : Function.Injective deviceKey := fun _ _ h =>
  DeviceId.bytes_injective h

/-! ## Tables -/

/-- The table has the written form of every value under the bytes of its key, and the values are
read back. -/
structure Mirrors {κ ν : Type} (keyOf : κ → Bytes) (c : Codec ν) (t : Table Bytes Bytes)
    (values : κ → Option ν) : Prop where
  forms : ∀ key, t.get? (keyOf key) = (values key).map c.write
  readsBack : ∀ key v, values key = some v → c.ReadsBack 256 v

section Mirrors

variable {κ ν : Type} {keyOf : κ → Bytes} {c : Codec ν} {t : Table Bytes Bytes}
  {values : κ → Option ν}

theorem Mirrors.empty : Mirrors keyOf c {} fun _ => none := ⟨fun _ => rfl, fun _ _ h => nomatch h⟩

/-- A value is read from the table. -/
theorem Mirrors.read (h : Mirrors keyOf c t values) (key : κ) :
    Durable.read c t (keyOf key) = .ok (values key) := by
  rw [Durable.read, h.forms]
  cases hvalue : values key with
  | none => rfl
  | some v =>
    simp only [Option.map_some, readStored_write (h.readsBack key v hvalue) (Nat.le_refl _)]

/-- A value is put in the table. -/
theorem Mirrors.put [DecidableEq κ] (h : Mirrors keyOf c t values) (hkey : Function.Injective keyOf)
    (key : κ) {v : ν} (hv : c.ReadsBack 256 v) :
    Mirrors keyOf c (t.put (keyOf key) (c.write v)) (Function.update values key (some v)) := by
  refine ⟨fun other => ?_, fun other w hw => ?_⟩
  · simp only [Table.get?_put, Function.update_apply, hkey.eq_iff]
    split
    next => rfl
    next => exact h.forms other
  · rw [Function.update_apply] at hw
    split at hw
    next =>
      obtain rfl := Option.some.inj hw
      exact hv
    next => exact h.readsBack other w hw

/-- Only what the table answers counts. -/
theorem Mirrors.of_get? {t' : Table Bytes Bytes} (h : Mirrors keyOf c t values)
    (hsame : ∀ key, t'.get? key = t.get? key) : Mirrors keyOf c t' values :=
  ⟨fun key => (hsame _).trans (h.forms key), h.readsBack⟩

end Mirrors

/-! ## Stores -/

/-- The tables hold what the records hold, and no peer has more than so many devices. -/
structure Matches (d : Durable) (m : Memory) (count : Nat) : Prop where
  current : Mirrors (fun _ : Unit => currentKey) Bundle.codec d.identity fun _ => m.current
  devices : Mirrors peerKey deviceListCodec d.devices m.devices.get?
  bundles : Mirrors deviceKey Bundle.codec d.bundles m.bundles.get?
  sessions : Mirrors deviceKey Session.codec d.sessions m.sessions.get?
  few : ∀ peer, (m.devicesOf peer).length ≤ count

theorem matches_empty : Matches {} {} 0 :=
  ⟨.empty, .empty, .empty, .empty, fun _ => Nat.le_refl 0⟩

end Durable

/-- What a request has stored can be stored: its lists are no longer than a head can say. -/
def Store.Request.Fits {α : Type} : Store.Request α → Prop
  | .saveCurrent b => b.oneTimeKeys.length < UInt64.size
  | .saveBundle _ b => b.oneTimeKeys.length < UInt64.size
  | .saveSession _ s => s.skipped.length < UInt64.size
  | _ => True

namespace Durable

variable {d d' : Durable} {m : Memory} {count : Nat}

/-- A peer's devices are read of the table as they are listed. -/
theorem Matches.devicesOf (h : Matches d m count) (peer : String) :
    d.devicesOf peer = .ok (m.devicesOf peer) := by
  rw [Durable.devicesOf, h.devices.read]
  rfl

/-- A peer's list grows by one device at most. -/
theorem length_devicesOf_saveDevice (m : Memory) (peer : String) (device : DeviceId)
    (other : String) (hfew : (m.devicesOf other).length ≤ count) :
    ((m.answer (.saveDevice peer device)).2.devicesOf other).length ≤ count + 1 := by
  simp only [Memory.answer, Memory.devicesOf, Table.get?_put]
  split
  next hsame =>
    subst hsame
    show (Memory.addDevice (m.devicesOf other) device).length ≤ count + 1
    unfold Memory.addDevice
    split
    next => exact Nat.le_succ_of_le hfew
    next =>
      rw [List.length_append, List.length_singleton]
      exact Nat.succ_le_succ hfew
  next => exact Nat.le_succ_of_le hfew

/-- A device is added alike: the table is left alone if the device is known already. -/
theorem Matches.saveDevice (h : Matches d m count) (hcount : count + 1 < UInt64.size)
    (peer : String) (device : DeviceId) : ∃ d', d.saveDevice peer device = .ok d' ∧
      Matches d' (m.answer (.saveDevice peer device)).2 (count + 1) := by
  have hfew (other : String) := length_devicesOf_saveDevice m peer device other (h.few other)
  have hdevices : (m.answer (.saveDevice peer device)).2.devices.get? = Function.update
      m.devices.get? peer (some (Memory.addDevice (m.devicesOf peer) device)) :=
    Memory.get?_put_eq_update _ _ _
  rw [Durable.saveDevice, h.devicesOf, ok_bind]
  split
  next hknown =>
    refine ⟨d, rfl, h.current, ?_, h.bundles, h.sessions, hfew⟩
    have hstored : m.devices.get? peer = some (m.devicesOf peer) := by
      unfold Memory.devicesOf at hknown ⊢
      cases hlist : m.devices.get? peer with
      | none =>
        rw [hlist] at hknown
        exact absurd hknown List.not_mem_nil
      | some known => rfl
    rw [hdevices, Memory.addDevice, if_pos hknown, ← hstored, Function.update_eq_self]
    exact h.devices
  next hnew =>
    refine ⟨_, rfl, h.current, ?_, h.bundles, h.sessions, hfew⟩
    have hlength : (m.devicesOf peer ++ [device]).length < UInt64.size := by
      rw [List.length_append, List.length_singleton]
      exact Nat.lt_of_le_of_lt (Nat.succ_le_succ (h.few peer)) hcount
    rw [hdevices, Memory.addDevice, if_neg hnew]
    exact h.devices.put peerKey_injective peer
      ((deviceListCodec_readsBack hlength).mono (by decide))

/-- A call is answered alike, and leaves the stores alike. -/
theorem Matches.answer {α : Type} (h : Matches d m count) (hcount : count + 1 < UInt64.size)
    {request : Store.Request α} (hfits : request.Fits) :
    (d.answer request).1 = .ok (m.answer request).1 ∧
      Matches (d.answer request).2 (m.answer request).2 (count + 1) := by
  have hsame : Matches d m (count + 1) :=
    ⟨h.current, h.devices, h.bundles, h.sessions, fun peer => Nat.le_succ_of_le (h.few peer)⟩
  have hbundle {b : Bundle} (hb : b.oneTimeKeys.length < UInt64.size) :
      Bundle.codec.ReadsBack 256 b := (Bundle.codec_readsBack hb).mono (by decide)
  -- a query reads what the table mirrors; a save writes one value of it
  cases request with
  | current => exact ⟨h.current.read (), hsame⟩
  | devices peer => exact ⟨h.devicesOf peer, hsame⟩
  | bundle device => exact ⟨h.bundles.read device, hsame⟩
  | session device => exact ⟨h.sessions.read device, hsame⟩
  | saveDevice peer device =>
    obtain ⟨d', hsave, hmatches⟩ := h.saveDevice hcount peer device
    rw [Durable.answer, hsave]
    exact ⟨rfl, hmatches⟩
  | saveCurrent bundle =>
    refine ⟨rfl, ?_, h.devices, h.bundles, h.sessions, hsame.few⟩
    have hput := h.current.put (Function.injective_of_subsingleton _) () (hbundle hfits)
    have hupdate : Function.update (fun _ : Unit => m.current) () (some bundle) =
        fun _ => some bundle := funext fun _ => Function.update_self _ _ _
    rw [hupdate] at hput
    exact hput
  | saveBundle device bundle =>
    refine ⟨rfl, h.current, h.devices, ?_, h.sessions, hsame.few⟩
    have hput := h.bundles.put deviceKey_injective device (hbundle hfits)
    rw [← Memory.get?_put_eq_update] at hput
    exact hput
  | saveSession device session =>
    refine ⟨rfl, h.current, h.devices, h.bundles, ?_, hsame.few⟩
    have hput := h.sessions.put deviceKey_injective device
      ((Session.codec_readsBack hfits).mono (by decide))
    rw [← Memory.get?_put_eq_update] at hput
    exact hput

/-! ## Calls in a row -/

/-- What happens to a store. -/
inductive Usage : Type 1
  | call {α : Type} (request : Store.Request α)
  /-- It is closed and opened again. -/
  | reopen

/-- What is stored can be stored. -/
def Usage.Fits : Usage → Prop
  | .call request => request.Fits
  | .reopen => True

/-- A store after it was used, and opened again in a given way. -/
def afterUse {σ : Type} [Store σ] (reopen : σ → σ) : List Usage → σ → σ
  | [], s => s
  | .call request :: usages, s => afterUse reopen usages (Store.call request s).2
  | .reopen :: usages, s => afterUse reopen usages (reopen s)

/-- Two stores whose tables have the same values. -/
structure SameContents (d d' : Durable) : Prop where
  identity : ∀ key, d.identity.get? key = d'.identity.get? key
  devices : ∀ key, d.devices.get? key = d'.devices.get? key
  bundles : ∀ key, d.bundles.get? key = d'.bundles.get? key
  sessions : ∀ key, d.sessions.get? key = d'.sessions.get? key

/-- Stores of the same contents match the same one. -/
theorem Matches.of_sameContents (h : Matches d m count) (hsame : SameContents d' d) :
    Matches d' m (count + 1) :=
  ⟨h.current.of_get? hsame.identity, h.devices.of_get? hsame.devices,
    h.bundles.of_get? hsame.bundles, h.sessions.of_get? hsame.sessions,
    fun peer => Nat.le_succ_of_le (h.few peer)⟩

/-- The stores stay alike, whatever happens. -/
theorem Matches.afterUse {reopen : Durable → Durable} (h : Matches d m count)
    (hreopen : ∀ d, SameContents (reopen d) d) (usages : List Usage)
    (hfits : ∀ usage ∈ usages, usage.Fits) (hcount : count + usages.length < UInt64.size) :
    Matches (Durable.afterUse reopen usages d) (Durable.afterUse id usages m)
      (count + usages.length) := by
  induction usages generalizing d m count with
  | nil => exact h
  | cons usage usages ih =>
    have hrest : ∀ usage ∈ usages, usage.Fits := fun usage hmem =>
      hfits usage (List.mem_cons_of_mem _ hmem)
    rw [List.length_cons, Nat.add_comm usages.length, ← Nat.add_assoc] at hcount ⊢
    cases usage with
    | reopen => exact ih (h.of_sameContents (hreopen d)) hrest hcount
    | call request =>
      have hfirst : request.Fits := hfits _ List.mem_cons_self
      exact ih (h.answer (Nat.lt_of_le_of_lt (Nat.le_add_right _ _) hcount) hfirst).2 hrest hcount

/-- However a durable store was used and opened again, it answers every call as the store in memory
does after the same calls, and refuses none. So the two also name the same device as ours. -/
theorem refines_memory (reopen : Durable → Durable) (hreopen : ∀ d, SameContents (reopen d) d)
    (usages : List Usage) (hfits : ∀ usage ∈ usages, usage.Fits)
    (hfew : usages.length + 1 < UInt64.size) {α : Type} (request : Store.Request α)
    (hrequest : request.Fits) :
    (Store.call request (afterUse reopen usages ({} : Durable))).1 =
        (Store.call request (afterUse id usages ({} : Memory))).1 ∧
      (Store.currentDevice (afterUse reopen usages ({} : Durable))).1 =
        (Store.currentDevice (afterUse id usages ({} : Memory))).1 ∧
      ∀ cause, (Store.call request (afterUse reopen usages ({} : Durable))).1 ≠ .error cause := by
  have hcount : 0 + usages.length + 1 < UInt64.size := (Nat.zero_add usages.length).symm ▸ hfew
  have hmatches := matches_empty.afterUse hreopen usages hfits (Nat.lt_of_succ_lt hcount)
  have hanswer := (hmatches.answer hcount hrequest).1
  have hcurrent := (hmatches.answer hcount (show Store.Request.current.Fits from trivial)).1
  refine ⟨hanswer, congrArg (Except.map (Option.map Bundle.device)) hcurrent,
    fun cause herror => ?_⟩
  cases hanswer.symm.trans herror

/-- A table written anew: its keys stand in the opposite order. -/
def rewritten (t : Table Bytes Bytes) : Table Bytes Bytes :=
  t.entries.foldr (fun entry t => t.put entry.1 entry.2) {}

/-- A table that is written anew has the same values. -/
theorem get?_rewritten (t : Table Bytes Bytes) (key : Bytes) :
    (rewritten t).get? key = t.get? key := by
  obtain ⟨entries⟩ := t
  induction entries with
  | nil => rfl
  | cons entry entries ih =>
    obtain ⟨key', value⟩ := entry
    rw [rewritten, List.foldr_cons, Table.get?_put]
    by_cases hkey : key = key'
    · simp only [Table.get?, List.lookup_cons, hkey, if_true, beq_self_eq_true]
    · rw [if_neg hkey]
      simp only [Table.get?, List.lookup_cons]
      split
      next h => exact absurd (by simpa using h) hkey
      next => exact ih

/-- The store with all its tables written anew. -/
def compacted (d : Durable) : Durable :=
  ⟨rewritten d.identity, rewritten d.devices, rewritten d.bundles, rewritten d.sessions⟩

theorem sameContents_compacted (d : Durable) : SameContents (compacted d) d :=
  ⟨get?_rewritten _, get?_rewritten _, get?_rewritten _, get?_rewritten _⟩

/-- A bundle with two one-time keys. -/
def ownBundle : Bundle := (Bundle.generate .plain 2 (.ofSeed 0 (List.replicate 256 7))).1

/-- A device with that bundle learns of two devices, of one of them twice, and is shut down twice.
-/
def shutDownTwice : List Usage :=
  [.call (.saveCurrent ownBundle), .call (.saveDevice "bob" (.ofNat 2)), .reopen,
    .call (.saveDevice "bob" (.ofNat 1)), .call (.saveDevice "bob" (.ofNat 2)), .reopen]

/-- The device is there with its bundle, and the devices in the order in which they became known,
although the tables were written anew. -/
theorem refines_memory_compacted :
    (Store.call (.devices "bob") (afterUse compacted shutDownTwice ({} : Durable))).1 =
        .ok [.ofNat 2, .ofNat 1] ∧
      (Store.call .current (afterUse compacted shutDownTwice ({} : Durable))).1 =
        .ok (some ownBundle) ∧
      (Store.currentDevice (afterUse compacted shutDownTwice ({} : Durable))).1 =
        .ok (some ownBundle.device) := by
  have hown : ownBundle.oneTimeKeys.length < UInt64.size := by decide +kernel
  have hfits : ∀ usage ∈ shutDownTwice, usage.Fits := by
    simp only [shutDownTwice, List.forall_mem_cons]
    exact ⟨hown, trivial, trivial, trivial, trivial, trivial, List.forall_mem_nil _⟩
  have hanswer {α : Type} (request : Store.Request α) (hrequest : request.Fits) :=
    refines_memory compacted sameContents_compacted shutDownTwice hfits (by decide) request hrequest
  exact ⟨(hanswer (.devices "bob") trivial).1.trans (by decide +kernel),
    (hanswer .current trivial).1.trans (by decide +kernel),
    (hanswer .current trivial).2.1.trans (by decide +kernel)⟩

end Durable

end EndToEnd
