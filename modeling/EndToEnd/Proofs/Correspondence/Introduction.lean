import EndToEnd.Proofs.Correspondence.Staying
import EndToEnd.Proofs.Primitive.Plain

/-!
# How devices become acquainted

A device that starts on an empty store has a bundle and knows nobody. Two such devices are acquainted
once each has learned the device list and the bundle that the other publishes. They stay so when
their stores are made to fail.

Alice and Bob are two such devices on the plain suite: their runs can be written out.

Main statements: `acquainted_introducedTo`, `acquainted_failing`.
-/

namespace EndToEnd

namespace Correspondent

variable {σ : Type}

/-- A correspondent whose device has started on an empty store, from its bundle. -/
def ofBundle (name : String) (config : Config) (own : Bundle) (env : Environment) :
    Correspondent Memory :=
  ⟨name, ⟨own.device, config⟩, ⟨{ current := some own }, env, true⟩⟩

/-- A correspondent whose device has started on an empty store. -/
def newcomer (S : Suite) (name : String) (config : Config) (env : Environment) :
    Correspondent Memory :=
  ofBundle name config (Bundle.generate S config.oneTimeKeys env).1
    (Bundle.generate S config.oneTimeKeys env).2

/-- Starting on an empty store leaves a newcomer. -/
example (S : Suite) (name : String) (config : Config) (env : Environment) :
    Device.start S config ⟨({} : Memory), env, false⟩ =
      (.ok (newcomer S name config env).device, (newcomer S name config env).state) := rfl

/-- A correspondent that has learned the device list and the bundle that another publishes. -/
def introducedTo (c : Correspondent Memory) (name : String) (own : Bundle) :
    Correspondent Memory :=
  let learn := do
    c.device.learnDevices ⟨name, [own.device]⟩
    c.device.learnBundle own.publish
  { c with state := (learn c.state).2 }

/-- The correspondent with a store whose calls fail as planned. -/
def failing (c : Correspondent σ) (plan : FailurePlan) : Correspondent (Faulty σ) :=
  ⟨c.name, c.device, ⟨⟨c.state.store, plan, 0⟩, c.state.env, c.state.unpublished⟩⟩

/-- The device and the bundle of another are stored as they were published, and nothing else
changes. -/
theorem introducedTo_records {c : Correspondent Memory} {own : Bundle} (name : String)
    (hapart : own.device ≠ c.device.id) :
    ∃ stored, own.Offers stored ∧ (c.introducedTo name own).state.records =
      { c.state.records with
        devices := Function.update c.state.records.devices name
          (Memory.addDevice (c.state.records.devices name) own.device)
        bundle := Function.update c.state.records.bundle own.device (some stored) } := by
  obtain ⟨stored, hread, hdevice, hoffers⟩ := Bundle.exists_ofPublished own
  refine ⟨stored, hoffers, ?_⟩
  have hlearn : c.device.learnDevice name own.device =
      (Device.ask (.saveDevice name own.device) : Device.Action Memory Unit) := if_neg hapart
  have hdevices : c.device.learnDevices ⟨name, [own.device]⟩ c.state =
      Device.ask (.saveDevice name own.device) c.state := by
    show (do c.device.learnDevice name own.device; pure PUnit.unit : Device.Action Memory Unit)
      c.state = _
    rw [hlearn]
    rfl
  have hbundle (state : Device.State Memory) : c.device.learnBundle own.publish state =
      (.ok true, (Device.ask (.saveBundle own.device stored) state).2) := by
    have hpublish : own.publish.device = own.device := rfl
    rw [Device.learnBundle, hpublish, if_neg hapart, hread, ← hdevice]
    rfl
  rw [introducedTo]
  show ((c.device.learnDevices _ >>= fun _ => c.device.learnBundle own.publish) c.state).2.records = _
  rw [Device.run_bind_ok hdevices, hbundle]
  exact (Memory.answer_records (.saveBundle own.device stored) _).2.trans
    (congrArg (fun r : Records => (r.answer (.saveBundle own.device stored)).2)
      (Memory.answer_records (.saveDevice name own.device) c.state.store).2)

/-- Two devices that have learned what the other publishes are acquainted. -/
theorem acquainted_introducedTo {name name' : String} {config config' : Config}
    {own own' : Bundle} {env env' : Environment} (hapart : own.device ≠ own'.device) :
    Correspondence.Acquainted ((ofBundle name config own env).introducedTo name' own')
      ((ofBundle name' config' own' env').introducedTo name own) := by
  obtain ⟨stored, hoffers, hrecords⟩ :=
    introducedTo_records (c := ofBundle name config own env) name' hapart.symm
  obtain ⟨stored', hoffers', hrecords'⟩ :=
    introducedTo_records (c := ofBundle name' config' own' env') name hapart
  refine ⟨hapart, ?_, .inr ?_, ⟨own', stored, ?_, ?_, hoffers⟩, ?_, ?_⟩
  · rw [hrecords]
    exact Function.update_self _ _ _
  · rw [hrecords']
    exact Function.update_self _ _ _
  · rw [hrecords']
    rfl
  · rw [hrecords]
    exact Function.update_self _ _ _
  · rw [hrecords]
    rfl
  · rw [hrecords']
    rfl

/-- Failing stores make no difference to who is acquainted. -/
theorem acquainted_failing [Store σ] [LawfulStore σ] {initiator responder : Correspondent σ}
    (h : Correspondence.Acquainted initiator responder) (plan plan' : FailurePlan) :
    Correspondence.Acquainted (initiator.failing plan) (responder.failing plan') :=
  ⟨h.apart, h.known, h.knownToo, h.bundle, h.noSession, h.noSessionToo⟩

/-- The store in memory refuses nothing. -/
theorem healthy_memory (c : Correspondent Memory) : c.state.Healthy := trivial

/-! ## Alice and Bob -/

/-- An environment that draws bytes in equal steps. -/
def stepping (step : Nat) : Environment :=
  .ofSeed 0 ((List.range 512).map fun i => (step * i + i / 256).toUInt8)

/-- Two one-time keys a bundle. -/
def twoKeys : Config := { oneTimeKeys := 2 }

/-- The bundle of a device on the plain suite. -/
def plainBundle (step : Nat) : Bundle := (Bundle.generate .plain 2 (stepping step)).1

/-- A device that knows Bob. -/
def alice : Correspondent Memory :=
  (newcomer .plain "alice" twoKeys (stepping 1)).introducedTo "bob" (plainBundle 3)

/-- A device that knows Alice. -/
def bob : Correspondent Memory :=
  (newcomer .plain "bob" twoKeys (stepping 3)).introducedTo "alice" (plainBundle 1)

theorem plainBundle_device_ne : (plainBundle 1).device ≠ (plainBundle 3).device := by decide +kernel

/-- Alice has what she needs to write to Bob first. -/
theorem acquainted_alice_bob : Correspondence.Acquainted alice bob :=
  acquainted_introducedTo plainBundle_device_ne

/-- Bob has what he needs to write to Alice first. -/
theorem acquainted_bob_alice : Correspondence.Acquainted bob alice :=
  acquainted_introducedTo plainBundle_device_ne.symm

end Correspondent

namespace Correspondence

variable {σ : Type} {x : Correspondence σ}

/-- On the plain suite, keys agree if each side holds the private halves of its own. -/
theorem Agrees.of_plain
    (h : ∀ side, ∀ p ∈ x.generated side, p.privateKey = some p.publicKey) : x.Agrees .plain :=
  fun p hp q hq => Suite.plain_agreesWith (h _ p hp) (h _ q hq)

instance : Decidable x.KeysDistinct :=
  inferInstanceAs (Decidable (∀ side, ((x.generated side).map (·.publicKey)).Nodup))

end Correspondence

end EndToEnd
