import EndToEnd.BodyCipher
import EndToEnd.Bundle
import EndToEnd.Bytes
import EndToEnd.Cbor.Codec
import EndToEnd.Cbor.Head
import EndToEnd.Cbor.Read
import EndToEnd.Cbor.Skip
import EndToEnd.Config
import EndToEnd.Conversation
import EndToEnd.CryptoError
import EndToEnd.Decimal.Shortest
import EndToEnd.Derivation
import EndToEnd.Device.Action
import EndToEnd.Device.ChatMessage
import EndToEnd.Device.Decryption
import EndToEnd.Device.Encryption
import EndToEnd.Device.Error
import EndToEnd.Device.Publication
import EndToEnd.DeviceId
import EndToEnd.Environment
import EndToEnd.Handshake
import EndToEnd.KeyPair
import EndToEnd.Primitive.Aes256
import EndToEnd.Primitive.Cbc
import EndToEnd.Primitive.ChaCha20
import EndToEnd.Primitive.Curve25519
import EndToEnd.Primitive.Hmac
import EndToEnd.Primitive.Sha256
import EndToEnd.Session.Description
import EndToEnd.Session.Error
import EndToEnd.Session.Ratchet
import EndToEnd.Session.State
import EndToEnd.Store.Durable
import EndToEnd.Store.Faulty
import EndToEnd.Store.Form
import EndToEnd.Store.Memory
import EndToEnd.Store.Request
import EndToEnd.Store.Table
import EndToEnd.Suite
import EndToEnd.Wire.Document
import EndToEnd.Wire.Error
import EndToEnd.Wire.Field
import EndToEnd.Wire.HandshakeMessage
import EndToEnd.Wire.RatchetMessage
import EndToEnd.Proofs.BodyCipher
import EndToEnd.Proofs.Bundle
import EndToEnd.Proofs.Bundle.Generated
import EndToEnd.Proofs.Bundle.Numbering
import EndToEnd.Proofs.Bundle.PublicCopy
import EndToEnd.Proofs.Cbor.Doubling
import EndToEnd.Proofs.Cbor.Extending
import EndToEnd.Proofs.Cbor.Growth
import EndToEnd.Proofs.Cbor.Lawful
import EndToEnd.Proofs.Cbor.RoundTrip
import EndToEnd.Proofs.Conversation.Exchange
import EndToEnd.Proofs.Conversation.Late
import EndToEnd.Proofs.Conversation.Replay
import EndToEnd.Proofs.Correspondence.Altered
import EndToEnd.Proofs.Correspondence.Crossing
import EndToEnd.Proofs.Correspondence.Delivered
import EndToEnd.Proofs.Correspondence.Flight
import EndToEnd.Proofs.Correspondence.InTouch
import EndToEnd.Proofs.Correspondence.Introduction
import EndToEnd.Proofs.Correspondence.Keys
import EndToEnd.Proofs.Correspondence.Landing
import EndToEnd.Proofs.Correspondence.Lane
import EndToEnd.Proofs.Correspondence.Lasting
import EndToEnd.Proofs.Correspondence.Posts
import EndToEnd.Proofs.Correspondence.Run
import EndToEnd.Proofs.Correspondence.Staying
import EndToEnd.Proofs.Correspondence.View
import EndToEnd.Proofs.Device.Addressees
import EndToEnd.Proofs.Device.Alike
import EndToEnd.Proofs.Device.Authorship
import EndToEnd.Proofs.Device.Commuting
import EndToEnd.Proofs.Device.Effect
import EndToEnd.Proofs.Device.Entries
import EndToEnd.Proofs.Device.Events
import EndToEnd.Proofs.Device.Fanout
import EndToEnd.Proofs.Device.Fatal
import EndToEnd.Proofs.Device.FirstKeys
import EndToEnd.Proofs.Device.Handout
import EndToEnd.Proofs.Device.Isolation
import EndToEnd.Proofs.Device.Lifetime
import EndToEnd.Proofs.Device.OneTimeKeys
import EndToEnd.Proofs.Device.Publishing
import EndToEnd.Proofs.Device.Reading
import EndToEnd.Proofs.Device.Rebuilding
import EndToEnd.Proofs.Device.Retrying
import EndToEnd.Proofs.Device.Running
import EndToEnd.Proofs.Device.Sending
import EndToEnd.Proofs.Device.Writing
import EndToEnd.Proofs.DeviceId
import EndToEnd.Proofs.Handshake
import EndToEnd.Proofs.Primitive.Aes256
import EndToEnd.Proofs.Primitive.Chaining
import EndToEnd.Proofs.Primitive.LowOrder
import EndToEnd.Proofs.Primitive.Plain
import EndToEnd.Proofs.Refusal
import EndToEnd.Proofs.Session.Acceptance
import EndToEnd.Proofs.Session.Answering
import EndToEnd.Proofs.Session.AnyOrder
import EndToEnd.Proofs.Session.Fatal
import EndToEnd.Proofs.Session.Fitting
import EndToEnd.Proofs.Session.Keeping
import EndToEnd.Proofs.Session.Letters
import EndToEnd.Proofs.Session.Lockstep
import EndToEnd.Proofs.Session.LowOrder
import EndToEnd.Proofs.Session.Opening
import EndToEnd.Proofs.Session.Partial
import EndToEnd.Proofs.Session.Positions
import EndToEnd.Proofs.Session.Receipts
import EndToEnd.Proofs.Session.Room
import EndToEnd.Proofs.Session.Sealing
import EndToEnd.Proofs.Session.Shape
import EndToEnd.Proofs.Session.Steps
import EndToEnd.Proofs.Store.Durable
import EndToEnd.Proofs.Store.Form
import EndToEnd.Proofs.Store.Lawful
import EndToEnd.Proofs.Wire.Canonical
import EndToEnd.Proofs.Wire.Delimited
import EndToEnd.Proofs.Wire.Document
import EndToEnd.Proofs.Wire.Rewriting
import EndToEnd.Proofs.Wire.RoundTrip
import EndToEnd.Proofs.Words
