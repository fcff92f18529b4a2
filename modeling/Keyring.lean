import Keyring.Envelope.Describe
import Keyring.KeySet.Load
import Keyring.KeySet.Shared
import Keyring.Number.Lemmas
import Keyring.Proofs.Envelope.Seal
import Keyring.Proofs.KeySet.Rotation
import Keyring.Proofs.KeySet.Storage
import Keyring.Serial.Item
import Keyring.Serial.Metadata
import Keyring.Serial.Value
import Keyring.Proofs.Metadata.Canonical
import Keyring.Proofs.Envelope.Signature
import Keyring.Proofs.Key.Canonical
import Keyring.Proofs.Envelope.Refusal
import Keyring.Proofs.Stream.Pieces
import Keyring.Proofs.KeySet.Numbering
import Keyring.Proofs.KeySet.Publication
import Keyring.Proofs.Envelope.Capability
import Keyring.Proofs.Rsa.Stream
import Keyring.Proofs.Key.Pair
import Keyring.Proofs.KeySet.Addition
import Keyring.Proofs.KeySet.Lifecycle
import Keyring.Proofs.Envelope.Verdict
import Keyring.Proofs.Envelope.Size
import Keyring.Proofs.Envelope.Unversioned
import Keyring.Proofs.KeySet.Sharing
import Keyring.Proofs.Key.Hash
import Keyring.Proofs.Json.Number
import Keyring.Proofs.Json.Token
import Keyring.Proofs.Json.Value
import Keyring.Proofs.Json.Draft
import Keyring.Proofs.Choice
import Keyring.Proofs.Serial.Compact
import Keyring.Proofs.Serial.Basic
import Keyring.Proofs.Metadata.Serial
import Keyring.Proofs.Text.Base58
import Keyring.Proofs.Text.Base64
import Keyring.Proofs.Envelope.Encoded
import Keyring.Proofs.Serial.Item
import Keyring.Proofs.Deflate.Bits
import Keyring.Proofs.Deflate.PrefixCode
import Keyring.Proofs.Deflate.Symbol
import Keyring.Proofs.Deflate.Block
import Keyring.Proofs.Deflate.Inflate
import Keyring.Proofs.Deflate.Compress
import Keyring.Proofs.Compression
import Keyring.Proofs.Envelope.Compressed
import Keyring.Proofs.Serial.Config
