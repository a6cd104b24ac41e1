/-
  `protocol.rs`: the frames on the wire, the stored envelope and the error frames.

  `U` is the `Uuid` of the uuid crate. `serde_json` is taken as an exact round
  trip, so a frame is its parsed value. A `u64` or `usize` field is a `Nat`. The
  field `to` is `toId` here, `to` being a keyword.
-/
import AxenoRelay.Lib.Txn
import AxenoRelay.Util

namespace AxenoRelay

/-- What the surroundings decide at one step of a call: the clock, which database
    calls of the step fail, which items of a range are skipped as unreadable, and
    which entry an unordered iteration takes next. -/
structure StoreEvent where
  now : Nat
  faults : Faults
  lost : Faults
  pick : Nat
  deriving DecidableEq, Repr

abbrev RecipientId := String

/-- An error of a database call, which `anyhow` carries and no caller inspects. -/
inductive DbError where
  | db
  deriving DecidableEq, Repr

/-- The uuid crate: `Display` and `parse_str`. Parsing inverts printing, and a
    printed UUID (hexadecimal digits and `-`) has no `:`. -/
class UuidText (U : Type) where
  display : U → String
  parseStr : String → Option U
  parse_display : ∀ u, parseStr (display u) = some u
  no_colon : ∀ u, ':' ∉ (display u).toList

/-- Some UUIDs with their texts, to run the model on. -/
inductive SampleUuid where
  | u1
  | u2
  | u3
  deriving DecidableEq, Repr

namespace SampleUuid

def display : SampleUuid → String
  | u1 => "3f2b8c4e-91d7-4c06-a8e5-0d6f7b1c2a31"
  | u2 => "7ac1e9d0-5b24-4f83-9c1e-62d8f04b7e52"
  | u3 => "c05d3a7f-2e68-4b19-8f40-91ab5c6d7e83"

def parseStr (s : String) : Option SampleUuid := [u1, u2, u3].find? fun u => u.display == s

instance : UuidText SampleUuid where
  display := display
  parseStr := parseStr
  parse_display u := by cases u <;> decide
  no_colon u := by cases u <;> decide

end SampleUuid

structure StoredEnvelope (U : Type) where
  id : U
  toId : RecipientId
  envelopeType : String
  ciphertext : String
  deriving DecidableEq, Repr

/-- The frames a client can send. -/
inductive ClientFrame (U : Type) where
  | hello (recipientId : RecipientId) (authToken deliveryToken : String)
      (protocolMin protocolMax protocolVersion : Option Nat) (pow : Option String)
      (certOnly : Bool)
  | setDeliveryTokens (requestId : String) (tokens : List String)
  | issueSenderCertificate (requestId senderUuid : String) (senderDeviceId : Nat)
      (senderCertPublicB64 : String)
  | sendEnvelope (clientRef : Option String) (toId : RecipientId) (deliveryToken : String)
      (envelopeType ciphertext : String)
  | uploadBundle (requestId bundleId ciphertext : String) (expiresAtMs : Nat)
      (pow : Option String)
  | fetchBundle (requestId bundleId : String)
  | uploadFileChunk (requestId transferId : String) (chunkIndex totalChunks totalBytes : Nat)
      (ciphertext : String) (pow : Option String)
  | fetchFileChunk (requestId transferId : String) (chunkIndex : Nat)
  | deleteTransfer (requestId transferId : String)
  | ack (ids : List U)
  | retireMailbox
  | ping
  deriving DecidableEq, Repr

/-- The frames the relay sends. -/
inductive ServerFrame (U : Type) where
  | helloOk (protocolVersion minSupported currentProtocol serverTimeMs : Nat)
      (trustRootB64 : String) (maxFileBytes : Nat)
  | senderCertificate (requestId certificateB64 trustRootB64 : String) (expiresAtMs : Nat)
  | bundleUploaded (requestId bundleId : String) (expiresAtMs : Nat)
  | bundle (requestId bundleId ciphertext : String) (expiresAtMs : Nat)
  | fileChunkStored (requestId transferId : String) (chunkIndex receivedChunks totalChunks : Nat)
  | fileChunk (requestId transferId : String) (chunkIndex totalChunks totalBytes : Nat)
      (ciphertext : String)
  | transferDeleted (requestId transferId : String)
  | fileError (requestId transferId code message : String)
  | envelope (envelope : StoredEnvelope U)
  | synced (count : Nat)
  | sendOk (id : U) (queued : Bool) (clientRef : Option String)
  | sendError (clientRef : Option String) (code message : String)
  | deliveryTokensSet (requestId : String) (activeCount : Nat)
  | ackOk (removed : Nat)
  | pong (serverTimeMs : Nat)
  | error (code message : String)
  deriving DecidableEq, Repr

variable {U : Type}

def err (code message : String) : ServerFrame U := .error code message

def sendErr (clientRef : Option String) (code message : String) : ServerFrame U :=
  .sendError clientRef code message

def fileErr (requestId transferId code message : String) : ServerFrame U :=
  .fileError requestId transferId code message

end AxenoRelay
