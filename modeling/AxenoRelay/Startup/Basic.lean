/-
  `persistence.rs` and the start of `main.rs`: the files beside the database, and the way
  of a process from its start to a running relay.

  A `Stage` is a starting process between two of its operations: a file operation, a
  transaction, or a call of a crate. `Stage.step` is the next one, on what outlives the
  process (`Host`). `relay-state.json` is its parsed value, and replacing it is one rename;
  `relay-key` is opened, written piece by piece and synced. The cipher (Argon2id and
  ChaCha20-Poly1305) and the parser of key pairs are fields of `KeyCrates`.
-/
import AxenoRelay.Lib.Interleave
import AxenoRelay.QueueStore.Basic
import AxenoRelay.State.MetaStore
import AxenoRelay.Util

namespace AxenoRelay

structure DiskCrypto where
  trustRootPublic : List UInt8
  trustRootPrivate : List UInt8
  serverSigningPublic : List UInt8
  serverSigningPrivate : List UInt8
  deriving DecidableEq

/-- Salt, nonce and ciphertext, in hexadecimal. -/
structure EncryptedCryptoBlob where
  salt : String
  nonce : String
  ciphertext : String
  deriving DecidableEq

structure DiskState (U : Type) where
  crypto : Option DiskCrypto
  encryptedCrypto : Option EncryptedCryptoBlob
  mailboxAuth : List (RecipientId × MailboxAuth)
  queues : List (RecipientId × List (StoredEnvelope U))
  bundles : List HostedBundle
  deriving DecidableEq

/-- Functions of the crates: the AEAD under a derived key, and `from_public_and_private`. -/
structure KeyCrates where
  encrypt : String → Vector UInt8 16 → Vector UInt8 12 → DiskCrypto → String
  decrypt : String → EncryptedCryptoBlob → Option DiskCrypto
  parses : DiskCrypto → Bool

/-- What the process finds in its environment about the secret for the keys at rest. -/
structure SecretEnv where
  axenoKey : Option String
  axenoKeyFile : Option String
  readToString : String → Option String

/-- What outlives a process: the two files and the database. -/
structure Host (U : Type) where
  stateFile : Option (DiskState U)
  keyFile : Option String
  envelopes : Envelopes
  tables : MetaTables

/-- What the surroundings decide at a step: the clock, random bytes, the faults of a
    transaction that reads and of one that writes, how much a file write has written,
    and whether another call fails. -/
structure StartEvent where
  now : Nat
  keys : DiskCrypto
  raw : Vector UInt8 32
  salt : Vector UInt8 16
  nonce : Vector UInt8 12
  readFaults : Faults
  writeFaults : Faults
  written : Nat
  fails : Bool

/-! ## `persistence.rs` -/

def hexChar (n : Nat) : Char := if n < 10 then Char.ofNat (48 + n) else Char.ofNat (87 + n)

/-- `hex::encode`. -/
def hexEncode (bytes : List UInt8) : String :=
  String.ofList (bytes.flatMap fun b => [hexChar (b.toNat / 16), hexChar (b.toNat % 16)])

/-- The outcomes of looking for the secret before one is generated. -/
inductive KeyLookup where
  | found (secret : String)
  | broken
  | absent

/-- The `AXENO_KEY_FILE` branch of `relay_encryption_key`. -/
def mountedKey (env : SecretEnv) : KeyLookup :=
  match env.axenoKeyFile with
  | none => .absent
  | some path =>
    if path = "" then .absent
    else
      match env.readToString path with
      | none => .broken
      | some contents => if trim contents = "" then .broken else .found (trim contents)

/-- The two branches of `relay_encryption_key` before the one for `relay-key`. -/
def configuredKey (env : SecretEnv) : KeyLookup :=
  match env.axenoKey with
  | none => mountedKey env
  | some k => if k = "" then mountedKey env else .found k

/-- `relay_encryption_key` up to the point where it would generate a secret. -/
def lookupKey (env : SecretEnv) (keyFile : Option String) : KeyLookup :=
  match configuredKey env with
  | .found secret => .found secret
  | .broken => .broken
  | .absent =>
    match keyFile with
    | none => .absent
    | some existing => if trim existing = "" then .absent else .found (trim existing)

def encryptDiskCrypto (C : KeyCrates) (e : StartEvent) (crypto : DiskCrypto) (envKey : String) :
    EncryptedCryptoBlob :=
  { salt := hexEncode e.salt.toList
    nonce := hexEncode e.nonce.toList
    ciphertext := C.encrypt envKey e.salt e.nonce crypto }

/-- `DiskState::default`. -/
def DiskState.default {U : Type} : DiskState U :=
  { crypto := none, encryptedCrypto := none, mailboxAuth := [], queues := [], bundles := [] }

/-- A record from before there were several tokens lists its one token. -/
def listToken (auth : MailboxAuth) : MailboxAuth :=
  if auth.deliveryTokenHashes.isEmpty && !auth.deliveryTokenHash.isEmpty then
    { auth with deliveryTokenHashes := auth.deliveryTokenHashes ++ [auth.deliveryTokenHash] }
  else auth

/-- `prune_disk_state` at clock `now`. -/
def pruneDiskState {U : Type} (now : Nat) (disk : DiskState U) : DiskState U :=
  { disk with
    bundles := disk.bundles.filter fun b => now < b.expiresAtMs
    mailboxAuth := disk.mailboxAuth.map fun e => (e.1, listToken e.2) }

/-- The state that `persist_crypto` writes. -/
def persistedState {U : Type} (blob : EncryptedCryptoBlob) : DiskState U :=
  { crypto := none
    encryptedCrypto := some blob
    mailboxAuth := []
    queues := []
    bundles := [] }

/-! ## `meta_store.rs`, at the start -/

namespace MetaTables

/-- `MetaStore::new`: a transaction that opens both tables. -/
def new : Txn DbError MetaTables Unit := do
  Txn.touch .db
  Txn.touch .db
  Txn.touch .db
  Txn.touch .db

def authIsEmpty : Txn DbError MetaTables Bool := do
  Txn.touch .db
  Txn.touch .db
  let t ← Txn.read .db id
  pure t.auth.entries.isEmpty

def bundlesIsEmpty : Txn DbError MetaTables Bool := do
  Txn.touch .db
  Txn.touch .db
  let t ← Txn.read .db id
  pure t.bundles.entries.isEmpty

end MetaTables

/-! ## A starting process -/

/-- Who asked for the secret: `load_disk_state`, or `persist_crypto` with the opened store. -/
inductive Purpose (U : Type) where
  | load (disk : DiskState U) (blob : EncryptedCryptoBlob)
  | persist (crypto : DiskCrypto) (st : QueueStore)

/-- Where a process is. From `opening` on it holds the pruned state; `rest` are the legacy
    envelopes still to be enqueued. -/
inductive Stage (U : Type) where
  | load
  | resolve (p : Purpose U)
  | keyOpen (p : Purpose U) (secret : String)
  | keyWrite (p : Purpose U) (secret : String) (written : Nat)
  | keySync (p : Purpose U) (secret : String)
  | decrypt (disk : DiskState U) (blob : EncryptedCryptoBlob) (secret : String)
  | init (disk : DiskState U)
  | prune (disk : DiskState U)
  | openQueues (disk : DiskState U)
  | openMeta (disk : DiskState U) (st : QueueStore)
  | openFiles (disk : DiskState U) (st : QueueStore)
  | queues (disk : DiskState U) (rest : List (RecipientId × StoredEnvelope U)) (st : QueueStore)
  | auth (disk : DiskState U) (st : QueueStore)
  | bundles (disk : DiskState U) (st : QueueStore)
  | encrypt (crypto : DiskCrypto) (st : QueueStore) (secret : String)
  | writeTmp (file : DiskState U) (crypto : DiskCrypto) (st : QueueStore)
  | rename (file : DiskState U) (crypto : DiskCrypto) (st : QueueStore)
  | done (crypto : DiskCrypto) (st : QueueStore)
  | failed

/-- The legacy envelopes in the order of the two loops. -/
def DiskState.legacy {U : Type} (disk : DiskState U) : List (RecipientId × StoredEnvelope U) :=
  disk.queues.flatMap fun q => q.2.map fun env => (q.1, env)

/-- Where the secret goes. -/
def Purpose.next {U : Type} (secret : String) : Purpose U → Stage U
  | load disk blob => .decrypt disk blob secret
  | persist crypto st => .encrypt crypto st secret

namespace Stage

variable {U : Type} [UuidText U]

/-- The next operation of the process. -/
def step (C : KeyCrates) (env : SecretEnv) (e : StartEvent) :
    Stage U → Host U → Option (Stage U × Host U)
  | load, h =>
    if e.fails then some (failed, h)
    else
      match h.stateFile with
      | none => some (init .default, h)
      | some disk =>
        match disk.encryptedCrypto with
        | none => some (init disk, h)
        | some blob => some (resolve (.load disk blob), h)
  | resolve p, h =>
    match lookupKey env h.keyFile with
    | .found secret => some (p.next secret, h)
    | .broken => some (failed, h)
    | .absent =>
      if e.fails then some (failed, h) else some (keyOpen p (hexEncode e.raw.toList), h)
  | keyOpen p secret, h =>
    if e.fails then some (failed, h)
    else some (keyWrite p secret 0, { h with keyFile := some "" })
  | keyWrite p secret written, h =>
    if e.fails then some (failed, h)
    else
      let n := max written e.written
      if n < secret.length then
        some (keyWrite p secret n, { h with keyFile := some (String.ofList (secret.toList.take n)) })
      else some (keySync p secret, { h with keyFile := some secret })
  | keySync p secret, h => if e.fails then some (failed, h) else some (p.next secret, h)
  | decrypt disk blob secret, h =>
    match C.decrypt secret blob with
    | none => some (failed, h)
    | some crypto => some (init { disk with crypto := some crypto }, h)
  | init disk, h =>
    if e.fails then some (failed, h)
    else
      match disk.crypto with
      | some saved => if C.parses saved then some (prune disk, h) else some (failed, h)
      | none => some (prune { disk with crypto := some e.keys }, h)
  | prune disk, h => some (openQueues (pruneDiskState e.now disk), h)
  | openQueues disk, h =>
    match (QueueStore.new.commit e.writeFaults h.envelopes).1 with
    | .error _ => some (failed, h)
    | .ok st => some (openMeta disk st, h)
  | openMeta disk st, h =>
    match (MetaTables.new.commit e.writeFaults h.tables).1 with
    | .error _ => some (failed, h)
    | .ok () => some (openFiles disk st, h)
  | openFiles disk st, h =>
    if e.fails then some (failed, h) else some (queues disk disk.legacy st, h)
  | queues disk ((rid, env) :: rest) st, h =>
    -- the result of the call is dropped
    let st := (QueueStore.enqueue e.now e.readFaults e.writeFaults rid env st).2
    some (queues disk rest st, { h with envelopes := st.envelopes })
  | queues disk [] st, h => some (auth disk st, h)
  | auth disk st, h =>
    match (MetaTables.authIsEmpty.commit e.readFaults h.tables).1 with
    | .error _ => some (failed, h)
    | .ok empty =>
      if empty && !disk.mailboxAuth.isEmpty then
        match h.tables.flushAuth (disk.mailboxAuth.map fun r => (r.1, some r.2)) e.writeFaults with
        | (.error _, t) => some (failed, { h with tables := t })
        | (.ok (), t) => some (bundles disk st, { h with tables := t })
      else some (bundles disk st, h)
  | bundles disk st, h =>
    match (MetaTables.bundlesIsEmpty.commit e.readFaults h.tables).1 with
    | .error _ => some (failed, h)
    | .ok empty =>
      match disk.crypto with
      | none => some (failed, h)
      | some crypto =>
        if empty && !disk.bundles.isEmpty then
          match h.tables.flushBundles (disk.bundles.map fun b => (b.id, some b)) e.writeFaults with
          | (.error _, t) => some (failed, { h with tables := t })
          | (.ok (), t) => some (resolve (.persist crypto st), { h with tables := t })
        else some (resolve (.persist crypto st), h)
  | encrypt crypto st secret, h =>
    if e.fails then some (failed, h)
    else some (writeTmp (persistedState (encryptDiskCrypto C e crypto secret)) crypto st, h)
  | writeTmp file crypto st, h =>
    if e.fails then some (failed, h) else some (rename file crypto st, h)
  | rename file crypto st, h =>
    if e.fails then some (failed, h) else some (done crypto st, { h with stateFile := some file })
  | done _ _, _ => none
  | failed, _ => none

end Stage

/-! ## Starts, one after another -/

/-- The host and the process on it. -/
structure Boot (U : Type) where
  host : Host U
  stage : Stage U

/-- A new process starts (the old one has ended, wherever it was), or takes a step. -/
inductive BootMove where
  | restart
  | step (e : StartEvent)

open Interleave in
/-- One process at a time, so all moves are moves of the surroundings. -/
def bootMachine (U : Type) [UuidText U] (C : KeyCrates) (env : SecretEnv) :
    Machine (Boot U) Empty BootMove where
  spawn _ _ := none
  step _ _ _ := none
  env
    | .restart, b => some { b with stage := .load }
    | .step e, b => (b.stage.step C env e b.host).map fun r => ⟨r.2, r.1⟩

abbrev BootConfig (U : Type) := Interleave.Config (Boot U) Empty

/-- A host on which the first process starts. -/
def firstBoot {U : Type} (h : Host U) : BootConfig U := ⟨⟨h, .load⟩, []⟩

end AxenoRelay
