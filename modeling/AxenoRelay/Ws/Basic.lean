/-
  `ws.rs`: the handlers of one socket.

  `SocketPc` is a place in `handle_socket` between two atomic steps: one operation on
  a shared map, counter or channel, or one step of a call on a store. Its arguments
  are the locals the source still needs. `SocketPc.step` runs the next piece; the
  pure checks before a piece belong to it.

  A channel is the list of frames pushed so far, how many the writer task has taken,
  and whether the receiving end is still there. `tx.send(..).await` is not enabled
  while the channel is full. What the surroundings decide at a step (clock, incoming
  message, failing database calls, the next UUID) comes with the event.
-/
import AxenoRelay.FileStore.Tasks
import AxenoRelay.State.Tasks

namespace AxenoRelay

/-! ## Channels -/

/-- The outbound channel of a socket. -/
structure Chan (U : Type) where
  sent : List (ServerFrame U)
  taken : Nat
  isOpen : Bool

namespace Chan

variable {U : Type}

def new : Chan U := ⟨[], 0, true⟩

def hasRoom (c : Chan U) : Bool := decide (c.sent.length - c.taken < outboundQueueCapacity)

def push (f : ServerFrame U) (c : Chan U) : Chan U := { c with sent := c.sent ++ [f] }

/-- `try_send`: whether the frame was pushed. -/
def trySend (f : ServerFrame U) (c : Chan U) : Bool × Chan U :=
  if c.isOpen && c.hasRoom then (true, c.push f) else (false, c)

end Chan

/-- A message as `handle_socket` sees it: a text of some length with the frame it parses
    to or the parser's error, any other message, or the end of the stream. -/
inductive Incoming (U : Type) where
  | text (length : Nat) (parsed : Except String (ClientFrame U))
  | other
  | closed

/-- What the surroundings decide at one step of a socket. `notRun`: the blocking call
    was never run; `cert`: what the signing library made of a certificate request. -/
structure RelayEvent (U : Type) where
  store : StoreEvent
  incoming : Incoming U
  uuid : U
  notRun : Bool
  cert : Except String String

/-- The locals of `handle_socket` that outlive a frame, and the number of the socket. -/
structure Socket where
  sid : Nat
  recipientId : Option RecipientId
  windowStartMs : Nat
  frameCount : Nat
  deriving DecidableEq, Repr

/-- The shared state, the channel of every socket, and the UUIDs drawn so far. -/
structure Relay (U : Type) where
  app : AppState
  chans : List (Chan U)
  issued : List U

namespace Relay

variable {U : Type}

/-- `try_send` on the channel of socket `sid`. -/
def trySend (w : Relay U) (sid : Nat) (f : ServerFrame U) : Bool × Relay U :=
  match w.chans[sid]? with
  | none => (false, w)
  | some c => ((c.trySend f).1, { w with chans := w.chans.set sid (c.trySend f).2 })

end Relay

inductive SocketPc (U : Type) where
  | ready
  | reply (f : ServerFrame U) (last : Bool)
  | helloMark (rid : RecipientId) (selected : Nat) (certOnly : Bool)
  | helloOk (rid : RecipientId) (selected : Nat) (certOnly : Bool)
  | helloOnline (rid : RecipientId) (selected : Nat)
  | helloFlush (rid : RecipientId) (selected : Nat)
  | helloPush (rest : List (StoredEnvelope U)) (delivered selected : Nat)
  | helloSynced (delivered selected : Nat)
  | tokensMark (rid : RecipientId) (f : ServerFrame U)
  | sendRate (clientRef : Option String) (toId : RecipientId) (envelopeType ciphertext : String)
  | sendLive (clientRef : Option String) (toId : RecipientId) (envelopeType ciphertext : String)
  | sendStale (clientRef : Option String) (env : StoredEnvelope U)
  | sendCheck (clientRef : Option String) (env : StoredEnvelope U) (live : Bool)
  | sendQueue (clientRef : Option String) (env : StoredEnvelope U) (live : Bool) (q : QueueTask U)
  | sendMark (clientRef : Option String) (env : StoredEnvelope U) (live enqueued : Bool)
  | prune (p : PruneTask) (f : ClientFrame U)
  | uploadLook (requestId bundleId ciphertext : String) (expiresAtMs : Nat)
  | uploadCount (requestId bundleId ciphertext : String) (expiresAtMs : Nat)
  | uploadBytes (requestId bundleId ciphertext : String) (expiresAtMs : Nat)
  | uploadInsert (requestId bundleId ciphertext : String) (expiresAtMs : Nat)
  | uploadSub (requestId bundleId : String) (old added expires : Nat)
  | uploadAdd (requestId bundleId : String) (added expires : Nat)
  | uploadMark (requestId bundleId : String) (expires : Nat)
  | fetchBundle (requestId bundleId : String)
  | file (t : FileTask) (requestId transferId : String) (chunkIndex : Nat)
  | ackQueue (q : QueueTask U)
  | retireCount (rid : RecipientId)
  | retirePurge (rid : RecipientId) (q : QueueTask U)
  | retireRate (rid : RecipientId)
  | retireOnline (rid : RecipientId)
  | retireMark (rid : RecipientId)
  | closeLook
  | closeRemove (rid : RecipientId)
  | closeEnd
  | closed

namespace SocketPc

section

variable {U : Type}

/-- Push an error frame and go on with the next message. -/
def refuse (code message : String) : SocketPc U := reply (err code message) false

def refuseSend (clientRef : Option String) (code message : String) : SocketPc U :=
  reply (sendErr clientRef code message) false

def refuseFile (requestId transferId code message : String) : SocketPc U :=
  reply (fileErr requestId transferId code message) false

end

/-! ## The pieces that work on shared maps -/

/-- `auth.last_active_ms = now_activity_ms()`. -/
def refreshed (now : Nat) (auth : MailboxAuth) : MailboxAuth :=
  { auth with lastActiveMs := nowActivityMs now }

/-- The entry-locked part of Hello, with the slot reservation inside it. -/
def helloEntry (C : Crates) (now : Nat) (rid authHash deliveryHash : String) (pow : Option String)
    (st : AppState) : Except (String × String) AppState :=
  match st.mailboxAuth.get rid with
  | some auth =>
    if !ctEq auth.receiveAuthHash authHash then
      .error ("hello_rejected", "mailbox authentication or proof of work failed")
    else
      let auth := (refreshed now auth).ensureDeliveryHash deliveryHash
      .ok { st with mailboxAuth := st.mailboxAuth.insert rid auth.2 }
  | none =>
    if !(pow.any fun n => verifyPow C now rid n) then
      .error ("hello_rejected", "mailbox authentication or proof of work failed")
    else
      match st.reserveMailboxSlot with
      | (false, _) => .error ("relay_full", "relay mailbox limit reached")
      | (true, st) =>
        .ok { st with
          mailboxAuth := st.mailboxAuth.insert rid (MailboxAuth.new now authHash deliveryHash) }

/-- The auth check of SendEnvelope, which refreshes the lease. -/
def sendAuth (C : Crates) (now : Nat) (toId deliveryToken : String) (st : AppState) :
    Option AppState :=
  match st.mailboxAuth.get toId with
  | none => none
  | some auth =>
    if auth.acceptsDeliveryHash (tokenHash C deliveryToken) then
      some { st with mailboxAuth := st.mailboxAuth.insert toId (refreshed now auth) }
    else none

/-- The look for a live bundle under the same id: the reply, if there is one. -/
def existingReply {U : Type} (now : Nat) (requestId bundleId ciphertext : String) (st : AppState) :
    Option (ServerFrame U) :=
  match st.bundles.get bundleId with
  | none => none
  | some existing =>
    if existing.expiresAtMs ≤ now then none
    else if existing.ciphertext = ciphertext then
      some (.bundleUploaded requestId bundleId existing.expiresAtMs)
    else some (err "bundle_exists" "an invite bundle with this id already exists")

/-- The checks of `issue_sender_certificate` before the signing library is called. -/
def certRequest (C : Crates) (senderUuid : String) (senderDeviceId : Nat)
    (senderCertPublicB64 : String) : Except String (List UInt8) :=
  if !validRecipientId senderUuid ∨ senderDeviceId = 0 ∨ 127 < senderDeviceId then
    .error "invalid sender certificate request"
  else if 64 < len senderCertPublicB64 then .error "sender certificate public key is too large"
  else
    match C.decodeB64 senderCertPublicB64 with
    | none => .error "bad sender certificate public key encoding"
    | some key => .ok key

section Handlers

variable {U : Type}

/-- The first piece of the handler of a frame. -/
def handle (C : Crates) (e : RelayEvent U) (s : Socket) (w : Relay U) :
    ClientFrame U → SocketPc U × Relay U
  | .hello rid authToken deliveryToken protocolMin protocolMax version pow certOnly =>
    let clientMin := protocolMin.getD (version.getD protocolVersion)
    let clientMax := protocolMax.getD (version.getD protocolVersion)
    let selected := min protocolVersion clientMax
    if selected < protocolMinSupported ∨ selected < clientMin then
      (refuse "protocol_mismatch" "no common relay protocol version", w)
    else if !validRecipientId rid || !validToken authToken || !validToken deliveryToken then
      (refuse "bad_hello" "invalid mailbox or token", w)
    else
      match helloEntry C e.store.now rid (tokenHash C authToken) (tokenHash C deliveryToken) pow
          w.app with
      | .error (code, message) => (refuse code message, w)
      | .ok app => (helloMark rid selected certOnly, { w with app := app })
  | .setDeliveryTokens requestId tokens =>
    match s.recipientId with
    | none => (refuse "not_registered" "send hello first", w)
    | some rid =>
      if tokens.isEmpty ∨ maxDeliveryTokensPerMailbox < tokens.length ∨
          !tokens.all validToken then
        (refuse "bad_tokens" "invalid delivery-token allowlist", w)
      else
        match w.app.mailboxAuth.get rid with
        | none => (refuse "not_registered" "mailbox auth missing", w)
        | some auth =>
          let auth := auth.replaceDeliveryHashes (tokens.map (tokenHash C))
          (tokensMark rid (.deliveryTokensSet requestId auth.deliveryTokenHashes.length),
            { w with app := { w.app with mailboxAuth := w.app.mailboxAuth.insert rid auth } })
  | .issueSenderCertificate requestId senderUuid senderDeviceId senderCertPublicB64 =>
    match s.recipientId with
    | none => (refuse "not_registered" "send hello first", w)
    | some rid =>
      if senderUuid ≠ rid then
        (refuse "cert_denied"
          "sender certificate can only be issued for your authenticated mailbox", w)
      else
        match certRequest C senderUuid senderDeviceId senderCertPublicB64 with
        | .error m => (refuse "cert_failed" m, w)
        | .ok _ =>
          match e.cert with
          | .error m => (refuse "cert_failed" m, w)
          | .ok cert => (reply (.senderCertificate requestId cert w.app.trustRootPublicB64
              (e.store.now + senderCertTtlMs)) false, w)
  | .sendEnvelope clientRef toId deliveryToken envelopeType ciphertext =>
    if !validRecipientId toId || !validToken deliveryToken then
      (refuseSend clientRef "bad_send" "invalid destination or delivery token", w)
    else if 32 < len envelopeType then
      (refuseSend clientRef "bad_envelope" "envelope type too long", w)
    else
      match sendAuth C e.store.now toId deliveryToken w.app with
      | none => (refuseSend clientRef "delivery_denied" "delivery token rejected", w)
      | some app => (sendRate clientRef toId envelopeType ciphertext, { w with app := app })
  | .uploadBundle requestId bundleId ciphertext expiresAtMs pow =>
    if !validBundleId bundleId ∨ maxBundleBytes < len ciphertext then
      (refuse "bad_bundle" "invalid invite bundle", w)
    else if !(pow.any fun n => verifyPow C e.store.now bundleId n) then
      (refuse "bad_pow" "invalid proof of work for invite bundle upload", w)
    else (prune .check (.uploadBundle requestId bundleId ciphertext expiresAtMs pow), w)
  | .fetchBundle requestId bundleId => (prune .check (.fetchBundle requestId bundleId), w)
  | .uploadFileChunk requestId transferId chunkIndex totalChunks totalBytes ciphertext pow =>
    if !validBundleId transferId then
      (refuseFile requestId transferId "bad_request" "invalid transfer id", w)
    else
      match C.decodeB64 ciphertext with
      | none => (refuseFile requestId transferId "bad_request" "invalid chunk encoding", w)
      | some raw =>
        if chunkIndex = 0 ∧ !(pow.any fun n => verifyPow C e.store.now transferId n) then
          (refuseFile requestId transferId "pow_required"
            "invalid proof of work for new file transfer", w)
        else (file (.storeClaim ⟨transferId, chunkIndex, totalChunks, totalBytes, raw⟩) requestId
          transferId chunkIndex, w)
  | .fetchFileChunk requestId transferId chunkIndex =>
    if !validBundleId transferId then
      (refuseFile requestId transferId "bad_request" "invalid transfer id", w)
    else (file (.fetchShape transferId chunkIndex) requestId transferId chunkIndex, w)
  | .deleteTransfer requestId transferId =>
    if !validBundleId transferId then
      (refuseFile requestId transferId "bad_request" "invalid transfer id", w)
    else (file (.delTxn transferId .ret) requestId transferId 0, w)
  | .ack ids =>
    match s.recipientId with
    | none => (refuse "not_registered" "send hello first", w)
    | some rid => (ackQueue (.ackTxn rid ids), w)
  | .retireMailbox =>
    match s.recipientId with
    | none => (refuse "not_registered" "send hello first", w)
    | some rid =>
      if (w.app.mailboxAuth.get rid).isSome then
        (retireCount rid,
          { w with app := { w.app with mailboxAuth := w.app.mailboxAuth.erase rid } })
      else (retirePurge rid (.purgeTxn rid), w)
  | .ping => (reply (.pong e.store.now) false, w)

/-- Count a frame in the socket's window at clock `now`. -/
def countFrame (now : Nat) (s : Socket) : Socket :=
  let s := if rateWindowMs < now - s.windowStartMs then
    { s with windowStartMs := now, frameCount := 0 } else s
  { s with frameCount := s.frameCount + 1 }

/-- The next message: the frame budget of the socket, the size cap, and the parser. -/
def receive (C : Crates) (e : RelayEvent U) (s : Socket) (w : Relay U) :
    Socket × SocketPc U × Relay U :=
  match e.incoming with
  | .closed => (s, closeLook, w)
  | .other => (s, ready, w)
  | .text length parsed =>
    let s := countFrame e.store.now s
    if maxFramesPerWindow < s.frameCount then
      (s, refuse "rate_limited" "too many frames on this socket", w)
    else if maxFrameBytes < length then (s, refuse "too_large" "frame too large", w)
    else
      match parsed with
      | .error m => (s, refuse "bad_json" m, w)
      | .ok f => (s, handle C e s w f)

/-- The reply to a finished file call. -/
def fileReply (C : Crates) (requestId transferId : String) (chunkIndex : Nat) :
    FileResult → SocketPc U
  | .stored (.ok r) =>
    reply (.fileChunkStored requestId transferId chunkIndex r.receivedChunks r.totalChunks) false
  | .fetched (.ok r) =>
    reply (.fileChunk requestId transferId chunkIndex r.totalChunks r.totalBytes
      (C.encodeB64 r.data)) false
  | .stored (.error r) | .fetched (.error r) =>
    refuseFile requestId transferId r.code r.message
  | .deleted _ | .swept _ => reply (.transferDeleted requestId transferId) false

/-- The reply to a file call that was not run. -/
def fileNotRun (requestId transferId : String) : FileTask → SocketPc U
  | .storeClaim _ => refuseFile requestId transferId "relay_full" "could not store file chunk"
  | .fetchShape _ _ => refuseFile requestId transferId "not_found" "could not read file chunk"
  | _ => reply (.transferDeleted requestId transferId) false

/-- Where `prune_expired_bundles` returns to. -/
def afterPrune : ClientFrame U → SocketPc U
  | .uploadBundle requestId bundleId ciphertext expiresAtMs _ =>
    uploadLook requestId bundleId ciphertext expiresAtMs
  | .fetchBundle requestId bundleId => fetchBundle requestId bundleId
  | _ => ready

/-- The expiry an uploaded bundle gets at clock `now`. -/
def bundleExpires (now expiresAtMs : Nat) : Nat :=
  max (min expiresAtMs (now + maxBundleTtlMs)) (now + 60000)

/-- `send(..).await`: pushed, given up because the channel is closed, or not enabled. -/
def awaitSend (w : Relay U) (sid : Nat) (f : ServerFrame U) : Option (Bool × Relay U) :=
  match w.chans[sid]? with
  | none => some (false, w)
  | some c =>
    if !c.isOpen then some (false, w)
    else if c.hasRoom then some (true, { w with chans := w.chans.set sid (c.push f) })
    else none

variable [UuidText U] [DecidableEq U]

/-- A step of a queue call inside a handler: `done` when it has returned or was not run. -/
def queueStep (e : RelayEvent U) (q : QueueTask U) (w : Relay U)
    (next : QueueTask U → SocketPc U) (done : Except DbError Nat → SocketPc U) :
    Option (SocketPc U × Relay U) :=
  match q with
  | .done r => some (done r, w)
  | q =>
    if e.notRun && q.starts then some (done (.error .db), w)
    else (q.step e.store w.app.queues).map fun r =>
      (next r.1, { w with app := { w.app with queues := r.2 } })

/-- The next atomic step of a socket's task. -/
def step (C : Crates) (e : RelayEvent U) (s : Socket) (w : Relay U) :
    SocketPc U → Option (Socket × SocketPc U × Relay U)
  | ready => some (receive C e s w)
  | reply f last => some (s, if last then closeLook else ready, (w.trySend s.sid f).2)
  | helloMark rid selected certOnly =>
    some ({ s with recipientId := some rid }, helloOk rid selected certOnly,
      { w with app := w.app.markAuthDirty rid })
  | helloOk rid selected certOnly =>
    some (s, if certOnly then ready else helloOnline rid selected,
      (w.trySend s.sid (.helloOk selected protocolMinSupported protocolVersion e.store.now
        w.app.trustRootPublicB64 w.app.fileConfig.maxFileBytes)).2)
  | helloOnline rid selected =>
    some (s, helloFlush rid selected,
      { w with app := { w.app with online := w.app.online.insert rid s.sid } })
  | helloFlush rid selected =>
    let envs :=
      if e.notRun then []
      else
        match ((QueueStore.flush U rid).commit e.store.faults w.app.queues.envelopes).1 with
        | .ok envs => envs
        | .error _ => []
    some (s, helloPush envs 0 selected, w)
  | helloPush [] delivered selected => some (s, helloSynced delivered selected, w)
  | helloPush (env :: rest) delivered selected =>
    (awaitSend w s.sid (.envelope env)).map fun r =>
      (s, if r.1 then helloPush rest (delivered + 1) selected else helloSynced delivered selected,
        r.2)
  | helloSynced delivered selected =>
    if 6 ≤ selected then (awaitSend w s.sid (.synced delivered)).map fun r => (s, ready, r.2)
    else some (s, ready, w)
  | tokensMark rid f => some (s, reply f false, { w with app := w.app.markAuthDirty rid })
  | sendRate clientRef toId envelopeType ciphertext =>
    match w.app.allowDestSend e.store.now toId with
    | (true, app) => some (s, sendLive clientRef toId envelopeType ciphertext, { w with app := app })
    | (false, app) =>
      some (s, refuseSend clientRef "rate_limited" "too many sends to this destination",
        { w with app := app })
  | sendLive clientRef toId envelopeType ciphertext =>
    -- version 4 UUIDs are taken not to repeat
    if e.uuid ∈ w.issued then none
    else
      let env : StoredEnvelope U := ⟨e.uuid, toId, envelopeType, ciphertext⟩
      let w := { w with issued := e.uuid :: w.issued }
      match w.app.online.get toId with
      | none => some (s, sendCheck clientRef env false, w)
      | some sid =>
        match w.trySend sid (.envelope env) with
        | (true, w) => some (s, sendCheck clientRef env true, w)
        | (false, w) => some (s, sendStale clientRef env, w)
  | sendStale clientRef env =>
    some (s, sendCheck clientRef env false,
      { w with app := { w.app with online := w.app.online.erase env.toId } })
  | sendCheck clientRef env live =>
    if w.app.queues.wouldExceedGlobal (len env.ciphertext) then
      some (s, if live then reply (.sendOk env.id false clientRef) false
        else refuseSend clientRef "relay_full" "relay queue storage limit reached", w)
    else some (s, sendQueue clientRef env live (.enqSeq env.toId env), w)
  | sendQueue clientRef env live q =>
    (queueStep e q w (sendQueue clientRef env live)
      fun r => sendMark clientRef env live r.isOk).map fun r => (s, r)
  | sendMark clientRef env live enqueued =>
    some (s, if enqueued || live then reply (.sendOk env.id (!live) clientRef) false
      else refuseSend clientRef "relay_error" "could not persist message for offline delivery",
      { w with app := w.app.markAuthDirty env.toId })
  | prune .done f => some (s, afterPrune f, w)
  | prune p f =>
    (p.step e.store w.app).map fun r => (s, prune r.1 f, { w with app := r.2 })
  | uploadLook requestId bundleId ciphertext expiresAtMs =>
    match existingReply e.store.now requestId bundleId ciphertext w.app with
    | some f => some (s, reply f false, w)
    | none => some (s, uploadCount requestId bundleId ciphertext expiresAtMs, w)
  | uploadCount requestId bundleId ciphertext expiresAtMs =>
    some (s, if maxBundles ≤ w.app.bundles.size then
      refuse "relay_full" "relay invite bundle limit reached"
      else uploadBytes requestId bundleId ciphertext expiresAtMs, w)
  | uploadBytes requestId bundleId ciphertext expiresAtMs =>
    some (s, if maxTotalBundleBytes < w.app.totalBundleBytes + len ciphertext then
      refuse "relay_full" "relay invite bundle storage limit reached"
      else uploadInsert requestId bundleId ciphertext expiresAtMs, w)
  | uploadInsert requestId bundleId ciphertext expiresAtMs =>
    let expires := bundleExpires e.store.now expiresAtMs
    let bundle : HostedBundle := ⟨bundleId, ciphertext, e.store.now, expires⟩
    some (s, match w.app.bundles.get bundleId with
      | some old => uploadSub requestId bundleId (len old.ciphertext) (len ciphertext) expires
      | none => uploadAdd requestId bundleId (len ciphertext) expires,
      { w with app := { w.app with bundles := w.app.bundles.insert bundleId bundle } })
  | uploadSub requestId bundleId old added expires =>
    some (s, uploadAdd requestId bundleId added expires, { w with app := w.app.subBundleBytes old })
  | uploadAdd requestId bundleId added expires =>
    some (s, uploadMark requestId bundleId expires,
      { w with app := { w.app with totalBundleBytes := w.app.totalBundleBytes + added } })
  | uploadMark requestId bundleId expires =>
    some (s, reply (.bundleUploaded requestId bundleId expires) false,
      { w with app := w.app.markBundleDirty bundleId })
  | fetchBundle requestId bundleId =>
    match w.app.bundles.get bundleId with
    | some b =>
      some (s, if e.store.now < b.expiresAtMs then
        reply (.bundle requestId b.id b.ciphertext b.expiresAtMs) false
        else refuse "bundle_not_found" "invite bundle was not found or has expired", w)
    | none =>
      some (s, refuse "bundle_not_found" "invite bundle was not found or has expired", w)
  | file (.done r) requestId transferId chunkIndex =>
    some (s, fileReply C requestId transferId chunkIndex r, w)
  | file t requestId transferId chunkIndex =>
    if e.notRun && t.starts then some (s, fileNotRun requestId transferId t, w)
    else (t.step e.store w.app.files).map fun r =>
      (s, file r.1 requestId transferId chunkIndex, { w with app := { w.app with files := r.2 } })
  | ackQueue q =>
    (queueStep e q w ackQueue fun r =>
      reply (.ackOk (match r with | .ok n => n | .error _ => 0)) false).map fun r => (s, r)
  | retireCount rid =>
    some (s, retirePurge rid (.purgeTxn rid),
      { w with app := { w.app with mailboxCount := fetchSubOne w.app.mailboxCount } })
  | retirePurge rid q =>
    (queueStep e q w (retirePurge rid) fun _ => retireRate rid).map fun r => (s, r)
  | retireRate rid =>
    some (s, retireOnline rid, { w with app := { w.app with sendRate := w.app.sendRate.erase rid } })
  | retireOnline rid =>
    some (s, retireMark rid, { w with app := { w.app with online := w.app.online.erase rid } })
  | retireMark rid =>
    some (s, reply (.ackOk 0) true, { w with app := w.app.markAuthDirty rid })
  | closeLook =>
    match s.recipientId with
    | none => some (s, closeEnd, w)
    | some rid =>
      some (s, if w.app.online.get rid = some s.sid then closeRemove rid else closeEnd, w)
  | closeRemove rid =>
    some (s, closeEnd, { w with app := { w.app with online := w.app.online.erase rid } })
  | closeEnd =>
    some (s, closed, { w with
      app := { w.app with connCount := w.app.connCount - 1 }
      chans := w.chans.modify s.sid fun c => { c with isOpen := false } })
  | closed => none

end Handlers

end SocketPc

end AxenoRelay
