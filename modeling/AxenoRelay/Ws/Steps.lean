/-
  What one step of a socket does.

  `SocketPc.Stepped` lists the steps of `handle_socket` with the place before and
  after and the one change each makes to the relay; `stepped_of_step` says there are
  no others. Steps between two places that owe nothing to the shared state are one
  case, `inner`.
-/
import AxenoRelay.Ws.Basic

namespace AxenoRelay

namespace Relay

variable {U : Type}

/-- The relay after a frame was offered to the socket's own channel. -/
def say (w : Relay U) (sid : Nat) (f : ServerFrame U) : Relay U := (w.trySend sid f).2

theorem say_app (w : Relay U) (sid : Nat) (f : ServerFrame U) : (w.say sid f).app = w.app := by
  unfold say trySend
  split <;> rfl

theorem say_issued (w : Relay U) (sid : Nat) (f : ServerFrame U) :
    (w.say sid f).issued = w.issued := by
  unfold say trySend
  split <;> rfl

end Relay

namespace SocketPc

section

variable {U : Type}

/-- A place where the handler owes nothing to the metadata, the queues or the routes. -/
def Plain : SocketPc U → Prop
  | ready | reply _ false | prune .check _ | prune .done _ | uploadLook _ _ _ _
  | uploadCount _ _ _ _ | uploadBytes _ _ _ _ | uploadInsert _ _ _ _ | fetchBundle _ _
  | file _ _ _ _ | closeLook => True
  | _ => False

/-- The reply to a fetch of bundle `id` at clock `now`. -/
def bundleReply (now : Nat) (requestId id : String) (st : AppState) : ServerFrame U :=
  match st.bundles.get id with
  | some b =>
    if now < b.expiresAtMs then .bundle requestId b.id b.ciphertext b.expiresAtMs
    else err "bundle_not_found" "invite bundle was not found or has expired"
  | none => err "bundle_not_found" "invite bundle was not found or has expired"

/-- The record after its delivery tokens were replaced. -/
def retokened (C : Crates) (tokens : List String) (auth : MailboxAuth) : MailboxAuth :=
  auth.replaceDeliveryHashes (tokens.map (tokenHash C))

/-- The steps of a handler that change nothing shared. -/
inductive Inner (C : Crates) (e : RelayEvent U) (w : Relay U) : SocketPc U → SocketPc U → Prop
  | refused (f : ServerFrame U) : Inner C e w ready (reply f false)
  | ignored : Inner C e w ready ready
  | ended (h : e.incoming = .closed) : Inner C e w ready closeLook
  | upload (n : Nat) (r id ct : String) (x : Nat) (pow : Option String)
      (hin : e.incoming = .text n (.ok (.uploadBundle r id ct x pow)))
      (hpow : (pow.any fun p => verifyPow C e.store.now id p) = true) :
      Inner C e w ready (prune .check (.uploadBundle r id ct x pow))
  | fetch (r id : String) : Inner C e w ready (prune .check (.fetchBundle r id))
  | storeChunk (n : Nat) (r id : String) (i total size : Nat) (ct : String) (pow : Option String)
      (raw : List UInt8)
      (hin : e.incoming = .text n (.ok (.uploadFileChunk r id i total size ct pow)))
      (hpow : i = 0 → (pow.any fun p => verifyPow C e.store.now id p) = true)
      (hid : validBundleId id = true) :
      Inner C e w ready (file (.storeClaim ⟨id, i, total, size, raw⟩) r id i)
  | fetchChunk (r id : String) (i : Nat) (hid : validBundleId id = true) :
      Inner C e w ready (file (.fetchShape id i) r id i)
  | delete (r id : String) (hid : validBundleId id = true) :
      Inner C e w ready (file (.delTxn id .ret) r id 0)
  | pruned (f : ClientFrame U) : Inner C e w (prune .done f) (afterPrune f)
  | found (r id ct : String) (x : Nat) (f : ServerFrame U)
      (h : existingReply e.store.now r id ct w.app = some f) :
      Inner C e w (uploadLook r id ct x) (reply f false)
  | vacant (r id ct : String) (x : Nat)
      (h : existingReply (U := U) e.store.now r id ct w.app = none) :
      Inner C e w (uploadLook r id ct x) (uploadCount r id ct x)
  | countFull (r id ct : String) (x : Nat) (f : ServerFrame U) :
      Inner C e w (uploadCount r id ct x) (reply f false)
  | countOk (r id ct : String) (x : Nat) :
      Inner C e w (uploadCount r id ct x) (uploadBytes r id ct x)
  | bytesFull (r id ct : String) (x : Nat) (f : ServerFrame U) :
      Inner C e w (uploadBytes r id ct x) (reply f false)
  | bytesOk (r id ct : String) (x : Nat) :
      Inner C e w (uploadBytes r id ct x) (uploadInsert r id ct x)
  | fetched (r id : String) :
      Inner C e w (fetchBundle r id) (reply (bundleReply e.store.now r id w.app) false)
  | fileDone (res : FileResult) (r id : String) (i : Nat) :
      Inner C e w (file (.done res) r id i) (fileReply C r id i res)
  | fileLost (t : FileTask) (r id : String) (i : Nat) (hrun : e.notRun = true)
      (ht : t.starts = true) : Inner C e w (file t r id i) (fileNotRun r id t)

theorem Inner.source {C : Crates} {e : RelayEvent U} {w : Relay U} {pc pc' : SocketPc U}
    (h : Inner C e w pc pc') : pc.Plain := by
  cases h <;> trivial

theorem Inner.target {C : Crates} {e : RelayEvent U} {w : Relay U} {pc pc' : SocketPc U}
    (h : Inner C e w pc pc') : pc'.Plain := by
  cases h
  case pruned f => cases f <;> trivial
  case fileDone res r id i =>
    unfold fileReply
    split <;> trivial
  case fileLost t r id i _ _ => cases t <;> trivial
  all_goals trivial

end

section

variable {U : Type} [UuidText U]

/-- What a step does to the socket, its place and the relay. -/
inductive Stepped (C : Crates) (e : RelayEvent U) :
    Socket → SocketPc U → Relay U → Socket → SocketPc U → Relay U → Prop
  | inner (s s' : Socket) (pc pc' : SocketPc U) (w : Relay U)
      (hs : s'.sid = s.sid ∧ s'.recipientId = s.recipientId) (h : Inner C e w pc pc') :
      Stepped C e s pc w s' pc' w
  | said (s : Socket) (f : ServerFrame U) (last : Bool) (w : Relay U) :
      Stepped C e s (reply f last) w s (if last then closeLook else ready) (w.say s.sid f)
  | filed (s : Socket) (t t' : FileTask) (r id : String) (i : Nat) (st : FileStore) (w : Relay U)
      (h : t.step e.store w.app.files = some (t', st)) :
      Stepped C e s (file t r id i) w s (file t' r id i)
        { w with app := { w.app with files := st } }
  | pruned (s : Socket) (p p' : PruneTask) (f : ClientFrame U) (st : AppState) (w : Relay U)
      (h : p.step e.store w.app = some (p', st)) :
      Stepped C e s (prune p f) w s (prune p' f) { w with app := st }
  | hello (s s' : Socket) (n : Nat) (rid token delivery : String)
      (pmin pmax version : Option Nat) (pow : Option String) (selected : Nat) (certOnly : Bool)
      (app : AppState) (w : Relay U)
      (hin : e.incoming = .text n (.ok (.hello rid token delivery pmin pmax version pow certOnly)))
      (hrid : validRecipientId rid = true)
      (h : helloEntry C e.store.now rid (tokenHash C token) (tokenHash C delivery) pow w.app =
        .ok app)
      (hs : s'.sid = s.sid ∧ s'.recipientId = s.recipientId) :
      Stepped C e s ready w s' (helloMark rid selected certOnly) { w with app := app }
  | helloMark (s : Socket) (rid : RecipientId) (selected : Nat) (certOnly : Bool) (w : Relay U) :
      Stepped C e s (helloMark rid selected certOnly) w { s with recipientId := some rid }
        (helloOk rid selected certOnly) { w with app := w.app.markAuthDirty rid }
  | helloOk (s : Socket) (rid : RecipientId) (selected : Nat) (certOnly : Bool)
      (f : ServerFrame U) (w : Relay U) :
      Stepped C e s (helloOk rid selected certOnly) w s
        (if certOnly then ready else helloOnline rid selected) (w.say s.sid f)
  | helloOnline (s : Socket) (rid : RecipientId) (selected : Nat) (w : Relay U) :
      Stepped C e s (helloOnline rid selected) w s (helloFlush rid selected)
        { w with app := { w.app with online := w.app.online.insert rid s.sid } }
  | helloFlush (s : Socket) (rid : RecipientId) (selected : Nat) (envs : List (StoredEnvelope U))
      (w : Relay U) (h : e.notRun = false → ∀ l,
        ((QueueStore.flush U rid).commit e.store.faults w.app.queues.envelopes).1 = .ok l →
          envs = l) :
      Stepped C e s (helloFlush rid selected) w s (helloPush envs 0 selected) w
  | helloPush (s : Socket) (env : StoredEnvelope U) (rest : List (StoredEnvelope U))
      (delivered selected : Nat) (c : Chan U) (w : Relay U) (h : w.chans[s.sid]? = some c) :
      Stepped C e s (helloPush (env :: rest) delivered selected) w s
        (helloPush rest (delivered + 1) selected)
        { w with chans := w.chans.set s.sid (c.push (.envelope env)) }
  | helloStop (s : Socket) (rest : List (StoredEnvelope U)) (delivered selected : Nat)
      (w : Relay U) (h : rest = [] ∨ ∀ c, w.chans[s.sid]? = some c → c.isOpen = false) :
      Stepped C e s (helloPush rest delivered selected) w s (helloSynced delivered selected) w
  | helloSynced (s : Socket) (delivered selected : Nat) (c : Chan U) (w : Relay U)
      (h : w.chans[s.sid]? = some c) :
      Stepped C e s (helloSynced delivered selected) w s ready
        { w with chans := w.chans.set s.sid (c.push (.synced delivered)) }
  | helloDone (s : Socket) (delivered selected : Nat) (w : Relay U) :
      Stepped C e s (helloSynced delivered selected) w s ready w
  | tokens (s s' : Socket) (rid : RecipientId) (auth : MailboxAuth) (n : Nat)
      (requestId : String) (tokens : List String) (f : ServerFrame U) (w : Relay U)
      (hin : e.incoming = .text n (.ok (.setDeliveryTokens requestId tokens)))
      (hrid : s.recipientId = some rid) (h : w.app.mailboxAuth.get rid = some auth)
      (hs : s'.sid = s.sid ∧ s'.recipientId = s.recipientId) :
      Stepped C e s ready w s' (tokensMark rid f)
        { w with app := { w.app with
            mailboxAuth := w.app.mailboxAuth.insert rid (retokened C tokens auth) } }
  | tokensMark (s : Socket) (rid : RecipientId) (f : ServerFrame U) (w : Relay U) :
      Stepped C e s (tokensMark rid f) w s (reply f false)
        { w with app := w.app.markAuthDirty rid }
  | sendAuth (s s' : Socket) (n : Nat) (r : Option String) (m token ty ct : String)
      (auth : MailboxAuth) (w : Relay U)
      (hin : e.incoming = .text n (.ok (.sendEnvelope r m token ty ct)))
      (haccepts : auth.acceptsDeliveryHash (tokenHash C token) = true)
      (hm : validRecipientId m = true) (h : w.app.mailboxAuth.get m = some auth)
      (hs : s'.sid = s.sid ∧ s'.recipientId = s.recipientId) :
      Stepped C e s ready w s' (sendRate r m ty ct)
        { w with app := { w.app with
            mailboxAuth := w.app.mailboxAuth.insert m (refreshed e.store.now auth) } }
  | sendRate (s : Socket) (r : Option String) (m ty ct : String)
      (rates : OrdMap RecipientId (Nat × Nat)) (w : Relay U) :
      Stepped C e s (sendRate r m ty ct) w s (sendLive r m ty ct)
        { w with app := { w.app with sendRate := rates } }
  | sendRefused (s : Socket) (r : Option String) (m ty ct : String) (f : ServerFrame U)
      (rates : OrdMap RecipientId (Nat × Nat)) (w : Relay U)
      (h : (w.app.allowDestSend e.store.now m).1 = false) :
      Stepped C e s (sendRate r m ty ct) w s (reply f false)
        { w with app := { w.app with sendRate := rates } }
  | sendMissed (s : Socket) (r : Option String) (m ty ct : String) (w : Relay U)
      (hnew : e.uuid ∉ w.issued) (h : w.app.online.get m = none) :
      Stepped C e s (sendLive r m ty ct) w s (sendCheck r ⟨e.uuid, m, ty, ct⟩ false)
        { w with issued := e.uuid :: w.issued }
  | sendPushed (s : Socket) (r : Option String) (m ty ct : String) (sid : Nat) (c : Chan U)
      (w : Relay U) (hnew : e.uuid ∉ w.issued) (h : w.app.online.get m = some sid)
      (hc : w.chans[sid]? = some c) :
      Stepped C e s (sendLive r m ty ct) w s (sendCheck r ⟨e.uuid, m, ty, ct⟩ true)
        { w with
          issued := e.uuid :: w.issued
          chans := w.chans.set sid (c.push (.envelope ⟨e.uuid, m, ty, ct⟩)) }
  | sendFailed (s : Socket) (r : Option String) (m ty ct : String) (sid : Nat) (w : Relay U)
      (hnew : e.uuid ∉ w.issued) (h : w.app.online.get m = some sid)
      (hc : ∀ c, w.chans[sid]? = some c → (c.isOpen && c.hasRoom) = false) :
      Stepped C e s (sendLive r m ty ct) w s (sendStale r ⟨e.uuid, m, ty, ct⟩)
        { w with issued := e.uuid :: w.issued }
  | sendStale (s : Socket) (r : Option String) (env : StoredEnvelope U) (w : Relay U) :
      Stepped C e s (sendStale r env) w s (sendCheck r env false)
        { w with app := { w.app with online := w.app.online.erase env.toId } }
  | sendFull (s : Socket) (r : Option String) (env : StoredEnvelope U) (live : Bool)
      (f : ServerFrame U) (w : Relay U)
      (h : w.app.queues.wouldExceedGlobal (len env.ciphertext) = true) :
      Stepped C e s (sendCheck r env live) w s (reply f false) w
  | sendStart (s : Socket) (r : Option String) (env : StoredEnvelope U) (live : Bool)
      (w : Relay U) :
      Stepped C e s (sendCheck r env live) w s (sendQueue r env live (.enqSeq env.toId env)) w
  | sendQueue (s : Socket) (r : Option String) (env : StoredEnvelope U) (live : Bool)
      (q q' : QueueTask U) (st : QueueStore) (w : Relay U)
      (h : q.step e.store w.app.queues = some (q', st)) :
      Stepped C e s (sendQueue r env live q) w s (sendQueue r env live q')
        { w with app := { w.app with queues := st } }
  | sendQueued (s : Socket) (r : Option String) (env : StoredEnvelope U) (live ok : Bool)
      (q : QueueTask U) (w : Relay U) (hq : q.finished = true ∨ q.starts = true ∧ ok = false) :
      Stepped C e s (sendQueue r env live q) w s (sendMark r env live ok) w
  | sendMark (s : Socket) (r : Option String) (env : StoredEnvelope U) (live ok : Bool)
      (f : ServerFrame U) (w : Relay U) :
      Stepped C e s (sendMark r env live ok) w s (reply f false)
        { w with app := w.app.markAuthDirty env.toId }
  | uploadOver (s : Socket) (r id ct : String) (x : Nat) (b old : HostedBundle) (w : Relay U)
      (hb : b.id = id ∧ b.ciphertext = ct ∧ b.expiresAtMs = bundleExpires e.store.now x)
      (h : w.app.bundles.get id = some old) :
      Stepped C e s (uploadInsert r id ct x) w s
        (uploadSub r id (len old.ciphertext) (len ct) b.expiresAtMs)
        { w with app := { w.app with bundles := w.app.bundles.insert id b } }
  | uploadNew (s : Socket) (r id ct : String) (x : Nat) (b : HostedBundle) (w : Relay U)
      (hb : b.id = id ∧ b.ciphertext = ct ∧ b.expiresAtMs = bundleExpires e.store.now x)
      (h : w.app.bundles.get id = none) :
      Stepped C e s (uploadInsert r id ct x) w s (uploadAdd r id (len ct) b.expiresAtMs)
        { w with app := { w.app with bundles := w.app.bundles.insert id b } }
  | uploadSub (s : Socket) (r id : String) (old n x : Nat) (w : Relay U) :
      Stepped C e s (uploadSub r id old n x) w s (uploadAdd r id n x)
        { w with app := w.app.subBundleBytes old }
  | uploadAdd (s : Socket) (r id : String) (n x : Nat) (w : Relay U) :
      Stepped C e s (uploadAdd r id n x) w s (uploadMark r id x)
        { w with app := { w.app with totalBundleBytes := w.app.totalBundleBytes + n } }
  | uploadMark (s : Socket) (r id : String) (x : Nat) (f : ServerFrame U) (w : Relay U) :
      Stepped C e s (uploadMark r id x) w s (reply f false)
        { w with app := w.app.markBundleDirty id }
  | ack (s s' : Socket) (n : Nat) (rid : RecipientId) (ids : List U) (w : Relay U)
      (hin : e.incoming = .text n (.ok (.ack ids)))
      (hrid : s.recipientId = some rid) (hs : s'.sid = s.sid ∧ s'.recipientId = s.recipientId) :
      Stepped C e s ready w s' (ackQueue (.ackTxn rid ids)) w
  | ackQueue (s : Socket) (q q' : QueueTask U) (st : QueueStore) (w : Relay U)
      (h : q.step e.store w.app.queues = some (q', st)) :
      Stepped C e s (ackQueue q) w s (ackQueue q') { w with app := { w.app with queues := st } }
  | acked (s : Socket) (q : QueueTask U) (f : ServerFrame U) (w : Relay U) :
      Stepped C e s (ackQueue q) w s (reply f false) w
  | retire (s s' : Socket) (n : Nat) (rid : RecipientId) (auth : MailboxAuth) (w : Relay U)
      (hin : e.incoming = .text n (.ok .retireMailbox))
      (hrid : s.recipientId = some rid) (h : w.app.mailboxAuth.get rid = some auth)
      (hs : s'.sid = s.sid ∧ s'.recipientId = s.recipientId) :
      Stepped C e s ready w s' (retireCount rid)
        { w with app := { w.app with mailboxAuth := w.app.mailboxAuth.erase rid } }
  | retireNone (s s' : Socket) (n : Nat) (rid : RecipientId) (w : Relay U)
      (hin : e.incoming = .text n (.ok .retireMailbox))
      (hrid : s.recipientId = some rid) (h : w.app.mailboxAuth.get rid = none)
      (hs : s'.sid = s.sid ∧ s'.recipientId = s.recipientId) :
      Stepped C e s ready w s' (retirePurge rid (.purgeTxn rid)) w
  | retireCount (s : Socket) (rid : RecipientId) (w : Relay U) :
      Stepped C e s (retireCount rid) w s (retirePurge rid (.purgeTxn rid))
        { w with app := { w.app with mailboxCount := fetchSubOne w.app.mailboxCount } }
  | retirePurge (s : Socket) (rid : RecipientId) (q q' : QueueTask U) (st : QueueStore)
      (w : Relay U) (h : q.step e.store w.app.queues = some (q', st)) :
      Stepped C e s (retirePurge rid q) w s (retirePurge rid q')
        { w with app := { w.app with queues := st } }
  | retirePurged (s : Socket) (rid : RecipientId) (q : QueueTask U) (w : Relay U)
      (hq : q.finished = true ∨ q.starts = true ∧ e.notRun = true) :
      Stepped C e s (retirePurge rid q) w s (retireRate rid) w
  | retireRate (s : Socket) (rid : RecipientId) (rates : OrdMap RecipientId (Nat × Nat))
      (w : Relay U) :
      Stepped C e s (retireRate rid) w s (retireOnline rid)
        { w with app := { w.app with sendRate := rates } }
  | retireOnline (s : Socket) (rid : RecipientId) (w : Relay U) :
      Stepped C e s (retireOnline rid) w s (retireMark rid)
        { w with app := { w.app with online := w.app.online.erase rid } }
  | retireMark (s : Socket) (rid : RecipientId) (f : ServerFrame U) (w : Relay U) :
      Stepped C e s (retireMark rid) w s (reply f true) { w with app := w.app.markAuthDirty rid }
  | closeSeen (s : Socket) (rid : RecipientId) (w : Relay U) (hrid : s.recipientId = some rid)
      (h : w.app.online.get rid = some s.sid) : Stepped C e s closeLook w s (closeRemove rid) w
  | closeSkipped (s : Socket) (w : Relay U)
      (h : ∀ rid, s.recipientId = some rid → w.app.online.get rid ≠ some s.sid) :
      Stepped C e s closeLook w s closeEnd w
  | closeRemove (s : Socket) (rid : RecipientId) (w : Relay U) :
      Stepped C e s (closeRemove rid) w s closeEnd
        { w with app := { w.app with online := w.app.online.erase rid } }
  | closeEnd (s : Socket) (n : Nat) (w : Relay U) :
      Stepped C e s closeEnd w s closed { w with
        app := { w.app with connCount := n }
        chans := w.chans.modify s.sid fun c => { c with isOpen := false } }

/-- What an accepted Hello does to its record: refresh it, or create it in a free slot. -/
theorem helloEntry_cases {C : Crates} {now : Nat} {rid auth delivery : String}
    {pow : Option String} {st st' : AppState}
    (h : helloEntry C now rid auth delivery pow st = .ok st') :
    (∃ a a', st.mailboxAuth.get rid = some a ∧ a'.lastActiveMs = nowActivityMs now ∧
      st' = { st with mailboxAuth := st.mailboxAuth.insert rid a' }) ∨
    (st.mailboxAuth.get rid = none ∧ ∃ a', a'.lastActiveMs = nowActivityMs now ∧ st' = { st with
      mailboxAuth := st.mailboxAuth.insert rid a', mailboxCount := st.mailboxCount + 1 }) := by
  unfold helloEntry at h
  cases hget : st.mailboxAuth.get rid with
  | some a =>
    simp only [hget] at h
    split_ifs at h
    cases h
    exact Or.inl ⟨a, _, rfl, MailboxAuth.ensureDeliveryHash_lastActiveMs _ _, rfl⟩
  | none =>
    simp only [hget, AppState.reserveMailboxSlot] at h
    split_ifs at h
    cases h
    exact Or.inr ⟨rfl, _, rfl, rfl⟩

theorem sendAuth_cases {C : Crates} {now : Nat} {m token : String} {st st' : AppState}
    (h : sendAuth C now m token st = some st') :
    ∃ a, st.mailboxAuth.get m = some a ∧ a.acceptsDeliveryHash (tokenHash C token) = true ∧
      st' = { st with mailboxAuth := st.mailboxAuth.insert m (refreshed now a) } := by
  unfold sendAuth at h
  cases hget : st.mailboxAuth.get m with
  | none =>
    simp only [hget] at h
    cases h
  | some a =>
    simp only [hget] at h
    split_ifs at h with haccepts
    cases h
    exact ⟨a, rfl, haccepts, rfl⟩

/-- The first piece of a handler. -/
theorem handle_stepped {C : Crates} {e : RelayEvent U} {s s' : Socket} {w : Relay U} {n : Nat}
    (hs : s'.sid = s.sid ∧ s'.recipientId = s.recipientId) {f : ClientFrame U}
    (hin : e.incoming = .text n (.ok f)) :
    Stepped C e s ready w s' (handle C e s' w f).1 (handle C e s' w f).2 := by
  have hrefused : ∀ g : ServerFrame U, Stepped C e s ready w s' (reply g false) w :=
    fun g => Stepped.inner s s' ready _ w hs (Inner.refused g)
  cases f with
  | hello rid auth delivery pmin pmax version pow certOnly =>
    simp only [handle]
    split_ifs with h1 h2
    · exact hrefused _
    · exact hrefused _
    · have hrid : validRecipientId rid = true := by
        simp only [Bool.or_eq_true, Bool.not_eq_true', not_or, Bool.not_eq_false] at h2
        exact h2.1.1
      cases happ : helloEntry C e.store.now rid (tokenHash C auth) (tokenHash C delivery) pow
          w.app with
      | error r => exact hrefused _
      | ok app =>
        exact Stepped.hello s s' n rid auth delivery pmin pmax version pow _ certOnly app w hin
          hrid happ hs
  | setDeliveryTokens requestId tokens =>
    simp only [handle]
    cases hrid : s'.recipientId with
    | none => exact hrefused _
    | some rid =>
      dsimp only
      split_ifs
      · exact hrefused _
      · cases hget : w.app.mailboxAuth.get rid with
        | none => exact hrefused _
        | some auth =>
          exact Stepped.tokens s s' rid auth n requestId tokens _ w hin (hs.2 ▸ hrid) hget hs
  | issueSenderCertificate requestId uuid device key =>
    simp only [handle]
    cases hrid : s'.recipientId with
    | none => exact hrefused _
    | some rid =>
      dsimp only
      split_ifs
      · exact hrefused _
      · cases certRequest C uuid device key with
        | error m => exact hrefused _
        | ok k =>
          cases e.cert with
          | error m => exact hrefused _
          | ok cert => exact hrefused _
  | sendEnvelope r m token ty ct =>
    simp only [handle]
    split_ifs with h1 h2
    · exact hrefused _
    · exact hrefused _
    · have hm : validRecipientId m = true := by
        simp only [Bool.or_eq_true, Bool.not_eq_true', not_or, Bool.not_eq_false] at h1
        exact h1.1
      cases happ : sendAuth C e.store.now m token w.app with
      | none => exact hrefused _
      | some app =>
        obtain ⟨auth, hget, haccepts, rfl⟩ := sendAuth_cases happ
        exact Stepped.sendAuth s s' n r m token ty ct auth w hin haccepts hm hget hs
  | uploadBundle requestId bundleId ct x pow =>
    simp only [handle]
    split_ifs with h1 h2
    · exact hrefused _
    · exact hrefused _
    · have hpow : (pow.any fun p => verifyPow C e.store.now bundleId p) = true := by
        simpa using h2
      exact Stepped.inner s s' ready _ w hs (Inner.upload n _ _ _ _ _ hin hpow)
  | fetchBundle requestId bundleId =>
    exact Stepped.inner s s' ready _ w hs (Inner.fetch requestId bundleId)
  | uploadFileChunk requestId id i total size ct pow =>
    simp only [handle]
    by_cases hid : (!validBundleId id) = true
    · rw [if_pos hid]
      exact hrefused _
    · rw [if_neg hid]
      cases C.decodeB64 ct with
      | none => exact hrefused _
      | some raw =>
        dsimp only
        split_ifs with hpow
        · exact hrefused _
        · have hpaid : i = 0 → (pow.any fun p => verifyPow C e.store.now id p) = true := by
            intro hi
            by_contra hnot
            exact hpow ⟨hi, by simpa using hnot⟩
          exact Stepped.inner s s' ready _ w hs
            (Inner.storeChunk n requestId id i total size ct pow raw hin hpaid (by simpa using hid))
  | fetchFileChunk requestId id i =>
    simp only [handle]
    split_ifs with hid
    · exact hrefused _
    · exact Stepped.inner s s' ready _ w hs (Inner.fetchChunk _ _ _ (by simpa using hid))
  | deleteTransfer requestId id =>
    simp only [handle]
    split_ifs with hid
    · exact hrefused _
    · exact Stepped.inner s s' ready _ w hs (Inner.delete _ _ (by simpa using hid))
  | ack ids =>
    simp only [handle]
    cases hrid : s'.recipientId with
    | none => exact hrefused _
    | some rid => exact Stepped.ack s s' n rid ids w hin (hs.2 ▸ hrid) hs
  | retireMailbox =>
    simp only [handle]
    cases hrid : s'.recipientId with
    | none => exact hrefused _
    | some rid =>
      dsimp only
      cases hget : w.app.mailboxAuth.get rid with
      | none => exact Stepped.retireNone s s' n rid w hin (hs.2 ▸ hrid) hget hs
      | some auth => exact Stepped.retire s s' n rid auth w hin (hs.2 ▸ hrid) hget hs
  | ping => exact hrefused _

theorem receive_stepped (C : Crates) (e : RelayEvent U) (s : Socket) (w : Relay U) :
    Stepped C e s ready w (receive C e s w).1 (receive C e s w).2.1 (receive C e s w).2.2 := by
  unfold receive
  cases hin : e.incoming with
  | closed => exact Stepped.inner s s ready closeLook w ⟨rfl, rfl⟩ (Inner.ended hin)
  | other => exact Stepped.inner s s ready ready w ⟨rfl, rfl⟩ Inner.ignored
  | text n parsed =>
    dsimp only
    have hsame : (countFrame e.store.now s).sid = s.sid ∧
        (countFrame e.store.now s).recipientId = s.recipientId := by
      unfold countFrame
      dsimp only
      split_ifs <;> exact ⟨rfl, rfl⟩
    generalize countFrame e.store.now s = s' at hsame ⊢
    split_ifs
    · exact Stepped.inner s s' ready _ w hsame (Inner.refused _)
    · exact Stepped.inner s s' ready _ w hsame (Inner.refused _)
    · cases parsed with
      | error m => exact Stepped.inner s s' ready _ w hsame (Inner.refused _)
      | ok f => exact handle_stepped hsame hin

end

section

variable {U : Type}

theorem awaitSend_cases {w w' : Relay U} {sid : Nat} {f : ServerFrame U} {b : Bool}
    (h : awaitSend w sid f = some (b, w')) :
    (b = true ∧ ∃ c, w.chans[sid]? = some c ∧
      w' = { w with chans := w.chans.set sid (c.push f) }) ∨
    (b = false ∧ w' = w ∧ ∀ c, w.chans[sid]? = some c → c.isOpen = false) := by
  unfold awaitSend at h
  cases hc : w.chans[sid]? with
  | none =>
    simp only [hc] at h
    cases h
    exact Or.inr ⟨rfl, rfl, fun c h => by cases h⟩
  | some c =>
    simp only [hc] at h
    split_ifs at h with h1 h2
    · cases h
      refine Or.inr ⟨rfl, rfl, fun c' hc' => ?_⟩
      rw [← Option.some.inj hc']
      simpa using h1
    · cases h
      exact Or.inl ⟨rfl, c, rfl, rfl⟩

theorem trySend_cases (w : Relay U) (sid : Nat) (f : ServerFrame U) :
    (∃ c, w.chans[sid]? = some c ∧
      w.trySend sid f = (true, { w with chans := w.chans.set sid (c.push f) })) ∨
    (w.trySend sid f = (false, w) ∧
      ∀ c, w.chans[sid]? = some c → (c.isOpen && c.hasRoom) = false) := by
  unfold Relay.trySend
  cases hc : w.chans[sid]? with
  | none =>
    right
    exact ⟨rfl, fun c h => by cases h⟩
  | some c =>
    by_cases hroom : (c.isOpen && c.hasRoom) = true
    · left
      refine ⟨c, rfl, ?_⟩
      simp only [Chan.trySend, if_pos hroom]
    · right
      have hsame : w.chans.set sid c = w.chans := by
        obtain ⟨hlt, hget⟩ := List.getElem?_eq_some_iff.mp hc
        rw [← hget, List.set_getElem_self]
      refine ⟨?_, fun c' hc' => ?_⟩
      · simp only [Chan.trySend, if_neg hroom, hsame]
      · rw [← Option.some.inj hc']
        simpa using hroom

end

section

variable {U : Type} [UuidText U]

/-- A step of a queue call inside a handler. -/
theorem queueStep_cases {e : RelayEvent U} {q : QueueTask U} {w w' : Relay U} {pc' : SocketPc U}
    {next : QueueTask U → SocketPc U} {done : Except DbError Nat → SocketPc U}
    (h : queueStep e q w next done = some (pc', w')) :
    (∃ r, q = .done r ∧ pc' = done r ∧ w' = w) ∨
    (q.starts = true ∧ e.notRun = true ∧ pc' = done (.error .db) ∧ w' = w) ∨
    (∃ q' st, q.step e.store w.app.queues = some (q', st) ∧ pc' = next q' ∧
      w' = { w with app := { w.app with queues := st } }) := by
  unfold queueStep at h
  split at h
  · cases h
    exact Or.inl ⟨_, rfl, rfl, rfl⟩
  · by_cases hrun : (e.notRun && q.starts) = true
    · rw [if_pos hrun] at h
      cases h
      obtain ⟨hnot, hstart⟩ := Bool.and_eq_true_iff.mp hrun
      exact Or.inr (Or.inl ⟨hstart, hnot, rfl, rfl⟩)
    · rw [if_neg hrun] at h
      obtain ⟨r, hr, heq⟩ := Option.map_eq_some_iff.mp h
      obtain ⟨rfl, rfl⟩ := Prod.mk.inj heq
      exact Or.inr (Or.inr ⟨r.1, r.2, hr, rfl, rfl⟩)

end

variable {U : Type} [UuidText U] [DecidableEq U]

/-- Every step of a socket is one of these. -/
theorem stepped_of_step {C : Crates} {e : RelayEvent U} {s s' : Socket} {pc pc' : SocketPc U}
    {w w' : Relay U} (h : step C e s w pc = some (s', pc', w')) :
    Stepped C e s pc w s' pc' w' := by
  have hinner : ∀ pc' : SocketPc U, Inner C e w pc pc' → Stepped C e s pc w s pc' w :=
    fun pc' hpc => Stepped.inner s s pc pc' w ⟨rfl, rfl⟩ hpc
  cases pc with
  | ready =>
    have hrecv := receive_stepped C e s w
    rw [Option.some.inj h] at hrecv
    exact hrecv
  | reply f last =>
    cases h
    exact Stepped.said s f last w
  | helloMark rid selected certOnly =>
    cases h
    exact Stepped.helloMark s rid selected certOnly w
  | helloOk rid selected certOnly =>
    cases h
    exact Stepped.helloOk s rid selected certOnly _ w
  | helloOnline rid selected =>
    cases h
    exact Stepped.helloOnline s rid selected w
  | helloFlush rid selected =>
    cases h
    refine Stepped.helloFlush s rid selected _ w ?_
    intro hrun l hl
    rw [hrun, if_neg Bool.false_ne_true, hl]
  | helloPush rest delivered selected =>
    cases rest with
    | nil =>
      cases h
      exact Stepped.helloStop s [] delivered selected w (Or.inl rfl)
    | cons env rest =>
      obtain ⟨⟨b, w1⟩, hsend, heq⟩ := Option.map_eq_some_iff.mp h
      cases heq
      rcases awaitSend_cases hsend with ⟨rfl, c, hc, rfl⟩ | ⟨rfl, rfl, hclosed⟩
      · exact Stepped.helloPush s env rest delivered selected c w hc
      · exact Stepped.helloStop s (env :: rest) delivered selected _ (Or.inr hclosed)
  | helloSynced delivered selected =>
    simp only [step] at h
    split_ifs at h
    · obtain ⟨⟨b, w1⟩, hsend, heq⟩ := Option.map_eq_some_iff.mp h
      cases heq
      rcases awaitSend_cases hsend with ⟨rfl, c, hc, rfl⟩ | ⟨rfl, rfl, _⟩
      · exact Stepped.helloSynced s delivered selected c w hc
      · exact Stepped.helloDone s delivered selected _
    · cases h
      exact Stepped.helloDone s delivered selected w
  | tokensMark rid f =>
    cases h
    exact Stepped.tokensMark s rid f w
  | sendRate r m ty ct =>
    cases hallow : (w.app.allowDestSend e.store.now m).1 with
    | false =>
      have hrefused := hallow
      simp only [step, AppState.allowDestSend] at h hallow
      split_ifs at h hallow
      cases h
      exact Stepped.sendRefused s r m ty ct _ _ w hrefused
    | true =>
      simp only [step, AppState.allowDestSend] at h hallow
      split_ifs at h hallow
      · cases h
        exact Stepped.sendRate s r m ty ct _ w
      · cases h
        exact Stepped.sendRate s r m ty ct _ w
  | sendLive r m ty ct =>
    simp only [step] at h
    split_ifs at h with hnew
    cases hget : w.app.online.get m with
    | none =>
      simp only [hget] at h
      cases h
      exact Stepped.sendMissed s r m ty ct w hnew hget
    | some sid =>
      simp only [hget] at h
      have htry := trySend_cases ({ w with issued := e.uuid :: w.issued } : Relay U) sid
        (.envelope ⟨e.uuid, m, ty, ct⟩)
      rcases htry with ⟨c, hc, htry⟩ | ⟨htry, hclosed⟩
      · rw [htry] at h
        cases h
        exact Stepped.sendPushed s r m ty ct sid c w hnew hget hc
      · rw [htry] at h
        cases h
        exact Stepped.sendFailed s r m ty ct sid w hnew hget hclosed
  | sendStale r env =>
    cases h
    exact Stepped.sendStale s r env w
  | sendCheck r env live =>
    simp only [step] at h
    split_ifs at h with hfull hlive
    · cases h
      exact Stepped.sendFull s r env _ _ w hfull
    · cases h
      exact Stepped.sendFull s r env _ _ w hfull
    · cases h
      exact Stepped.sendStart s r env live w
  | sendQueue r env live q =>
    obtain ⟨⟨pc1, w1⟩, hq, heq⟩ := Option.map_eq_some_iff.mp h
    cases heq
    rcases queueStep_cases hq with ⟨res, rfl, rfl, rfl⟩ | ⟨hstart, _, rfl, rfl⟩ |
      ⟨q', st, hstep, rfl, rfl⟩
    · exact Stepped.sendQueued s r env live _ _ _ (Or.inl rfl)
    · exact Stepped.sendQueued s r env live _ _ _ (Or.inr ⟨hstart, rfl⟩)
    · exact Stepped.sendQueue s r env live q q' st w hstep
  | sendMark r env live ok =>
    simp only [step] at h
    split_ifs at h <;> cases h <;> exact Stepped.sendMark s r env live ok _ w
  | prune p f =>
    cases p with
    | done =>
      cases h
      exact hinner _ (Inner.pruned f)
    | _ =>
      simp only [step] at h
      obtain ⟨⟨p', st⟩, hp, heq⟩ := Option.map_eq_some_iff.mp h
      cases heq
      exact Stepped.pruned s _ p' f st w hp
  | uploadLook r id ct x =>
    simp only [step] at h
    cases hreply : existingReply (U := U) e.store.now r id ct w.app with
    | some f =>
      rw [hreply] at h
      cases h
      exact hinner _ (Inner.found r id ct x f hreply)
    | none =>
      rw [hreply] at h
      cases h
      exact hinner _ (Inner.vacant r id ct x hreply)
  | uploadCount r id ct x =>
    simp only [step] at h
    split_ifs at h <;> cases h
    · exact hinner _ (Inner.countFull r id ct x _)
    · exact hinner _ (Inner.countOk r id ct x)
  | uploadBytes r id ct x =>
    simp only [step] at h
    split_ifs at h <;> cases h
    · exact hinner _ (Inner.bytesFull r id ct x _)
    · exact hinner _ (Inner.bytesOk r id ct x)
  | uploadInsert r id ct x =>
    cases hget : w.app.bundles.get id with
    | none =>
      simp only [step, hget] at h
      cases h
      exact Stepped.uploadNew s r id ct x
        ⟨id, ct, e.store.now, bundleExpires e.store.now x⟩ w ⟨rfl, rfl, rfl⟩ hget
    | some old =>
      simp only [step, hget] at h
      cases h
      exact Stepped.uploadOver s r id ct x
        ⟨id, ct, e.store.now, bundleExpires e.store.now x⟩ old w ⟨rfl, rfl, rfl⟩ hget
  | uploadSub r id old n x =>
    cases h
    exact Stepped.uploadSub s r id old n x w
  | uploadAdd r id n x =>
    cases h
    exact Stepped.uploadAdd s r id n x w
  | uploadMark r id x =>
    cases h
    exact Stepped.uploadMark s r id x _ w
  | fetchBundle r id =>
    have hfetched := hinner _ (Inner.fetched r id)
    simp only [step] at h
    cases hget : w.app.bundles.get id with
    | none =>
      simp only [bundleReply, hget] at h hfetched
      cases h
      exact hfetched
    | some b =>
      simp only [bundleReply, hget] at h hfetched
      split_ifs at h hfetched <;> cases h <;> exact hfetched
  | file t r id i =>
    cases t with
    | done res =>
      cases h
      exact hinner _ (Inner.fileDone res r id i)
    | _ =>
      simp only [step] at h
      split_ifs at h with hrun
      · cases h
        obtain ⟨hnot, hstart⟩ := Bool.and_eq_true_iff.mp hrun
        exact hinner _ (Inner.fileLost _ r id i hnot hstart)
      · obtain ⟨⟨t', st⟩, ht, heq⟩ := Option.map_eq_some_iff.mp h
        cases heq
        exact Stepped.filed s _ t' r id i st w ht
  | ackQueue q =>
    obtain ⟨⟨pc1, w1⟩, hq, heq⟩ := Option.map_eq_some_iff.mp h
    cases heq
    rcases queueStep_cases hq with ⟨res, rfl, rfl, rfl⟩ | ⟨_, _, rfl, rfl⟩ |
      ⟨q', st, hstep, rfl, rfl⟩
    · exact Stepped.acked s _ _ _
    · exact Stepped.acked s _ _ _
    · exact Stepped.ackQueue s q q' st w hstep
  | retireCount rid =>
    cases h
    exact Stepped.retireCount s rid w
  | retirePurge rid q =>
    obtain ⟨⟨pc1, w1⟩, hq, heq⟩ := Option.map_eq_some_iff.mp h
    cases heq
    rcases queueStep_cases hq with ⟨res, rfl, rfl, rfl⟩ | ⟨hstart, hrun, rfl, rfl⟩ |
      ⟨q', st, hstep, rfl, rfl⟩
    · exact Stepped.retirePurged s rid _ _ (Or.inl rfl)
    · exact Stepped.retirePurged s rid _ _ (Or.inr ⟨hstart, hrun⟩)
    · exact Stepped.retirePurge s rid q q' st w hstep
  | retireRate rid =>
    cases h
    exact Stepped.retireRate s rid _ w
  | retireOnline rid =>
    cases h
    exact Stepped.retireOnline s rid w
  | retireMark rid =>
    cases h
    exact Stepped.retireMark s rid _ w
  | closeLook =>
    simp only [step] at h
    cases hrid : s.recipientId with
    | none =>
      rw [hrid] at h
      cases h
      refine Stepped.closeSkipped s w fun rid hr => ?_
      rw [hrid] at hr
      cases hr
    | some rid =>
      rw [hrid] at h
      dsimp only at h
      split_ifs at h with hmine <;> cases h
      · exact Stepped.closeSeen s rid w hrid hmine
      · refine Stepped.closeSkipped s w fun rid' hr => ?_
        rw [hrid] at hr
        rw [← Option.some.inj hr]
        exact hmine
  | closeRemove rid =>
    cases h
    exact Stepped.closeRemove s rid w
  | closeEnd =>
    cases h
    exact Stepped.closeEnd s _ w
  | closed => cases h

end SocketPc

end AxenoRelay
