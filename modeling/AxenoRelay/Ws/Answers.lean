/-
  The replies to a frame.

  `Answers` says what a reply to a frame looks like: of the frame's own kind, with its
  request id, transfer id or client reference, or a refusal with one of the codes the
  frame can be refused with. A handler that has taken a frame up carries what its reply
  needs from place to place (`SocketPc.Serves`), through the file and queue calls.
-/
import AxenoRelay.State.Tokens
import AxenoRelay.Ws.Steps
import Mathlib

namespace AxenoRelay

/-! ## What answers a frame -/

/-- The protocol versions that the relay and the client of a Hello have in common. -/
def commonVersions (protocolMin protocolMax version : Option Nat) : Set Nat :=
  {v | protocolMinSupported ≤ v ∧ v ≤ protocolVersion ∧
    protocolMin.getD (version.getD protocolVersion) ≤ v ∧
    v ≤ protocolMax.getD (version.getD protocolVersion)}

section

variable {U : Type}

/-- The codes a frame can be refused with, once the frame itself was taken. -/
def refusals : ClientFrame U → List String
  | .hello _ _ _ _ _ _ _ _ => ["bad_hello", "hello_rejected", "relay_full"]
  | .setDeliveryTokens _ _ => ["not_registered", "bad_tokens"]
  | .issueSenderCertificate _ _ _ _ => ["not_registered", "cert_denied", "cert_failed"]
  | .sendEnvelope _ _ _ _ _ =>
    ["bad_send", "bad_envelope", "delivery_denied", "rate_limited", "relay_full", "relay_error"]
  | .uploadBundle _ _ _ _ _ => ["bad_bundle", "bad_pow", "bundle_exists", "relay_full"]
  | .fetchBundle _ _ => ["bundle_not_found"]
  | .uploadFileChunk _ _ _ _ _ _ _ =>
    ["bad_request", "pow_required", "file_too_large", "relay_full", "not_found"]
  | .fetchFileChunk _ _ _ => ["bad_request", "not_found"]
  | .deleteTransfer _ _ => ["bad_request"]
  | .ack _ | .retireMailbox => ["not_registered"]
  | .ping => []

/-- The frame that refuses a frame. -/
def refusal (code message : String) : ClientFrame U → ServerFrame U
  | .sendEnvelope clientRef _ _ _ _ => sendErr clientRef code message
  | .uploadFileChunk requestId transferId _ _ _ _ _ | .fetchFileChunk requestId transferId _
  | .deleteTransfer requestId transferId => fileErr requestId transferId code message
  | _ => err code message

/-- The replies to a frame. -/
inductive Answers (C : Crates) : ClientFrame U → ServerFrame U → Prop
  | refused (f : ClientFrame U) (code message : String) (h : code ∈ refusals f) :
      Answers C f (refusal code message f)
  | mismatch (rid token delivery message : String) (pmin pmax version : Option Nat)
      (pow : Option String) (certOnly : Bool) (h : commonVersions pmin pmax version = ∅) :
      Answers C (.hello rid token delivery pmin pmax version pow certOnly)
        (err "protocol_mismatch" message)
  | helloOk (rid token delivery root : String) (pmin pmax version : Option Nat)
      (pow : Option String) (certOnly : Bool) (v now maxFileBytes : Nat)
      (h : IsGreatest (commonVersions pmin pmax version) v) :
      Answers C (.hello rid token delivery pmin pmax version pow certOnly)
        (.helloOk v protocolMinSupported protocolVersion now root maxFileBytes)
  | tokensSet (requestId : String) (tokens : List String) :
      Answers C (.setDeliveryTokens requestId tokens)
        (.deliveryTokensSet requestId (Fifo.firsts (tokens.map (tokenHash C))).length)
  | certificate (requestId uuid key cert root : String) (device expires : Nat) :
      Answers C (.issueSenderCertificate requestId uuid device key)
        (.senderCertificate requestId cert root expires)
  | sent (clientRef : Option String) (toId token envelopeType ciphertext : String) (id : U)
      (queued : Bool) :
      Answers C (.sendEnvelope clientRef toId token envelopeType ciphertext)
        (.sendOk id queued clientRef)
  | bundleUploaded (requestId bundleId ciphertext : String) (asked expires : Nat)
      (pow : Option String) :
      Answers C (.uploadBundle requestId bundleId ciphertext asked pow)
        (.bundleUploaded requestId bundleId expires)
  | bundle (requestId bundleId ciphertext : String) (expires : Nat) :
      Answers C (.fetchBundle requestId bundleId) (.bundle requestId bundleId ciphertext expires)
  | chunkStored (requestId transferId ciphertext : String) (i total size received : Nat)
      (pow : Option String) :
      Answers C (.uploadFileChunk requestId transferId i total size ciphertext pow)
        (.fileChunkStored requestId transferId i received total)
  | chunk (requestId transferId ciphertext : String) (i total size : Nat) :
      Answers C (.fetchFileChunk requestId transferId i)
        (.fileChunk requestId transferId i total size ciphertext)
  | deleted (requestId transferId : String) :
      Answers C (.deleteTransfer requestId transferId) (.transferDeleted requestId transferId)
  | acked (ids : List U) (removed : Nat) (h : removed ≤ ids.length) :
      Answers C (.ack ids) (.ackOk removed)
  | retired : Answers C .retireMailbox (.ackOk 0)
  | pong (now : Nat) : Answers C .ping (.pong now)

/-- The replies to a text: to the frame it parses to, or to a text that is not looked into. -/
inductive Answered (C : Crates) : Incoming U → ServerFrame U → Prop
  | frame (n : Nat) (f : ClientFrame U) (g : ServerFrame U) (hn : n ≤ maxFrameBytes)
      (h : Answers C f g) : Answered C (.text n (.ok f)) g
  | badJson (n : Nat) (m : String) (hn : n ≤ maxFrameBytes) :
      Answered C (.text n (.error m)) (err "bad_json" m)
  | tooLarge (n : Nat) (parsed : Except String (ClientFrame U)) (hn : maxFrameBytes < n) :
      Answered C (.text n parsed) (err "too_large" "frame too large")
  | rateLimited (n : Nat) (parsed : Except String (ClientFrame U)) :
      Answered C (.text n parsed) (err "rate_limited" "too many frames on this socket")

/-- Is the frame a reply, and not a delivery? -/
def ServerFrame.isReply : ServerFrame U → Bool
  | .envelope _ | .synced _ => false
  | _ => true

theorem Answers.isReply {C : Crates} {f : ClientFrame U} {g : ServerFrame U}
    (h : Answers C f g) : g.isReply = true := by
  cases h
  case refused => cases f <;> rfl
  all_goals rfl

theorem Answered.isReply {C : Crates} {x : Incoming U} {g : ServerFrame U}
    (h : Answered C x g) : g.isReply = true := by
  cases h
  case frame h => exact h.isReply
  all_goals rfl

end

/-! ## What a handler is answering -/

section

variable {U : Type}

/-- The file call is the one the frame asks for, and its result answers the frame. -/
def FileTask.Serves (C : Crates) (f : ClientFrame U) (requestId transferId : String) (i : Nat) :
    FileTask → Prop
  | storeClaim u | storeSlot u | storeWrite u _ | storeFreeSlot u _ | storeUnclaim u _
  | storeRelease u _ | storeMirror u _ =>
    ∃ size ct pow, f = .uploadFileChunk requestId transferId i u.totalChunks size ct pow
  | fetchShape _ _ | fetchRead _ _ _ => f = .fetchFileChunk requestId transferId i
  | delTxn _ .ret | delUncache _ _ .ret | delSlot _ _ .ret | delBytes _ _ .ret =>
    f = .deleteTransfer requestId transferId
  | done r => ∃ g, SocketPc.fileReply C requestId transferId i r = .reply g false ∧ Answers C f g
  | _ => False

/-- The ack call is for `n` ids at most. -/
def QueueTask.AcksUpTo (n : Nat) : QueueTask U → Prop
  | ackTxn _ ids => ids.length ≤ n
  | ackSub _ removed _ | ackUpdate _ removed _ => removed ≤ n
  | done (.ok removed) => removed ≤ n
  | done (.error _) => True
  | _ => False

/-- The handler is working on a frame, and will answer it. -/
def SocketPc.Serves (C : Crates) (f : ClientFrame U) : SocketPc U → Prop
  | helloMark rid v certOnly | helloOk rid v certOnly =>
    ∃ token delivery pmin pmax version pow,
      f = .hello rid token delivery pmin pmax version pow certOnly ∧
        IsGreatest (commonVersions pmin pmax version) v
  | tokensMark _ g | reply g _ => Answers C f g
  | sendRate r m ty ct | sendLive r m ty ct => ∃ token, f = .sendEnvelope r m token ty ct
  | sendStale r env | sendCheck r env _ | sendQueue r env _ _ | sendMark r env _ _ =>
    ∃ token, f = .sendEnvelope r env.toId token env.envelopeType env.ciphertext
  | prune _ f' => f' = f ∧ ((∃ r id ct x pow, f = .uploadBundle r id ct x pow) ∨
      ∃ r id, f = .fetchBundle r id)
  | uploadLook r id ct x | uploadCount r id ct x | uploadBytes r id ct x
  | uploadInsert r id ct x => ∃ pow, f = .uploadBundle r id ct x pow
  | uploadSub r id _ _ _ | uploadAdd r id _ _ | uploadMark r id _ =>
    ∃ ct x pow, f = .uploadBundle r id ct x pow
  | fetchBundle r id => f = .fetchBundle r id
  | file t r id i => t.Serves C f r id i
  | ackQueue q => ∃ ids, f = .ack ids ∧ q.AcksUpTo ids.length
  | retireCount _ | retirePurge _ _ | retireRate _ | retireOnline _ | retireMark _ =>
    f = .retireMailbox
  | _ => False

/-- The handler has a text to reply to. -/
def SocketPc.Replies (C : Crates) (x : Incoming U) : SocketPc U → Prop
  | reply g _ => Answered C x g
  | pc => ∃ n f, n ≤ maxFrameBytes ∧ x = .text n (.ok f) ∧ pc.Serves C f

/-- Has the handler replied to every text it took up? -/
def SocketPc.settled : SocketPc U → Bool
  | ready | helloOnline _ _ | helloFlush _ _ | helloPush _ _ _ | helloSynced _ _ | closeLook
  | closeRemove _ | closeEnd | closed => true
  | _ => false

theorem SocketPc.Serves.replies {C : Crates} {f : ClientFrame U} {pc : SocketPc U} {n : Nat}
    (hn : n ≤ maxFrameBytes) (h : pc.Serves C f) : pc.Replies C (.text n (.ok f)) := by
  cases pc
  case reply => exact .frame n f _ hn h
  all_goals exact ⟨n, f, hn, rfl, h⟩

end

/-! ## Taking a text up -/

theorem commonVersions_empty {pmin pmax version : Option Nat}
    (h : min protocolVersion (pmax.getD (version.getD protocolVersion)) < protocolMinSupported ∨
      min protocolVersion (pmax.getD (version.getD protocolVersion)) <
        pmin.getD (version.getD protocolVersion)) : commonVersions pmin pmax version = ∅ := by
  apply Set.eq_empty_of_forall_notMem
  intro v hv
  obtain ⟨hlow, hhigh, hmin, hmax⟩ := hv
  have hle : v ≤ min protocolVersion (pmax.getD (version.getD protocolVersion)) :=
    le_min hhigh hmax
  omega

theorem commonVersions_greatest {pmin pmax version : Option Nat}
    (h : ¬(min protocolVersion (pmax.getD (version.getD protocolVersion)) < protocolMinSupported ∨
      min protocolVersion (pmax.getD (version.getD protocolVersion)) <
        pmin.getD (version.getD protocolVersion))) :
    IsGreatest (commonVersions pmin pmax version)
      (min protocolVersion (pmax.getD (version.getD protocolVersion))) := by
  push Not at h
  refine ⟨⟨h.1, min_le_left _ _, h.2, min_le_right _ _⟩, ?_⟩
  intro v hv
  exact le_min hv.2.1 hv.2.2.2

namespace SocketPc

section

variable {U : Type} {C : Crates} {e : RelayEvent U}

theorem serves_refuse (f : ClientFrame U) (code message : String) (h : code ∈ refusals f)
    (last : Bool) : (reply (refusal code message f) last).Serves C f :=
  .refused f code message h

/-- The first piece of a handler serves the frame. -/
theorem handle_serves (s : Socket) (w : Relay U) (f : ClientFrame U) :
    (handle C e s w f).1.Serves C f := by
  cases f with
  | hello rid token delivery pmin pmax version pow certOnly =>
    simp only [handle]
    split_ifs with h1 h2
    · exact .mismatch rid token delivery _ pmin pmax version pow certOnly (commonVersions_empty h1)
    · exact serves_refuse (.hello rid token delivery pmin pmax version pow certOnly) _ _
        (by simp [refusals]) false
    · cases hentry : helloEntry C e.store.now rid (tokenHash C token) (tokenHash C delivery) pow
          w.app with
      | ok app =>
        exact ⟨token, delivery, pmin, pmax, version, pow, rfl, commonVersions_greatest h1⟩
      | error r =>
        have hcode : r.1 = "hello_rejected" ∨ r.1 = "relay_full" := by
          unfold helloEntry at hentry
          repeat' split at hentry
          all_goals cases hentry
          all_goals simp
        refine serves_refuse (.hello rid token delivery pmin pmax version pow certOnly) _ _ ?_ false
        rcases hcode with hcode | hcode <;> rw [hcode] <;> simp [refusals]
  | setDeliveryTokens requestId tokens =>
    simp only [handle]
    have href : ∀ code m, code ∈ refusals (.setDeliveryTokens (U := U) requestId tokens) →
        (refuse code m).Serves C (.setDeliveryTokens (U := U) requestId tokens) :=
      fun code m h => serves_refuse (.setDeliveryTokens requestId tokens) code m h false
    cases s.recipientId with
    | none => exact href _ _ (by simp [refusals])
    | some rid =>
      dsimp only
      split_ifs with hbad
      · exact href _ _ (by simp [refusals])
      · cases w.app.mailboxAuth.get rid with
        | none => exact href _ _ (by simp [refusals])
        | some auth =>
          have hlen : (tokens.map (tokenHash C)).length ≤ maxDeliveryTokensPerMailbox := by
            rw [List.length_map]
            push Not at hbad
            exact hbad.2.1
          change Answers C _ (.deliveryTokensSet requestId _)
          rw [auth.replaceDeliveryHashes_list hlen]
          exact .tokensSet requestId tokens
  | issueSenderCertificate requestId uuid device key =>
    simp only [handle]
    have href : ∀ code m,
        code ∈ refusals (.issueSenderCertificate (U := U) requestId uuid device key) →
        (refuse code m).Serves C (.issueSenderCertificate (U := U) requestId uuid device key) :=
      fun code m h => serves_refuse (.issueSenderCertificate requestId uuid device key) code m h false
    cases s.recipientId with
    | none => exact href _ _ (by simp [refusals])
    | some rid =>
      dsimp only
      split_ifs
      · exact href _ _ (by simp [refusals])
      · cases certRequest C uuid device key with
        | error m => exact href _ _ (by simp [refusals])
        | ok k =>
          cases e.cert with
          | error m => exact href _ _ (by simp [refusals])
          | ok cert => exact .certificate requestId uuid key cert _ device _
  | sendEnvelope r m token ty ct =>
    simp only [handle]
    have href : ∀ code msg, code ∈ refusals (.sendEnvelope (U := U) r m token ty ct) →
        (refuseSend r code msg).Serves C (.sendEnvelope (U := U) r m token ty ct) :=
      fun code msg h => serves_refuse (.sendEnvelope r m token ty ct) code msg h false
    split_ifs
    · exact href _ _ (by simp [refusals])
    · exact href _ _ (by simp [refusals])
    · cases sendAuth C e.store.now m token w.app with
      | none => exact href _ _ (by simp [refusals])
      | some app => exact ⟨token, rfl⟩
  | uploadBundle r id ct x pow =>
    simp only [handle]
    have href : ∀ code msg, code ∈ refusals (.uploadBundle (U := U) r id ct x pow) →
        (refuse code msg).Serves C (.uploadBundle (U := U) r id ct x pow) :=
      fun code msg h => serves_refuse (.uploadBundle r id ct x pow) code msg h false
    split_ifs
    · exact href _ _ (by simp [refusals])
    · exact href _ _ (by simp [refusals])
    · exact ⟨rfl, Or.inl ⟨r, id, ct, x, pow, rfl⟩⟩
  | fetchBundle r id => exact ⟨rfl, Or.inr ⟨r, id, rfl⟩⟩
  | uploadFileChunk r id i total size ct pow =>
    simp only [handle]
    have href : ∀ code msg, code ∈ refusals (.uploadFileChunk (U := U) r id i total size ct pow) →
        (refuseFile r id code msg).Serves C
          (.uploadFileChunk (U := U) r id i total size ct pow) :=
      fun code msg h => serves_refuse (.uploadFileChunk r id i total size ct pow) code msg h false
    by_cases hid : (!validBundleId id) = true
    · rw [if_pos hid]
      exact href _ _ (by simp [refusals])
    · rw [if_neg hid]
      cases C.decodeB64 ct with
      | none => exact href _ _ (by simp [refusals])
      | some raw =>
        dsimp only
        split_ifs
        · exact href _ _ (by simp [refusals])
        · exact ⟨size, ct, pow, rfl⟩
  | fetchFileChunk r id i =>
    simp only [handle]
    split_ifs
    · exact serves_refuse (.fetchFileChunk r id i) _ _ (by simp [refusals]) false
    · rfl
  | deleteTransfer r id =>
    simp only [handle]
    split_ifs
    · exact serves_refuse (.deleteTransfer r id) _ _ (by simp [refusals]) false
    · rfl
  | ack ids =>
    simp only [handle]
    cases s.recipientId with
    | none => exact serves_refuse (.ack ids) _ _ (by simp [refusals]) false
    | some rid => exact ⟨ids, rfl, Nat.le_refl _⟩
  | retireMailbox =>
    simp only [handle]
    cases s.recipientId with
    | none => exact serves_refuse .retireMailbox _ _ (by simp [refusals]) false
    | some rid =>
      dsimp only
      split_ifs
      · rfl
      · rfl
  | ping => exact .pong e.store.now

/-- A text that is taken up gets a reply. -/
theorem receive_replies (s : Socket) (w : Relay U) {n : Nat}
    {parsed : Except String (ClientFrame U)} (hin : e.incoming = .text n parsed) :
    (receive C e s w).2.1.Replies C (.text n parsed) := by
  simp only [receive, hin]
  split_ifs with hrate hlong
  · exact .rateLimited n parsed
  · exact .tooLarge n parsed hlong
  · cases parsed with
    | error m => exact .badJson n m (Nat.le_of_not_lt hlong)
    | ok f => exact (handle_serves _ w f).replies (Nat.le_of_not_lt hlong)

end

end SocketPc

/-! ## Working on it -/

section

variable {U : Type} {C : Crates} {f : ClientFrame U} {requestId transferId : String} {i : Nat}

/-- A read of a chunk fails with one error only. -/
theorem FileStore.fetchTxn_failsWith (m : FileMeta) :
    (FileStore.fetchTxn transferId i m).FailsWith .notFound := by
  unfold FileStore.fetchTxn
  apply Txn.failsWith_bind (Txn.failsWith_call _ _)
  intro _
  apply Txn.failsWith_bind (Txn.failsWith_call _ _)
  intro _
  apply Txn.failsWith_bind (Txn.failsWith_call _ _)
  intro o
  cases o with
  | none => exact Txn.failsWith_fail _
  | some v => exact Txn.failsWith_pure _ _

/-- A step of the file call of a frame stays with the frame. -/
theorem FileTask.Serves.step {e : StoreEvent} {t t' : FileTask} {st st' : FileStore}
    (h : t.Serves C f requestId transferId i) (hs : t.step e st = some (t', st')) :
    t'.Serves C f requestId transferId i := by
  -- a rejected upload
  have hstored : ∀ (u : ChunkUpload) (r : FileReject),
      (storeClaim u).Serves C f requestId transferId i →
        (done (.stored (.error r))).Serves C f requestId transferId i := by
    intro u r hu
    obtain ⟨size, ct, pow, rfl⟩ := hu
    refine ⟨_, rfl, .refused (.uploadFileChunk requestId transferId i u.totalChunks size ct pow)
      r.code r.message ?_⟩
    cases r <;> simp [refusals, FileReject.code]
  -- a rejected fetch
  have hfetched : ∀ r : FileReject, r.code ∈ refusals (.fetchFileChunk (U := U) requestId transferId i) →
      (fetchShape transferId i).Serves C f requestId transferId i →
        (done (.fetched (.error r))).Serves C f requestId transferId i := by
    intro r hr hf
    obtain rfl := hf
    exact ⟨_, rfl, .refused (.fetchFileChunk requestId transferId i) r.code r.message hr⟩
  -- a delete that has returned
  have hdeleted : ∀ r : Except DbError Bool, f = .deleteTransfer requestId transferId →
      (done (.deleted r)).Serves C f requestId transferId i := by
    intro r hf
    obtain rfl := hf
    exact ⟨_, rfl, .deleted requestId transferId⟩
  cases t with
  | storeClaim u =>
    simp only [FileTask.step] at hs
    repeat' split at hs
    all_goals cases hs
    · exact hstored u _ h
    · exact hstored u _ h
    · exact h
    · exact h
  | storeSlot u =>
    simp only [FileTask.step] at hs
    split at hs
    all_goals cases hs
    · exact h
    · exact h
  | storeWrite u creating =>
    simp only [FileTask.step] at hs
    split at hs
    all_goals cases hs
    · cases creating
      · exact hstored u _ h
      · exact h
    · split_ifs
      · exact h
      · exact h
  | storeFreeSlot u r =>
    cases hs
    exact h
  | storeUnclaim u r =>
    cases hs
    exact hstored u r h
  | storeRelease u w =>
    cases hs
    exact h
  | storeMirror u w =>
    cases hs
    obtain ⟨size, ct, pow, rfl⟩ := h
    exact ⟨_, rfl, .chunkStored requestId transferId ct i u.totalChunks size w.receivedChunks pow⟩
  | fetchShape id j =>
    simp only [FileTask.step] at hs
    cases hshape : FileStore.fetchShape id j st with
    | ok m =>
      rw [hshape] at hs
      cases hs
      exact h
    | error r =>
      rw [hshape] at hs
      cases hs
      refine hfetched r ?_ h
      unfold FileStore.fetchShape at hshape
      repeat' split at hshape
      all_goals first | cases hshape; simp [refusals, FileReject.code] | cases hshape
  | fetchRead id j m =>
    simp only [FileTask.step] at hs
    cases hs
    cases hread : ((FileStore.fetchTxn id j m).commit e.faults st.tables).1 with
    | ok r =>
      obtain rfl := h
      exact ⟨_, rfl, .chunk requestId transferId _ i _ _⟩
    | error r =>
      obtain rfl := (FileStore.fetchTxn_failsWith m).commit hread
      exact hfetched .notFound (by simp [refusals, FileReject.code]) h
  | delTxn id k =>
    cases k with
    | sweep rest n => exact h.elim
    | ret =>
      simp only [FileTask.step] at hs
      split at hs
      all_goals cases hs
      · exact hdeleted _ h
      · exact hdeleted _ h
      · exact h
  | delUncache id stored k =>
    cases k with
    | sweep rest n => exact h.elim
    | ret =>
      cases hs
      exact h
  | delSlot id stored k =>
    cases k with
    | sweep rest n => exact h.elim
    | ret =>
      cases hs
      exact h
  | delBytes id stored k =>
    cases k with
    | sweep rest n => exact h.elim
    | ret =>
      cases hs
      exact hdeleted _ h
  | sweepScan => exact h.elim
  | sweepNext rest n => exact h.elim
  | done r => cases hs

/-- A file call that is not run is answered all the same. -/
theorem FileTask.Serves.notRun {t : FileTask} (h : t.Serves C f requestId transferId i)
    (hstarts : t.starts = true) : (SocketPc.fileNotRun requestId transferId t).Serves C f := by
  cases t
  case storeClaim u =>
    obtain ⟨size, ct, pow, rfl⟩ := h
    exact .refused (.uploadFileChunk requestId transferId i u.totalChunks size ct pow) _ _
      (by simp [refusals])
  case fetchShape =>
    obtain rfl := h
    exact .refused (.fetchFileChunk requestId transferId i) _ _ (by simp [refusals])
  case delTxn id k =>
    cases k with
    | sweep rest n => exact h.elim
    | ret =>
      obtain rfl := h
      exact .deleted requestId transferId
  case sweepScan => exact h.elim
  all_goals cases hstarts

theorem QueueStore.ackFold_le [UuidText U] (m : String) (ids : List U) (acc : Nat × Nat)
    (t : Envelopes) : (QueueStore.ackFold m acc ids t).1 ≤ acc.1 + ids.length := by
  induction ids generalizing acc t with
  | nil => exact Nat.le_refl _
  | cons id ids ih =>
    have hrest := ih (QueueStore.ackDelta m t acc id) (t.erase (keyFor m id))
    have hone : (QueueStore.ackDelta m t acc id).1 ≤ acc.1 + 1 := by
      unfold QueueStore.ackDelta
      split <;> simp
    rw [QueueStore.ackFold, List.length_cons]
    omega

theorem QueueTask.AcksUpTo.step [UuidText U] {n : Nat} {e : StoreEvent} {q q' : QueueTask U}
    {st st' : QueueStore} (h : q.AcksUpTo n) (hs : q.step e st = some (q', st')) :
    q'.AcksUpTo n := by
  have hstep := QueueTask.stepped_of_call (fun m hq => by
    rw [hq] at h
    exact h.elim) hs
  cases hstep
  case failed => trivial
  case ackNone => exact Nat.zero_le n
  case ack m ids =>
    have hle := QueueStore.ackFold_le m ids (0, 0) st.envelopes
    have hn : ids.length ≤ n := h
    change (QueueStore.ackFold m (0, 0) ids st.envelopes).1 ≤ n
    omega
  case ackSub => exact h
  case ackSkip => exact h
  case ackUpdate => exact h
  all_goals exact h.elim

end

namespace SocketPc

section

variable {U : Type} [UuidText U] [DecidableEq U] {C : Crates} {e : RelayEvent U}

/-- A handler that is working on a frame and steps is still working on it, unless it replies. -/
theorem Serves.step {f : ClientFrame U} {s s' : Socket} {pc pc' : SocketPc U} {w w' : Relay U}
    (hids : w.app.bundles.All fun k b => b.id = k) (h : pc.Serves C f)
    (hs : step C e s w pc = some (s', pc', w'))
    (hquiet : (∀ g last, pc ≠ reply g last) ∧ ∀ rid v certOnly, pc ≠ helloOk rid v certOnly) :
    pc'.Serves C f := by
  cases pc with
  | ready => exact h.elim
  | reply g last => exact absurd rfl (hquiet.1 g last)
  | helloMark rid v certOnly =>
    cases hs
    exact h
  | helloOk rid v certOnly => exact absurd rfl (hquiet.2 rid v certOnly)
  | helloOnline rid v => exact h.elim
  | helloFlush rid v => exact h.elim
  | helloPush rest d v => exact h.elim
  | helloSynced d v => exact h.elim
  | tokensMark rid g =>
    cases hs
    exact h
  | sendRate r m ty ct =>
    simp only [SocketPc.step] at hs
    obtain ⟨token, rfl⟩ := h
    split at hs
    all_goals cases hs
    · exact ⟨token, rfl⟩
    · exact .refused (.sendEnvelope r m token ty ct) _ _ (by simp [refusals])
  | sendLive r m ty ct =>
    simp only [SocketPc.step] at hs
    split_ifs at hs
    split at hs
    · cases hs
      exact h
    · split at hs
      all_goals cases hs
      · exact h
      · exact h
  | sendStale r env =>
    cases hs
    exact h
  | sendCheck r env live =>
    obtain ⟨token, rfl⟩ := h
    simp only [SocketPc.step] at hs
    split_ifs at hs
    · cases hs
      exact .sent r _ token _ _ env.id false
    · cases hs
      exact .refused (.sendEnvelope r env.toId token env.envelopeType env.ciphertext) _ _
        (by simp [refusals])
    · cases hs
      exact ⟨token, rfl⟩
  | sendQueue r env live q =>
    obtain ⟨⟨pc1, w1⟩, hq, heq⟩ := Option.map_eq_some_iff.mp hs
    cases heq
    rcases queueStep_cases hq with ⟨_, _, rfl, _⟩ | ⟨_, _, rfl, _⟩ | ⟨_, _, _, rfl, _⟩
    · exact h
    · exact h
    · exact h
  | sendMark r env live ok =>
    obtain ⟨token, rfl⟩ := h
    simp only [SocketPc.step] at hs
    split_ifs at hs
    · cases hs
      exact .sent r _ token _ _ env.id _
    · cases hs
      exact .refused (.sendEnvelope r env.toId token env.envelopeType env.ciphertext) _ _
        (by simp [refusals])
  | prune p f' =>
    obtain ⟨rfl, hf⟩ := h
    cases p with
    | done =>
      cases hs
      rcases hf with ⟨r, id, ct, x, pow, rfl⟩ | ⟨r, id, rfl⟩
      · exact ⟨pow, rfl⟩
      · rfl
    | _ =>
      simp only [SocketPc.step] at hs
      obtain ⟨r, _, heq⟩ := Option.map_eq_some_iff.mp hs
      cases heq
      exact ⟨rfl, hf⟩
  | uploadLook r id ct x =>
    obtain ⟨pow, rfl⟩ := h
    simp only [SocketPc.step] at hs
    split at hs
    · rename_i g hreply
      cases hs
      unfold existingReply at hreply
      repeat' split at hreply
      all_goals cases hreply
      · exact .bundleUploaded r id ct x _ pow
      · exact .refused (.uploadBundle r id ct x pow) _ _ (by simp [refusals])
    · cases hs
      exact ⟨pow, rfl⟩
  | uploadCount r id ct x =>
    obtain ⟨pow, rfl⟩ := h
    simp only [SocketPc.step] at hs
    split_ifs at hs
    · cases hs
      exact .refused (.uploadBundle r id ct x pow) _ _ (by simp [refusals])
    · cases hs
      exact ⟨pow, rfl⟩
  | uploadBytes r id ct x =>
    obtain ⟨pow, rfl⟩ := h
    simp only [SocketPc.step] at hs
    split_ifs at hs
    · cases hs
      exact .refused (.uploadBundle r id ct x pow) _ _ (by simp [refusals])
    · cases hs
      exact ⟨pow, rfl⟩
  | uploadInsert r id ct x =>
    obtain ⟨pow, rfl⟩ := h
    simp only [SocketPc.step] at hs
    cases hget : w.app.bundles.get id with
    | none =>
      rw [hget] at hs
      cases hs
      exact ⟨ct, x, pow, rfl⟩
    | some old =>
      rw [hget] at hs
      cases hs
      exact ⟨ct, x, pow, rfl⟩
  | uploadSub r id old added x =>
    cases hs
    exact h
  | uploadAdd r id added x =>
    cases hs
    exact h
  | uploadMark r id x =>
    cases hs
    obtain ⟨ct, asked, pow, rfl⟩ := h
    exact .bundleUploaded r id ct asked x pow
  | fetchBundle r id =>
    obtain rfl := h
    have hgone : (refuse (U := U) "bundle_not_found"
        "invite bundle was not found or has expired").Serves C (.fetchBundle r id) :=
      .refused (.fetchBundle r id) _ _ (by simp [refusals])
    simp only [SocketPc.step] at hs
    cases hget : w.app.bundles.get id with
    | none =>
      rw [hget] at hs
      cases hs
      exact hgone
    | some b =>
      rw [hget] at hs
      cases hs
      split_ifs
      · obtain rfl : b.id = id := hids id b hget
        exact .bundle r b.id b.ciphertext b.expiresAtMs
      · exact hgone
  | file t r id i =>
    have hserves : t.Serves C f r id i := h
    cases t with
    | done res =>
      cases hs
      obtain ⟨g, hg, hans⟩ := hserves
      rw [hg]
      exact hans
    | _ =>
      simp only [SocketPc.step] at hs
      split_ifs at hs with hrun
      · cases hs
        exact hserves.notRun (Bool.and_eq_true_iff.mp hrun).2
      · obtain ⟨p, hp, heq⟩ := Option.map_eq_some_iff.mp hs
        cases heq
        exact hserves.step hp
  | ackQueue q =>
    obtain ⟨ids, rfl, hq⟩ := h
    obtain ⟨⟨pc1, w1⟩, hstep, heq⟩ := Option.map_eq_some_iff.mp hs
    cases heq
    rcases queueStep_cases hstep with ⟨r, rfl, rfl, _⟩ | ⟨_, _, rfl, _⟩ | ⟨q', st, hq', rfl, _⟩
    · cases r with
      | ok n => exact .acked ids n hq
      | error _ => exact .acked ids 0 (Nat.zero_le _)
    · exact .acked ids 0 (Nat.zero_le _)
    · exact ⟨ids, rfl, hq.step hq'⟩
  | retireCount rid =>
    cases hs
    exact h
  | retirePurge rid q =>
    obtain ⟨⟨pc1, w1⟩, hq, heq⟩ := Option.map_eq_some_iff.mp hs
    cases heq
    rcases queueStep_cases hq with ⟨_, _, rfl, _⟩ | ⟨_, _, rfl, _⟩ | ⟨_, _, _, rfl, _⟩
    · exact h
    · exact h
    · exact h
  | retireRate rid =>
    cases hs
    exact h
  | retireOnline rid =>
    cases hs
    exact h
  | retireMark rid =>
    cases hs
    obtain rfl := h
    exact .retired
  | closeLook => exact h.elim
  | closeRemove rid => exact h.elim
  | closeEnd => exact h.elim
  | closed => exact h.elim

omit [DecidableEq U] in
/-- A handler that has replied to everything goes on without replying. -/
theorem Stepped.settled {s s' : Socket} {pc pc' : SocketPc U} {w w' : Relay U}
    (hs : Stepped C e s pc w s' pc' w') (h : pc.settled = true) (hne : pc ≠ ready) :
    pc'.settled = true := by
  cases hs
  case inner hin => cases hin <;> first | rfl | exact absurd rfl hne | cases h
  all_goals first | rfl | exact absurd rfl hne | cases h

end

end SocketPc

end AxenoRelay
