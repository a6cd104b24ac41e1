/-
  What probing tells about a mailbox.

  Two relays that agree but for one registered mailbox (`Twin`) take the same steps and
  push the same frames, as long as nobody proves to be its owner, pays for it or sends
  to it with an accepted token (`Probe`). Only four places read the records at all: an
  accepted frame, the count of a retirement, and the flush task; everywhere else a step
  does the same whatever the records say (`SocketPc.step_recast`). A Hello is refused
  with one error for both reasons, and a send to an unknown mailbox with the error of a
  bad token.
-/
import AxenoRelay.Lib.Lockstep
import AxenoRelay.Ws.Authority

namespace AxenoRelay

open Interleave

/-! ## The records aside -/

/-- The state with other records, another count and other tables. -/
def AppState.recast (A : OrdMap RecipientId MailboxAuth) (n : Nat) (T : MetaTables)
    (st : AppState) : AppState :=
  { st with mailboxAuth := A, mailboxCount := n, tables := T }

section

variable (A : OrdMap RecipientId MailboxAuth) (n : Nat) (T : MetaTables)

namespace AppState

variable (st : AppState)

@[simp] theorem recast_queues : (st.recast A n T).queues = st.queues := rfl

@[simp] theorem recast_files : (st.recast A n T).files = st.files := rfl

@[simp] theorem recast_online : (st.recast A n T).online = st.online := rfl

@[simp] theorem recast_bundles : (st.recast A n T).bundles = st.bundles := rfl

@[simp] theorem recast_sendRate : (st.recast A n T).sendRate = st.sendRate := rfl

@[simp] theorem recast_totalBundleBytes :
    (st.recast A n T).totalBundleBytes = st.totalBundleBytes := rfl

theorem allowDestSend_recast (now : Nat) (m : RecipientId) :
    (st.recast A n T).allowDestSend now m =
      ((st.allowDestSend now m).1, (st.allowDestSend now m).2.recast A n T) := by
  unfold allowDestSend
  dsimp only [recast_sendRate]
  split_ifs <;> rfl

end AppState

theorem PruneTask.step_recast (e : StoreEvent) (p : PruneTask) (st : AppState) :
    p.step e (st.recast A n T) = (p.step e st).map fun r => (r.1, r.2.recast A n T) := by
  cases p with
  | remove rest freed =>
    unfold step
    dsimp only [AppState.recast_bundles]
    split_ifs
    · rfl
    · cases pickFrom e rest with
      | none => rfl
      | some r =>
        cases hget : st.bundles.get r.1.1 with
        | none => simp [hget]
        | some b =>
          simp [hget]
          rfl
  | _ => rfl

section

variable {U : Type}

def Relay.recast (w : Relay U) : Relay U := { w with app := w.app.recast A n T }

@[simp] theorem Relay.recast_app (w : Relay U) : (w.recast A n T).app = w.app.recast A n T := rfl

@[simp] theorem Relay.recast_chans (w : Relay U) : (w.recast A n T).chans = w.chans := rfl

@[simp] theorem Relay.recast_issued (w : Relay U) : (w.recast A n T).issued = w.issued := rfl

theorem Relay.trySend_recast (w : Relay U) (sid : Nat) (f : ServerFrame U) :
    (w.recast A n T).trySend sid f =
      ((w.trySend sid f).1, (w.trySend sid f).2.recast A n T) := by
  simp only [trySend, recast_chans]
  cases w.chans[sid]? <;> rfl

theorem SocketPc.awaitSend_recast (w : Relay U) (sid : Nat) (f : ServerFrame U) :
    awaitSend (w.recast A n T) sid f =
      (awaitSend w sid f).map fun r => (r.1, r.2.recast A n T) := by
  simp only [awaitSend, Relay.recast_chans]
  cases w.chans[sid]? with
  | none => rfl
  | some c =>
    dsimp only
    split_ifs <;> rfl

/-- Does the next step read or change the records? -/
def SocketPc.accounts : SocketPc U → Bool
  | ready | retireCount _ => true
  | _ => false

end

variable {U : Type} [UuidText U]

theorem SocketPc.queueStep_recast (e : RelayEvent U) (q : QueueTask U) (w : Relay U)
    (next : QueueTask U → SocketPc U) (done : Except DbError Nat → SocketPc U) :
    queueStep e q (w.recast A n T) next done =
      (queueStep e q w next done).map fun r => (r.1, r.2.recast A n T) := by
  cases q with
  | done r => rfl
  | _ =>
    unfold queueStep
    dsimp only [Relay.recast_app, AppState.recast_queues]
    split_ifs
    · rfl
    · rw [Option.map_map]
      rfl

variable [DecidableEq U]

/-- A step that does not look at the records does the same whatever they are. -/
theorem SocketPc.step_recast {C : Crates} {e : RelayEvent U} {s : Socket} {pc : SocketPc U}
    (hpc : pc.accounts = false) (w : Relay U) :
    pc.step C e s (w.recast A n T) =
      (pc.step C e s w).map fun r => (r.1, r.2.1, r.2.2.recast A n T) := by
  cases pc with
  | ready => cases hpc
  | retireCount rid => cases hpc
  | reply f last =>
    simp only [step, Relay.trySend_recast]
    rfl
  | helloOk rid selected certOnly =>
    simp only [step, Relay.trySend_recast]
    rfl
  | helloPush rest delivered selected =>
    cases rest with
    | nil => rfl
    | cons env rest =>
      simp only [step, awaitSend_recast, Option.map_map]
      rfl
  | helloSynced delivered selected =>
    simp only [step, awaitSend_recast]
    split_ifs
    · rw [Option.map_map, Option.map_map]
      rfl
    · rfl
  | sendRate r m ty ct =>
    simp only [step, Relay.recast_app, AppState.allowDestSend_recast]
    rcases w.app.allowDestSend e.store.now m with ⟨_ | _, st⟩ <;> rfl
  | sendLive r m ty ct =>
    by_cases hnew : e.uuid ∈ w.issued
    · have hno : ∀ w' : Relay U, w'.issued = w.issued →
          step C e s w' (sendLive r m ty ct) = none := fun w' h => if_pos (h ▸ hnew)
      rw [hno w rfl, hno (w.recast A n T) rfl]
      rfl
    · refine (if_neg hnew).trans (Eq.trans ?_ (congrArg _ (if_neg hnew).symm))
      dsimp only [Relay.recast_app, AppState.recast_online]
      cases w.app.online.get m with
      | none => rfl
      | some sid =>
        have htry := Relay.trySend_recast A n T
          ({ w with issued := e.uuid :: w.issued } : Relay U) sid (.envelope ⟨e.uuid, m, ty, ct⟩)
        dsimp only [Relay.recast] at htry ⊢
        rw [htry]
        rcases Relay.trySend ({ w with issued := e.uuid :: w.issued } : Relay U) sid
          (.envelope ⟨e.uuid, m, ty, ct⟩) with ⟨_ | _, w'⟩ <;> rfl
  | sendCheck r env live =>
    by_cases hfull : w.app.queues.wouldExceedGlobal (len env.ciphertext) = true
    · refine (if_pos hfull).trans (Eq.trans ?_ (congrArg _ (if_pos hfull).symm))
      rfl
    · refine (if_neg hfull).trans (Eq.trans ?_ (congrArg _ (if_neg hfull).symm))
      rfl
  | sendQueue r env live q =>
    simp only [step, queueStep_recast, Option.map_map]
    rfl
  | prune p f =>
    cases p with
    | done => rfl
    | _ =>
      simp only [step, Relay.recast_app, PruneTask.step_recast, Option.map_map]
      rfl
  | uploadLook r id ct x =>
    have hreply : existingReply (U := U) e.store.now r id ct (w.recast A n T).app =
        existingReply e.store.now r id ct w.app := rfl
    simp only [step, hreply]
    cases existingReply (U := U) e.store.now r id ct w.app <;> rfl
  | fetchBundle r id =>
    unfold step
    dsimp only [Relay.recast_app, AppState.recast_bundles]
    cases w.app.bundles.get id <;> rfl
  | file t r id i =>
    by_cases hrun : (e.notRun && t.starts) = true
    · cases t with
      | done res => rfl
      | _ =>
        refine (if_pos hrun).trans (Eq.trans ?_ (congrArg _ (if_pos hrun).symm))
        rfl
    · cases t with
      | done res => rfl
      | _ =>
        refine (if_neg hrun).trans (Eq.trans ?_ (congrArg _ (if_neg hrun).symm))
        rw [Option.map_map]
        rfl
  | ackQueue q =>
    simp only [step, queueStep_recast, Option.map_map]
    rfl
  | retirePurge rid q =>
    simp only [step, queueStep_recast, Option.map_map]
    rfl
  | closeLook =>
    simp only [step]
    cases s.recipientId <;> rfl
  | _ => rfl

end

/-! ## Twins -/

/-- `st₁` is `st₂` with mailbox `m` registered under the record `a`. The row of `m` in the
    table of records may differ. -/
structure AppState.Twin (m : RecipientId) (a : MailboxAuth) (st₁ st₂ : AppState) : Prop where
  free : st₂.mailboxAuth.get m = none
  same : ∃ T : OrdMap RecipientId MailboxAuth, (∀ k, k ≠ m → T.get k = st₂.tables.auth.get k) ∧
    st₁ = st₂.recast (st₂.mailboxAuth.insert m a) (st₂.mailboxCount + 1)
      { st₂.tables with auth := T }

structure Relay.Twin {U : Type} (m : RecipientId) (a : MailboxAuth) (w₁ w₂ : Relay U) : Prop where
  app : AppState.Twin m a w₁.app w₂.app
  chans : w₁.chans = w₂.chans
  issued : w₁.issued = w₂.issued

/-- The channels agree, and the rest is a twin unless the count has overflown. -/
structure Relay.Alike {U : Type} (m : RecipientId) (a : MailboxAuth) (w₁ w₂ : Relay U) : Prop where
  chans : w₁.chans = w₂.chans
  free : w₂.app.mailboxAuth.get m = none
  twin : w₂.app.mailboxCount < maxMailboxes → Relay.Twin m a w₁ w₂

theorem Relay.Twin.alike {U : Type} {m : RecipientId} {a : MailboxAuth} {w₁ w₂ : Relay U}
    (h : Relay.Twin m a w₁ w₂) : Relay.Alike m a w₁ w₂ := ⟨h.chans, h.app.free, fun _ => h⟩

section

variable {m : RecipientId} {a : MailboxAuth} {st₁ st₂ : AppState}

theorem AppState.Twin.get_self (h : AppState.Twin m a st₁ st₂) :
    st₁.mailboxAuth.get m = some a := by
  obtain ⟨T, _, rfl⟩ := h.same
  exact (OrdMap.get_insert _ _ _ _).trans (if_pos rfl)

theorem AppState.Twin.get_ne (h : AppState.Twin m a st₁ st₂) {k : RecipientId} (hk : k ≠ m) :
    st₁.mailboxAuth.get k = st₂.mailboxAuth.get k := by
  obtain ⟨T, _, rfl⟩ := h.same
  exact (OrdMap.get_insert _ _ _ _).trans (if_neg hk)

theorem AppState.Twin.count (h : AppState.Twin m a st₁ st₂) :
    st₁.mailboxCount = st₂.mailboxCount + 1 := by
  obtain ⟨T, _, rfl⟩ := h.same
  rfl

theorem AppState.Twin.counted (h : AppState.Twin m a st₁ st₂) {n₁ n₂ : Nat} (hn : n₁ = n₂ + 1) :
    AppState.Twin m a { st₁ with mailboxCount := n₁ } { st₂ with mailboxCount := n₂ } := by
  obtain ⟨T, hT, rfl⟩ := h.same
  exact ⟨h.free, T, hT, by simp only [AppState.recast, hn]⟩

/-- The same change to the record of another mailbox. -/
theorem AppState.Twin.assign (h : AppState.Twin m a st₁ st₂) {k : RecipientId} (hk : k ≠ m)
    (o : Option MailboxAuth) :
    AppState.Twin m a { st₁ with mailboxAuth := st₁.mailboxAuth.assign k o }
      { st₂ with mailboxAuth := st₂.mailboxAuth.assign k o } := by
  obtain ⟨T, hT, rfl⟩ := h.same
  refine ⟨?_, T, hT, ?_⟩
  · dsimp only
    rw [OrdMap.get_assign, if_neg (Ne.symm hk)]
    exact h.free
  · have hcomm : (st₂.mailboxAuth.insert m a).assign k o =
        (st₂.mailboxAuth.assign k o).insert m a := by
      refine OrdMap.ext_get fun j => ?_
      simp only [OrdMap.get_assign, OrdMap.get_insert]
      split_ifs with hj hm
      · exact absurd (hj.symm.trans hm) hk
      · rfl
      · rfl
      · rfl
    simp only [AppState.recast, hcomm]

end

/-! ## One step of a socket -/

section

variable {U : Type}

/-- A frame of someone who does not own mailbox `m` and has not paid for it. -/
def Probe (C : Crates) (m : RecipientId) (a : MailboxAuth) (now : Nat) : ClientFrame U → Prop
  | .hello rid token _ _ _ _ pow _ => rid = m →
    tokenHash C token ≠ a.receiveAuthHash ∧ (pow.any fun n => verifyPow C now m n) = false
  | .sendEnvelope _ toId token _ _ => toId = m →
    a.acceptsDeliveryHash (tokenHash C token) = false
  | _ => True

instance (C : Crates) (m : RecipientId) (a : MailboxAuth) (now : Nat) (f : ClientFrame U) :
    Decidable (Probe C m a now f) := by
  cases f <;> unfold Probe <;> infer_instance

/-- What a step of a socket leads to in two runs. -/
abbrev SocketRel (m : RecipientId) (a : MailboxAuth)
    (x y : Socket × SocketPc U × Relay U) : Prop :=
  x.1 = y.1 ∧ x.2.1 = y.2.1 ∧ Relay.Alike m a x.2.2 y.2.2

variable {C : Crates} {m : RecipientId} {a : MailboxAuth} {st₁ st₂ : AppState} {w₁ w₂ : Relay U}

theorem reserveMailboxSlot_free {st : AppState} (h : st.mailboxCount < maxMailboxes) :
    st.reserveMailboxSlot = (true, { st with mailboxCount := st.mailboxCount + 1 }) :=
  if_neg (Nat.not_le.mpr h)

/-- Both runs accept a Hello, or both refuse it with the same error. -/
theorem helloEntry_twin (h : AppState.Twin m a st₁ st₂) (hb₁ : st₁.mailboxCount < maxMailboxes)
    {now : Nat} {rid token delivery : String} {pow : Option String}
    (hp : rid = m → tokenHash C token ≠ a.receiveAuthHash ∧
      (pow.any fun n => verifyPow C now m n) = false) :
    (∃ e, SocketPc.helloEntry C now rid (tokenHash C token) delivery pow st₁ = .error e ∧
      SocketPc.helloEntry C now rid (tokenHash C token) delivery pow st₂ = .error e) ∨
    ∃ st₁' st₂', SocketPc.helloEntry C now rid (tokenHash C token) delivery pow st₁ = .ok st₁' ∧
      SocketPc.helloEntry C now rid (tokenHash C token) delivery pow st₂ = .ok st₂' ∧
      AppState.Twin m a st₁' st₂' := by
  unfold SocketPc.helloEntry
  by_cases hm : rid = m
  · subst hm
    left
    obtain ⟨hhash, hpow⟩ := hp rfl
    have hne : ctEq a.receiveAuthHash (tokenHash C token) = false := by
      rw [Bool.eq_false_iff]
      exact fun heq => hhash ((ctEq_iff _ _).mp heq).symm
    rw [h.get_self, h.free]
    simp only [hne, hpow, Bool.not_false, if_true]
    exact ⟨_, rfl, rfl⟩
  · rw [h.get_ne hm]
    cases hget : st₂.mailboxAuth.get rid with
    | some b =>
      dsimp only
      split_ifs
      · exact Or.inl ⟨_, rfl, rfl⟩
      · exact Or.inr ⟨_, _, rfl, rfl, h.assign hm (some _)⟩
    | none =>
      dsimp only
      split_ifs
      · exact Or.inl ⟨_, rfl, rfl⟩
      · have hcount := h.count
        rw [reserveMailboxSlot_free hb₁, reserveMailboxSlot_free (by omega)]
        exact Or.inr ⟨_, _, rfl, rfl,
          (h.counted (congrArg (· + 1) hcount)).assign hm (some _)⟩

/-- Both runs accept a send and refresh the record, or both refuse it. -/
theorem sendAuth_twin (h : AppState.Twin m a st₁ st₂) {n : Nat} {toId token : String}
    (hp : toId = m → a.acceptsDeliveryHash (tokenHash C token) = false) :
    (SocketPc.sendAuth C n toId token st₁ = none ∧
      SocketPc.sendAuth C n toId token st₂ = none) ∨
    ∃ st₁' st₂', SocketPc.sendAuth C n toId token st₁ = some st₁' ∧
      SocketPc.sendAuth C n toId token st₂ = some st₂' ∧ AppState.Twin m a st₁' st₂' := by
  unfold SocketPc.sendAuth
  by_cases hm : toId = m
  · subst hm
    rw [h.get_self, h.free]
    refine Or.inl ⟨?_, rfl⟩
    simp only [hp rfl, Bool.false_eq_true, if_false]
  · rw [h.get_ne hm]
    cases st₂.mailboxAuth.get toId with
    | none => exact Or.inl ⟨rfl, rfl⟩
    | some b =>
      dsimp only
      split_ifs
      · exact Or.inr ⟨_, _, rfl, rfl, h.assign hm (some _)⟩
      · exact Or.inl ⟨rfl, rfl⟩

/-- Both runs take up a frame in the same way. -/
theorem handle_twin (h : Relay.Twin m a w₁ w₂) (hb₁ : w₁.app.mailboxCount < maxMailboxes)
    {e : RelayEvent U} {s : Socket} (hs : s.recipientId ≠ some m) {f : ClientFrame U}
    (hp : Probe C m a e.store.now f) :
    (SocketPc.handle C e s w₁ f).1 = (SocketPc.handle C e s w₂ f).1 ∧
      Relay.Twin m a (SocketPc.handle C e s w₁ f).2 (SocketPc.handle C e s w₂ f).2 := by
  cases f with
  | hello rid token delivery pmin pmax version pow certOnly =>
    simp only [SocketPc.handle]
    split_ifs
    · exact ⟨rfl, h⟩
    · exact ⟨rfl, h⟩
    · rcases helloEntry_twin h.app hb₁ hp with ⟨e, he₁, he₂⟩ | ⟨st₁', st₂', he₁, he₂, happ⟩
      · rw [he₁, he₂]
        exact ⟨rfl, h⟩
      · rw [he₁, he₂]
        exact ⟨rfl, happ, h.chans, h.issued⟩
  | setDeliveryTokens requestId tokens =>
    simp only [SocketPc.handle]
    cases hrid : s.recipientId with
    | none => exact ⟨rfl, h⟩
    | some rid =>
      have hm : rid ≠ m := fun hm => hs (by rw [hrid, hm])
      dsimp only
      split_ifs
      · exact ⟨rfl, h⟩
      · rw [h.app.get_ne hm]
        cases w₂.app.mailboxAuth.get rid with
        | none => exact ⟨rfl, h⟩
        | some auth => exact ⟨rfl, h.app.assign hm (some _), h.chans, h.issued⟩
  | issueSenderCertificate requestId uuid device key =>
    have htrust : w₁.app.trustRootPublicB64 = w₂.app.trustRootPublicB64 := by
      obtain ⟨T, _, hsame⟩ := h.app.same
      rw [hsame]
      rfl
    simp only [SocketPc.handle]
    cases s.recipientId with
    | none => exact ⟨rfl, h⟩
    | some rid =>
      dsimp only
      split_ifs
      · exact ⟨rfl, h⟩
      · cases SocketPc.certRequest C uuid device key with
        | error msg => exact ⟨rfl, h⟩
        | ok key =>
          cases e.cert with
          | error msg => exact ⟨rfl, h⟩
          | ok cert => exact ⟨by dsimp only; rw [htrust], h⟩
  | sendEnvelope r toId token ty ct =>
    simp only [SocketPc.handle]
    split_ifs
    · exact ⟨rfl, h⟩
    · exact ⟨rfl, h⟩
    · rcases sendAuth_twin h.app (n := e.store.now) hp with ⟨he₁, he₂⟩ | ⟨st₁', st₂', he₁, he₂, happ⟩
      · rw [he₁, he₂]
        exact ⟨rfl, h⟩
      · rw [he₁, he₂]
        exact ⟨rfl, happ, h.chans, h.issued⟩
  | retireMailbox =>
    simp only [SocketPc.handle]
    cases hrid : s.recipientId with
    | none => exact ⟨rfl, h⟩
    | some rid =>
      have hm : rid ≠ m := fun hm => hs (by rw [hrid, hm])
      dsimp only
      rw [h.app.get_ne hm]
      split_ifs
      · exact ⟨rfl, h.app.assign hm none, h.chans, h.issued⟩
      · exact ⟨rfl, h⟩
  | uploadBundle requestId bundleId ct x pow =>
    simp only [SocketPc.handle]
    split_ifs <;> exact ⟨rfl, h⟩
  | uploadFileChunk requestId id i total size ct pow =>
    simp only [SocketPc.handle]
    split_ifs
    · exact ⟨rfl, h⟩
    · cases C.decodeB64 ct <;> exact ⟨rfl, h⟩
    · cases C.decodeB64 ct <;> exact ⟨rfl, h⟩
  | fetchFileChunk requestId id i =>
    simp only [SocketPc.handle]
    split_ifs <;> exact ⟨rfl, h⟩
  | deleteTransfer requestId id =>
    simp only [SocketPc.handle]
    split_ifs <;> exact ⟨rfl, h⟩
  | ack ids =>
    simp only [SocketPc.handle]
    cases s.recipientId <;> exact ⟨rfl, h⟩
  | _ => exact ⟨rfl, h⟩

theorem retireCount_alike (h : Relay.Twin m a w₁ w₂) :
    Relay.Alike m a
      { w₁ with app := { w₁.app with mailboxCount := fetchSubOne w₁.app.mailboxCount } }
      { w₂ with app := { w₂.app with mailboxCount := fetchSubOne w₂.app.mailboxCount } } := by
  refine ⟨h.chans, h.app.free, fun hb => ⟨h.app.counted ?_, h.chans, h.issued⟩⟩
  have hne : w₂.app.mailboxCount ≠ 0 := by
    intro h0
    dsimp only at hb
    rw [h0] at hb
    exact absurd hb (by decide)
  rw [h.app.count, fetchSubOne, fetchSubOne, if_neg (Nat.succ_ne_zero _), if_neg hne]
  omega

theorem receive_twin (h : Relay.Twin m a w₁ w₂) (hb₁ : w₁.app.mailboxCount < maxMailboxes)
    {e : RelayEvent U} {s : Socket} (hs : s.recipientId ≠ some m)
    (hp : ∀ n f, e.incoming = .text n (.ok f) → Probe C m a e.store.now f) :
    SocketRel m a (SocketPc.receive C e s w₁) (SocketPc.receive C e s w₂) := by
  have hsame : (SocketPc.countFrame e.store.now s).recipientId = s.recipientId := by
    unfold SocketPc.countFrame
    dsimp only
    split_ifs <;> rfl
  unfold SocketPc.receive
  cases hin : e.incoming with
  | closed => exact ⟨rfl, rfl, h.alike⟩
  | other => exact ⟨rfl, rfl, h.alike⟩
  | text n parsed =>
    dsimp only
    split_ifs
    · exact ⟨rfl, rfl, h.alike⟩
    · exact ⟨rfl, rfl, h.alike⟩
    · cases parsed with
      | error msg => exact ⟨rfl, rfl, h.alike⟩
      | ok f =>
        obtain ⟨hpc, hw⟩ := handle_twin h hb₁ (hsame ▸ hs) (hp n f hin)
        exact ⟨rfl, hpc, hw.alike⟩

variable [UuidText U] [DecidableEq U]

/-- A step that does not look at the records keeps twins twins. -/
theorem step_twin (h : Relay.Twin m a w₁ w₂) {e : RelayEvent U} {s : Socket} {pc : SocketPc U}
    (hpc : pc.accounts = false) :
    Option.Rel (SocketRel m a) (pc.step C e s w₁) (pc.step C e s w₂) := by
  obtain ⟨T, hT, happ⟩ := h.app.same
  have hw₁ : w₁ = w₂.recast (w₂.app.mailboxAuth.insert m a) (w₂.app.mailboxCount + 1)
      { w₂.app.tables with auth := T } := by
    unfold Relay.recast
    rw [← happ, ← h.chans, ← h.issued]
  -- the second run as itself with its own records
  have hown := SocketPc.step_recast w₂.app.mailboxAuth w₂.app.mailboxCount w₂.app.tables
    (C := C) (e := e) (s := s) hpc w₂
  rw [hw₁, SocketPc.step_recast _ _ _ hpc]
  cases hstep : pc.step C e s w₂ with
  | none => exact .none
  | some r =>
    have hkept : r.2.2 = r.2.2.recast w₂.app.mailboxAuth w₂.app.mailboxCount w₂.app.tables := by
      rw [hstep] at hown
      have hsome : some r = some (r.1, r.2.1,
        r.2.2.recast w₂.app.mailboxAuth w₂.app.mailboxCount w₂.app.tables) := by
        rw [← hstep]
        exact hown
      exact congrArg (fun x => x.2.2) (Option.some.inj hsome)
    refine .some ⟨rfl, rfl, Relay.Twin.alike ⟨⟨?_, T, ?_, ?_⟩, rfl, rfl⟩⟩
    · rw [hkept]
      exact h.app.free
    · rw [hkept]
      exact hT
    · rw [hkept]
      rfl

theorem socket_twin (h : Relay.Twin m a w₁ w₂) (hb₁ : w₁.app.mailboxCount < maxMailboxes)
    {e : RelayEvent U} {s : Socket} {pc : SocketPc U} (hs : pc.actsFor s ≠ some m)
    (hp : pc = .ready → ∀ n f, e.incoming = .text n (.ok f) → Probe C m a e.store.now f) :
    Option.Rel (SocketRel m a) (pc.step C e s w₁) (pc.step C e s w₂) := by
  cases hpc : pc.accounts with
  | false => exact step_twin h hpc
  | true =>
    cases pc with
    | ready => exact .some (receive_twin h hb₁ hs (hp rfl))
    | retireCount rid => exact .some ⟨rfl, rfl, retireCount_alike h⟩
    | _ => cases hpc

end

/-! ## The flush task -/

/-- Two batches that agree but for what they write for `m`. -/
def BatchAlike (m : RecipientId) (b₁ b₂ : List (RecipientId × Option MailboxAuth)) : Prop :=
  List.Forall₂ (fun x y => x.1 = y.1 ∧ (x.1 ≠ m → x.2 = y.2)) b₁ b₂

inductive FlushTask.Alike (m : RecipientId) : FlushTask → FlushTask → Prop
  | same (f : FlushTask) : Alike m f f
  | take (rest : List RecipientId) (b₁ b₂ : List (RecipientId × Option MailboxAuth))
      (hb : BatchAlike m b₁ b₂) : Alike m (authTake rest b₁) (authTake rest b₂)
  | read (k : RecipientId) (rest : List RecipientId)
      (b₁ b₂ : List (RecipientId × Option MailboxAuth)) (hb : BatchAlike m b₁ b₂) :
      Alike m (authRead k rest b₁) (authRead k rest b₂)
  | txn (b₁ b₂ : List (RecipientId × Option MailboxAuth)) (hb : BatchAlike m b₁ b₂) :
      Alike m (authTxn b₁) (authTxn b₂)

section

variable {m : RecipientId} {a : MailboxAuth} {st₁ st₂ : AppState}
  {b₁ b₂ : List (RecipientId × Option MailboxAuth)}

theorem BatchAlike.refl (b : List (RecipientId × Option MailboxAuth)) : BatchAlike m b b :=
  List.forall₂_same.mpr fun _ _ => ⟨rfl, fun _ => rfl⟩

theorem BatchAlike.fails (h : BatchAlike m b₁ b₂) (fs : Faults) :
    BatchFails fs b₁ ↔ BatchFails fs b₂ := by
  have hnil : b₁ = [] ↔ b₂ = [] := by
    cases h <;> simp
  rw [BatchFails, BatchFails, List.Forall₂.length_eq h, Ne, Ne, hnil]

/-- Writing two such batches into tables that agree off `m`. -/
theorem BatchAlike.assignAll (h : BatchAlike m b₁ b₂) {t₁ t₂ : OrdMap RecipientId MailboxAuth}
    (ht : ∀ k, k ≠ m → t₁.get k = t₂.get k) (k : RecipientId) (hk : k ≠ m) :
    (t₁.assignAll b₁).get k = (t₂.assignAll b₂).get k := by
  induction h generalizing t₁ t₂ with
  | nil => exact ht k hk
  | @cons x y _ _ hxy _ ih =>
    refine ih fun j hj => ?_
    rw [OrdMap.get_assign, OrdMap.get_assign, hxy.1]
    split_ifs with hjy
    · exact hxy.2 fun hm => hj (by rw [hjy, ← hxy.1, hm])
    · exact ht j hj

/-- What a step of the flush task leads to in two runs. -/
abbrev FlushRel (m : RecipientId) (a : MailboxAuth) (x y : FlushTask × AppState) : Prop :=
  FlushTask.Alike m x.1 y.1 ∧ AppState.Twin m a x.2 y.2

theorem authTake_twin (h : AppState.Twin m a st₁ st₂) (hb : BatchAlike m b₁ b₂) (e : StoreEvent)
    (rest : List RecipientId) :
    Option.Rel (FlushRel m a) ((FlushTask.authTake rest b₁).step e st₁)
      ((FlushTask.authTake rest b₂).step e st₂) := by
  simp only [FlushTask.step]
  split_ifs
  · exact .some ⟨.txn _ _ hb, h⟩
  · cases pickFrom e rest with
    | none => exact .none
    | some r =>
      obtain ⟨T, hT, rfl⟩ := h.same
      exact .some ⟨.read _ _ _ _ hb, h.free, T, hT, rfl⟩

theorem authRead_twin (h : AppState.Twin m a st₁ st₂) (hb : BatchAlike m b₁ b₂) (e : StoreEvent)
    (k : RecipientId) (rest : List RecipientId) :
    Option.Rel (FlushRel m a) ((FlushTask.authRead k rest b₁).step e st₁)
      ((FlushTask.authRead k rest b₂).step e st₂) :=
  .some ⟨.take _ _ _ (List.rel_append hb (.cons ⟨rfl, h.get_ne⟩ .nil)), h⟩

theorem authTxn_twin (h : AppState.Twin m a st₁ st₂) (hb : BatchAlike m b₁ b₂) (e : StoreEvent) :
    Option.Rel (FlushRel m a) ((FlushTask.authTxn b₁).step e st₁)
      ((FlushTask.authTxn b₂).step e st₂) := by
  obtain ⟨T, hT, rfl⟩ := h.same
  simp only [FlushTask.step, MetaTables.flushAuth, AppState.recast]
  rcases writeBatch_cases b₁ e.faults T with ⟨hf, err, he⟩ | ⟨hf, hok⟩
  · rcases writeBatch_cases b₂ e.faults st₂.tables.auth with ⟨_, err', he'⟩ | ⟨hf', _⟩
    · rw [he, he']
      exact .some ⟨.same _, h.free, T, hT, rfl⟩
    · exact absurd ((hb.fails _).mp hf) hf'
  · rcases writeBatch_cases b₂ e.faults st₂.tables.auth with ⟨hf', _⟩ | ⟨_, hok'⟩
    · exact absurd ((hb.fails _).mpr hf') hf
    · rw [hok, hok']
      exact .some ⟨.same _, h.free, _, hb.assignAll hT, rfl⟩

theorem flush_twin (h : AppState.Twin m a st₁ st₂) {f₁ f₂ : FlushTask}
    (hf : FlushTask.Alike m f₁ f₂) (e : StoreEvent) :
    Option.Rel (FlushRel m a) (f₁.step e st₁) (f₂.step e st₂) := by
  cases hf with
  | take rest b₁ b₂ hb => exact authTake_twin h hb e rest
  | read k rest b₁ b₂ hb => exact authRead_twin h hb e k rest
  | txn b₁ b₂ hb => exact authTxn_twin h hb e
  | same =>
    cases f₁ with
    | authTake rest b => exact authTake_twin h (.refl b) e rest
    | authRead k rest b => exact authRead_twin h (.refl b) e k rest
    | authTxn b => exact authTxn_twin h (.refl b) e
    | bundleTake rest b =>
      simp only [FlushTask.step]
      split_ifs
      · exact .some ⟨.same _, h⟩
      · cases pickFrom e rest with
        | none => exact .none
        | some r =>
          obtain ⟨T, hT, rfl⟩ := h.same
          exact .some ⟨.same _, h.free, T, hT, rfl⟩
    | _ =>
      obtain ⟨T, hT, rfl⟩ := h.same
      exact .some ⟨.same _, h.free, T, hT, rfl⟩

end

/-! ## Runs of twins -/

/-- Tasks that are the same in both runs, and do not act for `m`. -/
inductive RelayTask.Alike {U : Type} (m : RecipientId) : RelayTask U → RelayTask U → Prop
  | socket (s : Socket) (pc : SocketPc U) (h : pc.actsFor s ≠ some m) :
      Alike m (.socket s pc) (.socket s pc)
  | flush (f₁ f₂ : FlushTask) (h : FlushTask.Alike m f₁ f₂) : Alike m (.flush f₁) (.flush f₂)
  | collected : Alike m (.gc .done) (.gc .done)
  | sweepQueues (q : QueueTask U) : Alike m (.sweepQueues q) (.sweepQueues q)
  | sweepFiles (t : FileTask) : Alike m (.sweepFiles t) (.sweepFiles t)

section

variable {U : Type}

/-- Two relays that agree but for the registration of mailbox `m`, whose record is `a` in the
    first; no socket is authenticated for `m`, and no collection is under way. -/
structure TwinRelays (m : RecipientId) (a : MailboxAuth) (c₁ c₂ : RelayConfig U) : Prop where
  pool : List.Forall₂ (RelayTask.Alike m) c₁.pool c₂.pool
  shared : Relay.Twin m a c₁.shared c₂.shared

/-- The frame that the socket at place `i` would take up. -/
def frameAt (c : RelayConfig U) (i : Nat) (e : RelayEvent U) : Option (ClientFrame U) :=
  match c.pool[i]?, e.incoming with
  | some (.socket _ .ready), .text _ (.ok f) => some f
  | _, _ => none

/-- Both counts are below the limit, no collection begins, and the frame taken up, if any, is
    a probe. -/
def Probing (C : Crates) (m : RecipientId) (a : MailboxAuth) (c₁ c₂ : RelayConfig U)
    (mv : Move (RelayMove U)) : Prop :=
  (c₁.shared.app.mailboxCount < maxMailboxes ∧ c₂.shared.app.mailboxCount < maxMailboxes) ∧
    match mv with
    | .spawn .gc => False
    | .act i (.run e) => ∀ f, frameAt c₁ i e = some f → Probe C m a e.store.now f
    | _ => True

instance (C : Crates) (m : RecipientId) (a : MailboxAuth) (c₁ c₂ : RelayConfig U) :
    ∀ mv, Decidable (Probing C m a c₁ c₂ mv)
  | .spawn .gc => isFalse And.right
  | .act _ (.run _) => @instDecidableAnd _ _ _ (decidableForallSome _ _)
  | .spawn (.connect _) | .spawn .sweepQueues | .spawn .sweepFiles | .spawn (.run _)
  | .spawn (.drain _) | .spawn (.drop _) | .act _ (.connect _) | .act _ .gc
  | .act _ .sweepQueues | .act _ .sweepFiles | .act _ (.drain _) | .act _ (.drop _)
  | .env _ => @instDecidableAnd _ _ _ (isTrue trivial)

variable [UuidText U] [DecidableEq U] {C : Crates} {m : RecipientId} {a : MailboxAuth}
  {w₁ w₂ : Relay U}

/-- The socket goes on acting for someone else: `m` is not registered in the second run. -/
theorem stranger_step {e : RelayEvent U} {s s' : Socket} {pc pc' : SocketPc U} {w w' : Relay U}
    (hstep : pc.step C e s w = some (s', pc', w')) (hs : pc.actsFor s ≠ some m)
    (hfree : w'.app.mailboxAuth.get m = none) : pc'.actsFor s' ≠ some m := by
  rcases (SocketPc.stepped_of_step hstep).actsFor with ⟨hacts, _⟩ | ⟨_, k, _, hacts, _, b, hb, _⟩
  · rw [hacts]
    exact hs
  · rw [hacts]
    rintro hm
    obtain rfl := Option.some.inj hm
    rw [hfree] at hb
    cases hb

theorem task_twin (h : Relay.Twin m a w₁ w₂) (hb₁ : w₁.app.mailboxCount < maxMailboxes)
    {t₁ t₂ : RelayTask U} (ht : RelayTask.Alike m t₁ t₂) {e : RelayEvent U}
    (hp : ∀ s, t₁ = .socket s .ready → ∀ n f, e.incoming = .text n (.ok f) →
      Probe C m a e.store.now f) :
    StepRel (Relay.Alike m a) (RelayTask.Alike m) (t₁.step C e w₁) (t₂.step C e w₂) := by
  cases ht with
  | socket s pc hs =>
    have hstep := socket_twin h hb₁ hs fun hr => hp s (by rw [hr])
    simp only [RelayTask.step]
    cases h₂ : pc.step C e s w₂ with
    | none =>
      rw [h₂] at hstep
      generalize pc.step C e s w₁ = o at hstep
      cases hstep
      exact .none
    | some y =>
      rw [h₂] at hstep
      generalize pc.step C e s w₁ = o at hstep
      cases hstep with
      | @some x _ hxy =>
        obtain ⟨s₁, pc₁, w₁'⟩ := x
        obtain ⟨s₂, pc₂, w₂'⟩ := y
        obtain ⟨rfl, rfl, hw⟩ := hxy
        exact .some ⟨.socket _ _ (stranger_step h₂ hs hw.free), hw⟩
  | flush f₁ f₂ hf =>
    refine rel_map (fun x y hxy => ⟨.flush _ _ hxy.1, ?_⟩) (flush_twin h.app hf e.store)
    exact Relay.Twin.alike ⟨hxy.2, h.chans, h.issued⟩
  | collected => exact .none
  | sweepQueues q =>
    obtain ⟨T, hT, happ⟩ := h.app.same
    have hqueues : w₁.app.queues = w₂.app.queues := by rw [happ]; rfl
    simp only [RelayTask.step, hqueues]
    cases q.step e.store w₂.app.queues with
    | none => exact .none
    | some r =>
      refine .some ⟨.sweepQueues _, Relay.Twin.alike ⟨⟨h.app.free, T, hT, ?_⟩, h.chans, h.issued⟩⟩
      rw [happ]
      rfl
  | sweepFiles t =>
    obtain ⟨T, hT, happ⟩ := h.app.same
    have hfiles : w₁.app.files = w₂.app.files := by rw [happ]; rfl
    simp only [RelayTask.step, hfiles]
    cases t.step e.store w₂.app.files with
    | none => exact .none
    | some r =>
      refine .some ⟨.sweepFiles _, Relay.Twin.alike ⟨⟨h.app.free, T, hT, ?_⟩, h.chans, h.issued⟩⟩
      rw [happ]
      rfl

/-- A move that is a probe leads both relays on, or is enabled in neither. -/
theorem next_twin {c₁ c₂ : RelayConfig U} (h : TwinRelays m a c₁ c₂) {mv : Move (RelayMove U)}
    (hp : Probing C m a c₁ c₂ mv) :
    NextRel (Relay.Alike m a) (RelayTask.Alike m) ((relayMachine C).next mv c₁)
      ((relayMachine C).next mv c₂) := by
  obtain ⟨w₁, pool₁⟩ := c₁
  obtain ⟨w₂, pool₂⟩ := c₂
  obtain ⟨hpool, hw⟩ := h
  obtain ⟨⟨hb₁, _⟩, hp⟩ := hp
  have hchans : w₁.chans = w₂.chans := hw.chans
  refine next_rel hpool ?_ ?_ ?_
  · rintro ev rfl
    cases ev with
    | connect now =>
      obtain ⟨T, hT, happ⟩ := hw.app.same
      have hconn : w₁.app.connCount = w₂.app.connCount := by rw [happ]; rfl
      simp only [relayMachine, hconn, hchans]
      split_ifs
      · exact .none
      · refine .some ⟨.socket _ _ (fun h => by cases h),
          Relay.Twin.alike ⟨⟨hw.app.free, T, hT, ?_⟩, rfl, hw.issued⟩⟩
        dsimp only
        rw [happ]
        rfl
    | gc => exact hp.elim
    | sweepQueues => exact .some ⟨.sweepQueues _, hw.alike⟩
    | sweepFiles => exact .some ⟨.sweepFiles _, hw.alike⟩
    | _ => exact .none
  · rintro i ev t₁ t₂ rfl hi ht
    cases ev with
    | run e =>
      refine task_twin hw hb₁ ht fun s hs n f hin => hp f ?_
      rw [hs] at hi
      simp only [frameAt, hi, hin]
    | _ => exact .none
  · rintro ev rfl
    cases ev with
    | drain sid =>
      simp only [relayMachine, hchans]
      cases w₂.chans[sid]? with
      | none => exact .none
      | some c =>
        dsimp only
        split_ifs
        · exact .some (Relay.Twin.alike ⟨hw.app, rfl, hw.issued⟩)
        · exact .none
    | drop sid =>
      refine .some (Relay.Twin.alike ⟨hw.app, ?_, hw.issued⟩)
      dsimp only
      rw [hchans]
    | _ => exact .none

/-- Two relays that differ in the registration of one mailbox push the same frames on every
    channel and can take the same moves, as long as both counts stay below the limit, no
    collection runs, and nobody sends a Hello or an envelope that the mailbox accepts. -/
theorem registration_unobservable {c₁ c₂ d₁ d₂ : RelayConfig U} (h : TwinRelays m a c₁ c₂)
    (l : Lockstep (relayMachine C) (Probing C m a) c₁ c₂ d₁ d₂) :
    d₁.shared.chans = d₂.shared.chans ∧ ∀ mv, Probing C m a d₁ d₂ mv →
      ((relayMachine C).next mv d₁).isSome = ((relayMachine C).next mv d₂).isSome := by
  have htwins : ∀ {d₁ d₂ : RelayConfig U} {mv : Move (RelayMove U)},
      List.Forall₂ (RelayTask.Alike m) d₁.pool d₂.pool ∧ Relay.Alike m a d₁.shared d₂.shared →
      Probing C m a d₁ d₂ mv → TwinRelays m a d₁ d₂ :=
    fun hd hp => ⟨hd.1, hd.2.twin hp.1.2⟩
  have hinv : List.Forall₂ (RelayTask.Alike m) d₁.pool d₂.pool ∧
      Relay.Alike m a d₁.shared d₂.shared := by
    refine l.invariant (R := fun d₁ d₂ => List.Forall₂ (RelayTask.Alike m) d₁.pool d₂.pool ∧
      Relay.Alike m a d₁.shared d₂.shared) ⟨h.pool, h.shared.alike⟩ ?_
    intro d₁ d₂ mv d₁' d₂' hd hp h₁ h₂
    have hnext := next_twin (htwins hd hp) hp
    rw [h₁, h₂] at hnext
    cases hnext with
    | some hboth => exact hboth
  exact ⟨hinv.2.chans, fun mv hp => rel_isSome (next_twin (htwins hinv hp) hp)⟩

end

/-! ## A run -/

/-- The record of the sample mailbox. -/
def sampleAuth : MailboxAuth :=
  MailboxAuth.new 0 (tokenHash sampleCrates "receive_secret_alice_01")
    (tokenHash sampleCrates "delivery_secret_alice_01")

/-- The sample state with one mailbox registered. -/
def registeredState : AppState :=
  AppState.sampleState.recast (OrdMap.empty.insert AppState.sampleRid sampleAuth) 1
    AppState.sampleState.tables

/-- A Hello for the sample mailbox with neither its token nor proof of work. -/
def wrongHello : ClientFrame Nat :=
  .hello AppState.sampleRid "receive_secret_alice_02" "delivery_secret_alice_01" none none none
    none true

/-- A prober is refused by both relays with the same frame. -/
theorem registration_unobservable_sample : ∃ d₁ d₂ : RelayConfig Nat,
    Lockstep (relayMachine sampleCrates) (Probing sampleCrates AppState.sampleRid sampleAuth)
      (started registeredState) (started AppState.sampleState) d₁ d₂ ∧
      d₁.shared.chans = d₂.shared.chans ∧ d₂.shared.chans ≠ [] := by
  have htwins : TwinRelays AppState.sampleRid sampleAuth
      (started registeredState : RelayConfig Nat) (started AppState.sampleState) :=
    ⟨.cons (.flush _ _ (.same _)) .nil, ⟨⟨rfl, OrdMap.empty, fun _ _ => rfl, rfl⟩, rfl, rfl⟩⟩
  obtain ⟨d₁, d₂, l, hend⟩ := exists_lockstep (M := relayMachine sampleCrates)
    (G := Probing sampleCrates AppState.sampleRid sampleAuth)
    (a := started (U := Nat) registeredState) (b := started AppState.sampleState)
    [.spawn (.connect sampleTime), sampleStep sampleTime 1 wrongHello 0 [],
      sampleStep sampleTime 1 wrongHello 0 []]
    (p := fun d => !d.2.shared.chans.isEmpty) (by decide +kernel)
  refine ⟨d₁, d₂, l, (registration_unobservable htwins l).1, fun hnil => ?_⟩
  rw [hnil] at hend
  cases hend

end AxenoRelay
