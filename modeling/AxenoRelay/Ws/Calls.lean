/-
  The queue calls inside the tasks of a relay, and what they do to the rows on disk.

  `Named` is the bookkeeping every argument about queues needs: all names in use are
  accepted names, the keys on disk were made by `key_for`, a handler's queue call is
  the call that handler makes, and a socket that acts for a mailbox is authenticated
  for it. `RowsStep` then lists how a step can touch the table of envelopes: the
  write of an enqueue, the transaction of an ack, a purge by a retirement or a
  collection, or a sweep.
-/
import AxenoRelay.QueueStore.Tasks
import AxenoRelay.Ws.Moves

namespace AxenoRelay

open Interleave QueueStore

/-! ## Which call a queue task is -/

namespace QueueTask

variable {U : Type}

/-- A call of `enqueue` with this envelope. -/
def Enqueues (env : StoredEnvelope U) : QueueTask U → Prop
  | enqSeq m e => m = env.toId ∧ e = env
  | enqIndex m e v | enqRead m e v | enqWrite m e v _ _ =>
    m = env.toId ∧ e = env ∧ v.t = env.envelopeType ∧ v.c = env.ciphertext
  | enqAdd m _ _ _ | enqSub m _ _ _ | enqUpdate m _ _ _ => m = env.toId
  | done _ => True
  | _ => False

/-- A call of `ack` for this mailbox. -/
def Acks (rid : RecipientId) : QueueTask U → Prop
  | ackTxn m _ | ackSub m _ _ | ackUpdate m _ _ => m = rid
  | done _ => True
  | _ => False

/-- A call of `purge_mailbox` for this mailbox. -/
def Purges (rid : RecipientId) : QueueTask U → Prop
  | purgeTxn m | purgeSub m _ _ | purgeUpdate m _ _ => m = rid
  | done _ => True
  | _ => False

/-- A call of `sweep_expired`. -/
def Sweeps : QueueTask U → Prop
  | sweepTxn | sweepSub _ _ _ | sweepUpdate _ _ | done _ => True
  | _ => False

section

variable {q : QueueTask U}

theorem Enqueues.mailbox {env : StoredEnvelope U} (h : q.Enqueues env) {m : String}
    (hm : q.mailbox = some m) : m = env.toId := by
  cases q <;> cases hm <;> first | exact h | exact h.1 | exact h.elim

theorem Acks.mailbox {rid : RecipientId} (h : q.Acks rid) {m : String}
    (hm : q.mailbox = some m) : m = rid := by
  cases q <;> cases hm <;> first | exact h | exact h.elim

theorem Purges.mailbox {rid : RecipientId} (h : q.Purges rid) {m : String}
    (hm : q.mailbox = some m) : m = rid := by
  cases q <;> cases hm <;> first | exact h | exact h.elim

theorem Sweeps.mailbox (h : q.Sweeps) : q.mailbox = none := by
  cases q <;> first | exact h.elim | rfl

end

variable [UuidText U] {e : StoreEvent} {q q' : QueueTask U} {st st' : QueueStore}

theorem Stepped.enqueues (hs : Stepped e q st q' st') {env : StoredEnvelope U}
    (h : q.Enqueues env) : q'.Enqueues env := by
  cases hs
  case failed => trivial
  case seq => exact ⟨h.1, h.2, h.2 ▸ rfl, h.2 ▸ rfl⟩
  case write => exact h.1
  all_goals first | exact h | trivial

theorem Stepped.acks (hs : Stepped e q st q' st') {rid : RecipientId} (h : q.Acks rid) :
    q'.Acks rid := by
  cases hs <;> first | exact h | trivial

theorem Stepped.purges (hs : Stepped e q st q' st') {rid : RecipientId} (h : q.Purges rid) :
    q'.Purges rid := by
  cases hs <;> first | exact h | trivial

theorem Stepped.sweeps (hs : Stepped e q st q' st') (h : q.Sweeps) : q'.Sweeps := by
  cases hs <;> first | exact h | trivial

/-- No call makes a key that `key_for` would not. -/
theorem Stepped.keysOk (hs : Stepped e q st q' st') (hm : ∀ m, q.mailbox = some m → NameOk m)
    (hk : KeysOk U st.envelopes) : KeysOk U st'.envelopes := by
  cases hs
  case write m env v ids _ =>
    have hm' : NameOk m := hm m rfl
    have hk' := KeysOk.eraseAll hk (ids.map (keyFor m))
    exact hk'.insert hm' env.id v
  case ack => exact hk.eraseAll _
  case purge m => exact hk.filter fun k _ => !inMailbox m k
  case sweep => exact hk.filter fun _ v => !isExpired e.now v
  case ackUpdate =>
    unfold indexSub
    split <;> exact hk
  case sweepUpdate =>
    unfold indexSub
    split <;> exact hk
  all_goals exact hk

/-- The call writes or removes no row at this step. -/
theorem Stepped.sameRows (hs : Stepped e q st q' st') (h : q.transacts = false) :
    st'.envelopes = st.envelopes := by
  cases hs
  case write => cases h
  case ack => cases h
  case purge => cases h
  case sweep => cases h
  case ackUpdate =>
    unfold indexSub
    split <;> rfl
  case sweepUpdate =>
    unfold indexSub
    split <;> rfl
  all_goals rfl

end QueueTask

/-! ## Tasks with their names -/

namespace SocketPc

variable {U : Type}

/-- The names a handler of socket `s` works with are accepted ones, its queue call is the
    one it makes, and what it does as a mailbox it does as the one `s` authenticated. -/
def Named (s : Socket) : SocketPc U → Prop
  | helloMark rid _ _ => NameOk rid
  | helloOk rid _ _ | helloOnline rid _ | helloFlush rid _ | tokensMark rid _ | retireCount rid
  | retireRate rid | retireOnline rid | retireMark rid => s.recipientId = some rid
  | sendRate _ m _ _ | sendLive _ m _ _ => NameOk m
  | sendStale _ env | sendCheck _ env _ | sendMark _ env _ _ => NameOk env.toId
  | sendQueue _ env _ q => NameOk env.toId ∧ q.Enqueues env
  | ackQueue q => ∃ rid, s.recipientId = some rid ∧ q.Acks rid
  | retirePurge rid q => s.recipientId = some rid ∧ q.Purges rid
  | _ => True

end SocketPc

namespace GcTask

variable {U : Type}

def Named : GcTask U → Prop
  | empty _ rest stale => (∀ r ∈ rest, NameOk r) ∧ ∀ r ∈ stale, NameOk r
  | offline _ rid _ rest stale => NameOk rid ∧ (∀ r ∈ rest, NameOk r) ∧ ∀ r ∈ stale, NameOk r
  | collect _ stale => ∀ r ∈ stale, NameOk r
  | count _ rid stale | mark _ rid stale | rate _ rid stale =>
    NameOk rid ∧ ∀ r ∈ stale, NameOk r
  | purge _ rid q stale => NameOk rid ∧ q.Purges rid ∧ ∀ r ∈ stale, NameOk r
  | _ => True

end GcTask

namespace RelayTask

variable {U : Type}

def Named : RelayTask U → Prop
  | socket s pc => (∀ rid, s.recipientId = some rid → NameOk rid) ∧ pc.Named s
  | gc g => g.Named
  | sweepQueues q => q.Sweeps
  | _ => True

end RelayTask

/-- All names in the relay are accepted ones, and its keys were made by `key_for`. -/
structure Named {U : Type} [UuidText U] (c : RelayConfig U) : Prop where
  keys : KeysOk U c.shared.app.queues.envelopes
  names : c.shared.app.mailboxAuth.All fun m _ => NameOk m
  tasks : ∀ t ∈ c.pool, t.Named

theorem SocketPc.Plain.named {U : Type} {pc : SocketPc U} (h : pc.Plain) (s : Socket) :
    pc.Named s := by
  cases pc <;> trivial

/-! ## One step -/

/-- How a step of a task touches the table of envelopes. -/
inductive RowsStep {U : Type} [UuidText U] (e : StoreEvent) :
    RelayTask U → RelayTask U → Envelopes → Envelopes → Prop
  | same (t t' : RelayTask U) (tab : Envelopes) : RowsStep e t t' tab tab
  | write (s : Socket) (r : Option String) (env : StoredEnvelope U) (live : Bool)
      (v : StoredValue) (ids : List U) (b : Nat) (tab : Envelopes)
      (hv : v.t = env.envelopeType ∧ v.c = env.ciphertext) (hm : NameOk env.toId) :
      RowsStep e (.socket s (.sendQueue r env live (.enqWrite env.toId env v ids b)))
        (.socket s (.sendQueue r env live
          (.enqAdd env.toId ids.length b (len env.ciphertext)))) tab
        (enqueueTable env.toId env.id v ids tab)
  | ack (s : Socket) (rid : RecipientId) (ids : List U) (n f : Nat) (tab : Envelopes)
      (hs : s.recipientId = some rid) (hm : NameOk rid) :
      RowsStep e (.socket s (.ackQueue (.ackTxn rid ids))) (.socket s (.ackQueue (.ackSub rid n f)))
        tab (tab.eraseAll (ids.map (keyFor rid)))
  | retire (s : Socket) (rid : RecipientId) (n f : Nat) (tab : Envelopes)
      (hs : s.recipientId = some rid) (hm : NameOk rid) :
      RowsStep e (.socket s (.retirePurge rid (.purgeTxn rid)))
        (.socket s (.retirePurge rid (.purgeSub rid n f))) tab (purgeTable rid tab)
  | gc (now : Nat) (rid : RecipientId) (stale : List RecipientId) (n f : Nat) (tab : Envelopes)
      (hm : NameOk rid) :
      RowsStep e (.gc (.purge now rid (.purgeTxn rid) stale))
        (.gc (.purge now rid (.purgeSub rid n f) stale)) tab (purgeTable rid tab)
  | sweep (q' : QueueTask U) (tab : Envelopes) :
      RowsStep e (.sweepQueues .sweepTxn) (.sweepQueues q') tab (sweepTable e.now tab)

/-- A row after a step was there before, or the step wrote it. -/
theorem RowsStep.get_cases {U : Type} [UuidText U] {e : StoreEvent} {t t' : RelayTask U}
    {tab tab' : Envelopes} (h : RowsStep e t t' tab tab') {k : String} {v : StoredValue}
    (hk : tab'.get k = some v) :
    tab.get k = some v ∨ ∃ s r env live ids b,
      t = .socket s (.sendQueue r env live (.enqWrite env.toId env v ids b)) ∧
        t' = .socket s (.sendQueue r env live
          (.enqAdd env.toId ids.length b (len env.ciphertext))) ∧
          k = keyFor env.toId env.id ∧ NameOk env.toId ∧ v.t = env.envelopeType ∧
            v.c = env.ciphertext := by
  cases h with
  | same => exact Or.inl hk
  | write s r env live v' ids b _ hv hm =>
    rw [enqueueTable, OrdMap.get_insert, OrdMap.get_eraseAll] at hk
    split_ifs at hk with hkey
    · obtain rfl := Option.some.inj hk
      exact Or.inr ⟨s, r, env, live, ids, b, rfl, rfl, hkey, hm, hv⟩
    · exact Or.inl hk
  | ack =>
    rw [OrdMap.get_eraseAll] at hk
    split_ifs at hk
    exact Or.inl hk
  | retire =>
    rw [purgeTable, OrdMap.get_filter] at hk
    exact Or.inl (Option.filter_eq_some_iff.mp hk).1
  | gc =>
    rw [purgeTable, OrdMap.get_filter] at hk
    exact Or.inl (Option.filter_eq_some_iff.mp hk).1
  | sweep =>
    rw [sweepTable, OrdMap.get_filter] at hk
    exact Or.inl (Option.filter_eq_some_iff.mp hk).1

section

variable {U : Type} [UuidText U] {e : StoreEvent} {q q' : QueueTask U} {st st' : QueueStore}

theorem rowsStep_enqueue (hs : QueueTask.Stepped e q st q' st') {env : StoredEnvelope U}
    (hq : q.Enqueues env) (hm : NameOk env.toId) (s : Socket) (r : Option String) (live : Bool) :
    RowsStep e (.socket s (.sendQueue r env live q)) (.socket s (.sendQueue r env live q'))
      st.envelopes st'.envelopes := by
  cases ht : q.transacts with
  | false =>
    rw [hs.sameRows ht]
    exact .same _ _ _
  | true =>
    cases hs
    case write ids b =>
      obtain ⟨rfl, rfl, hv⟩ := hq
      exact .write s r _ live _ ids b st.envelopes hv hm
    case failed => exact .same _ _ _
    case read => exact .same _ _ _
    all_goals first | exact hq.elim | cases ht

theorem rowsStep_ack (hs : QueueTask.Stepped e q st q' st') {s : Socket} {rid : RecipientId}
    (hq : q.Acks rid) (hrid : s.recipientId = some rid) (hm : NameOk rid) :
    RowsStep e (.socket s (.ackQueue q)) (.socket s (.ackQueue q')) st.envelopes st'.envelopes := by
  cases ht : q.transacts with
  | false =>
    rw [hs.sameRows ht]
    exact .same _ _ _
  | true =>
    cases hs
    case ack ids =>
      obtain rfl := hq
      exact .ack s _ ids _ _ st.envelopes hrid hm
    case failed => exact .same _ _ _
    case ackNone => exact .same _ _ _
    all_goals first | exact hq.elim | cases ht

theorem rowsStep_retire (hs : QueueTask.Stepped e q st q' st') {s : Socket} {rid : RecipientId}
    (hq : q.Purges rid) (hrid : s.recipientId = some rid) (hm : NameOk rid) :
    RowsStep e (.socket s (.retirePurge rid q)) (.socket s (.retirePurge rid q')) st.envelopes
      st'.envelopes := by
  cases ht : q.transacts with
  | false =>
    rw [hs.sameRows ht]
    exact .same _ _ _
  | true =>
    cases hs
    case purge =>
      obtain rfl := hq
      exact .retire s _ _ _ st.envelopes hrid hm
    case failed => exact .same _ _ _
    all_goals first | exact hq.elim | cases ht

theorem rowsStep_gc (hs : QueueTask.Stepped e q st q' st') {rid : RecipientId}
    (hq : q.Purges rid) (hm : NameOk rid) (now : Nat) (stale : List RecipientId) :
    RowsStep e (.gc (.purge now rid q stale)) (.gc (.purge now rid q' stale)) st.envelopes
      st'.envelopes := by
  cases ht : q.transacts with
  | false =>
    rw [hs.sameRows ht]
    exact .same _ _ _
  | true =>
    cases hs
    case purge =>
      obtain rfl := hq
      exact .gc now _ stale _ _ st.envelopes hm
    case failed => exact .same _ _ _
    all_goals first | exact hq.elim | cases ht

theorem rowsStep_sweep (hs : QueueTask.Stepped e q st q' st') (hq : q.Sweeps) :
    RowsStep e (.sweepQueues q) (.sweepQueues q') st.envelopes st'.envelopes := by
  cases ht : q.transacts with
  | false =>
    rw [hs.sameRows ht]
    exact .same _ _ _
  | true =>
    cases hs
    case sweep => exact .sweep _ st.envelopes
    case failed => exact .same _ _ _
    all_goals first | exact hq.elim | cases ht

/-- What a step of a task keeps, and how it touched the rows. -/
structure NamedStep (e : StoreEvent) (t t' : RelayTask U) (st st' : AppState) : Prop where
  task : t'.Named
  names : st'.mailboxAuth.All fun m _ => NameOk m
  keys : KeysOk U st'.queues.envelopes
  rows : RowsStep e t t' st.queues.envelopes st'.queues.envelopes

theorem SocketPc.Stepped.namedStep {C : Crates} {e : RelayEvent U} {s s' : Socket}
    {pc pc' : SocketPc U} {w w' : Relay U} (hs : SocketPc.Stepped C e s pc w s' pc' w')
    (hk : KeysOk U w.app.queues.envelopes) (hn : w.app.mailboxAuth.All fun m _ => NameOk m)
    (h : (RelayTask.socket s pc).Named) :
    NamedStep e.store (.socket s pc) (.socket s' pc') w.app w'.app := by
  obtain ⟨hsock, hpc⟩ := h
  have hstay : ∀ {s' : Socket}, s'.sid = s.sid ∧ s'.recipientId = s.recipientId →
      ∀ rid, s'.recipientId = some rid → NameOk rid := fun h rid hr => hsock rid (h.2 ▸ hr)
  cases hs
  case inner hs' hin =>
    exact ⟨⟨hstay hs', hin.target.named _⟩, hn, hk, .same _ _ _⟩
  case said f last =>
    rw [Relay.say_app]
    refine ⟨⟨hsock, ?_⟩, hn, hk, .same _ _ _⟩
    cases last <;> trivial
  case helloOk certOnly f =>
    rw [Relay.say_app]
    refine ⟨⟨hsock, ?_⟩, hn, hk, .same _ _ _⟩
    cases certOnly
    · exact hpc
    · trivial
  case pruned hp =>
    cases PruneTask.stepped_of_step hp <;> exact ⟨⟨hsock, trivial⟩, hn, hk, .same _ _ _⟩
  case hello hrid hentry hs' =>
    have hm := nameOk_of_valid hrid
    rcases SocketPc.helloEntry_cases hentry with ⟨_, _, _, _, rfl⟩ | ⟨_, _, _, rfl⟩
    · exact ⟨⟨hstay hs', hm⟩, hn.insert hm, hk, .same _ _ _⟩
    · exact ⟨⟨hstay hs', hm⟩, hn.insert hm, hk, .same _ _ _⟩
  case helloMark =>
    refine ⟨⟨fun rid hr => ?_, rfl⟩, hn, hk, .same _ _ _⟩
    obtain rfl := Option.some.inj hr
    exact hpc
  case tokens hrid hget hs' =>
    exact ⟨⟨hstay hs', hs'.2.trans hrid⟩, hn.insert (hsock _ hrid), hk, .same _ _ _⟩
  case sendAuth hm hget hs' =>
    have hm := nameOk_of_valid hm
    exact ⟨⟨hstay hs', hm⟩, hn.insert hm, hk, .same _ _ _⟩
  case sendStart => exact ⟨⟨hsock, hpc, rfl, rfl⟩, hn, hk, .same _ _ _⟩
  case sendQueue hq =>
    have hname : ∀ m, _ = some m → NameOk m := fun m hm => (hpc.2.mailbox hm) ▸ hpc.1
    have hst := QueueTask.stepped_of_step hk hname hq
    exact ⟨⟨hsock, hpc.1, hst.enqueues hpc.2⟩, hn, hst.keysOk hname hk,
      rowsStep_enqueue hst hpc.2 hpc.1 s _ _⟩
  case sendQueued => exact ⟨⟨hsock, hpc.1⟩, hn, hk, .same _ _ _⟩
  case ack hrid hs' =>
    exact ⟨⟨hstay hs', _, hs'.2.trans hrid, rfl⟩, hn, hk, .same _ _ _⟩
  case ackQueue hq =>
    obtain ⟨rid, hrid, hacks⟩ := hpc
    have hname : ∀ m, _ = some m → NameOk m := fun m hm => (hacks.mailbox hm) ▸ hsock rid hrid
    have hst := QueueTask.stepped_of_step hk hname hq
    exact ⟨⟨hsock, rid, hrid, hst.acks hacks⟩, hn, hst.keysOk hname hk,
      rowsStep_ack hst hacks hrid (hsock rid hrid)⟩
  case retire hrid hget hs' =>
    exact ⟨⟨hstay hs', hs'.2.trans hrid⟩, hn.erase _, hk, .same _ _ _⟩
  case retireNone hrid hget hs' =>
    exact ⟨⟨hstay hs', hs'.2.trans hrid, rfl⟩, hn, hk, .same _ _ _⟩
  case retireCount => exact ⟨⟨hsock, hpc, rfl⟩, hn, hk, .same _ _ _⟩
  case retirePurge hq =>
    have hname : ∀ m, _ = some m → NameOk m :=
      fun m hm => (hpc.2.mailbox hm) ▸ hsock _ hpc.1
    have hst := QueueTask.stepped_of_step hk hname hq
    exact ⟨⟨hsock, hpc.1, hst.purges hpc.2⟩, hn, hst.keysOk hname hk,
      rowsStep_retire hst hpc.2 hpc.1 (hsock _ hpc.1)⟩
  case retirePurged => exact ⟨⟨hsock, hpc.1⟩, hn, hk, .same _ _ _⟩
  all_goals exact ⟨⟨hsock, by first | exact hpc | trivial⟩, hn, hk, .same _ _ _⟩

theorem GcTask.Stepped.namedStep {g g' : GcTask U} {st st' : AppState}
    (hs : GcTask.Stepped e g st g' st') (hk : KeysOk U st.queues.envelopes)
    (hn : st.mailboxAuth.All fun m _ => NameOk m) (h : (RelayTask.gc g).Named) :
    NamedStep e (.gc g) (.gc g') st st' := by
  have hnil : ∀ r ∈ ([] : List RecipientId), NameOk r := fun r hr => absurd hr List.not_mem_nil
  cases hs
  case scan =>
    refine ⟨⟨fun r hr => ?_, hnil⟩, hn, hk, .same _ _ _⟩
    obtain ⟨x, hx, rfl⟩ := List.mem_map.mp hr
    exact hn _ _ (OrdMap.get_eq_some_iff.mpr (List.mem_filter.mp hx).1)
  case looked hpick =>
    obtain ⟨hmem, rfl⟩ := pickFrom_cases hpick
    exact ⟨⟨h.1 _ hmem, fun r hr => h.1 r (List.eraseIdx_subset hr), h.2⟩, hn, hk, .same _ _ _⟩
  case listed => exact ⟨h.2, hn, hk, .same _ _ _⟩
  case offline hstale =>
    refine ⟨⟨h.2.1, fun r hr => ?_⟩, hn, hk, .same _ _ _⟩
    rcases hstale r hr with rfl | hr
    · exact h.1
    · exact h.2.2 r hr
  case done => exact ⟨trivial, hn, hk, .same _ _ _⟩
  case kept => exact ⟨fun r hr => h r (List.mem_cons_of_mem _ hr), hn, hk, .same _ _ _⟩
  case collected =>
    exact ⟨⟨h _ List.mem_cons_self, fun r hr => h r (List.mem_cons_of_mem _ hr)⟩, hn.erase _, hk,
      .same _ _ _⟩
  case count => exact ⟨h, hn, hk, .same _ _ _⟩
  case mark => exact ⟨⟨h.1, rfl, h.2⟩, hn, hk, .same _ _ _⟩
  case purge hq =>
    have hname : ∀ m, _ = some m → NameOk m := fun m hm => (h.2.1.mailbox hm) ▸ h.1
    have hst := QueueTask.stepped_of_step hk hname hq
    exact ⟨⟨h.1, hst.purges h.2.1, h.2.2⟩, hn, hst.keysOk hname hk, rowsStep_gc hst h.2.1 h.1 _ _⟩
  case purged => exact ⟨⟨h.1, h.2.2⟩, hn, hk, .same _ _ _⟩
  case rate => exact ⟨h.2, hn, hk, .same _ _ _⟩

theorem RelayTask.Stepped.namedStep {C : Crates} {e : RelayEvent U} {t t' : RelayTask U}
    {w w' : Relay U} (hs : t.Stepped C e w t' w') (hk : KeysOk U w.app.queues.envelopes)
    (hn : w.app.mailboxAuth.All fun m _ => NameOk m) (ht : t.Named) :
    NamedStep e.store t t' w.app w'.app := by
  cases hs with
  | socket s s' pc pc' w w' h => exact h.namedStep hk hn ht
  | flush f f' st w h => cases h <;> exact ⟨trivial, hn, hk, .same _ _ _⟩
  | gc g g' st w h => exact h.namedStep hk hn ht
  | sweepQueues q q' st w h =>
    have hname : ∀ m, q.mailbox = some m → NameOk m := by
      intro m hm
      rw [QueueTask.Sweeps.mailbox ht] at hm
      cases hm
    have hst := QueueTask.stepped_of_step hk hname h
    exact ⟨hst.sweeps ht, hn, hst.keysOk hname hk, rowsStep_sweep hst ht⟩
  | sweepFiles t t' st w h => exact ⟨trivial, hn, hk, .same _ _ _⟩

end

/-! ## Runs -/

section

variable {U : Type} [UuidText U]

theorem named_start {st : AppState} (hk : KeysOk U st.queues.envelopes)
    (hn : st.mailboxAuth.All fun m _ => NameOk m) : Named (started st : RelayConfig U) := by
  refine ⟨hk, hn, fun t ht => ?_⟩
  rw [List.mem_singleton.mp ht]
  trivial

theorem Named.step {C : Crates} {c c' : RelayConfig U} {m : Move (RelayMove U)} (h : Named c)
    (hm : Moved C c m c') : Named c' := by
  cases hm with
  | spawned ev t c w hs =>
    obtain ⟨n, happ⟩ := hs.app
    have hnew : t.Named := by
      cases hs
      case connect => exact ⟨fun rid hr => (nomatch hr), trivial⟩
      all_goals trivial
    refine ⟨by dsimp only; rw [happ]; exact h.keys, by dsimp only; rw [happ]; exact h.names,
      fun u hu => ?_⟩
    rcases List.mem_append.mp hu with hu | hu
    · exact h.tasks u hu
    · rw [List.mem_singleton.mp hu]
      exact hnew
  | wrote ev c w hs =>
    have happ := hs.app
    exact ⟨by dsimp only; rw [happ]; exact h.keys, by dsimp only; rw [happ]; exact h.names,
      h.tasks⟩
  | stepped i e t t' c w ht hs =>
    have hstep := hs.namedStep h.keys h.names (h.tasks t (List.mem_of_getElem? ht))
    refine ⟨hstep.keys, hstep.names, fun u hu => ?_⟩
    rcases mem_set_cases hu with rfl | hu
    · exact hstep.task
    · exact h.tasks u hu

end

end AxenoRelay
