/-
  The durable queue is a bounded FIFO per mailbox.

  The abstract state is a list of items for every mailbox, and `FifoStep` says
  what each call does to it; sequence numbers, keys, the index and the byte total
  do not occur there. `queues` reads the abstract state off the table. A call from
  a store with the invariant takes the abstract step, or fails and changes no
  queue (`call_refines_fifo`); the calls may come in any order, fail at any
  database call, and reopen the database.
-/
import AxenoRelay.QueueStore.Invariant

namespace AxenoRelay.QueueStore

/-- A mailbox name over the accepted alphabet. -/
abbrev Mailbox := { m : String // NameOk m }

/-! ## The abstract queues -/

/-- A queued message: the envelope and when it was queued. -/
structure Item (U : Type) where
  env : StoredEnvelope U
  queuedAt : Nat
  deriving DecidableEq, Repr

abbrev Queues (U : Type) := Mailbox → List (Item U)

/-- The calls of the store, with the clock they read and the database calls that fail. -/
inductive Call (U : Type) where
  | enqueue (now : Nat) (rf wf : Faults) (mailbox : Mailbox) (env : StoredEnvelope U)
  | ack (fs : Faults) (mailbox : Mailbox) (ids : List U)
  | purge (fs : Faults) (mailbox : Mailbox)
  | sweep (now : Nat) (fs : Faults)
  | flush (fs : Faults) (mailbox : Mailbox)
  | isEmpty (fs : Faults) (mailbox : Mailbox)
  | reopen (fs : Faults)

inductive Reply (U : Type) where
  | evicted (k : Nat)
  | removed (n : Nat)
  | purged (n : Nat)
  | swept (n : Nat)
  | queued (l : List (StoredEnvelope U))
  | empty (b : Bool)
  | opened

section Abstract

variable {U : Type}

def itemBytes (l : List (Item U)) : Nat := (l.map fun x => len x.env.ciphertext).sum

/-- Both per-mailbox limits hold. -/
def Within (l : List (Item U)) : Prop :=
  l.length ≤ maxQueuePerRecipient ∧ itemBytes l ≤ perMailboxQueueBytes

def newItem (now : Nat) (mailbox : Mailbox) (env : StoredEnvelope U) : Item U :=
  { env := { env with toId := mailbox.1 }, queuedAt := now }

/-- What a call that succeeds replies and does to the queues. -/
def FifoStep [DecidableEq U] (Q : Queues U) : Call U → Reply U → Queues U → Prop
  | .enqueue now _ _ m env, r, Q' =>
    ∃ k, IsLeast {k | Within ((Q m).drop k ++ [newItem now m env])} k ∧ r = .evicted k ∧
      Q' = Function.update Q m ((Q m).drop k ++ [newItem now m env])
  | .ack _ m ids, r, Q' =>
    r = .removed ((Q m).countP fun x => decide (x.env.id ∈ ids)) ∧
      Q' = Function.update Q m ((Q m).filter fun x => decide (x.env.id ∉ ids))
  | .purge _ m, r, Q' => r = .purged (Q m).length ∧ Q' = Function.update Q m []
  | .sweep now _, r, Q' =>
    (∃ n, r = .swept n) ∧ Q' = fun m => (Q m).filter fun x => decide (cutoff now ≤ x.queuedAt)
  | .flush _ m, r, Q' => r = .queued ((Q m).map Item.env) ∧ Q' = Q
  | .isEmpty fs m, r, Q' =>
    (∃ b, r = .empty b ∧ (b = true → Q m = []) ∧ (fs = [] → Q m = [] → b = true)) ∧ Q' = Q
  | .reopen _, r, Q' => r = .opened ∧ Q' = Q

theorem itemBytes_append (l l' : List (Item U)) :
    itemBytes (l ++ l') = itemBytes l + itemBytes l' := by
  rw [itemBytes, List.map_append, List.sum_append]
  rfl

def itemOf (m : String) (e : U × StoredValue) : Item U :=
  { env := toEnvelope m e, queuedAt := e.2.q }

theorem itemBytes_map (m : String) (l : List (U × StoredValue)) :
    itemBytes (l.map (itemOf m)) = rowBytes l := by
  rw [itemBytes, rowBytes, List.map_map]
  rfl

/-- The bound on the rows is the bound on the items, with the new one among them. -/
theorem within_iff_fits {m : Mailbox} (now : Nat) (env : StoredEnvelope U)
    (l : List (U × StoredValue)) :
    Within (l.map (itemOf m.1) ++ [newItem now m env]) ↔ Fits (len env.ciphertext) l := by
  have h1 : itemBytes [newItem now m env] = len env.ciphertext := rfl
  unfold Within Fits
  rw [itemBytes_append, itemBytes_map, h1, List.length_append, List.length_map,
    List.length_singleton]

end Abstract

section Refinement

variable {U : Type} [UuidText U]

/-! ## The store behind them -/

/-- One call on the store. -/
def call : Call U → QueueStore → Except DbError (Reply U) × QueueStore
  | .enqueue now rf wf m env, st =>
    let r := enqueue now rf wf m.1 env st
    (r.1.map .evicted, r.2)
  | .ack fs m ids, st =>
    let r := ack fs m.1 ids st
    (r.1.map .removed, r.2)
  | .purge fs m, st =>
    let r := purgeMailbox fs m.1 st
    (r.1.map .purged, r.2)
  | .sweep now fs, st =>
    let r := sweepExpired now fs st
    (r.1.map .swept, r.2)
  | .flush fs m, st => (((QueueStore.flush U m.1).commit fs st.envelopes).1.map .queued, st)
  | .isEmpty fs m, st => (((QueueStore.isEmpty m.1).commit fs st.envelopes).1.map .empty, st)
  | .reopen fs, st =>
    match (QueueStore.new.commit fs st.envelopes).1 with
    | .error e => (.error e, st)
    | .ok st' => (.ok .opened, st')

/-- The queues a table stands for. -/
def queues (U : Type) [UuidText U] (t : Envelopes) : Queues U :=
  fun m => (queueRows U m.1 t).map (itemOf m.1)

/-- A fresh id and a ciphertext that fits a mailbox: what the relay's senders ensure. -/
def Legal : Call U → QueueStore → Prop
  | .enqueue _ _ _ m env, st =>
    (∀ x ∈ queues U st.envelopes m, x.env.id ≠ env.id) ∧
      len env.ciphertext ≤ perMailboxQueueBytes
  | _, _ => True

/-- The stores reached from a database by opening it and making legal calls. -/
inductive Reach (t : Envelopes) : QueueStore → Prop
  | opened {fs : Faults} {st : QueueStore} (h : (QueueStore.new.commit fs t).1 = .ok st) :
      Reach t st
  | called {st : QueueStore} {c : Call U} (h : Reach t st) (hl : Legal c st) :
      Reach t (call c st).2

/-- The RAM side agrees with the table: total and index are exact. -/
structure Synced (U : Type) [UuidText U] (st : QueueStore) : Prop where
  total : st.totalBytes = diskBytes st.envelopes
  index : ∀ m : Mailbox, st.indexOf m.1 =
    ((queues U st.envelopes m).length, itemBytes (queues U st.envelopes m))

theorem length_queues {t : Envelopes} (ht : KeysOk U t) (m : Mailbox) :
    (queues U t m).length = countOf m.1 t := by
  rw [queues, List.length_map, length_queueRows ht m.2]

theorem itemBytes_queues {t : Envelopes} (ht : KeysOk U t) (m : Mailbox) :
    itemBytes (queues U t m) = bytesOf m.1 t := by
  rw [queues, itemBytes_map, rowBytes_queueRows ht m.2]

theorem StoreOk.synced {st : QueueStore} (h : StoreOk U st) : Synced U st where
  total := h.total
  index m := by rw [h.index m.1 m.2, length_queues h.keys, itemBytes_queues h.keys]

/-- What one call does, seen from outside: the abstract step, or nothing. -/
def Refines [DecidableEq U] (c : Call U) (st : QueueStore) : Prop :=
  match (call c st).1 with
  | .error _ => queues U (call c st).2.envelopes = queues U st.envelopes
  | .ok r => FifoStep (queues U st.envelopes) c r (queues U (call c st).2.envelopes)

/-! ## Each call -/

theorem mem_queues_id {t : Envelopes} (ht : KeysOk U t) (m : Mailbox) {id : U}
    (h : ∀ x ∈ queues U t m, x.env.id ≠ id) : t.get (keyFor m.1 id) = none := by
  cases hget : t.get (keyFor m.1 id) with
  | none => rfl
  | some v =>
    have hmem : itemOf m.1 (id, v) ∈ queues U t m :=
      List.mem_map_of_mem ((mem_queueRows ht m.2).mpr hget)
    exact absurd rfl (h _ hmem)

variable [DecidableEq U]

theorem enqueue_refines {st : QueueStore} (h : StoreOk U st) (m : Mailbox) (now : Nat)
    (rf wf : Faults) (env : StoredEnvelope U) (hl : Legal (.enqueue now rf wf m env) st) :
    Refines (.enqueue now rf wf m env) st ∧ StoreOk U (call (.enqueue now rf wf m env) st).2 := by
  have hfresh := mem_queues_id h.keys m hl.1
  have hnil : Fits (len env.ciphertext) ([] : List (U × StoredValue)) := fits_nil hl.2
  unfold Refines call
  dsimp only
  rcases enqueue_cases h.keys m.2 (h.indexCovers m.2) now rf wf env with ⟨e, he⟩ | he
  · rw [he]
    exact ⟨rfl, h.takeSeq⟩
  · rw [he]
    refine ⟨?_, storeOk_enqueued h m.2 now env hfresh⟩
    have hlen : (victimRows U m.1 (len env.ciphertext) st.envelopes).length =
        Fifo.evicted (Fits (len env.ciphertext)) (queueRows U m.1 st.envelopes) := by
      rw [victimRows, List.length_take]
      exact Nat.min_eq_left (Fifo.evicted_le_length hnil _)
    refine ⟨Fifo.evicted (Fits (len env.ciphertext)) (queueRows U m.1 st.envelopes), ?_, ?_, ?_⟩
    · have hleast := Fifo.isLeast_evicted hnil (queueRows U m.1 st.envelopes)
      have hset : {k | Within ((queues U st.envelopes m).drop k ++ [newItem now m env])} =
          {k | Fits (len env.ciphertext) ((queueRows U m.1 st.envelopes).drop k)} := by
        refine Set.ext fun k => ?_
        show Within ((queues U st.envelopes m).drop k ++ [newItem now m env]) ↔ Fits _ _
        rw [queues, ← List.map_drop]
        exact within_iff_fits now env _
      rw [hset]
      exact hleast
    · exact congrArg Reply.evicted hlen
    · funext n
      show (queueRows U n.1 (enqueued now m.1 env st).envelopes).map (itemOf n.1) = _
      rw [enqueued_envelopes, queueRows_enqueueTable_fresh h.keys m.2 n.2 hfresh h.seqs,
        Function.update_apply]
      by_cases hnm : n = m
      · rw [if_pos hnm, if_pos (congrArg Subtype.val hnm), List.map_append, List.map_drop, hnm]
        rfl
      · rw [if_neg hnm, if_neg fun e => hnm (Subtype.ext e)]
        rfl

theorem ack_refines {st : QueueStore} (h : StoreOk U st) (m : Mailbox) (fs : Faults)
    (ids : List U) : Refines (.ack fs m ids) st ∧ StoreOk U (call (.ack fs m ids) st).2 := by
  unfold Refines call
  dsimp only
  rcases ack_cases fs m.1 ids st with ⟨e, he⟩ | he
  · rw [he]
    exact ⟨rfl, h⟩
  · rw [he]
    refine ⟨?_, storeOk_acked h m.2 ids⟩
    have hq : queues U (acked m.1 ids st).envelopes = Function.update (queues U st.envelopes) m
        ((queues U st.envelopes m).filter fun x => decide (x.env.id ∉ ids)) := by
      funext n
      show (queueRows U n.1 (acked m.1 ids st).envelopes).map (itemOf n.1) = _
      rw [(acked_frame m.1 ids st).1, queueRows_eraseAll h.keys m.2 n.2, Function.update_apply]
      by_cases hnm : n = m
      · rw [if_pos hnm, if_pos (congrArg Subtype.val hnm), hnm, queues, List.filter_map]
        rfl
      · rw [if_neg hnm, if_neg fun e => hnm (Subtype.ext e)]
        rfl
    refine ⟨congrArg Reply.removed ?_, hq⟩
    -- what is left and what was removed add up to the queue
    have hbal := (ackFold_balance m.2 ids (0, 0) st.envelopes m.1).1
    rw [if_pos rfl, ← (acked_frame m.1 ids st).1,
      ← length_queues (storeOk_acked h m.2 ids).keys m, hq, Function.update_self,
      ← length_queues h.keys m, ← List.countP_eq_length_filter] at hbal
    have hsplit := List.length_eq_countP_add_countP (fun x : Item U => decide (x.env.id ∈ ids))
      (l := queues U st.envelopes m)
    simp only [decide_eq_true_eq] at hsplit
    omega

theorem purge_refines {st : QueueStore} (h : StoreOk U st) (m : Mailbox) (fs : Faults) :
    Refines (U := U) (.purge fs m) st ∧ StoreOk U (call (U := U) (.purge fs m) st).2 := by
  unfold Refines call
  dsimp only
  rcases purgeMailbox_cases h.keys m.2 fs with ⟨e, he⟩ | he
  · rw [he]
    exact ⟨rfl, h⟩
  · rw [he]
    refine ⟨⟨congrArg Reply.purged (length_queues h.keys m).symm, ?_⟩, storeOk_purged h m.1⟩
    funext n
    show (queueRows U n.1 (purgeTable m.1 st.envelopes)).map (itemOf n.1) = _
    rw [purgeTable, queueRows_filter h.keys n.2, Function.update_apply]
    by_cases hnm : n = m
    · rw [if_pos hnm, hnm]
      simp [inMailbox_keyFor m.2]
    · have hne : n.1 ≠ m.1 := fun e => hnm (Subtype.ext e)
      rw [if_neg hnm, List.filter_eq_self.mpr]
      · rfl
      · intro e _
        rw [inMailbox_keyFor n.2]
        simp [hne]

theorem sweep_refines {st : QueueStore} (h : StoreOk U st) (now : Nat) (fs : Faults) :
    Refines (U := U) (.sweep now fs) st ∧ StoreOk U (call (U := U) (.sweep now fs) st).2 := by
  unfold Refines call
  dsimp only
  rcases sweepExpired_cases now fs st with ⟨e, he⟩ | he
  · rw [he]
    exact ⟨rfl, h⟩
  · rw [he]
    refine ⟨⟨⟨_, rfl⟩, ?_⟩, storeOk_swept h now⟩
    funext n
    show (queueRows U n.1 (swept now st).envelopes).map (itemOf n.1) = _
    rw [(swept_frame now st).1, sweepTable, queueRows_filter h.keys n.2, queues, List.filter_map]
    refine congrArg (List.map (itemOf n.1)) (List.filter_congr fun e _ => ?_)
    rw [Function.comp_apply, not_isExpired]
    rfl

theorem flush_refines (st : QueueStore) (m : Mailbox) (fs : Faults) :
    Refines (U := U) (.flush fs m) st := by
  unfold Refines call
  dsimp only
  rcases flush_cases (U := U) m.1 fs st.envelopes with ⟨e, he⟩ | he
  · rw [he]
    rfl
  · rw [he]
    refine ⟨congrArg Reply.queued ?_, rfl⟩
    rw [queues, List.map_map]
    rfl

theorem isEmpty_refines {st : QueueStore} (h : StoreOk U st) (m : Mailbox) (fs : Faults) :
    Refines (U := U) (.isEmpty fs m) st := by
  have hrange : (st.envelopes.range (m.1 ++ ":") (m.1 ++ ";")).isEmpty = true ↔
      queues U st.envelopes m = [] := by
    rw [← List.length_eq_zero_iff, length_queues h.keys, List.isEmpty_iff_length_eq_zero]
    have hw := range_weight h.keys m.2 fun _ => 1
    rw [List.map_const', List.sum_replicate, smul_eq_mul, mul_one] at hw
    exact Eq.congr_left hw
  unfold Refines call
  dsimp only
  cases hrun : ((QueueStore.isEmpty m.1).commit fs st.envelopes).1 with
  | error e => rfl
  | ok b =>
    obtain ⟨readable, hb, hnil⟩ := isEmpty_ok hrun
    refine ⟨⟨b, rfl, ?_, ?_⟩, rfl⟩
    · intro hbt
      rw [hb, Bool.and_eq_true] at hbt
      exact hrange.mp hbt.2
    · intro hfs hq
      rw [hb, hnil hfs, hrange.mpr hq]
      rfl

/-! ## Any sequence of calls -/

theorem reopen_refines {st : QueueStore} (h : StoreOk U st) (fs : Faults) :
    Refines (U := U) (.reopen fs) st ∧ StoreOk U (call (U := U) (.reopen fs) st).2 := by
  unfold Refines call
  dsimp only
  rcases new_cases fs st.envelopes with ⟨e, he⟩ | he
  · rw [he]
    exact ⟨rfl, h⟩
  · rw [he]
    exact ⟨⟨rfl, rfl⟩, storeOk_ofTable h.keys⟩

theorem call_spec {st : QueueStore} (h : StoreOk U st) (c : Call U) (hl : Legal c st) :
    Refines c st ∧ StoreOk U (call c st).2 := by
  cases c with
  | enqueue now rf wf m env => exact enqueue_refines h m now rf wf env hl
  | ack fs m ids => exact ack_refines h m fs ids
  | purge fs m => exact purge_refines h m fs
  | sweep now fs => exact sweep_refines h now fs
  | flush fs m => exact ⟨flush_refines st m fs, h⟩
  | isEmpty fs m => exact ⟨isEmpty_refines h m fs, h⟩
  | reopen fs => exact reopen_refines h fs

theorem reach_storeOk {t : Envelopes} (ht : KeysOk U t) {st : QueueStore}
    (h : Reach (U := U) t st) : StoreOk U st := by
  induction h with
  | @opened fs st hopen =>
    rcases new_cases fs t with ⟨e, he⟩ | he
    · rw [he] at hopen
      cases hopen
    · rw [he] at hopen
      rw [← Except.ok.inj hopen]
      exact storeOk_ofTable ht
  | called _ hl ih => exact (call_spec ih _ hl).2

end Refinement

/-- A mailbox and two envelopes for it, to run the store on. -/
def sampleMailbox : Mailbox := ⟨"mbx_4b1d6f0a2c8e5973d1b0a6f4e2c89735", by decide⟩

def sampleEnvelope (id : SampleUuid) : StoredEnvelope SampleUuid :=
  { id := id, toId := sampleMailbox.1, envelopeType := "signal", ciphertext := "bWVzc2FnZQ==" }

/-- One of the calls above. -/
def sampleEnqueue (now : Nat) (id : SampleUuid) : Call SampleUuid :=
  .enqueue now [] [] sampleMailbox (sampleEnvelope id)

/-- A store that has queued one envelope. -/
def sampleStore : QueueStore := (call (sampleEnqueue 5 .u1) (QueueStore.ofTable OrdMap.empty)).2

theorem sampleStore_reach : Reach (U := SampleUuid) OrdMap.empty sampleStore := by
  have hopen : (QueueStore.new.commit [] OrdMap.empty).1 =
      .ok (QueueStore.ofTable OrdMap.empty) := rfl
  refine Reach.called (Reach.opened hopen) ?_
  constructor
  · decide
  · decide

end AxenoRelay.QueueStore
