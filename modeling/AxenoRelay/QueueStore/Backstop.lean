/-
  The global queue backstop.

  A SendEnvelope handler asks `would_exceed_global` and, if that passes, calls `enqueue`;
  nothing is reserved between the check and the update of the counter. What is on disk is at
  most the counter and what the calls in flight have yet to add to it, as long as no enqueue
  takes off bytes of a row that is already gone (`total_backed`). If, besides, every write
  still passes the check when it commits, with those amounts counted in (`WriteBacked`), the disk
  stays within the cap (`backstop_holds`); two handlers that both check before either writes
  exceed it (`backstop_overrun`).
-/
import AxenoRelay.QueueStore.Drift

namespace AxenoRelay

open Interleave QueueStore

section

variable {U : Type}

namespace QueueTask

/-- Bytes the task has written and not yet added to `total_bytes`. -/
def toAdd : QueueTask U → Nat
  | enqAdd _ _ _ i => i
  | _ => 0

theorem totalOwed_le (t : QueueTask U) : t.totalOwed ≤ t.toAdd := by
  cases t <;> simp only [totalOwed, toAdd] <;> omega

end QueueTask

/-- The bytes of all enqueues that were committed and are not yet in the total. -/
def pendingAdds (c : QueueConfig U) : Nat := c.total QueueTask.toAdd

variable [UuidText U]

/-- The write passes the check when it commits, counting what others have written and not yet
    added, and the rows it evicts are all still there. -/
def WritesBacked (e : StoreEvent) (c : QueueConfig U) : QueueTask U → Prop
  | .enqWrite m env v ids b =>
    c.shared.store.wouldExceedGlobal (pendingAdds c + len env.ciphertext) = false ∧
      Settles e c.shared.store (.enqWrite m env v ids b)
  | _ => True

instance (e : StoreEvent) (c : QueueConfig U) : ∀ t, Decidable (WritesBacked e c t)
  | .enqWrite _ _ _ _ _ => inferInstanceAs (Decidable (_ ∧ _))
  | .enqSeq _ _ | .enqIndex _ _ _ | .enqRead _ _ _ | .enqAdd _ _ _ _ | .enqSub _ _ _ _
  | .enqUpdate _ _ _ _ | .ackTxn _ _ | .ackSub _ _ _ | .ackUpdate _ _ _ | .purgeTxn _
  | .purgeSub _ _ _ | .purgeUpdate _ _ _ | .sweepTxn | .sweepSub _ _ _ | .sweepUpdate _ _
  | .done _ => isTrue trivial

/-- Every write is backed when it commits. -/
def WriteBacked (c : QueueConfig U) : Move (QueueMove U) → Prop
  | .act i (.run e) => ∀ t, c.pool[i]? = some t → WritesBacked e c t
  | _ => True

instance (c : QueueConfig U) : ∀ m, Decidable (WriteBacked c m)
  | .act _ (.run _) => decidableForallSome _ _
  | .act _ (.start _) | .spawn _ | .env _ => isTrue trivial

/-! ## The counter is not behind the disk -/

omit [UuidText U] in
theorem diskBytes_filter_le (t : Envelopes) (p : String → StoredValue → Bool) :
    diskBytes (t.filter p) ≤ diskBytes t := by
  have hsum := OrdMap.sum_filter_add t (fun _ v => len v.c) p
  unfold diskBytes
  omega

omit [UuidText U] in
theorem diskBytes_eraseAll_le (t : Envelopes) (ks : List String) :
    diskBytes (t.eraseAll ks) ≤ diskBytes t := by
  rw [OrdMap.eraseAll_eq_filter]
  exact diskBytes_filter_le t _

theorem diskBytes_enqueueTable_le (m : String) (id : U) (v : StoredValue) (ids : List U)
    (t : Envelopes) : diskBytes (enqueueTable m id v ids t) ≤ diskBytes t + len v.c := by
  have hsum := OrdMap.sum_insert (t.eraseAll (ids.map (keyFor m))) (fun _ v => len v.c)
    (keyFor m id) v
  have hle := diskBytes_eraseAll_le t (ids.map (keyFor m))
  unfold enqueueTable
  unfold diskBytes at hle ⊢
  omega

/-- A subtraction, clamped or not. -/
theorem sub_backed (x f : Nat) (d : ℤ) : x + -f + d ≤ ((x - f : Nat) : ℤ) + 0 + d := by
  omega

/-- A step keeps the counter and the debts ahead of the disk if its victims are there. -/
theorem total_backed {c : QueueConfig U} (hc : WorldOk c) {t t' : QueueTask U}
    {st st' : QueueStore} {e : StoreEvent} (hmem : t ∈ c.pool) (hst : c.shared.store = st)
    (hs : t.Stepped e st t' st') (hset : WritesBacked e c t) :
    (st.totalBytes : ℤ) + t.totalOwed + diskBytes st'.envelopes ≤
      st'.totalBytes + t'.totalOwed + diskBytes st.envelopes := by
  -- only the subtractions can be clamped, and then the counter is too high
  by_cases hfull : Settles e st t
  · exact (total_balance hc hmem hst hs hfull).ge
  · cases hs with
    | write m env v ids b => exact absurd (hst ▸ hset.2) hfull
    | sub m k b i => exact sub_backed _ _ _
    | ackSub m r f => exact sub_backed _ _ _
    | ackSkip m f => exact sub_backed _ _ _
    | purgeSub m n f => exact sub_backed _ _ _
    | sweepSub n f per => exact sub_backed _ _ _
    | ackUpdate m r f =>
      obtain ⟨h1, h2, _⟩ := indexSub_frame st m r f
      rw [h1, h2]
      rfl
    | sweepUpdate n rest m c b =>
      obtain ⟨h1, h2, _⟩ := indexSub_frame st m c b
      rw [h1, h2]
      rfl
    | update m k b i => exact le_rfl
    | purgeUpdate m n f => exact le_rfl
    | sweepDone n rest _ _ => exact le_rfl
    | failed err h =>
      cases t with
      | enqWrite m env v ids b => exact absurd (hst ▸ hset.2) hfull
      | _ => first | exact absurd trivial hfull | cases h
    | _ => exact absurd trivial hfull

/-- A step adds to the disk only what a backed write adds. -/
theorem disk_backed {c : QueueConfig U} (hc : WorldOk c) {t t' : QueueTask U}
    {st st' : QueueStore} {e : StoreEvent} (hmem : t ∈ c.pool) (hs : t.Stepped e st t' st') :
    diskBytes st'.envelopes ≤ diskBytes st.envelopes ∨
      ∃ m env v ids b, t = .enqWrite m env v ids b ∧
        diskBytes st'.envelopes ≤ diskBytes st.envelopes + len env.ciphertext := by
  cases hs with
  | write m env v ids b =>
    obtain ⟨hv, _⟩ := hc.sane _ hmem
    refine Or.inr ⟨m, env, v, ids, b, rfl, ?_⟩
    rw [← hv]
    exact diskBytes_enqueueTable_le m env.id v ids st.envelopes
  | ack m ids => exact Or.inl (diskBytes_eraseAll_le _ _)
  | purge m => exact Or.inl (diskBytes_filter_le _ _)
  | sweep =>
    left
    have hle := diskBytes_filter_le st.envelopes fun _ v => !isExpired e.now v
    exact hle
  | ackUpdate m r f => exact Or.inl (by rw [(indexSub_frame st m r f).1])
  | sweepUpdate n rest m c b => exact Or.inl (by rw [(indexSub_frame st m c b).1])
  | _ => exact Or.inl le_rfl

/-! ## Runs -/

/-- The disk is within the cap, and within the counter and what is yet to be added to it. -/
structure DiskBacked (c : QueueConfig U) : Prop where
  counter : (diskBytes c.shared.store.envelopes : ℤ) ≤
    c.shared.store.totalBytes + c.total QueueTask.totalOwed
  cap : diskBytes c.shared.store.envelopes ≤ globalQueueDiskCapBytes

omit [UuidText U] in
theorem totalOwed_le_pendingAdds (c : QueueConfig U) :
    c.total QueueTask.totalOwed ≤ pendingAdds c := by
  unfold pendingAdds Config.total
  induction c.pool with
  | nil => exact le_rfl
  | cons t pool ih =>
    rw [List.map_cons, List.sum_cons, List.map_cons, List.sum_cons, Nat.cast_add]
    exact add_le_add t.totalOwed_le ih

theorem DiskBacked.act {c : QueueConfig U} (hc : WorldOk c) (hb : DiskBacked c) {i : Nat}
    {t t' : QueueTask U} {st' : QueueStore} {e : StoreEvent} (ht : c.pool[i]? = some t)
    (hs : t.Stepped e c.shared.store t' st') (hset : WritesBacked e c t) :
    DiskBacked ⟨{ c.shared with store := st' }, c.pool.set i t'⟩ := by
  have hmem := List.mem_of_getElem? ht
  have hcounter := hb.counter
  have hcap := hb.cap
  constructor
  · have hpool := total_act QueueTask.totalOwed (u := t')
      (s := { c.shared with store := st' }) ht
    have hstep := total_backed hc hmem rfl hs hset
    show (diskBytes st'.envelopes : ℤ) ≤ st'.totalBytes + _
    omega
  · show diskBytes st'.envelopes ≤ _
    rcases disk_backed hc hmem hs with hle | ⟨m, env, v, ids, b, rfl, hle⟩
    · exact hle.trans hcap
    · have hfits := hset.1
      have hpending := totalOwed_le_pendingAdds c
      rw [wouldExceedGlobal, decide_eq_false_iff_not] at hfits
      omega

/-- Starting from an empty store, the disk stays within the cap if every write is backed. -/
theorem diskBacked_run [DecidableEq U] {c : QueueConfig U}
    (r : Run (queueMachine U) WriteBacked (freshQueue OrdMap.empty []) c) :
    WorldOk c ∧ DiskBacked c := by
  refine r.invariant (P := fun c => WorldOk c ∧ DiskBacked c) ⟨worldOk_fresh ?_, ?_⟩ ?_
  · intro k v hk
    cases hk
  · exact ⟨le_rfl, Nat.zero_le _⟩
  · intro c m c' ⟨hc, hb⟩ hg hn
    rcases queueMachine_next hc hn with ⟨u, rfl, ha, rfl⟩ | ⟨i, e, u, u', st', rfl, hu, hs, rfl⟩
    · refine ⟨worldOk_spawn hc ha, ?_, hb.cap⟩
      rw [total_spawn, (owed_of_starts ha.1).1, add_zero]
      exact hb.counter
    · exact ⟨worldOk_act hc hu hs, hb.act hc hu hs (hg u hu)⟩

end

/-! ## The handlers -/

/-- A SendEnvelope handler from its check on, or another call on the store. -/
inductive SendTask (U : Type) where
  | check (mailbox : String) (env : StoredEnvelope U)
  | refused (mailbox : String) (env : StoredEnvelope U)
  | call (t : QueueTask U)

section

variable {U : Type}

namespace SendTask

/-- A handler begins with the check, the other calls with their own first step. -/
def ofCall : QueueTask U → SendTask U
  | .enqSeq m env => check m env
  | t => call t

/-- The call a handler is about to make, has not been allowed to make, or is in. -/
def toCall : SendTask U → QueueTask U
  | check m env | refused m env => .enqSeq m env
  | call t => t

theorem toCall_ofCall (t : QueueTask U) : (ofCall t).toCall = t := by
  cases t <;> rfl

end SendTask

abbrev SendConfig (U : Type) := Config (QueueWorld U) (SendTask U)

/-- The calls of a configuration of handlers. -/
def SendConfig.calls (c : SendConfig U) : QueueConfig U :=
  ⟨c.shared, c.pool.map SendTask.toCall⟩

variable [UuidText U] [DecidableEq U]

/-- One step of a handler. The check only reads the counter. -/
def SendTask.step (e : StoreEvent) : SendTask U → QueueWorld U →
    Option (SendTask U × QueueWorld U)
  | check m env, w =>
    some (if w.store.wouldExceedGlobal (len env.ciphertext) then refused m env
      else call (.enqSeq m env), w)
  | refused _ _, _ => none
  | call t, w => (t.step e w.store).map fun r => (call r.1, { w with store := r.2 })

def sendMachine (U : Type) [UuidText U] [DecidableEq U] :
    Machine (QueueWorld U) (SendTask U) (QueueMove U) where
  spawn
    | .start t, w =>
      if Admits w t then
        some (.ofCall t, { w with used := t.pendingId.toList ++ w.used })
      else none
    | .run _, _ => none
  step
    | .run e, t, w => t.step e w
    | .start _, _, _ => none
  env _ _ := none

/-- Every write is backed when it commits. -/
def SendsBacked (c : SendConfig U) (m : Move (QueueMove U)) : Prop := WriteBacked c.calls m

instance (c : SendConfig U) (m : Move (QueueMove U)) : Decidable (SendsBacked c m) :=
  inferInstanceAs (Decidable (WriteBacked c.calls m))

/-- A database just created, with no handler at work. -/
def emptySends : SendConfig U := ⟨⟨QueueStore.ofTable OrdMap.empty, []⟩, []⟩

omit [UuidText U] [DecidableEq U] in
theorem set_of_getElem? {l : List (SendTask U)} {i : Nat} {t : SendTask U} (h : l[i]? = some t) :
    l.set i t = l := by
  obtain ⟨hi, rfl⟩ := List.getElem?_eq_some_iff.mp h
  exact List.set_getElem_self hi

/-- A step of the handlers is a step of their calls, or leaves these where they were. -/
theorem calls_next {c c' : SendConfig U} {m : Move (QueueMove U)}
    (hn : (sendMachine U).next m c = some c') :
    c'.calls = c.calls ∨ (queueMachine U).next m c.calls = some c'.calls := by
  cases m with
  | spawn e =>
    obtain ⟨u, w, hspawn, rfl⟩ := next_spawn hn
    cases e with
    | start t =>
      simp only [sendMachine] at hspawn
      split_ifs at hspawn with ha
      cases hspawn
      right
      simp only [Machine.next, queueMachine, SendConfig.calls, if_pos ha, Option.map_some,
        List.map_append, List.map_cons, List.map_nil, SendTask.toCall_ofCall]
    | run e => cases hspawn
  | act i e =>
    obtain ⟨u, u', w, hu, hstep, rfl⟩ := next_act hn
    have hcall : (c.pool.map SendTask.toCall)[i]? = some u.toCall := by
      rw [List.getElem?_map, hu, Option.map_some]
    cases e with
    | start _ => cases hstep
    | run e =>
      cases u with
      | check m env =>
        left
        cases hstep
        obtain ⟨hi, hget⟩ := List.getElem?_eq_some_iff.mp hcall
        have hsame : SendTask.toCall (if c.shared.store.wouldExceedGlobal (len env.ciphertext)
            then .refused m env else .call (.enqSeq m env)) = (SendTask.check m env).toCall := by
          split <;> rfl
        unfold SendConfig.calls
        rw [List.map_set, hsame, ← hget, List.set_getElem_self hi]
      | refused m env => cases hstep
      | call t =>
        right
        obtain ⟨⟨t1, st1⟩, h1, h2⟩ := Option.map_eq_some_iff.mp hstep
        cases h2
        simp only [Machine.next, queueMachine, SendConfig.calls, hcall, SendTask.toCall, h1,
          Option.map_some, List.map_set]
  | env e =>
    obtain ⟨s, hs, _⟩ := next_env hn
    cases hs

/-- The calls of a run of handlers are a run of calls. -/
theorem run_calls {c : SendConfig U} (r : Run (sendMachine U) SendsBacked emptySends c) :
    Run (queueMachine U) WriteBacked (freshQueue OrdMap.empty []) c.calls := by
  induction r with
  | refl => exact .refl
  | tail _ hg hn ih =>
    rcases calls_next hn with hsame | hnext
    · rw [hsame]
      exact ih
    · exact .tail ih hg hnext

/-- **The backstop.** Starting from an empty store, what is on disk never exceeds the cap if
    every write is backed when it commits. -/
theorem backstop_holds {c : SendConfig U} (r : Run (sendMachine U) SendsBacked emptySends c) :
    diskBytes c.shared.store.envelopes ≤ globalQueueDiskCapBytes :=
  (diskBacked_run (run_calls r)).2.cap

/-- A handler enqueues, and an ack takes the envelope out again while a second one checks. -/
theorem backstop_holds_sample : ∃ c : SendConfig SampleUuid,
    c.pool.length = 3 ∧ diskBytes c.shared.store.envelopes ≠ 0 ∧
      diskBytes c.shared.store.envelopes ≤ globalQueueDiskCapBytes := by
  obtain ⟨c, hrun, hc⟩ := exists_run (M := sendMachine SampleUuid) (G := SendsBacked)
    (c := emptySends)
    [startEnqueue .u1, calm 0, calm 0, calm 0, calm 0, calm 0, startEnqueue .u2, calm 1,
      startAck .u1, calm 2, calm 1, calm 0, calm 0, calm 1, calm 1]
    (p := fun c => decide (c.pool.length = 3 ∧ diskBytes c.shared.store.envelopes ≠ 0))
    (by decide +kernel)
  obtain ⟨hlen, hbytes⟩ := of_decide_eq_true hc
  exact ⟨c, hlen, hbytes, backstop_holds hrun⟩

end

/-! ## Two handlers at the brink -/

/-- The mailboxes of a busy relay. -/
def busyMailbox (k : Nat) : String := "mbx_0000000000000000000000000000000_" ++ Nat.repr k

theorem nameOk_busyMailbox (k : Nat) : NameOk (busyMailbox k) := by
  unfold NameOk busyMailbox
  rw [String.toList_append, List.all_append, Bool.and_eq_true]
  refine ⟨by decide, List.all_eq_true.mpr fun c hc => ?_⟩
  rw [Nat.toList_repr] at hc
  have hdigit := Nat.isDigit_of_mem_toDigits (by decide) (by decide) hc
  simp only [Char.isDigit, Bool.and_eq_true, decide_eq_true_eq] at hdigit
  have hrange : ('0' ≤ c && c ≤ '9') = true := by
    rw [Bool.and_eq_true, decide_eq_true_eq, decide_eq_true_eq]
    exact ⟨hdigit.1, hdigit.2⟩
  simp [idChar, hrange]

theorem busyMailbox_inj {j k : Nat} (h : busyMailbox j = busyMailbox k) : j = k := by
  have hkey := congrArg String.toList h
  unfold busyMailbox at hkey
  rw [String.toList_append, String.toList_append, List.append_cancel_left_eq] at hkey
  exact Nat.repr_inj.mp (String.toList_inj.mp hkey)

/-- The length of a ciphertext whose frame is still accepted. -/
def longText : Nat := 524000

/-- The envelope for mailbox number `k`. -/
def busyEnvelope (ct : String) (k : Nat) : StoredEnvelope Nat :=
  ⟨k, busyMailbox k, "message", ct⟩

/-- The first `n` mailboxes hold one envelope each, the others none. -/
structure Filled (n : Nat) (w : QueueWorld Nat) : Prop where
  ok : StoreOk Nat w.store
  bytes : diskBytes w.store.envelopes = n * longText
  fresh : ∀ k, n ≤ k → w.store.indexOf (busyMailbox k) = (0, 0)
  rows : ∀ k, n ≤ k → w.store.envelopes.get (keyFor (busyMailbox k) k) = none

/-- A call that runs alone is a run of the handlers. -/
theorem run_alone {es : List StoreEvent} {t t' : QueueTask Nat} {st st' : QueueStore}
    (h : QueueTask.runAlone es t st = some (t', st')) {used : List Nat}
    {pool : List (SendTask Nat)} {i : Nat} (hi : pool[i]? = some (.call t)) :
    Run (sendMachine Nat) anyMove ⟨⟨st, used⟩, pool⟩ ⟨⟨st', used⟩, pool.set i (.call t')⟩ := by
  induction es generalizing t st pool with
  | nil =>
    cases h
    rw [set_of_getElem? hi]
    exact .refl
  | cons e es ih =>
    obtain ⟨⟨t1, st1⟩, h1, h2⟩ := Option.bind_eq_some_iff.mp h
    have hnext : (sendMachine Nat).next (.act i (.run e)) ⟨⟨st, used⟩, pool⟩ =
        some ⟨⟨st1, used⟩, pool.set i (.call t1)⟩ := by
      simp only [Machine.next, sendMachine, hi, SendTask.step, h1, Option.map_some]
    have hi' : (pool.set i (.call t1))[i]? = some (.call t1) :=
      List.getElem?_set_self (List.getElem?_eq_some_iff.mp hi).1
    have hrest := ih h2 hi'
    rw [List.set_set] at hrest
    exact (Run.tail .refl trivial hnext).trans hrest

section Brink

variable {ct : String} (hct : len ct = longText)

include hct

theorem Filled.passes {n : Nat} {w : QueueWorld Nat} (h : Filled n w) (hn : n ≤ 8195) :
    w.store.wouldExceedGlobal (len ct) = false := by
  rw [wouldExceedGlobal, decide_eq_false_iff_not, h.ok.total, h.bytes, hct]
  unfold longText globalQueueDiskCapBytes
  omega

/-- The next mailbox needs no room. -/
theorem Filled.no_eviction {n : Nat} {w : QueueWorld Nat} (h : Filled n w) :
    needsEviction (w.store.indexOf (busyMailbox n)) (len ct) = false := by
  rw [h.fresh n le_rfl, hct]
  decide

theorem Filled.next {n : Nat} {w : QueueWorld Nat} (h : Filled n w) :
    Filled (n + 1)
      { w with store := enqueued 0 (busyMailbox n) (busyEnvelope ct n) w.store } := by
  have hm := nameOk_busyMailbox n
  have hnone := victimRows_of_not_needsEviction h.ok.keys hm (h.ok.indexCovers hm)
    (h.no_eviction hct)
  have htable : (enqueued 0 (busyMailbox n) (busyEnvelope ct n) w.store).envelopes =
      w.store.envelopes.insert (keyFor (busyMailbox n) n)
        (storedValue 0 w.store.nextSeq (busyEnvelope ct n)) := by
    rw [enqueued_envelopes]
    unfold busyEnvelope
    rw [hnone]
    rfl
  refine ⟨storeOk_enqueued h.ok hm 0 _ (h.rows n le_rfl), ?_, fun k hk => ?_, fun k hk => ?_⟩
  · have hlen : len (storedValue 0 w.store.nextSeq (busyEnvelope ct n)).c = longText := hct
    rw [htable, diskBytes_insert _ (h.rows n le_rfl), h.bytes, hlen, Nat.add_mul, Nat.one_mul]
  · have hne : busyMailbox k ≠ busyMailbox n := fun he => by
      have := busyMailbox_inj he
      omega
    rw [indexOf_enqueued, if_neg hne]
    exact h.fresh k (by omega)
  · have hne : keyFor (busyMailbox k) k ≠ keyFor (busyMailbox n) n := fun he => by
      have := (keyFor_inj (nameOk_busyMailbox k) hm he).2
      omega
    rw [htable, OrdMap.get_insert, if_neg hne]
    exact h.rows k (by omega)

/-- An enqueue without faults that needs no room. -/
theorem Filled.enqueue_eq {n : Nat} {w : QueueWorld Nat} (h : Filled n w) :
    enqueue 0 [] [] (busyMailbox n) (busyEnvelope ct n) w.store =
      (.ok 0, enqueued 0 (busyMailbox n) (busyEnvelope ct n) w.store) := by
  have hn := h.no_eviction hct
  have hnone := victimRows_of_not_needsEviction h.ok.keys (nameOk_busyMailbox n)
    (h.ok.indexCovers (nameOk_busyMailbox n)) hn
  have hselect : selectVictims Nat [] (busyMailbox n) (len ct) w.store.takeSeq.2 =
      .ok ([], 0) := by
    unfold selectVictims
    exact if_neg (by rw [show w.store.takeSeq.2.indexOf (busyMailbox n) =
      w.store.indexOf (busyMailbox n) from rfl, hn]; decide)
  unfold enqueue
  simp only [busyEnvelope, hselect, Txn.commit, enqueueTxn_run]
  simp only [enqueued, hnone]
  rfl

/-- A handler that has passed its check enqueues for the next mailbox. -/
theorem Filled.run_enqueue {n : Nat} {w : QueueWorld Nat} (h : Filled n w)
    {pool : List (SendTask Nat)} {i : Nat}
    (hi : pool[i]? = some (.call (.enqSeq (busyMailbox n) (busyEnvelope ct n)))) :
    ∃ w' pool', Run (sendMachine Nat) anyMove ⟨w, pool⟩ ⟨w', pool'⟩ ∧ Filled (n + 1) w' ∧
      w'.used = w.used ∧ ∀ j, j ≠ i → pool'[j]? = pool[j]? := by
  obtain ⟨es, hes⟩ := QueueTask.enqueue_alone 0 [] [] (busyMailbox n) (busyEnvelope ct n) w.store
  have hok : (enqueue 0 [] [] (busyMailbox n) (busyEnvelope ct n) w.store).2 =
      enqueued 0 (busyMailbox n) (busyEnvelope ct n) w.store := by
    rw [h.enqueue_eq hct]
  rw [hok] at hes
  refine ⟨_, _, run_alone hes hi, h.next hct, rfl, ?_⟩
  intro j hj
  rw [List.getElem?_set_ne fun he => hj he.symm]

/-- A handler for a mailbox not yet in use starts, and its check passes. -/
theorem Filled.run_check {n k : Nat} {w : QueueWorld Nat} (h : Filled n w) (hn : n ≤ 8195)
    (hk : k ∉ w.used) (pool : List (SendTask Nat)) :
    Run (sendMachine Nat) anyMove ⟨w, pool⟩ ⟨{ w with used := k :: w.used },
      pool ++ [.call (.enqSeq (busyMailbox k) (busyEnvelope ct k))]⟩ := by
  have hadmit : Admits w (.enqSeq (busyMailbox k) (busyEnvelope ct k)) := by
    refine ⟨rfl, fun m hm => ?_, fun id hid => ?_⟩
    · cases hm
      exact nameOk_busyMailbox k
    · cases hid
      exact hk
  have hstart : (sendMachine Nat).next
      (.spawn (.start (.enqSeq (busyMailbox k) (busyEnvelope ct k)))) ⟨w, pool⟩ =
      some ⟨{ w with used := k :: w.used },
        pool ++ [.check (busyMailbox k) (busyEnvelope ct k)]⟩ := by
    simp only [Machine.next, sendMachine, if_pos hadmit, Option.map_some]
    rfl
  have hpass : w.store.wouldExceedGlobal (len (busyEnvelope ct k).ciphertext) = false :=
    h.passes hct hn
  have hcheck : (sendMachine Nat).next (.act pool.length (.run ⟨0, [], [], 0⟩))
      ⟨{ w with used := k :: w.used }, pool ++ [.check (busyMailbox k) (busyEnvelope ct k)]⟩ =
      some ⟨{ w with used := k :: w.used },
        pool ++ [.call (.enqSeq (busyMailbox k) (busyEnvelope ct k))]⟩ := by
    simp only [Machine.next, sendMachine, List.getElem?_concat_length, SendTask.step, hpass,
      Bool.false_eq_true, if_false, Option.map_some, List.set_append_right _ _ le_rfl,
      Nat.sub_self, List.set_cons_zero]
  exact .tail (.tail .refl trivial hstart) trivial hcheck

/-- One handler after another fills the relay. -/
theorem run_filled {n : Nat} (hn : n ≤ 8195) :
    ∃ w pool, Run (sendMachine Nat) anyMove emptySends ⟨w, pool⟩ ∧ Filled n w ∧
      ∀ k ∈ w.used, k < n := by
  induction n with
  | zero =>
    refine ⟨_, _, .refl, ⟨storeOk_ofTable keysOk_empty, ?_, fun k _ => rfl, fun k _ => rfl⟩, ?_⟩
    · rw [Nat.zero_mul]
      rfl
    · intro k hk
      cases hk
  | succ n ih =>
    obtain ⟨w, pool, hrun, hfilled, hused⟩ := ih (by omega)
    have hfresh : n ∉ w.used := fun h => Nat.lt_irrefl n (hused n h)
    have hcheck := hfilled.run_check hct (by omega) hfresh pool
    have hfilled' : Filled n { w with used := n :: w.used } :=
      ⟨hfilled.ok, hfilled.bytes, hfilled.fresh, hfilled.rows⟩
    obtain ⟨w', pool', henq, hnext, hsame, -⟩ :=
      hfilled'.run_enqueue hct (List.getElem?_concat_length)
    refine ⟨w', pool', (hrun.trans hcheck).trans henq, hnext, ?_⟩
    intro k hk
    rw [hsame] at hk
    rcases List.mem_cons.mp hk with rfl | hk
    · exact Nat.lt_succ_self _
    · exact (hused k hk).trans (Nat.lt_succ_self n)

/-- Two handlers check while there is room for one, and both write. -/
theorem run_two : ∃ w pool, Run (sendMachine Nat) anyMove emptySends ⟨w, pool⟩ ∧
    Filled 8197 w := by
  obtain ⟨w, pool, hrun, hfilled, hused⟩ := run_filled hct (n := 8195) le_rfl
  have hfirst : 8195 ∉ w.used := fun h => Nat.lt_irrefl _ (hused _ h)
  have hsecond : 8196 ∉ 8195 :: w.used := by
    rw [List.mem_cons]
    rintro (h | h)
    · cases h
    · exact absurd (hused _ h) (by decide)
  have hcheck := hfilled.run_check hct le_rfl hfirst pool
  have hfilled' : Filled 8195 { w with used := 8195 :: w.used } :=
    ⟨hfilled.ok, hfilled.bytes, hfilled.fresh, hfilled.rows⟩
  have hcheck' := hfilled'.run_check hct le_rfl hsecond
    (pool ++ [.call (.enqSeq (busyMailbox 8195) (busyEnvelope ct 8195))])
  have hfilled'' : Filled 8195 { w with used := 8196 :: 8195 :: w.used } :=
    ⟨hfilled.ok, hfilled.bytes, hfilled.fresh, hfilled.rows⟩
  have hfirst' : (pool ++ [.call (.enqSeq (busyMailbox 8195) (busyEnvelope ct 8195))] ++
      [.call (.enqSeq (busyMailbox 8196) (busyEnvelope ct 8196))])[pool.length]? =
      some (.call (.enqSeq (busyMailbox 8195) (busyEnvelope ct 8195))) := by
    rw [List.append_assoc, List.getElem?_append_right le_rfl, Nat.sub_self]
    rfl
  obtain ⟨w', pool', henq, hnext, -, hothers⟩ := hfilled''.run_enqueue hct hfirst'
  have hsecond' : pool'[pool.length + 1]? =
      some (.call (.enqSeq (busyMailbox 8196) (busyEnvelope ct 8196))) := by
    rw [hothers _ (by omega), List.append_assoc, List.getElem?_append_right (by omega),
      Nat.add_sub_cancel_left]
    rfl
  obtain ⟨w'', pool'', henq', hnext', -, -⟩ := hnext.run_enqueue hct hsecond'
  exact ⟨w'', pool'', (((hrun.trans hcheck).trans hcheck').trans henq).trans henq', hnext'⟩

end Brink

/-- A text of `n` characters. -/
theorem exists_text (n : Nat) : ∃ s : String, len s = n := by
  induction n with
  | zero => exact ⟨"", rfl⟩
  | succ n ih =>
    obtain ⟨s, rfl⟩ := ih
    refine ⟨s.push 'a', ?_⟩
    rw [len, String.utf8ByteSize_push]
    rfl

/-- The disk of a relay that started empty can exceed the cap. -/
theorem backstop_overrun : ¬∀ c : SendConfig Nat,
    Run (sendMachine Nat) anyMove emptySends c →
      diskBytes c.shared.store.envelopes ≤ globalQueueDiskCapBytes := by
  intro h
  obtain ⟨ct, hct⟩ := exists_text longText
  obtain ⟨w, pool, hrun, hfilled⟩ := run_two hct
  have hle := h _ hrun
  rw [hfilled.bytes] at hle
  exact absurd hle (by decide)

end AxenoRelay
