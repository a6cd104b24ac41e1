/-
  The migration resumed after interruptions.

  Every attempt enqueues the legacy envelopes from the first one on, over what the attempts
  before it left in the table. For each mailbox that is a log replayed into a bounded queue
  (`Lib/Replay.lean`), so the attempt that completes leaves the queue that one attempt would
  have left (`migration_resumes`). An enqueue of an envelope that is still in the table
  replaces its row, and the total and the index go on counting it (`replacedRows`).
-/
import AxenoRelay.Lib.Replay
import AxenoRelay.Startup.Migration

namespace AxenoRelay

open Interleave QueueStore

section Queues

variable {U : Type} [UuidText U]

/-! ## A queue as a bounded log -/

/-- What `flush` returns of a mailbox. -/
def queued (U : Type) [UuidText U] (m : String) (t : Envelopes) : List (StoredEnvelope U) :=
  (queueRows U m t).map (toEnvelope m)

/-- Both per-mailbox limits hold. -/
def WithinCaps (l : List (StoredEnvelope U)) : Prop :=
  l.length ≤ maxQueuePerRecipient ∧ (l.map fun e => len e.ciphertext).sum ≤ perMailboxQueueBytes

instance : DecidablePred (WithinCaps (U := U)) :=
  fun _ => inferInstanceAs (Decidable (_ ∧ _))

/-- An envelope as it comes back from the queue of a mailbox. -/
def addressed (m : String) (env : StoredEnvelope U) : StoredEnvelope U := { env with toId := m }

/-- The legacy envelopes of a mailbox. -/
def logOf (m : String) (l : List (RecipientId × StoredEnvelope U)) : List (StoredEnvelope U) :=
  (l.filter fun x => decide (x.1 = m)).map fun x => addressed m x.2

omit [UuidText U] in
theorem logOf_cons (m : String) (x : RecipientId × StoredEnvelope U)
    (l : List (RecipientId × StoredEnvelope U)) :
    logOf m (x :: l) = if x.1 = m then addressed m x.2 :: logOf m l else logOf m l := by
  unfold logOf
  rw [List.filter_cons]
  by_cases hx : x.1 = m
  · rw [if_pos (decide_eq_true hx), if_pos hx, List.map_cons]
  · rw [if_neg (by simpa using hx), if_neg hx]

omit [UuidText U] in
theorem mem_logOf {m : String} {l : List (RecipientId × StoredEnvelope U)}
    {e : StoredEnvelope U} (he : e ∈ logOf m l) : ∃ x ∈ l, x.1 = m ∧ e = addressed m x.2 := by
  obtain ⟨x, hx, rfl⟩ := List.mem_map.mp he
  obtain ⟨hx, hm⟩ := List.mem_filter.mp hx
  exact ⟨x, hx, of_decide_eq_true hm, rfl⟩

omit [UuidText U] in
theorem withinCaps_append (m : String) (env : StoredEnvelope U) (l : List (U × StoredValue)) :
    WithinCaps (l.map (toEnvelope m) ++ [addressed m env]) ↔ Fits (len env.ciphertext) l := by
  unfold WithinCaps Fits rowBytes
  rw [List.map_append, List.sum_append, List.map_map, List.length_append, List.length_map]
  rfl

omit [UuidText U] in
/-- The rows an enqueue evicts are the elements a push drops. -/
theorem evicted_eq_dropped (m : String) (env : StoredEnvelope U) (l : List (U × StoredValue)) :
    Fifo.evicted (Fits (len env.ciphertext)) l =
      Replay.dropped WithinCaps (addressed m env) (l.map (toEnvelope m)) := by
  unfold Replay.dropped
  induction l with
  | nil => rfl
  | cons r l ih =>
    rw [List.map_cons]
    unfold Fifo.evicted
    rw [← List.map_cons, ih]
    exact if_congr (withinCaps_append m env (r :: l)).symm rfl rfl

section

variable [DecidableEq U]

/-- An enqueue pushes the envelope onto the queue of its mailbox. -/
theorem queued_enqueued {st : QueueStore} (hk : KeysOk U st.envelopes)
    (hseq : ∀ k v, st.envelopes.get k = some v → v.s < st.nextSeq) {m : String}
    (hm : NameOk m) (now : Nat) {env : StoredEnvelope U}
    (hsame : ∀ x ∈ queued U m st.envelopes, x.id = env.id → x = addressed m env) :
    queued U m (enqueued now m env st).envelopes =
      Replay.push WithinCaps (addressed m env) (queued U m st.envelopes) := by
  unfold queued Replay.push
  rw [enqueued_envelopes, queueRows_enqueueTable hk hm hm hseq, if_pos rfl,
    ← evicted_eq_dropped, ← List.map_drop, List.filter_map, List.map_append]
  congr 1
  congr 1
  refine List.filter_congr fun r hr => decide_eq_decide.mpr (not_congr ?_)
  constructor
  · exact hsame _ (List.mem_map_of_mem (List.mem_of_mem_drop hr))
  · exact fun heq => congrArg StoredEnvelope.id heq

theorem queued_enqueued_other {st : QueueStore} (hk : KeysOk U st.envelopes)
    (hseq : ∀ k v, st.envelopes.get k = some v → v.s < st.nextSeq) {m n : String}
    (hm : NameOk m) (hn : NameOk n) (hnm : n ≠ m) (now : Nat) (env : StoredEnvelope U) :
    queued U n (enqueued now m env st).envelopes = queued U n st.envelopes := by
  unfold queued
  rw [enqueued_envelopes, queueRows_enqueueTable hk hm hn hseq, if_neg hnm]

end

/-! ## The legacy state -/

/-- Fresh and distinct ids, valid mailbox ids and ciphertexts within the limit. -/
structure LegacyOk (disk : DiskState U) (host : Host U) : Prop where
  keys : KeysOk U host.envelopes
  names : ∀ x ∈ disk.legacy, NameOk x.1
  fresh : ∀ x ∈ disk.legacy, host.envelopes.get (keyFor x.1 x.2.id) = none
  distinct : (disk.legacy.map fun x => (x.1, x.2.id)).Nodup
  small : ∀ x ∈ disk.legacy, len x.2.ciphertext ≤ perMailboxQueueBytes

theorem mem_queued {t : Envelopes} (ht : KeysOk U t) {m : String} (hm : NameOk m)
    {x : StoredEnvelope U} (hx : x ∈ queued U m t) :
    ∃ v, (x.id, v) ∈ queueRows U m t ∧ t.get (keyFor m x.id) = some v := by
  obtain ⟨r, hr, rfl⟩ := List.mem_map.mp hx
  exact ⟨r.2, hr, (mem_queueRows ht hm).mp hr⟩

theorem LegacyOk.nodup {disk : DiskState U} {host : Host U} (h : LegacyOk disk host) {m : String}
    (hm : NameOk m) : (queued U m host.envelopes ++ logOf m disk.legacy).Nodup := by
  have hids : ((queued U m host.envelopes).map StoredEnvelope.id).Nodup := by
    rw [queued, List.map_map]
    exact queueRows_ids_nodup h.keys hm
  refine List.nodup_append.mpr ⟨hids.of_map _, ?_, ?_⟩
  · have hsub : ((disk.legacy.filter fun x => decide (x.1 = m)).map
        fun x => (x.1, x.2.id)).Nodup := (List.filter_sublist.map _).nodup h.distinct
    unfold logOf
    refine List.Nodup.map_on ?_ hsub.of_map
    intro x hx y hy heq
    refine List.inj_on_of_nodup_map hsub hx hy ?_
    have hxm := of_decide_eq_true (List.mem_filter.mp hx).2
    have hym := of_decide_eq_true (List.mem_filter.mp hy).2
    have hid : (addressed m x.2).id = (addressed m y.2).id := congrArg StoredEnvelope.id heq
    exact Prod.ext (hxm.trans hym.symm) hid
  · intro x hx y hy heq
    obtain ⟨v, _, hv⟩ := mem_queued h.keys hm hx
    obtain ⟨z, hz, rfl, rfl⟩ := mem_logOf hy
    have hnone := h.fresh z hz
    rw [heq] at hv
    change host.envelopes.get (keyFor z.1 z.2.id) = some v at hv
    rw [hnone] at hv
    cases hv

theorem LegacyOk.bounded {disk : DiskState U} {host : Host U} (h : LegacyOk disk host)
    (m : String) : Replay.Bounded WithinCaps (logOf m disk.legacy) where
  mono := by
    intro l l' ⟨l'', hperm, hsub⟩ ⟨hlen, hbytes⟩
    have hsum : (l''.map fun e => len e.ciphertext).sum = (l.map fun e => len e.ciphertext).sum :=
      (hperm.map _).sum_eq
    have hle : (l''.map fun e => len e.ciphertext).sum ≤ (l'.map fun e => len e.ciphertext).sum :=
      (hsub.map _).sum_le_sum fun _ _ => Nat.zero_le _
    refine ⟨?_, ?_⟩
    · rw [← hperm.length_eq]
      exact hsub.length_le.trans hlen
    · rw [← hsum]
      exact hle.trans hbytes
  single := by
    intro e he
    obtain ⟨x, hx, -, rfl⟩ := mem_logOf he
    refine ⟨?_, ?_⟩
    · show 1 ≤ maxQueuePerRecipient
      decide
    rw [List.map_singleton, List.sum_singleton]
    exact h.small x hx

/-! ## Attempts -/

/-- The call of `enqueue`, if the move is one, succeeds. -/
def CallSucceeds (p : BootConfig U × Move BootMove) : Prop :=
  ∀ q ∈ enqueuing (U := U) p, (enqueueCall q.1 q.2.1 q.2.2).1.isOk = true

/-- A call for an envelope that is in the table removes nothing that was there at first. -/
def Spares (host : Host U) (p : BootConfig U × Move BootMove) : Prop :=
  ∀ q ∈ enqueuing (U := U) p, q.2.2.envelopes.contains (keyFor q.2.1.1 q.2.1.2.id) = true →
    ∀ k ∈ host.envelopes.keys, q.2.2.envelopes.contains k = true →
      (enqueueCall q.1 q.2.1 q.2.2).2.envelopes.contains k = true

instance (p : BootConfig U × Move BootMove) : Decidable (CallSucceeds p) :=
  inferInstanceAs (Decidable (∀ q ∈ enqueuing (U := U) p, _))

instance (host : Host U) (p : BootConfig U × Move BootMove) : Decidable (Spares host p) :=
  inferInstanceAs (Decidable (∀ q ∈ enqueuing (U := U) p, _ → _))

/-- Any number of attempts, up to the first that completes. -/
def Attempts (host : Host U) (h : BootPast U) (c : BootConfig U) (m : Move BootMove) : Prop :=
  UpToFirst h c m ∧ CallSucceeds (c, m) ∧ Spares host (c, m)

instance (host : Host U) (h : BootPast U) (c : BootConfig U) (m : Move BootMove) :
    Decidable (Attempts host h c m) := inferInstanceAs (Decidable (_ ∧ _ ∧ _))

/-- One attempt. -/
def FirstAttempt (h : BootPast U) (c : BootConfig U) (m : Move BootMove) : Prop :=
  OneProcess h c m ∧ CallSucceeds (c, m)

instance (h : BootPast U) (c : BootConfig U) (m : Move BootMove) :
    Decidable (FirstAttempt h c m) := inferInstanceAs (Decidable (_ ∧ _))

/-- The row that a call of `enqueue` replaces, with its mailbox. -/
def replacedAt (p : BootConfig U × Move BootMove) : List (String × StoredValue) :=
  match enqueuing (U := U) p with
  | none => []
  | some (_, x, st) => replacedBy x.1 x.2 st

/-- The rows that the present attempt has replaced. -/
def replacedRows : BootPast U → List (String × StoredValue)
  | [] => []
  | p :: h =>
    match p.2 with
    | .env .restart => []
    | _ => replacedAt p ++ replacedRows h

/-! ## On the way -/

/-- What holds of the queues and the open store after some moves. -/
structure QueuesAt (disk : DiskState U) (host : Host U) (h : BootPast U) (b : Boot U) : Prop where
  sync : InSync b
  keys : KeysOk U b.host.envelopes
  counts : ∀ st, b.stage.store = some st → StoreOver U (replacedRows h) st
  uncounted : b.stage.store = none → b.stage = .failed ∨ replacedRows h = []
  queues : ∀ m, NameOk m → ∃ fin, Replay.Resumed WithinCaps (queued U m host.envelopes)
    (logOf m disk.legacy) fin (logOf m (b.stage.waiting disk.legacy)) (queued U m b.host.envelopes)

theorem queuesAt_start {disk : DiskState U} {host : Host U} (hok : LegacyOk disk host) :
    QueuesAt disk host [] (firstBoot host).shared where
  sync := fun st hst => by cases hst
  keys := hok.keys
  counts := fun st hst => by cases hst
  uncounted := fun _ => Or.inr rfl
  queues := fun m hm => ⟨[], .start (List.nodup_append.mp (hok.nodup hm)).1⟩

theorem replacedRows_cons {h : BootPast U} {p : BootConfig U × Move BootMove}
    (hp : p.2 ≠ .env .restart) : replacedRows (p :: h) = replacedAt p ++ replacedRows h := by
  obtain ⟨c, m⟩ := p
  match m with
  | .env .restart => exact absurd rfl hp
  | .env (.step _) | .spawn _ | .act _ _ => rfl

theorem replacedAt_none {p : BootConfig U × Move BootMove} (hp : enqueuing (U := U) p = none) :
    replacedAt p = [] := by
  unfold replacedAt
  rw [hp]

/-- A call that succeeds is one of the store's. -/
theorem enqueueCall_eq {extra : List (String × StoredValue)} {st : QueueStore}
    (h : StoreOver U extra st) {x : RecipientId × StoredEnvelope U} (hm : NameOk x.1)
    {e : StartEvent} (hok : (enqueueCall e x st).1.isOk = true) :
    (enqueueCall e x st).2 = enqueued e.now x.1 x.2 st := by
  unfold enqueueCall at hok ⊢
  rcases enqueue_cases h.keys hm (h.indexCovers hm) e.now e.readFaults e.writeFaults x.2 with
    ⟨err, he⟩ | he
  · rw [he] at hok
    cases hok
  · rw [he]

section

variable [DecidableEq U]

/-- A call that succeeds pushes the next envelope of its mailbox's log. -/
theorem resumed_call {disk : DiskState U} {host : Host U} (hok : LegacyOk disk host)
    {extra : List (String × StoredValue)} {st : QueueStore} (hst : StoreOver U extra st)
    {x : RecipientId × StoredEnvelope U} (hx : x ∈ disk.legacy) {e : StartEvent}
    (hcall : (enqueueCall e x st).1.isOk = true)
    (hspare : st.envelopes.contains (keyFor x.1 x.2.id) = true → ∀ k ∈ host.envelopes.keys,
      st.envelopes.contains k = true → (enqueueCall e x st).2.envelopes.contains k = true)
    {m : String} (hm : NameOk m) {fin : List (StoredEnvelope U)}
    {rest : List (RecipientId × StoredEnvelope U)}
    (hq : Replay.Resumed WithinCaps (queued U m host.envelopes) (logOf m disk.legacy) fin
      (logOf m (x :: rest)) (queued U m st.envelopes)) :
    ∃ fin', Replay.Resumed WithinCaps (queued U m host.envelopes) (logOf m disk.legacy) fin'
      (logOf m rest) (queued U m (enqueueCall e x st).2.envelopes) := by
  have hname := hok.names x hx
  have hkey : ∀ z ∈ queued U x.1 host.envelopes, z.id ≠ x.2.id := by
    intro z hz hid
    obtain ⟨v, _, hv⟩ := mem_queued hok.keys hname hz
    rw [hid, hok.fresh x hx] at hv
    cases hv
  rw [logOf_cons] at hq
  rw [enqueueCall_eq hst hname hcall] at hspare ⊢
  split_ifs at hq with hxm
  · subst hxm
    -- what is in the queue was there at first, or is of the log
    have hsame : ∀ z ∈ queued U x.1 st.envelopes, z.id = x.2.id → z = addressed x.1 x.2 := by
      intro z hz hid
      have hmem : z ∈ queued U x.1 host.envelopes ∨ z ∈ logOf x.1 disk.legacy := by
        obtain ⟨a, o, d, hl, hlay⟩ := hq.layers
        rw [hl, List.append_assoc] at hz
        rcases List.mem_append.mp hz with hz | hz
        · exact Or.inl (hlay.suffix.subset hz)
        · rw [hq.split]
          rcases List.mem_append.mp hz with hz | hz
          · exact Or.inr (List.mem_append_right _ (hlay.old z hz))
          · exact Or.inr (List.mem_append_left _ (List.mem_of_mem_drop hz))
      rcases hmem with hz | hz
      · exact absurd hid (hkey z hz)
      · obtain ⟨y, hy, hym, rfl⟩ := mem_logOf hz
        have hyx : y = x := List.inj_on_of_nodup_map hok.distinct hy hx (Prod.ext hym hid)
        rw [hyx]
    rw [queued_enqueued hst.keys hst.seqs hname e.now hsame]
    refine ⟨_, hq.push (hok.bounded x.1) (hok.nodup hname) ?_⟩
    intro hmem y hy hpre
    obtain ⟨_, _, hv⟩ := mem_queued hst.keys hname hmem
    have hstored : st.envelopes.contains (keyFor x.1 x.2.id) = true := by
      rw [OrdMap.contains_eq]
      change st.envelopes.get (keyFor x.1 x.2.id) = _ at hv
      rw [hv]
      rfl
    -- an element dropped is a row evicted
    have hvictim : ∃ v, (y.id, v) ∈ victimRows U x.1 (len x.2.ciphertext) st.envelopes := by
      rw [queued, ← evicted_eq_dropped, ← List.map_take] at hy
      obtain ⟨r, hr, rfl⟩ := List.mem_map.mp hy
      exact ⟨r.2, hr⟩
    obtain ⟨v, hv⟩ := hvictim
    obtain ⟨w, _, hw⟩ := mem_queued hok.keys hname hpre
    have hne : keyFor x.1 y.id ≠ keyFor x.1 x.2.id := by
      intro hkeys
      rw [hkeys, hok.fresh x hx] at hw
      cases hw
    have hkept := hspare hstored _ (OrdMap.mem_keys_iff.mpr ⟨w, hw⟩) (by
      rw [OrdMap.contains_eq, mem_victimRows hst.keys hname hv]
      rfl)
    rw [OrdMap.contains_eq, enqueued_envelopes, enqueueTable, OrdMap.get_insert, if_neg hne,
      OrdMap.get_eraseAll, if_pos] at hkept
    · cases hkept
    · exact List.mem_map_of_mem (List.mem_map_of_mem (f := Prod.fst) hv)
  · rw [queued_enqueued_other hst.keys hst.seqs hname hm (Ne.symm hxm)]
    exact ⟨fin, hq⟩

theorem queuesAt_step {C : KeyCrates} {env : SecretEnv} {disk : DiskState U} {host : Host U}
    (hok : LegacyOk disk host) {h : BootPast U} {c c' : BootConfig U} {m : Move BootMove}
    {clocks : List Nat} (hc : Carried disk clocks c.shared.stage)
    (hq : QueuesAt disk host h c.shared) (hg : Attempts host h c m)
    (hn : (bootMachine U C env).next m c = some c') :
    QueuesAt disk host ((c, m) :: h) c'.shared := by
  have hsync := inSync_next hq.sync hn
  rcases migration_next hq.sync hc hn with ⟨hnone, henv, hquiet⟩ |
    ⟨e, d, x, rest, st, hcall, hs, hs', henv⟩
  · -- the table is left alone
    have hkeys : KeysOk U c'.shared.host.envelopes := by
      rw [henv]
      exact hq.keys
    have hrestart : c'.shared.stage.waiting disk.legacy = disk.legacy → ∀ m, NameOk m →
        ∃ fin, Replay.Resumed WithinCaps (queued U m host.envelopes) (logOf m disk.legacy) fin
          (logOf m (c'.shared.stage.waiting disk.legacy)) (queued U m c'.shared.host.envelopes) := by
      intro hw m hm
      obtain ⟨fin, hr⟩ := hq.queues m hm
      rw [hw, henv]
      exact ⟨[], hr.restart⟩
    rcases hquiet with ⟨rfl, hload⟩ | hfailed | ⟨hm, hwait, hstore⟩
    · refine ⟨hsync, hkeys, ?_, fun _ => Or.inr rfl, hrestart (by rw [hload]; rfl)⟩
      intro st hst
      rw [hload] at hst
      cases hst
    · refine ⟨hsync, hkeys, ?_, fun _ => Or.inl hfailed, hrestart (by rw [hfailed]; rfl)⟩
      intro st hst
      rw [hfailed] at hst
      cases hst
    · have hrows : replacedRows ((c, m) :: h) = replacedRows h := by
        rw [replacedRows_cons hm, replacedAt_none hnone, List.nil_append]
      refine ⟨hsync, hkeys, ?_, ?_, ?_⟩
      · intro st hst
        rw [hrows]
        rcases hstore with heq | ⟨hold, hnew⟩
        · exact hq.counts st (heq ▸ hst)
        · rw [hnew] at hst
          cases hst
          have hempty : replacedRows h = [] := by
            refine (hq.uncounted hold).resolve_left fun hf => ?_
            rcases boot_next hn with ⟨rfl, rfl⟩ | ⟨e, s', h', rfl, hstep, rfl⟩
            · exact hm rfl
            · rw [hf] at hstep
              cases hstep
          rw [hempty, storeOver_nil]
          exact storeOk_ofTable hq.keys
      · intro hnostore
        rw [hrows]
        rcases hstore with heq | ⟨hold, hnew⟩
        · rcases hq.uncounted (heq ▸ hnostore) with hf | hempty
          · rcases boot_next hn with ⟨rfl, rfl⟩ | ⟨e, s', h', rfl, hstep, rfl⟩
            · exact absurd rfl hm
            · rw [hf] at hstep
              cases hstep
          · exact Or.inr hempty
        · rw [hnew] at hnostore
          cases hnostore
      · intro n hnok
        rw [hwait, henv]
        exact hq.queues n hnok
  · -- a call for `x`
    have hst : st.envelopes = c.shared.host.envelopes := hq.sync st (by rw [hs]; rfl)
    have hover : StoreOver U (replacedRows h) st := hq.counts st (by rw [hs]; rfl)
    have hx : x ∈ disk.legacy := by
      rw [hs] at hc
      exact hc.1.subset List.mem_cons_self
    have hsucc : (enqueueCall e x st).1.isOk = true := hg.2.1 _ hcall
    have heq := enqueueCall_eq hover (hok.names x hx) hsucc
    have hafter : StoreOver U (replacedRows ((c, m) :: h)) (enqueueCall e x st).2 := by
      have hm : m ≠ .env .restart := by
        rintro rfl
        cases hcall
      have hrow : replacedAt (c, m) = replacedBy x.1 x.2 st := by
        unfold replacedAt
        rw [hcall]
      rw [replacedRows_cons hm, hrow, heq]
      exact storeOver_enqueued hover (hok.names x hx) e.now x.2
    refine ⟨hsync, ?_, ?_, ?_, ?_⟩
    · rw [henv]
      exact hafter.keys
    · intro st' hst'
      rw [hs'] at hst'
      cases hst'
      exact hafter
    · intro hnostore
      rw [hs'] at hnostore
      cases hnostore
    · intro n hnok
      obtain ⟨fin, hr⟩ := hq.queues n hnok
      rw [hs, ← hst] at hr
      rw [hs', henv]
      exact resumed_call hok hover hx hsucc (hg.2.2 _ hcall) hnok hr

/-- What attempts that come to an end have done. -/
theorem attempts_done {C : KeyCrates} {env : SecretEnv} {disk : DiskState U} {host : Host U}
    (hfile : host.stateFile = some disk) (hok : LegacyOk disk host) {h : BootPast U}
    {c : BootConfig U} (ht : Trace (bootMachine U C env) (Attempts host) (firstBoot host) h c)
    {K : DiskCrypto} {st : QueueStore} (hdone : c.shared.stage = .done K st) :
    MetaAt disk host.tables h c.shared ∧ st.envelopes = c.shared.host.envelopes ∧
      StoreOver U (replacedRows h) st ∧
      ∀ m, NameOk m → queued U m st.envelopes = Replay.replayed WithinCaps
        (queued U m host.envelopes) (logOf m disk.legacy) := by
  obtain ⟨hm, hq⟩ := ht.invariant
    (P := fun h c => MetaAt disk host.tables h c.shared ∧ QueuesAt disk host h c.shared)
    ⟨metaAt_start hfile, queuesAt_start hok⟩ (by
      intro h c m c' ⟨hm, hq⟩ hg hn
      exact ⟨metaAt_step hm hg.1 hn, queuesAt_step hok hm.carried hq hg hn⟩)
  have hst : st.envelopes = c.shared.host.envelopes := hq.sync st (by rw [hdone]; rfl)
  refine ⟨hm, hst, hq.counts st (by rw [hdone]; rfl), fun m hname => ?_⟩
  obtain ⟨fin, hr⟩ := hq.queues m hname
  have hlog : logOf m disk.legacy = fin := by
    have hsplit := hr.split
    rw [hdone] at hsplit
    change logOf m disk.legacy = fin ++ [] at hsplit
    rw [hsplit, List.append_nil]
  rw [hdone, ← hlog] at hr
  rw [hst]
  exact hr.replayed (hok.bounded m) (hok.nodup hname)

omit [UuidText U] [DecidableEq U] in
theorem stage_of_enqueuing {p : BootConfig U × Move BootMove} {e : StartEvent}
    {x : RecipientId × StoredEnvelope U} {st : QueueStore} (hp : enqueuing p = some (e, x, st)) :
    ∃ d rest, p.1.shared.stage = .queues d (x :: rest) st := by
  unfold enqueuing at hp
  split at hp
  · next _ d y rest st' _ hs =>
    cases hp
    exact ⟨d, rest, hs⟩
  · cases hp

omit [DecidableEq U] in
/-- In one attempt no call finds its envelope in the table. -/
theorem attempts_of_first {C : KeyCrates} {env : SecretEnv} {disk : DiskState U} {host : Host U}
    (hfile : host.stateFile = some disk) (hok : LegacyOk disk host) {h : BootPast U}
    {c : BootConfig U} (ht : Trace (bootMachine U C env) FirstAttempt (firstBoot host) h c) :
    Trace (bootMachine U C env) (Attempts host) (firstBoot host) h c := by
  refine ht.strengthen (P := fun h c => (MetaAt disk host.tables h c.shared ∧ InSync c.shared) ∧
      (c.shared.stage = .failed ∨ ∀ x ∈ c.shared.stage.waiting disk.legacy,
        c.shared.host.envelopes.get (keyFor x.1 x.2.id) = none))
    ⟨⟨metaAt_start hfile, fun st hst => by cases hst⟩, Or.inr hok.fresh⟩ ?_ ?_
  · rintro h c m c' ⟨⟨hm, hb⟩, hfresh⟩ hg hn
    refine ⟨⟨metaAt_step hm (fun hr => absurd hr hg.1) hn, inSync_next hb hn⟩, ?_⟩
    rcases migration_next hb hm.carried hn with ⟨-, henv, hquiet⟩ | ⟨e, d, x, rest, st, -, hs, hs', henv⟩
    · rcases hquiet with ⟨hr, -⟩ | hf | ⟨-, hwait, -⟩
      · exact absurd hr hg.1
      · exact Or.inl hf
      · rw [hwait, henv]
        refine hfresh.imp_left fun hf => ?_
        rcases boot_next hn with ⟨rfl, rfl⟩ | ⟨e, s', h', rfl, hstep, rfl⟩
        · exact absurd rfl hg.1
        · rw [hf] at hstep
          cases hstep
    · right
      have hcarried := hm.carried
      rw [hs] at hcarried hfresh
      have hold := hfresh.resolve_left fun hf => by cases hf
      have hst : st.envelopes = c.shared.host.envelopes := hb st (by rw [hs]; rfl)
      intro y hy
      rw [hs'] at hy
      have hget := hold y (List.mem_cons_of_mem _ hy)
      rw [henv]
      rcases enqueueCall_cases e x st with ⟨-, ht⟩ | ⟨-, ids, ht⟩
      · rw [ht, hst]
        exact hget
      · have hne : keyFor y.1 y.2.id ≠ keyFor x.1 x.2.id := by
          intro hkeys
          have hsub := hcarried.1
          have hnd := (hsub.sublist.map fun x => (x.1, x.2.id)).nodup hok.distinct
          rw [List.map_cons, List.nodup_cons] at hnd
          obtain ⟨h1, h2⟩ := keyFor_inj (hok.names y (hsub.subset (List.mem_cons_of_mem _ hy)))
            (hok.names x (hsub.subset List.mem_cons_self)) hkeys
          exact hnd.1 (List.mem_map.mpr ⟨y, hy, Prod.ext h1 h2⟩)
        rw [ht, enqueueTable, OrdMap.get_insert, if_neg hne, OrdMap.get_eraseAll, hst, hget, ite_self]
  · rintro h c m ⟨⟨hm, hb⟩, hfresh⟩ hg
    refine ⟨fun hr => absurd hr hg.1, hg.2, ?_⟩
    rintro ⟨e, x, st⟩ hq hstored
    obtain ⟨d, rest, hs⟩ := stage_of_enqueuing hq
    have hst : st.envelopes = c.shared.host.envelopes := by
      refine hb st ?_
      rw [hs]
      rfl
    have hnone : st.envelopes.get (keyFor x.1 x.2.id) = none := by
      rw [hst]
      refine (hfresh.resolve_left ?_) x ?_
      · rw [hs]
        exact fun hf => by cases hf
      · rw [hs]
        exact List.mem_cons_self
    rw [OrdMap.contains_eq, hnone] at hstored
    cases hstored

/-- However often the migration was interrupted, the attempt that completes leaves the queues
    and the records that one attempt would have left, and counters that exceed the tables by
    the rows it replaced. -/
theorem migration_resumes {C : KeyCrates} {env : SecretEnv} {disk : DiskState U} {host : Host U}
    (hfile : host.stateFile = some disk) (hok : LegacyOk disk host) {h h₁ : BootPast U}
    {c c₁ : BootConfig U} {K K₁ : DiskCrypto} {st st₁ : QueueStore}
    (ht : Trace (bootMachine U C env) (Attempts host) (firstBoot host) h c)
    (hdone : c.shared.stage = .done K st)
    (ht₁ : Trace (bootMachine U C env) FirstAttempt (firstBoot host) h₁ c₁)
    (hdone₁ : c₁.shared.stage = .done K₁ st₁) :
    (∀ m, NameOk m → queued U m c.shared.host.envelopes = queued U m c₁.shared.host.envelopes) ∧
      c.shared.host.tables.auth = c₁.shared.host.tables.auth ∧
      ((∀ now ∈ pruneClocks h, ∀ now₁ ∈ pruneClocks h₁, disk.unexpired now = disk.unexpired now₁) →
        c.shared.host.tables.bundles = c₁.shared.host.tables.bundles) ∧
      st.envelopes = c.shared.host.envelopes ∧ StoreOver U (replacedRows h) st := by
  obtain ⟨hm, hst, hcounts, hqueues⟩ := attempts_done hfile hok ht hdone
  obtain ⟨hm₁, hst₁, -, hqueues₁⟩ := attempts_done hfile hok (attempts_of_first hfile hok ht₁) hdone₁
  refine ⟨fun m hname => ?_, ?_, fun hclocks => ?_, hst, hcounts⟩
  · rw [← hst, ← hst₁, hqueues m hname, hqueues₁ m hname]
  · rw [hm.authDone (by rw [hdone]; rfl), hm₁.authDone (by rw [hdone₁]; rfl)]
  · obtain ⟨now, hnow, hb⟩ := hm.bundlesDone (by rw [hdone]; rfl)
    obtain ⟨now₁, hnow₁, hb₁⟩ := hm₁.bundlesDone (by rw [hdone₁]; rfl)
    rw [hb, hb₁, hclocks now hnow now₁ hnow₁]

end

end Queues

/-! ## An interruption after the one enqueue -/

/-- A first attempt that ends after its enqueue, and one that completes. -/
def interruptedStart : List (Move BootMove) :=
  List.replicate 7 (.env (.step (sampleStart oneKey))) ++ .env .restart :: legacyStart []

theorem legacyHost_ok : LegacyOk legacyDisk legacyHost where
  keys := keysOk_empty
  names := by decide
  fresh := fun _ _ => rfl
  distinct := by decide
  small := by decide

/-- The two attempts leave the same queue as one, though not the same counters. -/
theorem migration_resumes_sample : ∃ (c c₁ : BootConfig SampleUuid) (st : QueueStore),
    c.shared.stage.running = some oneKey ∧ c₁.shared.stage.running = some oneKey ∧
      queued SampleUuid "alice" c.shared.host.envelopes =
        queued SampleUuid "alice" c₁.shared.host.envelopes ∧
      c.shared.host.tables.bundles = c₁.shared.host.tables.bundles ∧
      c.shared.stage.store = some st ∧
      st.totalBytes = diskBytes c.shared.host.envelopes + 1 := by
  obtain ⟨h, c, ht, hp⟩ := exists_trace
    (M := bootMachine SampleUuid sampleKeyCrates bareEnv) (G := Attempts legacyHost)
    (c := firstBoot legacyHost) interruptedStart
    (p := fun r => decide (r.2.shared.stage.running = some oneKey) &&
      decide (pruneClocks r.1 = [1, 1]) && decide (rowBytes (replacedRows r.1) = 1))
    (by decide +kernel)
  obtain ⟨h₁, c₁, ht₁, hp₁⟩ := exists_trace
    (M := bootMachine SampleUuid sampleKeyCrates bareEnv) (G := FirstAttempt)
    (c := firstBoot legacyHost) (legacyStart [])
    (p := fun r => decide (r.2.shared.stage.running = some oneKey) &&
      decide (pruneClocks r.1 = [1]))
    (by decide +kernel)
  simp only [Bool.and_eq_true, decide_eq_true_eq] at hp hp₁
  obtain ⟨⟨hrun, hclocks⟩, hrows⟩ := hp
  obtain ⟨st, hdone⟩ := Stage.done_of_running hrun
  obtain ⟨st₁, hdone₁⟩ := Stage.done_of_running hp₁.1
  obtain ⟨hqueues, -, hbundles, hst, hcounts⟩ :=
    migration_resumes rfl legacyHost_ok ht hdone ht₁ hdone₁
  refine ⟨c, c₁, st, hrun, hp₁.1, hqueues "alice" (by decide), hbundles ?_, ?_, ?_⟩
  · rw [hclocks, hp₁.2]
    decide
  · rw [hdone]
    rfl
  · rw [← hst, ← hrows]
    exact hcounts.total

/-- The attempt that completes counts the one row twice. -/
theorem resumed_overcounts : ¬∀ (disk : DiskState SampleUuid) (host : Host SampleUuid)
    (h : BootPast SampleUuid) (c : BootConfig SampleUuid) (K : DiskCrypto) (st : QueueStore),
    host.stateFile = some disk → LegacyOk disk host →
    Trace (bootMachine SampleUuid sampleKeyCrates bareEnv) (Attempts host) (firstBoot host) h c →
    c.shared.stage = .done K st →
    st.totalBytes = diskBytes st.envelopes ∧
      ∀ m, NameOk m → st.indexOf m = (countOf m st.envelopes, bytesOf m st.envelopes) := by
  intro hall
  obtain ⟨h, c, ht, hp⟩ := exists_trace
    (M := bootMachine SampleUuid sampleKeyCrates bareEnv) (G := Attempts legacyHost)
    (c := firstBoot legacyHost) interruptedStart
    (p := fun r => r.2.shared.stage.running.isSome &&
      r.2.shared.stage.store.any fun st => decide (st.totalBytes ≠ diskBytes st.envelopes))
    (by decide +kernel)
  simp only [Bool.and_eq_true] at hp
  obtain ⟨K, hrun⟩ := Option.isSome_iff_exists.mp hp.1
  obtain ⟨st, hdone⟩ := Stage.done_of_running hrun
  obtain ⟨st', hst', hne⟩ := (Option.any_eq_true _ _).mp hp.2
  rw [hdone] at hst'
  cases hst'
  exact absurd (hall _ _ h c K st rfl legacyHost_ok ht hdone).1 (of_decide_eq_true hne)

end AxenoRelay
