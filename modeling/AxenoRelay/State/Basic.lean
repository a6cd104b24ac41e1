/-
  `state.rs`: the state all sockets share, and the operations on it.

  A `DashMap` is a map whose single operations are atomic; its iteration is taken as
  one snapshot, in any order. The dirty sets are maps to `Unit`. `online` maps a
  mailbox to the number of the socket whose channel it holds.
-/
import AxenoRelay.State.MetaStore
import AxenoRelay.FileStore.Basic
import AxenoRelay.QueueStore.Basic

namespace AxenoRelay

structure AppState where
  queues : QueueStore
  tables : MetaTables
  files : FileStore
  fileConfig : FileConfig
  online : OrdMap RecipientId Nat
  mailboxAuth : OrdMap RecipientId MailboxAuth
  mailboxCount : Nat
  bundles : OrdMap String HostedBundle
  totalBundleBytes : Nat
  sendRate : OrdMap RecipientId (Nat × Nat)
  trustRootPublicB64 : String
  dirtyAuth : OrdMap RecipientId Unit
  dirtyBundles : OrdMap String Unit
  connCount : Nat
  lastBundlePruneMs : Nat

namespace AppState

/-! ## Starting up -/

/-- A loaded record: one without a lease gets a fresh one. -/
def restamp (now : Nat) (auth : MailboxAuth) : MailboxAuth :=
  if auth.lastActiveMs = 0 then { auth with lastActiveMs := nowActivityMs now } else auth

/-- The state `build` makes of what the tables hold. -/
def ofLoaded (now : Nat) (auth : List (RecipientId × MailboxAuth)) (bundles : List HostedBundle)
    (tables : MetaTables) (queues : QueueStore) (files : FileStore) (cfg : FileConfig)
    (trustRoot : String) : AppState :=
  let mailboxAuth := OrdMap.collect (auth.map fun e => (e.1, restamp now e.2))
  { queues := queues
    tables := tables
    files := files
    fileConfig := cfg
    online := OrdMap.empty
    mailboxAuth := mailboxAuth
    mailboxCount := mailboxAuth.size
    bundles := OrdMap.collect (bundles.map fun b => (b.id, b))
    totalBundleBytes := (bundles.map fun b => len b.ciphertext).sum
    sendRate := OrdMap.empty
    trustRootPublicB64 := trustRoot
    dirtyAuth := OrdMap.empty
    dirtyBundles := OrdMap.empty
    connCount := 0
    lastBundlePruneMs := 0 }

/-- `AppState::build` at clock `now`, over the opened stores. -/
def build (now : Nat) (queues : QueueStore) (files : FileStore) (cfg : FileConfig)
    (trustRoot : String) : Txn DbError MetaTables AppState := do
  let auth ← MetaTables.loadAllAuth
  let bundles ← MetaTables.loadAllBundles
  let tables ← Txn.read .db id
  pure (ofLoaded now auth bundles tables queues files cfg trustRoot)

theorem build_run (now : Nat) (queues : QueueStore) (files : FileStore) (cfg : FileConfig)
    (trustRoot : String) (t : MetaTables) :
    (build now queues files cfg trustRoot).commit [] t =
      (.ok (ofLoaded now t.auth.entries (t.bundles.entries.map Prod.snd) t queues files cfg
        trustRoot), t) := by
  refine Txn.commit_nil ?_
  simp only [build, Txn.bind_run, MetaTables.loadAllAuth_run, MetaTables.loadAllBundles_run]
  rfl

/-- Loading records that all have a lease gives the map they came from. -/
theorem ofLoaded_mailboxAuth {m : OrdMap RecipientId MailboxAuth}
    (h : m.All fun _ a => a.lastActiveMs ≠ 0) (now : Nat) (bundles : List HostedBundle)
    (tables : MetaTables) (queues : QueueStore) (files : FileStore) (cfg : FileConfig)
    (trustRoot : String) :
    (ofLoaded now m.entries bundles tables queues files cfg trustRoot).mailboxAuth = m := by
  have hsame : m.entries.map (fun e => (e.1, restamp now e.2)) = m.entries := by
    conv_rhs => rw [← List.map_id m.entries]
    refine List.map_congr_left fun e he => ?_
    rw [restamp, if_neg (h e.1 e.2 (OrdMap.get_eq_some_iff.mpr he)), id_eq]
  simp only [ofLoaded]
  rw [hsame, OrdMap.collect_entries]

/-- Loading bundles that are filed under their ids gives the map they came from. -/
theorem ofLoaded_bundles {m : OrdMap String HostedBundle} (h : m.All fun k b => b.id = k)
    (now : Nat) (auth : List (RecipientId × MailboxAuth)) (tables : MetaTables)
    (queues : QueueStore) (files : FileStore) (cfg : FileConfig) (trustRoot : String) :
    (ofLoaded now auth (m.entries.map Prod.snd) tables queues files cfg trustRoot).bundles =
      m := by
  have hsame : (m.entries.map Prod.snd).map (fun b => (b.id, b)) = m.entries := by
    rw [List.map_map]
    conv_rhs => rw [← List.map_id m.entries]
    refine List.map_congr_left fun e he => ?_
    exact Prod.ext (h e.1 e.2 (OrdMap.get_eq_some_iff.mpr he)) rfl
  simp only [ofLoaded]
  rw [hsame, OrdMap.collect_entries]

/-! ## Dirty sets -/

def markAuthDirty (st : AppState) (rid : RecipientId) : AppState :=
  { st with dirtyAuth := st.dirtyAuth.insert rid () }

def markBundleDirty (st : AppState) (id : String) : AppState :=
  { st with dirtyBundles := st.dirtyBundles.insert id () }

/-- The collecting loop of `flush_dirty_meta` over the auth keys. -/
def takeAuth : List RecipientId → AppState →
    List (RecipientId × Option MailboxAuth) × AppState
  | [], st => ([], st)
  | k :: ks, st =>
    let st := { st with dirtyAuth := st.dirtyAuth.erase k }
    let val := st.mailboxAuth.get k
    let r := takeAuth ks st
    ((k, val) :: r.1, r.2)

/-- The collecting loop of `flush_dirty_meta` over the bundle keys. -/
def takeBundles : List String → AppState → List (String × Option HostedBundle) × AppState
  | [], st => ([], st)
  | k :: ks, st =>
    let st := { st with dirtyBundles := st.dirtyBundles.erase k }
    let val := st.bundles.get k
    let r := takeBundles ks st
    ((k, val) :: r.1, r.2)

/-- `flush_dirty_meta`; `fa` and `fb` are the failures of its two batches. -/
def flushDirtyMeta (fa fb : Faults) (st : AppState) : Except DbError Unit × AppState :=
  let (authBatch, st) := takeAuth st.dirtyAuth.keys st
  match st.tables.flushAuth authBatch fa with
  | (.error e, t) => (.error e, { st with tables := t })
  | (.ok (), t) =>
    let st := { st with tables := t }
    let (bundleBatch, st) := takeBundles st.dirtyBundles.keys st
    match st.tables.flushBundles bundleBatch fb with
    | (.error e, t) => (.error e, { st with tables := t })
    | (.ok (), t) => (.ok (), { st with tables := t })

/-! ## Mailboxes, rates and bundles -/

/-- `reserve_mailbox_slot`: whether a slot was taken. -/
def reserveMailboxSlot (st : AppState) : Bool × AppState :=
  if maxMailboxes ≤ st.mailboxCount then (false, st)
  else (true, { st with mailboxCount := st.mailboxCount + 1 })

/-- `allow_dest_send` at clock `now`. -/
def allowDestSend (now : Nat) (toId : RecipientId) (st : AppState) : Bool × AppState :=
  let entry := (st.sendRate.get toId).getD (now, 0)
  if rateWindowMs < now - entry.1 then
    (true, { st with sendRate := st.sendRate.insert toId (now, 1) })
  else if maxSendsPerDestPerWindow ≤ entry.2 then
    (false, { st with sendRate := st.sendRate.insert toId entry })
  else (true, { st with sendRate := st.sendRate.insert toId (entry.1, entry.2 + 1) })

/-- Does `prune_expired_bundles` scan at clock `now`? -/
def pruneDue (now last : Nat) : Bool :=
  !(decide (now - last < bundlePruneMinIntervalMs) && decide (last ≠ 0))

/-- The scan of `prune_expired_bundles`: expired ids with their ciphertext lengths. -/
def expiredBundles (now : Nat) (st : AppState) : List (String × Nat) :=
  (st.bundles.entries.filter fun e => decide (e.2.expiresAtMs ≤ now)).map
    fun e => (e.1, len e.2.ciphertext)

def subBundleBytes (st : AppState) (n : Nat) : AppState :=
  { st with totalBundleBytes := atomicSubSaturating st.totalBundleBytes n }

/-- Is this mailbox idle at clock `now`? -/
def idle (now : Nat) (auth : MailboxAuth) : Bool :=
  decide (mailboxIdleTtlMs < now - auth.lastActiveMs)

/-- The candidate scan of `gc_idle_mailboxes`. -/
def gcCandidates (now : Nat) (st : AppState) : List RecipientId :=
  (st.mailboxAuth.entries.filter fun e => idle now e.2).map Prod.fst

/-- The `remove_if` of `gc_idle_mailboxes`: whether the mailbox was collected. -/
def collectIdle (now : Nat) (rid : RecipientId) (st : AppState) : Bool × AppState :=
  match st.mailboxAuth.get rid with
  | some auth =>
    if idle now auth && !st.online.contains rid then
      (true, { st with mailboxAuth := st.mailboxAuth.erase rid })
    else (false, st)
  | none => (false, st)

/-! ## A state to run on -/

def sampleLimits : FileConfig :=
  { maxFileBytes := 8, maxTotalFileBytes := 16, fileTtlMs := 1000, maxTransfers := 2
    maxChunks := 4 }

/-- A relay over empty stores. -/
def sampleState : AppState :=
  ofLoaded 0 [] [] ⟨OrdMap.empty, OrdMap.empty⟩ (QueueStore.ofTable OrdMap.empty)
    (FileStore.ofTables sampleLimits ⟨OrdMap.empty, OrdMap.empty⟩) sampleLimits ""

def sampleRid : RecipientId := "mbx_alice_00000000000000000000000001"

end AppState

end AxenoRelay
