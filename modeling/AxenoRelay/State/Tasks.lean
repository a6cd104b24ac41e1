/-
  The operations of `state.rs` that take several atomic steps.

  `PruneTask`, `FlushTask` and `GcTask` are `prune_expired_bundles`,
  `flush_dirty_meta` and `gc_idle_mailboxes` between two of their steps: one map
  operation, one counter update or one store transaction each. A scan of a map is
  one step; its order is free, so the next key to look at is picked by the event.
-/
import AxenoRelay.State.Basic
import AxenoRelay.QueueStore.Tasks

namespace AxenoRelay

/-- Take the entry that the event picks; `none` if it picks none. -/
def pickFrom {α : Type} (e : StoreEvent) (l : List α) : Option (α × List α) :=
  l[e.pick]?.map fun a => (a, l.eraseIdx e.pick)

inductive PruneTask where
  | check
  | stamp (now : Nat)
  | scan (now : Nat)
  | remove (rest : List (String × Nat)) (freed : Nat)
  | mark (id : String) (rest : List (String × Nat)) (freed : Nat)
  | sub (freed : Nat)
  | done
  deriving DecidableEq, Repr

namespace PruneTask

def step (e : StoreEvent) : PruneTask → AppState → Option (PruneTask × AppState)
  | check, st =>
    some (if AppState.pruneDue e.now st.lastBundlePruneMs then stamp e.now else done, st)
  | stamp now, st => some (scan now, { st with lastBundlePruneMs := now })
  | scan now, st =>
    some (if (AppState.expiredBundles now st).isEmpty then done
      else remove (AppState.expiredBundles now st) 0, st)
  | remove rest freed, st =>
    if rest.isEmpty then some (sub freed, st)
    else
      match pickFrom e rest with
      | none => none
      | some ((id, n), rest) =>
        if (st.bundles.get id).isSome then
          some (mark id rest (freed + n), { st with bundles := st.bundles.erase id })
        else some (remove rest freed, st)
  | mark id rest freed, st => some (remove rest freed, st.markBundleDirty id)
  | sub freed, st => some (done, st.subBundleBytes freed)
  | done, _ => none

end PruneTask

/-- The repeating flush task of `main.rs`: it looks whether something is dirty, and runs
    `flush_dirty_meta` if so. -/
inductive FlushTask where
  | lookAuth
  | lookBundles
  | authKeys
  | authTake (rest : List RecipientId) (batch : List (RecipientId × Option MailboxAuth))
  | authRead (k : RecipientId) (rest : List RecipientId)
      (batch : List (RecipientId × Option MailboxAuth))
  | authTxn (batch : List (RecipientId × Option MailboxAuth))
  | bundleKeys
  | bundleTake (rest : List String) (batch : List (String × Option HostedBundle))
  | bundleRead (k : String) (rest : List String) (batch : List (String × Option HostedBundle))
  | bundleTxn (batch : List (String × Option HostedBundle))
  deriving DecidableEq, Repr

namespace FlushTask

def step (e : StoreEvent) : FlushTask → AppState → Option (FlushTask × AppState)
  | lookAuth, st => some (if st.dirtyAuth.entries.isEmpty then lookBundles else authKeys, st)
  | lookBundles, st => some (if st.dirtyBundles.entries.isEmpty then lookAuth else authKeys, st)
  | authKeys, st => some (authTake st.dirtyAuth.keys [], st)
  | authTake rest batch, st =>
    if rest.isEmpty then some (authTxn batch, st)
    else
      match pickFrom e rest with
      | none => none
      | some (k, rest) =>
        some (authRead k rest batch, { st with dirtyAuth := st.dirtyAuth.erase k })
  | authRead k rest batch, st => some (authTake rest (batch ++ [(k, st.mailboxAuth.get k)]), st)
  | authTxn batch, st =>
    match st.tables.flushAuth batch e.faults with
    | (.error _, t) => some (lookAuth, { st with tables := t })
    | (.ok (), t) => some (bundleKeys, { st with tables := t })
  | bundleKeys, st => some (bundleTake st.dirtyBundles.keys [], st)
  | bundleTake rest batch, st =>
    if rest.isEmpty then some (bundleTxn batch, st)
    else
      match pickFrom e rest with
      | none => none
      | some (k, rest) =>
        some (bundleRead k rest batch, { st with dirtyBundles := st.dirtyBundles.erase k })
  | bundleRead k rest batch, st => some (bundleTake rest (batch ++ [(k, st.bundles.get k)]), st)
  | bundleTxn batch, st =>
    some (lookAuth, { st with tables := (st.tables.flushBundles batch e.faults).2 })

end FlushTask

inductive GcTask (U : Type) where
  | scan
  | empty (now : Nat) (rest stale : List RecipientId)
  | offline (now : Nat) (rid : RecipientId) (queueEmpty : Bool) (rest stale : List RecipientId)
  | collect (now : Nat) (stale : List RecipientId)
  | count (now : Nat) (rid : RecipientId) (stale : List RecipientId)
  | mark (now : Nat) (rid : RecipientId) (stale : List RecipientId)
  | purge (now : Nat) (rid : RecipientId) (q : QueueTask U) (stale : List RecipientId)
  | rate (now : Nat) (rid : RecipientId) (stale : List RecipientId)
  | done

namespace GcTask

variable {U : Type} [UuidText U]

def step (e : StoreEvent) : GcTask U → AppState → Option (GcTask U × AppState)
  | scan, st => some (empty e.now (AppState.gcCandidates e.now st) [], st)
  | empty now rest stale, st =>
    if rest.isEmpty then some (collect now stale, st)
    else
      match pickFrom e rest with
      | none => none
      | some (rid, rest) =>
        -- `is_empty(rid).unwrap_or(true)`
        let queueEmpty :=
          match ((QueueStore.isEmpty rid).commit e.faults st.queues.envelopes).1 with
          | .ok b => b
          | .error _ => true
        some (offline now rid queueEmpty rest stale, st)
  | offline now rid queueEmpty rest stale, st =>
    some (empty now rest
      (if queueEmpty && !st.online.contains rid then stale ++ [rid] else stale), st)
  | collect _ [], st => some (done, st)
  | collect now (rid :: stale), st =>
    match st.collectIdle now rid with
    | (true, st) => some (count now rid stale, st)
    | (false, st) => some (collect now stale, st)
  | count now rid stale, st =>
    some (mark now rid stale, { st with mailboxCount := fetchSubOne st.mailboxCount })
  | mark now rid stale, st => some (purge now rid (.purgeTxn rid) stale, st.markAuthDirty rid)
  | purge now rid (.done _) stale, st => some (rate now rid stale, st)
  | purge now rid q stale, st =>
    (q.step e st.queues).map fun r => (purge now rid r.1 stale, { st with queues := r.2 })
  | rate now rid stale, st =>
    some (collect now stale, { st with sendRate := st.sendRate.erase rid })
  | done, _ => none

end GcTask

end AxenoRelay
