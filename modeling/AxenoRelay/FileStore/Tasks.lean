/-
  The calls of the file store as tasks.

  A `FileTask` is a call between two of its atomic steps. `FileTask.step` runs the
  next piece of `FileStore.Basic`. A sweep deletes the ids it found one after the
  other, so the steps of a delete carry what comes after it (`After`).

  `FileWorld` adds two things no code reads: for every chunk on disk the upload that
  wrote it, and every chunk that a fetch has returned with the upload its data is
  from. `fileMachine` interleaves any number of calls.
-/
import AxenoRelay.Lib.Interleave
import AxenoRelay.FileStore.Basic

namespace AxenoRelay

open Interleave

/-- What a finished call returned. -/
inductive FileResult where
  | stored (r : Except FileReject StoredChunk)
  | fetched (r : Except FileReject FetchedChunk)
  | deleted (r : Except DbError Bool)
  | swept (r : Except DbError Nat)

/-- What follows a delete: nothing, or the rest of a sweep. -/
inductive After where
  | ret
  | sweep (rest : List String) (removed : Nat)
  deriving DecidableEq, Repr

inductive FileTask where
  | storeClaim (u : ChunkUpload)
  | storeSlot (u : ChunkUpload)
  | storeWrite (u : ChunkUpload) (creating : Bool)
  | storeFreeSlot (u : ChunkUpload) (e : FileReject)
  | storeUnclaim (u : ChunkUpload) (e : FileReject)
  | storeRelease (u : ChunkUpload) (w : FileStore.Written)
  | storeMirror (u : ChunkUpload) (w : FileStore.Written)
  | fetchShape (transferId : String) (chunkIndex : Nat)
  | fetchRead (transferId : String) (chunkIndex : Nat) (m : FileMeta)
  | delTxn (transferId : String) (k : After)
  | delUncache (transferId : String) (stored : Nat) (k : After)
  | delSlot (transferId : String) (stored : Nat) (k : After)
  | delBytes (transferId : String) (stored : Nat) (k : After)
  | sweepScan
  | sweepNext (rest : List String) (removed : Nat)
  | done (r : FileResult)

namespace After

/-- A delete failed. -/
def failed (e : DbError) : After → FileTask
  | ret => .done (.deleted (.error e))
  | sweep _ _ => .done (.swept (.error e))

/-- A delete returned whether the transfer existed. -/
def returned (existed : Bool) : After → FileTask
  | ret => .done (.deleted (.ok existed))
  | sweep rest removed => .sweepNext rest (if existed then removed + 1 else removed)

end After

namespace FileTask

open FileStore

def step (e : StoreEvent) : FileTask → FileStore → Option (FileTask × FileStore)
  | storeClaim u, st =>
    match checkShape st.config u with
    | .error r => some (done (.stored (.error r)), st)
    | .ok () =>
      match claim e.now u st with
      | (.error r, st) => some (done (.stored (.error r)), st)
      | (.ok true, st) => some (storeSlot u, st)
      | (.ok false, st) => some (storeWrite u false, st)
  | storeSlot u, st =>
    match st.reserveSlot with
    | .error r => some (storeUnclaim u r, st)
    | .ok st => some (storeWrite u true, st)
  | storeWrite u creating, st =>
    match writeTxn e.now e.faults creating u st with
    | (.error r, st) =>
      some (if creating then storeFreeSlot u r else done (.stored (.error r)), st)
    | (.ok w, st) => some (if 0 < w.release then storeRelease u w else storeMirror u w, st)
  | storeFreeSlot u r, st => some (storeUnclaim u r, st.releaseSlot)
  | storeUnclaim u r, st => some (done (.stored (.error r)), st.uncache u.transferId)
  | storeRelease u w, st => some (storeMirror u w, st.releaseBytes w.release)
  | storeMirror u w, st =>
    some (done (.stored (.ok ⟨w.receivedChunks, u.totalChunks⟩)), mirror u w st)
  | fetchShape id i, st =>
    match FileStore.fetchShape id i st with
    | .error r => some (done (.fetched (.error r)), st)
    | .ok m => some (fetchRead id i m, st)
  | fetchRead id i m, st =>
    some (done (.fetched ((fetchTxn id i m).commit e.faults st.tables).1), st)
  | delTxn id k, st =>
    match (deleteTxn e.lost id).commit e.faults st.tables with
    | (.error r, _) => some (k.failed r, st)
    | (.ok none, t) => some (k.returned false, { st with tables := t })
    | (.ok (some stored), t) => some (delUncache id stored k, { st with tables := t })
  | delUncache id stored k, st => some (delSlot id stored k, st.uncache id)
  | delSlot id stored k, st => some (delBytes id stored k, st.releaseSlot)
  | delBytes _ stored k, st => some (k.returned true, st.releaseBytes stored)
  | sweepScan, st => some (sweepNext (expiredIds e.now st) 0, st)
  | sweepNext rest removed, st =>
    if rest.isEmpty then some (done (.swept (.ok removed)), st)
    else
      match rest[e.pick]? with
      | none => none
      | some id => some (delTxn id (.sweep (rest.eraseIdx e.pick) removed), st)
  | done _, _ => none

/-- Is this the first step of a call? -/
def starts : FileTask → Bool
  | storeClaim _ | fetchShape _ _ | delTxn _ .ret | sweepScan => true
  | _ => false

def finished : FileTask → Bool
  | done _ => true
  | _ => false

/-- The transfer a call is about. -/
def transferId : FileTask → Option String
  | storeClaim u | storeSlot u | storeWrite u _ | storeFreeSlot u _ | storeUnclaim u _
  | storeRelease u _ | storeMirror u _ => some u.transferId
  | fetchShape id _ | fetchRead id _ _ | delTxn id _ | delUncache id _ _ | delSlot id _ _
  | delBytes id _ _ => some id
  | sweepScan | sweepNext _ _ | done _ => none

end FileTask

/-! ## The machine -/

/-- The store, the upload behind every chunk on disk, and the fetches so far. -/
structure FileWorld where
  store : FileStore
  origin : OrdMap String ChunkUpload
  fetches : List (FetchedChunk × Option ChunkUpload)

inductive FileMove where
  | start (t : FileTask)
  | run (e : StoreEvent)

abbrev FileConfigs := Config FileWorld FileTask

/-- The uploads behind the chunks after a step of `t` that led to `t'`. -/
def originAfter (t t' : FileTask) (origin : OrdMap String ChunkUpload) :
    OrdMap String ChunkUpload :=
  match t, t' with
  | .storeWrite u _, .storeRelease _ _ | .storeWrite u _, .storeMirror _ _ =>
    origin.insert (chunkKey u.transferId u.chunkIndex) u
  | _, _ => origin

/-- The fetches after a step of `t` that led to `t'`. -/
def fetchesAfter (t t' : FileTask) (w : FileWorld) : List (FetchedChunk × Option ChunkUpload) :=
  match t, t' with
  | .fetchRead id i _, .done (.fetched (.ok f)) =>
    (f, w.origin.get (chunkKey id i)) :: w.fetches
  | _, _ => w.fetches

/-- A call may start if its transfer id is one the relay accepts. -/
def FileTask.Admitted (t : FileTask) : Prop :=
  t.starts = true ∧ ∀ id ∈ t.transferId, validBundleId id = true

instance (t : FileTask) : Decidable t.Admitted := inferInstanceAs (Decidable (_ ∧ _))

def fileMachine : Machine FileWorld FileTask FileMove where
  spawn
    | .start t, w => if t.Admitted then some (t, w) else none
    | .run _, _ => none
  step
    | .run e, t, w => (t.step e w.store).map fun r =>
        (r.1, { store := r.2, origin := originAfter t r.1 w.origin, fetches := fetchesAfter t r.1 w })
    | .start _, _, _ => none
  env _ _ := none

end AxenoRelay
