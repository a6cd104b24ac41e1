/-
  `load_disk_state` on files that may be missing, unreadable or not text.

  `Startup.Basic` follows a start whose files can be read. Here the two files are bytes and
  every read has an outcome of its own. `relay_encryption_key` falls through to generating
  a secret whenever the read of `relay-key` gives no text with something in it, also when
  the state file holds keys under a secret that exists. A failed load leaves the files as
  they were just if that does not happen (`load_intact_iff`).
-/
import AxenoRelay.Startup.Basic

namespace AxenoRelay

/-- The two files of the data directory. -/
structure DataDir where
  stateFile : Option (List UInt8)
  keyFile : Option (List UInt8)
  deriving DecidableEq

/-- The outcomes of the file operations and of `getrandom`. `written` is how many bytes
    `write_all` gets to write before it would fail. -/
structure LoadEvent where
  stat : Bool
  readState : Bool
  readKey : Bool
  raw : Option (Vector UInt8 32)
  opens : Bool
  written : Nat
  syncs : Bool

/-- `fs::read_to_string`, if the read itself succeeds. -/
def readToString (readable : Bool) (file : Option (List UInt8)) : Option String :=
  match file with
  | none => none
  | some data => if readable then String.fromUTF8? ⟨data.toArray⟩ else none

/-- `relay_encryption_key`: the secret, if there is no error, and the directory. -/
def relayEncryptionKey (env : SecretEnv) (e : LoadEvent) (dir : DataDir) :
    Option String × DataDir :=
  match lookupKey env (readToString e.readKey dir.keyFile) with
  | .found secret => (some secret, dir)
  | .broken => (none, dir)
  | .absent =>
    match e.raw with
    | none => (none, dir)
    | some raw =>
      let secret := hexEncode raw.toList
      if !e.opens then (none, dir)
      else
        let dir := { dir with keyFile := some ((bytes secret).take e.written) }
        if e.written < (bytes secret).length then (none, dir)
        else if e.syncs then (some secret, dir)
        else (none, dir)

/-- `load_disk_state`: the state, if there is no error, and the directory. -/
def loadDiskState {U : Type} (C : KeyCrates) (fromSlice : List UInt8 → Option (DiskState U))
    (env : SecretEnv) (e : LoadEvent) (dir : DataDir) : Option (DiskState U) × DataDir :=
  match dir.stateFile with
  | none => (some .default, dir)
  | some raw =>
    -- `exists` is false of a file it cannot look at
    if !e.stat then (some .default, dir)
    else if !e.readState then (none, dir)
    else
      match fromSlice raw with
      | none => (none, dir)
      | some state =>
        match state.encryptedCrypto with
        | none => (some state, dir)
        | some blob =>
          match relayEncryptionKey env e dir with
          | (none, dir) => (none, dir)
          | (some envKey, dir) =>
            match C.decrypt envKey blob with
            | none => (none, dir)
            | some crypto => (some { state with crypto := some crypto }, dir)

/-- Of text files that can be read, the lookup is the one of a start. -/
theorem lookupKey_of_text (env : SecretEnv) (keyFile : Option String) :
    lookupKey env (readToString true (keyFile.map bytes)) = lookupKey env keyFile := by
  cases keyFile with
  | none => rfl
  | some text =>
    have hbytes : (⟨(bytes text).toArray⟩ : ByteArray) = text.toByteArray := by
      rw [bytes, Array.toArray_toList]
    have hread : readToString true ((some text).map bytes) = some text := by
      unfold readToString
      rw [Option.map_some]
      dsimp only
      rw [if_pos rfl, hbytes, String.fromUTF8?, dif_pos text.isValidUTF8]
      rfl
    rw [hread]

/-! ## Generating a secret -/

/-- The call generates a secret and gets to write it. -/
def Generates (env : SecretEnv) (e : LoadEvent) (dir : DataDir) (raw : Vector UInt8 32) : Prop :=
  lookupKey env (readToString e.readKey dir.keyFile) = .absent ∧ e.raw = some raw ∧ e.opens = true

/-- The directory after a secret was generated. -/
def generated (e : LoadEvent) (dir : DataDir) (raw : Vector UInt8 32) : DataDir :=
  { dir with keyFile := some ((bytes (hexEncode raw.toList)).take e.written) }

/-- Was all of the secret written, and synced? -/
def WrittenOut (e : LoadEvent) (raw : Vector UInt8 32) : Prop :=
  (bytes (hexEncode raw.toList)).length ≤ e.written ∧ e.syncs = true

theorem relayEncryptionKey_generates {env : SecretEnv} {e : LoadEvent} {dir : DataDir}
    {raw : Vector UInt8 32} (h : Generates env e dir raw) :
    (relayEncryptionKey env e dir).2 = generated e dir raw ∧
      ∀ secret, (relayEncryptionKey env e dir).1 = some secret ↔
        WrittenOut e raw ∧ secret = hexEncode raw.toList := by
  obtain ⟨hlook, hraw, hopen⟩ := h
  unfold relayEncryptionKey generated WrittenOut
  rw [hlook, hraw, hopen]
  simp only [Bool.not_true, Bool.false_eq_true, if_false]
  split_ifs with hshort hsync
  · refine ⟨rfl, fun secret => iff_of_false nofun ?_⟩
    rintro ⟨⟨hlong, -⟩, -⟩
    omega
  · refine ⟨rfl, fun secret => ?_⟩
    rw [Option.some_inj, eq_comm]
    exact (and_iff_right ⟨Nat.le_of_not_lt hshort, hsync⟩).symm
  · refine ⟨rfl, fun secret => iff_of_false nofun ?_⟩
    rintro ⟨⟨-, htrue⟩, -⟩
    exact hsync htrue

theorem relayEncryptionKey_intact {env : SecretEnv} {e : LoadEvent} {dir : DataDir}
    (h : ∀ raw, ¬Generates env e dir raw) : (relayEncryptionKey env e dir).2 = dir := by
  unfold relayEncryptionKey
  cases hlook : lookupKey env (readToString e.readKey dir.keyFile) with
  | found secret => rfl
  | broken => rfl
  | absent =>
    cases hraw : e.raw with
    | none => rfl
    | some raw =>
      have hopen : e.opens = false := by
        by_contra hne
        exact h raw ⟨hlook, hraw, Bool.eq_true_of_not_eq_false hne⟩
      dsimp only
      rw [hopen]
      rfl

/-! ## A failed load -/

section

variable {U : Type}

/-- The state file holds keys under a secret. -/
def HoldsKeys (fromSlice : List UInt8 → Option (DiskState U)) (e : LoadEvent) (dir : DataDir)
    (state : DiskState U) (blob : EncryptedCryptoBlob) : Prop :=
  e.stat = true ∧ e.readState = true ∧ dir.stateFile.bind fromSlice = some state ∧
    state.encryptedCrypto = some blob

/-- The load generates a secret that the keys on disk are not under, and writes over
    `relay-key`. -/
def Overwrites (C : KeyCrates) (fromSlice : List UInt8 → Option (DiskState U)) (env : SecretEnv)
    (e : LoadEvent) (dir : DataDir) : Prop :=
  ∃ state blob raw, HoldsKeys fromSlice e dir state blob ∧ Generates env e dir raw ∧
    generated e dir raw ≠ dir ∧ (WrittenOut e raw → C.decrypt (hexEncode raw.toList) blob = none)

variable (C : KeyCrates) (fromSlice : List UInt8 → Option (DiskState U)) (env : SecretEnv)
  (e : LoadEvent) (dir : DataDir)

theorem loadDiskState_keys {state : DiskState U} {blob : EncryptedCryptoBlob}
    (h : HoldsKeys fromSlice e dir state blob) :
    (loadDiskState C fromSlice env e dir).2 = (relayEncryptionKey env e dir).2 ∧
      ((loadDiskState C fromSlice env e dir).1 = none ↔
        ∀ secret, (relayEncryptionKey env e dir).1 = some secret → C.decrypt secret blob = none) := by
  obtain ⟨hstat, hread, hparse, hblob⟩ := h
  obtain ⟨raw, hraw, hparse⟩ := Option.bind_eq_some_iff.mp hparse
  simp only [loadDiskState, hraw, hstat, hread, hparse, hblob, Bool.not_true, Bool.false_eq_true,
    if_false]
  rcases relayEncryptionKey env e dir with ⟨_ | secret, dir'⟩
  · exact ⟨rfl, iff_of_true rfl nofun⟩
  · dsimp only
    cases hdec : C.decrypt secret blob with
    | none => exact ⟨rfl, iff_of_true rfl fun s hs => Option.some.inj hs ▸ hdec⟩
    | some crypto =>
      refine ⟨rfl, iff_of_false nofun fun hall => ?_⟩
      rw [hall secret rfl] at hdec
      cases hdec

/-- Without keys in the state file no secret is asked for. -/
theorem loadDiskState_intact (h : ∀ state blob, ¬HoldsKeys fromSlice e dir state blob) :
    (loadDiskState C fromSlice env e dir).2 = dir := by
  unfold loadDiskState
  cases hraw : dir.stateFile with
  | none => rfl
  | some raw =>
    dsimp only
    split_ifs with hstat hread
    · rfl
    · rfl
    · cases hparse : fromSlice raw with
      | none => rfl
      | some state =>
        dsimp only
        cases hblob : state.encryptedCrypto with
        | none => rfl
        | some blob =>
          refine absurd ⟨?_, ?_, ?_, hblob⟩ (h state blob)
          · simpa using hstat
          · simpa using hread
          · rw [hraw, Option.bind_some, hparse]

/-- **A failed load leaves the files as they were**, exactly if it does not write a new
    secret over `relay-key`. -/
theorem load_intact_iff :
    ((loadDiskState C fromSlice env e dir).1 = none →
        (loadDiskState C fromSlice env e dir).2 = dir) ↔ ¬Overwrites C fromSlice env e dir := by
  by_cases hkeys : ∃ state blob, HoldsKeys fromSlice e dir state blob
  · obtain ⟨state, blob, hkeys⟩ := hkeys
    obtain ⟨hdir, hfail⟩ := loadDiskState_keys C fromSlice env e dir hkeys
    by_cases hgen : ∃ raw, Generates env e dir raw
    · obtain ⟨raw, hgen⟩ := hgen
      obtain ⟨hnew, hsecret⟩ := relayEncryptionKey_generates hgen
      -- the new secret is stored, or the call fails
      have hfail' : (loadDiskState C fromSlice env e dir).1 = none ↔
          (WrittenOut e raw → C.decrypt (hexEncode raw.toList) blob = none) := by
        rw [hfail]
        constructor
        · exact fun hall hstored => hall _ ((hsecret _).mpr ⟨hstored, rfl⟩)
        · intro himp secret hs
          obtain ⟨hstored, rfl⟩ := (hsecret secret).mp hs
          exact himp hstored
      rw [hdir, hnew, hfail']
      constructor
      · rintro himp ⟨state', blob', raw', ⟨_, _, hparse, hblob⟩, ⟨_, hraw, _⟩, hne, hdec⟩
        obtain rfl : raw' = raw := Option.some.inj (hraw.symm.trans hgen.2.1)
        obtain rfl : state' = state := Option.some.inj (hparse.symm.trans hkeys.2.2.1)
        obtain rfl : blob' = blob := Option.some.inj (hblob.symm.trans hkeys.2.2.2)
        exact hne (himp hdec)
      · intro hno hdec
        by_contra hne
        exact hno ⟨state, blob, raw, hkeys, hgen, hne, hdec⟩
    · refine iff_of_true (fun _ => ?_) ?_
      · rw [hdir]
        exact relayEncryptionKey_intact fun raw hraw => hgen ⟨raw, hraw⟩
      · rintro ⟨_, _, raw, _, hraw, _⟩
        exact hgen ⟨raw, hraw⟩
  · refine iff_of_true (fun _ => ?_) ?_
    · exact loadDiskState_intact C fromSlice env e dir fun s b h => hkeys ⟨s, b, h⟩
    · rintro ⟨s, b, _, h, _⟩
      exact hkeys ⟨s, b, h⟩

end

/-- Keys under the secret "intact". -/
def intactCrates : KeyCrates where
  encrypt _ _ _ _ := ""
  decrypt secret _ := if secret = "intact" then some ⟨[1], [1], [2], [2]⟩ else none
  parses _ := true

/-- A directory with keys in the state file, and the secret in `relay-key`. -/
def keyedDir : DataDir := ⟨some [123, 125], some (bytes "intact")⟩

/-- Everything works, but `relay-key` cannot be read at the moment. -/
def unreadableKey : LoadEvent :=
  { stat := true, readState := true, readKey := false, raw := some (Vector.replicate 32 7)
    opens := true, written := 64, syncs := true }

/-- One failed read of `relay-key`: the load fails, and the file is overwritten. -/
theorem failed_load_destroys_key :
    ¬∀ (C : KeyCrates) (fromSlice : List UInt8 → Option (DiskState SampleUuid)) (env : SecretEnv)
      (e : LoadEvent) (dir : DataDir), (loadDiskState C fromSlice env e dir).1 = none →
        (loadDiskState C fromSlice env e dir).2 = dir := by
  intro hall
  have h := hall intactCrates (fun _ => some (persistedState ⟨"", "", ""⟩)) ⟨none, none, fun _ => none⟩
    unreadableKey keyedDir (by decide +kernel)
  exact absurd h (by decide +kernel)

end AxenoRelay
