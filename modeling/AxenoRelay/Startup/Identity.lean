/-
  The keys of the relay survive restarts.

  A process that is past `persist_crypto` has left a state file whose blob decrypts to its
  keys under the secret the host gives to every later process (`Pinned`): a configured
  secret does not change, and a generated one is on disk, complete, before the state file
  that depends on it is renamed into place (`Placed`). From then on `relay-key` is only
  read, and each later process either stops or carries the same keys (`identity_survives`).
-/
import AxenoRelay.Startup.Steps

namespace AxenoRelay

open Interleave

/-- AEAD decryption inverts encryption under the same secret, salt and nonce. -/
def KeyCrates.Inverts (C : KeyCrates) : Prop :=
  ∀ (e : StartEvent) (crypto : DiskCrypto) (secret : String),
    C.decrypt secret (encryptDiskCrypto C e crypto secret) = some crypto

/-- The keys of a process, once it is past `init_server_crypto`. -/
def Stage.keys {U : Type} : Stage U → Option DiskCrypto
  | .prune disk | .openQueues disk | .openMeta disk _ | .openFiles disk _ | .queues disk _ _
  | .auth disk _ | .bundles disk _ => disk.crypto
  | .resolve (.persist crypto _) | .keyOpen (.persist crypto _) _
  | .keyWrite (.persist crypto _) _ _ | .keySync (.persist crypto _) _ => some crypto
  | .encrypt crypto _ _ | .writeTmp _ crypto _ | .rename _ crypto _ | .done crypto _ => some crypto
  | _ => none

/-! ## A generated secret -/

theorem hexChar_mem (n : Nat) (hn : n < 16) :
    isWhitespace (hexChar n) = false := by
  interval_cases n <;> decide

theorem hexEncode_clean (bs : List UInt8) : ∀ c ∈ (hexEncode bs).toList, isWhitespace c = false := by
  intro c hc
  rw [hexEncode, String.toList_ofList, List.mem_flatMap] at hc
  obtain ⟨b, _, hcb⟩ := hc
  have hb : b.toNat < 256 := b.toNat_lt
  rcases List.mem_pair.mp hcb with rfl | rfl
  · exact hexChar_mem _ (by omega)
  · exact hexChar_mem _ (by omega)

theorem dropWhile_clean {l : List Char} (h : ∀ c ∈ l, isWhitespace c = false) :
    l.dropWhile isWhitespace = l := by
  cases l with
  | nil => rfl
  | cons c l => rw [List.dropWhile_cons_of_neg (by rw [h c List.mem_cons_self]; decide)]

/-- There is nothing to trim from a generated secret. -/
theorem trim_hexEncode (bs : List UInt8) : trim (hexEncode bs) = hexEncode bs := by
  have hclean := hexEncode_clean bs
  unfold trim
  rw [dropWhile_clean hclean, dropWhile_clean (by simpa using hclean), List.reverse_reverse,
    String.ofList_toList]

theorem hexEncode_ne_empty (raw : Vector UInt8 32) : hexEncode raw.toList ≠ "" := by
  intro h
  have hlen := congrArg (fun s => s.toList.length) h
  simp [hexEncode, List.length_flatMap] at hlen

/-- Once a generated secret is in `relay-key` it is the one every lookup finds. -/
theorem lookupKey_generated {env : SecretEnv} {old : Option String}
    (h : lookupKey env old = .absent) (raw : Vector UInt8 32) :
    lookupKey env (some (hexEncode raw.toList)) = .found (hexEncode raw.toList) := by
  unfold lookupKey at h ⊢
  cases hc : configuredKey env with
  | found secret =>
    rw [hc] at h
    cases h
  | broken =>
    rw [hc] at h
    cases h
  | absent =>
    dsimp only
    rw [trim_hexEncode, if_neg (hexEncode_ne_empty raw)]

/-! ## Up to the first state file -/

variable {U : Type} [UuidText U]

/-- The secret under which the state file in the making is encrypted is the one later lookups
    will find. -/
def Placed (C : KeyCrates) (env : SecretEnv) (h : Host U) : Stage U → Prop
  | .keyOpen _ secret | .keyWrite _ secret _ =>
    lookupKey env (some secret) = .found secret
  | .keySync _ secret => lookupKey env h.keyFile = .found secret
  | .decrypt _ _ secret | .encrypt _ _ secret => lookupKey env h.keyFile = .found secret
  | .writeTmp file crypto _ | .rename file crypto _ =>
    ∃ secret blob, lookupKey env h.keyFile = .found secret ∧ file.encryptedCrypto = some blob ∧
      C.decrypt secret blob = some crypto
  | .done crypto _ =>
    ∃ secret file blob, lookupKey env h.keyFile = .found secret ∧ h.stateFile = some file ∧
      file.encryptedCrypto = some blob ∧ C.decrypt secret blob = some crypto
  | _ => True

omit [UuidText U] in
theorem Placed.next {C : KeyCrates} {env : SecretEnv} {h : Host U} {secret : String}
    (hk : lookupKey env h.keyFile = .found secret) (p : Purpose U) :
    Placed C env h (p.next secret) := by
  cases p <;> exact hk

theorem placed_stepped {C : KeyCrates} (hC : C.Inverts) {env : SecretEnv} {e : StartEvent}
    {s s' : Stage U} {h h' : Host U} (hs : s.Stepped C env e h s' h') (hp : Placed C env h s) :
    Placed C env h' s' := by
  cases hs with
  | resolved p secret h hk => exact .next hk p
  | generate p h hk => exact lookupKey_generated hk e.raw
  | opened p secret h => exact hp
  | wrote p secret w n h => exact hp
  | wroteAll p secret w h => exact hp
  | synced p secret h => exact .next hp p
  | encrypted crypto st secret h => exact ⟨secret, _, hp, rfl, hC e crypto secret⟩
  | wroteTmp file crypto st h => exact hp
  | renamed file crypto st h =>
    obtain ⟨secret, blob, hk, hf, hd⟩ := hp
    exact ⟨secret, file, blob, hk, rfl, hf, hd⟩
  | _ => trivial

/-! ## From then on -/

/-- The process is allowed to be here on the way to running with the keys `K`. -/
def OnTheWay (C : KeyCrates) (K : DiskCrypto) (secret : String) : Stage U → Prop
  | .resolve (.load _ blob) => C.decrypt secret blob = some K
  | .decrypt _ blob secret' => secret' = secret ∧ C.decrypt secret blob = some K
  | .init disk | .prune disk | .openQueues disk | .openMeta disk _ | .openFiles disk _
  | .queues disk _ _ | .auth disk _ | .bundles disk _ => disk.crypto = some K
  | .resolve (.persist crypto _) => crypto = K
  | .keyOpen _ _ | .keyWrite _ _ _ | .keySync _ _ => False
  | .encrypt crypto _ secret' => crypto = K ∧ secret' = secret
  | .writeTmp f crypto _ | .rename f crypto _ => crypto = K ∧ ∃ blob,
    f.encryptedCrypto = some blob ∧ C.decrypt secret blob = some K
  | .done crypto _ => crypto = K
  | .load | .failed => True

/-- The state file decrypts to the keys `K` under the secret that lookups find, and the
    process carries no others. -/
structure Pinned (C : KeyCrates) (env : SecretEnv) (K : DiskCrypto) (secret : String)
    (h : Host U) (s : Stage U) : Prop where
  lookup : lookupKey env h.keyFile = .found secret
  file : ∃ f blob, h.stateFile = some f ∧ f.encryptedCrypto = some blob ∧
    C.decrypt secret blob = some K
  stage : OnTheWay C K secret s

omit [UuidText U] in
theorem OnTheWay.next {C : KeyCrates} {K : DiskCrypto} {secret : String} {p : Purpose U}
    (h : OnTheWay C K secret (.resolve p)) : OnTheWay C K secret (p.next secret) := by
  cases p with
  | load disk blob => exact ⟨rfl, h⟩
  | persist crypto st => exact ⟨h, rfl⟩

omit [UuidText U] in
theorem OnTheWay.keys {C : KeyCrates} {K K' : DiskCrypto} {secret : String} {s : Stage U}
    (h : OnTheWay C K secret s) (hk : s.keys = some K') : K' = K := by
  have hsome : ∀ {o : Option DiskCrypto}, o = some K → o = some K' → K' = K := by
    intro o h1 h2
    exact Option.some.inj (h2.symm.trans h1)
  cases s with
  | resolve p =>
    cases p with
    | load disk blob => cases hk
    | persist crypto st => exact hsome (congrArg some h) hk
  | keyOpen p secret' => cases h
  | keyWrite p secret' w => cases h
  | keySync p secret' => cases h
  | encrypt crypto st secret' => exact hsome (congrArg some h.1) hk
  | writeTmp f crypto st => exact hsome (congrArg some h.1) hk
  | rename f crypto st => exact hsome (congrArg some h.1) hk
  | done crypto st => exact hsome (congrArg some h) hk
  | load => cases hk
  | decrypt disk blob secret' => cases hk
  | init disk => cases hk
  | failed => cases hk
  | _ => exact hsome h hk

theorem Pinned.stepped {C : KeyCrates} (hC : C.Inverts) {env : SecretEnv} {K : DiskCrypto}
    {secret : String} {e : StartEvent} {s s' : Stage U} {h h' : Host U}
    (hp : Pinned C env K secret h s) (hs : s.Stepped C env e h s' h') :
    Pinned C env K secret h' s' := by
  obtain ⟨hlookup, hfile, hstage⟩ := hp
  have keep : ∀ {t : Stage U}, OnTheWay C K secret t → Pinned C env K secret h t :=
    fun ht => ⟨hlookup, hfile, ht⟩
  cases hs with
  | failed => exact keep trivial
  | loadNone h hnone =>
    obtain ⟨f, _, hf, _⟩ := hfile
    rw [hnone] at hf
    cases hf
  | loadPlain disk h hd he =>
    obtain ⟨f, blob, hf, hb, _⟩ := hfile
    rw [hd] at hf
    cases hf
    rw [he] at hb
    cases hb
  | loadSealed disk blob h hd he =>
    refine keep ?_
    obtain ⟨f, blob', hf, hb, hdec⟩ := hfile
    rw [hd] at hf
    cases hf
    rw [he] at hb
    cases hb
    exact hdec
  | resolved p secret' h hk =>
    rw [hlookup] at hk
    cases hk
    exact keep (OnTheWay.next hstage)
  | generate p h hk =>
    rw [hlookup] at hk
    cases hk
  | opened => cases hstage
  | wrote => cases hstage
  | wroteAll => cases hstage
  | synced => cases hstage
  | decrypted disk blob secret' crypto h hd =>
    obtain ⟨rfl, hdec⟩ := hstage
    rw [hdec] at hd
    exact keep hd.symm
  | kept disk saved h hc => exact keep hstage
  | generated disk h hc =>
    have hsome : disk.crypto = some K := hstage
    rw [hc] at hsome
    cases hsome
  | pruned | openedQueues | openedMeta | openedFiles | queuesDone => exact keep hstage
  | enqueue | authDone => exact ⟨hlookup, hfile, hstage⟩
  | bundlesDone disk crypto st h hc =>
    have hsome : disk.crypto = some K := hstage
    rw [hc] at hsome
    exact ⟨hlookup, hfile, Option.some.inj hsome⟩
  | encrypted crypto st secret' h =>
    obtain ⟨rfl, rfl⟩ := hstage
    exact keep ⟨rfl, _, rfl, hC e crypto secret'⟩
  | wroteTmp => exact keep hstage
  | renamed f crypto st h =>
    obtain ⟨rfl, blob, hb, hd⟩ := hstage
    exact ⟨hlookup, ⟨f, blob, rfl, hb, hd⟩, rfl⟩

/-! ## Every state file written -/

/-- What `persist_crypto` writes: no plaintext keys, and no legacy data. -/
def NoPlaintext (f : DiskState U) : Prop :=
  f.crypto = none ∧ f.encryptedCrypto.isSome = true ∧ f.mailboxAuth = [] ∧ f.queues = [] ∧
    f.bundles = []

/-- The file a process is about to rename has no plaintext keys. -/
def WritesNoPlaintext : Stage U → Prop
  | .writeTmp f _ _ | .rename f _ _ => NoPlaintext f
  | _ => True

/-- A step leaves the state file or puts one without plaintext keys in its place. -/
theorem stateFile_stepped {C : KeyCrates} {env : SecretEnv} {e : StartEvent} {s s' : Stage U}
    {h h' : Host U} (hs : s.Stepped C env e h s' h') (hw : WritesNoPlaintext s) :
    WritesNoPlaintext s' ∧
      (h'.stateFile = h.stateFile ∨ ∃ f, h'.stateFile = some f ∧ NoPlaintext f) := by
  cases hs with
  | encrypted => exact ⟨⟨rfl, rfl, rfl, rfl, rfl⟩, Or.inl rfl⟩
  | wroteTmp => exact ⟨hw, Or.inl rfl⟩
  | renamed f => exact ⟨trivial, Or.inr ⟨f, rfl, hw⟩⟩
  | resolved p => cases p <;> exact ⟨trivial, Or.inl rfl⟩
  | synced p => cases p <;> exact ⟨trivial, Or.inl rfl⟩
  | _ => exact ⟨trivial, Or.inl rfl⟩

/-! ## Sequences of starts -/

/-- **The identity of the relay.** On any host, after any starts and crashes: a state file that
    is not the first one holds no plaintext keys, and once a process has reached the end of
    `persist_crypto` with keys `K`, every later process that gets past `init_server_crypto`
    has the keys `K`. -/
theorem identity_survives {C : KeyCrates} (hC : C.Inverts) {env : SecretEnv} {h₀ : Host U}
    {c : BootConfig U} (r : Run (bootMachine U C env) anyMove (firstBoot h₀) c) :
    (c.shared.host.stateFile = h₀.stateFile ∨
        ∃ f, c.shared.host.stateFile = some f ∧ NoPlaintext f) ∧
      ∀ K st, c.shared.stage = .done K st →
        ∀ c', Run (bootMachine U C env) anyMove c c' →
          ∀ K', c'.shared.stage.keys = some K' → K' = K := by
  constructor
  · have hfiles : WritesNoPlaintext c.shared.stage ∧ (c.shared.host.stateFile = h₀.stateFile ∨
        ∃ f, c.shared.host.stateFile = some f ∧ NoPlaintext f) := by
      refine r.invariant (P := fun c => WritesNoPlaintext c.shared.stage ∧
        (c.shared.host.stateFile = h₀.stateFile ∨
          ∃ f, c.shared.host.stateFile = some f ∧ NoPlaintext f)) ?_ ?_
      · exact ⟨trivial, Or.inl rfl⟩
      · intro c m c' ⟨hw, hf⟩ _ hn
        rcases boot_next hn with ⟨rfl, rfl⟩ | ⟨e, s', h', rfl, hs, rfl⟩
        · exact ⟨trivial, hf⟩
        · obtain ⟨hw', hf'⟩ := stateFile_stepped (Stage.stepped_of_step hs) hw
          refine ⟨hw', ?_⟩
          rcases hf' with hsame | hnew
          · rw [hsame]
            exact hf
          · exact Or.inr hnew
    exact hfiles.2
  · intro K st hdone c' r' K' hkeys
    have hplaced : Placed C env c.shared.host c.shared.stage := by
      refine r.invariant (P := fun c => Placed C env c.shared.host c.shared.stage) ?_ ?_
      · exact trivial
      · intro c m c' hp _ hn
        rcases boot_next hn with ⟨rfl, rfl⟩ | ⟨e, s', h', rfl, hs, rfl⟩
        · trivial
        · exact placed_stepped hC (Stage.stepped_of_step hs) hp
    have hpin : ∃ secret, Pinned C env K secret c.shared.host c.shared.stage := by
      rw [hdone] at hplaced ⊢
      obtain ⟨secret, f, blob, hk, hf, hb, hd⟩ := hplaced
      exact ⟨secret, hk, ⟨f, blob, hf, hb, hd⟩, rfl⟩
    obtain ⟨secret, hpin⟩ := hpin
    have hlater : Pinned C env K secret c'.shared.host c'.shared.stage := by
      refine r'.invariant (P := fun c => Pinned C env K secret c.shared.host c.shared.stage)
        hpin ?_
      intro c m c' hp _ hn
      rcases boot_next hn with ⟨rfl, rfl⟩ | ⟨e, s', h', rfl, hs, rfl⟩
      · exact ⟨hp.lookup, hp.file, trivial⟩
      · exact hp.stepped hC (Stage.stepped_of_step hs)
    exact hlater.stage.keys hkeys

/-! ## Sample starts -/

/-- Bytes as characters that are not `!`. -/
def byteChars (l : List UInt8) : String := String.ofList (l.map fun b => Char.ofNat (b.toNat + 256))

def charBytes (s : String) : List UInt8 := s.toList.map fun c => UInt8.ofNat (c.toNat - 256)

theorem toNat_byteChar (b : UInt8) : (Char.ofNat (b.toNat + 256)).toNat = b.toNat + 256 := by
  have hall : ∀ n < 256, (Char.ofNat (n + 256)).toNat = n + 256 := by decide +kernel
  exact hall b.toNat b.toNat_lt

theorem charBytes_byteChars (l : List UInt8) : charBytes (byteChars l) = l := by
  unfold charBytes byteChars
  rw [String.toList_ofList, List.map_map]
  refine List.map_id'' (fun b => ?_) l
  rw [Function.comp_apply, toNat_byteChar, Nat.add_sub_cancel, UInt8.ofNat_toNat]

theorem not_mem_byteChars (l : List UInt8) : '!' ∉ (byteChars l).toList := by
  intro h
  rw [byteChars, String.toList_ofList, List.mem_map] at h
  obtain ⟨b, _, hb⟩ := h
  have hnum := congrArg Char.toNat hb
  rw [toNat_byteChar] at hnum
  have hbang : ('!' : Char).toNat = 33 := rfl
  omega

/-- A cipher to run on, the same under every secret. -/
def sampleKeyCrates : KeyCrates where
  encrypt _ _ _ c := byteChars c.trustRootPublic ++ String.singleton '!' ++
    (byteChars c.trustRootPrivate ++ String.singleton '!' ++
      (byteChars c.serverSigningPublic ++ String.singleton '!' ++
        byteChars c.serverSigningPrivate))
  decrypt _ blob := do
    let (a, rest) ← SepKey.splitOnce '!' blob.ciphertext
    let (b, rest) ← SepKey.splitOnce '!' rest
    let (c, d) ← SepKey.splitOnce '!' rest
    some ⟨charBytes a, charBytes b, charBytes c, charBytes d⟩
  parses _ := true

theorem sampleKeyCrates_inverts : sampleKeyCrates.Inverts := by
  intro e crypto secret
  simp only [sampleKeyCrates, encryptDiskCrypto, Option.bind_eq_bind, Option.bind_some,
    SepKey.splitOnce_append (not_mem_byteChars _), charBytes_byteChars]

/-- A step of a process that would generate the keys `keys`. -/
def sampleStart (keys : DiskCrypto) : StartEvent :=
  { now := 1, keys := keys, raw := Vector.replicate 32 7, salt := Vector.replicate 16 0,
    nonce := Vector.replicate 12 0, readFaults := [], writeFaults := [], written := 64,
    fails := false }

/-- No secret is configured. -/
def bareEnv : SecretEnv := ⟨none, none, fun _ => none⟩

/-- A new host. -/
def newHost : Host SampleUuid :=
  ⟨none, none, OrdMap.empty, ⟨OrdMap.empty, OrdMap.empty⟩⟩

def oneKey : DiskCrypto := ⟨[1], [], [], []⟩

def otherKey : DiskCrypto := ⟨[2], [], [], []⟩

/-- The keys of a process that has come to the end of `persist_crypto`. -/
def Stage.running {U : Type} : Stage U → Option DiskCrypto
  | .done K _ => some K
  | _ => none

theorem Stage.done_of_running {U : Type} {s : Stage U} {K : DiskCrypto}
    (hr : s.running = some K) : ∃ st, s = .done K st := by
  cases s with
  | done K' st =>
    cases hr
    exact ⟨st, rfl⟩
  | _ => cases hr

/-- A first process runs through; a second one, with other random bytes, gets to the stores. -/
theorem identity_survives_sample : ∃ c c' : BootConfig SampleUuid,
    c.shared.stage.running = some oneKey ∧ c'.shared.stage.keys = some oneKey := by
  obtain ⟨c, hrun, hc⟩ := exists_run
    (M := bootMachine SampleUuid sampleKeyCrates bareEnv) (G := anyMove) (c := firstBoot newHost)
    (List.replicate 16 (.env (.step (sampleStart oneKey))))
    (p := fun c => decide (c.shared.stage.running = some oneKey) &&
      ((bootMachine SampleUuid sampleKeyCrates bareEnv).exec anyMove
        (.env .restart :: List.replicate 5 (.env (.step (sampleStart otherKey)))) c).any
          fun c' => c'.shared.stage.keys.isSome) (by decide +kernel)
  obtain ⟨hdone, hnext⟩ := Bool.and_eq_true_iff.mp hc
  obtain ⟨c', hrun', hc'⟩ := exists_run _ hnext
  obtain ⟨K', hK'⟩ := Option.isSome_iff_exists.mp hc'
  obtain ⟨st, hst⟩ := Stage.done_of_running (of_decide_eq_true hdone)
  refine ⟨c, c', of_decide_eq_true hdone, ?_⟩
  rw [hK', (identity_survives sampleKeyCrates_inverts hrun).2 oneKey st hst c' hrun' K' hK']

end AxenoRelay
