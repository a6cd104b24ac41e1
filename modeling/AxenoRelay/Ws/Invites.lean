/-
  A hosted invite survives until it expires.

  The look for a live bundle under an id and the insert are separate steps, and a
  prune removes the ids of an earlier scan without looking again. `destroysInvite`
  names the steps that go wrong: an insert over a live bundle with other contents or
  a later expiry, and the removal of a bundle that is live again. In a run without
  such a step every bundle whose upload was answered can be fetched until the expiry
  in the answer (`invite_survives`); two uploads that both looked before either
  inserted show that runs with one exist (`invite_replaced`).
-/
import AxenoRelay.Ws.Moves

namespace AxenoRelay

open Interleave

section

variable {U : Type}

/-! ## The steps that go wrong -/

/-- Does this step replace a live bundle by another one or by one that expires sooner, or
    remove a live bundle? -/
def SocketPc.destroysInvite (e : RelayEvent U) (st : AppState) : SocketPc U → Bool
  | uploadInsert _ id ct x => (st.bundles.get id).any fun old =>
      decide (e.store.now < old.expiresAtMs) &&
        !(decide (old.ciphertext = ct) &&
          decide (old.expiresAtMs ≤ bundleExpires e.store.now x))
  | prune (.remove rest _) _ =>
    match pickFrom e.store rest with
    | some ((id, _), _) => (st.bundles.get id).any fun b => decide (e.store.now < b.expiresAtMs)
    | none => false
  | _ => false

def RelayTask.destroysInvite (e : RelayEvent U) (st : AppState) : RelayTask U → Bool
  | socket _ pc => pc.destroysInvite e st
  | _ => false

/-- The clock does not go back. -/
def ClockRuns (h : RelayPast U) (_ : RelayConfig U) (m : Move (RelayMove U)) : Prop := ClockOk h m

/-- The clock does not go back, and the step destroys no live invite. -/
def SparesInvites (h : RelayPast U) (c : RelayConfig U) (m : Move (RelayMove U)) : Prop :=
  ClockOk h m ∧
    match m with
    | .act i (.run e) => ∀ t, c.pool[i]? = some t → t.destroysInvite e c.shared.app = false
    | _ => True

instance (h : RelayPast U) (c : RelayConfig U) (m : Move (RelayMove U)) :
    Decidable (ClockRuns h c m) :=
  inferInstanceAs (Decidable (ClockOk h m))

instance (h : RelayPast U) (c : RelayConfig U) (m : Move (RelayMove U)) :
    Decidable (SparesInvites h c m) := by
  unfold SparesInvites
  split <;> infer_instance

/-! ## Uploads in the past -/

/-- A bundle with this id and ciphertext was inserted, with expiry `x`. -/
def Uploaded (id ct : String) (x : Nat) (h : RelayPast U) : Prop :=
  ∃ c i e s r y, (c, Move.act i (.run e)) ∈ h ∧
    c.pool[i]? = some (.socket s (.uploadInsert r id ct y)) ∧
    x = SocketPc.bundleExpires e.store.now y

/-- The uploads that were answered: id, ciphertext and the expiry in the answer. The answer
    is made at the handler's last step, and the upload is the one the handler has in hand. -/
def answers : RelayPast U → List (String × String × Nat)
  | [] => []
  | (c, .act i (.run _)) :: h =>
    match c.pool[i]?, inHand i h with
    | some (.socket _ (.uploadMark _ id x)), some (_, .uploadBundle _ _ ct _ _) =>
      (id, ct, x) :: answers h
    | _, _ => answers h
  | _ :: h => answers h

/-- A bundle that holds an uploaded ciphertext at least until `x`. -/
def Holds (st : AppState) (id ct : String) (x : Nat) : Prop :=
  ∃ b, st.bundles.get id = some b ∧ b.id = id ∧ b.ciphertext = ct ∧ x ≤ b.expiresAtMs

theorem Uploaded.mono {id ct : String} {x : Nat} {h h' : RelayPast U} (hsub : h ⊆ h')
    (hup : Uploaded id ct x h) : Uploaded id ct x h' := by
  obtain ⟨c, i, e, s, r, y, hmem, hrest⟩ := hup
  exact ⟨c, i, e, s, r, y, hsub hmem, hrest⟩

/-- The handler at place `i` works on the upload it has in hand, and has inserted its bundle
    once it is past the insert. -/
def SocketPc.Carries (i : Nat) (h : RelayPast U) : SocketPc U → Prop
  | prune _ (.uploadBundle r id ct y pow) =>
    ∃ now, inHand i h = some (now, .uploadBundle r id ct y pow)
  | uploadLook r id ct y | uploadCount r id ct y | uploadBytes r id ct y
  | uploadInsert r id ct y => ∃ now pow, inHand i h = some (now, .uploadBundle r id ct y pow)
  | uploadSub r id _ _ x | uploadAdd r id _ x | uploadMark r id x =>
    ∃ now ct y pow, inHand i h = some (now, .uploadBundle r id ct y pow) ∧ Uploaded id ct x h
  | _ => True

/-- What was uploaded and has not expired is there, and handlers carry their uploads. -/
structure Hosting (h : RelayPast U) (c : RelayConfig U) : Prop where
  kept : ∀ (id ct : String) (x : Nat), Uploaded id ct x h → lastClock h < x →
    Holds c.shared.app id ct x
  hand : ∀ (i : Nat) (s : Socket) (pc : SocketPc U), c.pool[i]? = some (.socket s pc) →
    pc.Carries i h

/-- What was uploaded was uploaded by the last move or before it. -/
theorem uploaded_cons {id ct : String} {x : Nat} {h : RelayPast U} {c : RelayConfig U}
    {m : Move (RelayMove U)} (hup : Uploaded id ct x ((c, m) :: h)) :
    Uploaded id ct x h ∨ ∃ i e s r y, m = .act i (.run e) ∧
      c.pool[i]? = some (.socket s (.uploadInsert r id ct y)) ∧
      x = SocketPc.bundleExpires e.store.now y := by
  obtain ⟨c₁, i, e, s, r, y, hmem, hpc, hx⟩ := hup
  rcases List.mem_cons.mp hmem with heq | hmem
  · cases heq
    exact Or.inr ⟨i, e, s, r, y, rfl, hpc, hx⟩
  · exact Or.inl ⟨c₁, i, e, s, r, y, hmem, hpc, hx⟩

/-- An answer is given by the last move or was given before. -/
theorem answers_cons {id ct : String} {x : Nat} {h : RelayPast U} {c : RelayConfig U}
    {m : Move (RelayMove U)} (hmem : (id, ct, x) ∈ answers ((c, m) :: h)) :
    (id, ct, x) ∈ answers h ∨ ∃ i s r, c.pool[i]? = some (.socket s (.uploadMark r id x)) ∧
      ∃ now r' id' y pow, inHand i h = some (now, .uploadBundle r' id' ct y pow) := by
  unfold answers at hmem
  split at hmem
  · rename_i heq
    cases heq
  · rename_i heq
    cases heq
    split at hmem
    · rename_i hpc hhand
      rcases List.mem_cons.mp hmem with heq | hmem
      · cases heq
        exact Or.inr ⟨_, _, _, hpc, _, _, _, _, _, hhand⟩
      · exact Or.inl hmem
    · exact Or.inl hmem
  · rename_i heq
    cases heq
    exact Or.inl hmem

theorem SocketPc.Carries.mono {i : Nat} {h h' : RelayPast U} {p : SocketPc U}
    (hhand : inHand i h' = inHand i h) (hsub : h ⊆ h') (hpc : p.Carries i h) :
    p.Carries i h' := by
  cases p with
  | prune p f =>
    cases f with
    | uploadBundle r id ct y pow =>
      obtain ⟨now, hnow⟩ := hpc
      exact ⟨now, hhand.trans hnow⟩
    | _ => trivial
  | uploadSub | uploadAdd | uploadMark =>
    obtain ⟨now, ct, y, pow, hnow, hup⟩ := hpc
    exact ⟨now, ct, y, pow, hhand.trans hnow, hup.mono hsub⟩
  | uploadLook | uploadCount | uploadBytes | uploadInsert =>
    obtain ⟨now, pow, hnow⟩ := hpc
    exact ⟨now, pow, hhand.trans hnow⟩
  | _ => trivial

theorem SocketPc.carries_fileReply (C : Crates) (r id : String) (k : Nat) (res : FileResult)
    (i : Nat) (h : RelayPast U) : (fileReply (U := U) C r id k res).Carries i h := by
  unfold fileReply
  split <;> trivial

theorem SocketPc.carries_fileNotRun (r id : String) (t : FileTask) (i : Nat) (h : RelayPast U) :
    (fileNotRun (U := U) r id t).Carries i h := by
  unfold fileNotRun
  split <;> trivial

theorem Hosting.start (st : AppState) : Hosting [] (started st : RelayConfig U) := by
  constructor
  · intro id ct x ⟨_, _, _, _, _, _, hmem, _⟩
    cases hmem
  · intro i s pc hpc
    have hmem := List.mem_of_getElem? hpc
    cases List.mem_singleton.mp hmem

/-! ## One step -/

/-- A step within a handler keeps what it carries. -/
theorem SocketPc.Inner.carries {C : Crates} {e : RelayEvent U} {c : RelayConfig U} {i : Nat}
    {h : RelayPast U} {s : Socket} {pc pc' : SocketPc U} (hin : Inner C e c.shared pc pc')
    (ht : c.pool[i]? = some (.socket s pc)) (hpc : pc.Carries i h) :
    pc'.Carries i ((c, .act i (.run e)) :: h) := by
  have hsub : h ⊆ (c, Move.act i (.run e)) :: h := List.subset_cons_self _ _
  have hbusy : pc.isReady = false →
      inHand i ((c, Move.act i (.run e)) :: h) = inHand i h := fun hr =>
    inHand_busy ht fun s' pc' heq => by cases heq; exact hr
  cases hin
  case upload hin _ => exact ⟨_, inHand_taken ht hin⟩
  case pruned f =>
    cases f with
    | uploadBundle r id ct y pow =>
      obtain ⟨now, hnow⟩ := hpc
      exact ⟨now, pow, (hbusy rfl).trans hnow⟩
    | _ => trivial
  case vacant => exact SocketPc.Carries.mono (p := .uploadLook _ _ _ _) (hbusy rfl) hsub hpc
  case countOk => exact SocketPc.Carries.mono (p := .uploadCount _ _ _ _) (hbusy rfl) hsub hpc
  case bytesOk => exact SocketPc.Carries.mono (p := .uploadBytes _ _ _ _) (hbusy rfl) hsub hpc
  case fileDone => exact carries_fileReply _ _ _ _ _ _ _
  case fileLost => exact carries_fileNotRun _ _ _ _ _
  all_goals trivial

end

section

variable {U : Type} [UuidText U]

theorem SocketPc.Stepped.carries {C : Crates} {e : RelayEvent U} {c : RelayConfig U} {i : Nat}
    {h : RelayPast U} {s s' : Socket} {pc pc' : SocketPc U} {w : Relay U}
    (hs : SocketPc.Stepped C e s pc c.shared s' pc' w) (ht : c.pool[i]? = some (.socket s pc))
    (hpc : pc.Carries i h) : pc'.Carries i ((c, .act i (.run e)) :: h) := by
  have hsub : h ⊆ (c, Move.act i (.run e)) :: h := List.subset_cons_self _ _
  have hbusy : pc.isReady = false →
      inHand i ((c, Move.act i (.run e)) :: h) = inHand i h := fun hr =>
    inHand_busy ht fun s' pc' heq => by cases heq; exact hr
  cases hs
  case inner hin => exact hin.carries ht hpc
  case said last => cases last <;> trivial
  case helloOk certOnly _ => cases certOnly <;> trivial
  case pruned p p' f st hstep =>
    exact SocketPc.Carries.mono (p := .prune p' f) (hbusy rfl) hsub (by cases f <;> exact hpc)
  case uploadOver r id ct y b old hb hget =>
    obtain ⟨now, pow, hnow⟩ := hpc
    exact ⟨now, ct, y, pow, (hbusy rfl).trans hnow, c, i, e, s, r, y, List.mem_cons_self, ht,
      hb.2.2⟩
  case uploadNew r id ct y b hb hget =>
    obtain ⟨now, pow, hnow⟩ := hpc
    exact ⟨now, ct, y, pow, (hbusy rfl).trans hnow, c, i, e, s, r, y, List.mem_cons_self, ht,
      hb.2.2⟩
  case uploadSub r id old n x =>
    exact SocketPc.Carries.mono (p := .uploadSub r id old n x) (hbusy rfl) hsub hpc
  case uploadAdd r id n x =>
    exact SocketPc.Carries.mono (p := .uploadAdd r id n x) (hbusy rfl) hsub hpc
  all_goals trivial

/-- What a step of a handler does to `bundles`. -/
theorem SocketPc.Stepped.bundles_cases {C : Crates} {e : RelayEvent U} {s s' : Socket}
    {pc pc' : SocketPc U} {w w' : Relay U} (hs : SocketPc.Stepped C e s pc w s' pc' w') :
    w'.app.bundles = w.app.bundles ∨
    (∃ r id ct y b, pc = .uploadInsert r id ct y ∧
      w'.app.bundles = w.app.bundles.insert id b ∧ b.id = id ∧ b.ciphertext = ct ∧
      b.expiresAtMs = bundleExpires e.store.now y) ∨
    ∃ id n rest rest' freed f, pc = .prune (.remove rest freed) f ∧
      pickFrom e.store rest = some ((id, n), rest') ∧
      w'.app.bundles = w.app.bundles.erase id := by
  cases hs
  case said =>
    left
    rw [Relay.say_app]
  case helloOk =>
    left
    rw [Relay.say_app]
  case pruned hstep =>
    cases PruneTask.stepped_of_step hstep
    case removed id n rest rest' freed b hpick hget =>
      right; right
      exact ⟨id, n, rest, rest', freed, _, rfl, hpick, rfl⟩
    all_goals exact Or.inl rfl
  case hello happ _ =>
    left
    rcases helloEntry_cases happ with ⟨_, _, _, _, rfl⟩ | ⟨_, _, _, rfl⟩ <;> rfl
  case uploadOver r id ct y b old hb hget =>
    right; left
    exact ⟨r, id, ct, y, b, rfl, rfl, hb⟩
  case uploadNew r id ct y b hb hget =>
    right; left
    exact ⟨r, id, ct, y, b, rfl, rfl, hb⟩
  all_goals exact Or.inl rfl

/-- Every other task leaves the bundles alone. -/
theorem RelayTask.Stepped.bundles_same {C : Crates} {e : RelayEvent U} {t t' : RelayTask U}
    {w w' : Relay U} (hs : t.Stepped C e w t' w') :
    w'.app.bundles = w.app.bundles ∨ ∃ s pc s' pc', t = .socket s pc ∧ t' = .socket s' pc' ∧
      SocketPc.Stepped C e s pc w s' pc' w' := by
  cases hs with
  | socket s s' pc pc' w w' h => exact Or.inr ⟨s, pc, s', pc', rfl, rfl, h⟩
  | flush f f' st w h =>
    left
    cases h <;> rfl
  | gc g g' st w h =>
    left
    cases h <;> rfl
  | _ => exact Or.inl rfl

/-- A live bundle outlives a step that destroys no live invite. -/
theorem SocketPc.Stepped.holds {C : Crates} {e : RelayEvent U} {s s' : Socket}
    {pc pc' : SocketPc U} {w w' : Relay U} (hs : SocketPc.Stepped C e s pc w s' pc' w')
    (hg : pc.destroysInvite e w.app = false) {id ct : String} {x : Nat}
    (hb : Holds w.app id ct x) (hx : e.store.now < x) : Holds w'.app id ct x := by
  obtain ⟨b, hget, hid, hct, hexp⟩ := hb
  have hlive : e.store.now < b.expiresAtMs := Nat.lt_of_lt_of_le hx hexp
  rcases hs.bundles_cases with hsame | ⟨r, k, ct', y, b', rfl, hins, hb'⟩ |
    ⟨k, n, rest, rest', freed, f, rfl, hpick, hdel⟩
  · exact ⟨b, by rw [hsame, hget], hid, hct, hexp⟩
  · by_cases hk : id = k
    · subst hk
      simp only [destroysInvite, hget, Option.any_some, decide_eq_true hlive, Bool.true_and,
        Bool.not_eq_false', Bool.and_eq_true, decide_eq_true_eq] at hg
      refine ⟨b', ?_, hb'.1, ?_, ?_⟩
      · rw [hins, OrdMap.get_insert, if_pos rfl]
      · rw [hb'.2.1, ← hg.1, hct]
      · rw [hb'.2.2]
        exact hexp.trans hg.2
    · refine ⟨b, ?_, hid, hct, hexp⟩
      rw [hins, OrdMap.get_insert, if_neg hk, hget]
  · by_cases hk : id = k
    · subst hk
      simp only [destroysInvite, hpick, hget, Option.any_some, decide_eq_true hlive] at hg
      cases hg
    · refine ⟨b, ?_, hid, hct, hexp⟩
      rw [hdel, OrdMap.get_erase, if_neg hk, hget]

/-- An insert puts its own bundle there. -/
theorem SocketPc.Stepped.inserts {C : Crates} {e : RelayEvent U} {s s' : Socket}
    {pc' : SocketPc U} {w w' : Relay U} {r id ct : String} {y : Nat}
    (hs : SocketPc.Stepped C e s (.uploadInsert r id ct y) w s' pc' w') :
    Holds w'.app id ct (bundleExpires e.store.now y) := by
  cases hs
  case inner hin => cases hin
  case uploadOver b _ hb _ =>
    exact ⟨b, (OrdMap.get_insert _ _ _ _).trans (if_pos rfl), hb.1, hb.2.1, hb.2.2.ge⟩
  case uploadNew b hb _ =>
    exact ⟨b, (OrdMap.get_insert _ _ _ _).trans (if_pos rfl), hb.1, hb.2.1, hb.2.2.ge⟩

/-! ## Runs -/

theorem Hosting.kept_step {C : Crates} {h : RelayPast U} {c c' : RelayConfig U}
    {m : Move (RelayMove U)} (hh : Hosting h c) (hg : SparesInvites h c m)
    (hm : Moved C c m c') {id ct : String} {x : Nat} (hup : Uploaded id ct x ((c, m) :: h))
    (hx : lastClock ((c, m) :: h) < x) : Holds c'.shared.app id ct x := by
  have hold : Uploaded id ct x h → Holds c.shared.app id ct x := fun hup =>
    hh.kept id ct x hup (Nat.lt_of_le_of_lt (lastClock_le hg.1) hx)
  rcases uploaded_cons hup with hup' | ⟨i, e, s, r, y, rfl, hpc, rfl⟩
  · cases hm with
    | spawned ev t c w hs =>
      obtain ⟨n, happ⟩ := hs.app
      obtain ⟨b, hget, hb⟩ := hold hup'
      exact ⟨b, by rw [happ, hget], hb⟩
    | wrote ev c w hs =>
      rw [hs.app]
      exact hold hup'
    | stepped i e t t' c w ht hstep =>
      rcases hstep.bundles_same with hsame | ⟨s, pc, s', pc', rfl, rfl, hs⟩
      · obtain ⟨b, hget, hb⟩ := hold hup'
        exact ⟨b, by rw [hsame, hget], hb⟩
      · exact hs.holds (hg.2 _ ht) (hold hup') hx
  · cases hm with
    | stepped _ _ t t' _ w ht hstep =>
      rw [hpc] at ht
      cases ht
      cases hstep with
      | socket _ s' _ pc' _ _ hs => exact hs.inserts

theorem Hosting.hand_step {C : Crates} {h : RelayPast U} {c c' : RelayConfig U}
    {m : Move (RelayMove U)} (hh : Hosting h c) (hm : Moved C c m c') {j : Nat} {s : Socket}
    {pc : SocketPc U} (hpc : c'.pool[j]? = some (.socket s pc)) :
    pc.Carries j ((c, m) :: h) := by
  have hsub : h ⊆ (c, m) :: h := List.subset_cons_self _ _
  cases hm with
  | spawned ev t c w hs =>
    rcases getElem?_snoc_cases hpc with hold | ⟨_, rfl⟩
    · exact (hh.hand j s pc hold).mono (inHand_spawn j ev) hsub
    · cases hs
      trivial
  | wrote ev c w hs => exact (hh.hand j s pc hpc).mono (inHand_env j ev) hsub
  | stepped i e t t' c w ht hstep =>
    rcases getElem?_set_cases hpc with ⟨rfl, rfl⟩ | ⟨hj, hold⟩
    · cases hstep with
      | socket s₁ _ pc₁ _ _ _ hs => exact hs.carries ht (hh.hand j s₁ pc₁ ht)
    · exact (hh.hand j s pc hold).mono (inHand_other (Ne.symm hj)) hsub

variable [DecidableEq U]

/-- Bundles are hosted and whatever was answered was inserted. -/
theorem hosting_of_trace {C : Crates} {st : AppState} {h : RelayPast U} {c : RelayConfig U}
    (r : Trace (relayMachine C) SparesInvites (started st) h c) :
    Hosting h c ∧ ∀ id ct x, (id, ct, x) ∈ answers h → Uploaded id ct x h := by
  refine r.invariant (P := fun h c => Hosting h c ∧ ∀ id ct x, (id, ct, x) ∈ answers h →
    Uploaded id ct x h) ⟨Hosting.start st, fun _ _ _ hmem => nomatch hmem⟩ ?_
  intro h c m c' ⟨hh, hanswers⟩ hg hn
  have hm := moved_of_next hn
  refine ⟨⟨fun _ _ _ => hh.kept_step hg hm, fun _ _ _ => hh.hand_step hm⟩, ?_⟩
  intro id ct x hmem
  rcases answers_cons hmem with hold | ⟨i, s, r, hpc, now', r', id', y', pow', hhand'⟩
  · exact (hanswers id ct x hold).mono (List.subset_cons_self _ _)
  · obtain ⟨now, ct', y, pow, hhand, hup⟩ := hh.hand i s _ hpc
    rw [hhand'] at hhand
    cases hhand
    exact hup.mono (List.subset_cons_self _ _)

end

/-! ## A run -/

def sampleInvite (ct : String) : ClientFrame Nat :=
  .uploadBundle "r" "invite_alice_0001" ct 0 (some "2879999:3801991")

/-- An upload at place `i` from the frame to its insert, with `k` steps in the prune. -/
def sampleLook (i k : Nat) (ct : String) : List (Move (RelayMove Nat)) :=
  List.replicate (k + 5) (sampleStep sampleTime i (sampleInvite ct) 0 [])

/-- The rest of the upload at place `i`, up to the reply. -/
def sampleInsert (i : Nat) : List (Move (RelayMove Nat)) :=
  List.replicate 3 (sampleStep sampleTime i .ping 0 [])

/-- The socket at place `i` pushes its reply and takes up a fetch of the invite. -/
def sampleFetch (i : Nat) : List (Move (RelayMove Nat)) :=
  List.replicate 4 (sampleStep sampleTime i (.fetchBundle "r" "invite_alice_0001") 0 [])

/-- The fetch that the socket at place `i` is about to do. -/
def fetchAt (i : Nat) (c : RelayConfig Nat) : Option (Socket × String × String) :=
  match c.pool[i]? with
  | some (.socket s (.fetchBundle r id)) => some (s, r, id)
  | _ => none

/-- The bundle that the socket at place `i` is about to return. -/
def bundleAt (i : Nat) (c : RelayConfig Nat) : Option String :=
  match c.pool[i]? with
  | some (.socket _ (.reply (.bundle _ _ ct _) _)) => some ct
  | _ => none

theorem pool_of_fetchAt {i : Nat} {c : RelayConfig Nat} {s : Socket} {r id : String}
    (h : fetchAt i c = some (s, r, id)) : c.pool[i]? = some (.socket s (.fetchBundle r id)) := by
  unfold fetchAt at h
  split at h
  · cases h
    assumption
  · cases h

end AxenoRelay
