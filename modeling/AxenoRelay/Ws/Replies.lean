/-
  What the reply of a handler says.

  `Handling` follows one handler from its first place to the reply it is about to
  push, and keeps every step with the relay before and after it. In between, the
  other tasks may do anything; a handler that runs alone is one whose steps are
  linked (`Linked`).

  A SendEnvelope handler replies once, and what it replies is what its steps did
  (`send_reply_honest`). The replies to DeleteTransfer and RetireMailbox are pushed
  whatever became of the store call, so they are honest exactly when it went
  through or there was nothing to remove (`removal_honest_iff`).
-/
import AxenoRelay.FileStore.Transfers
import AxenoRelay.Ws.Calls

namespace AxenoRelay

open QueueStore FileStore

/-! ## One handler -/

/-- A step of a handler. -/
structure Act (U : Type) where
  pc : SocketPc U
  event : RelayEvent U
  before : Relay U
  after : Relay U

namespace SocketPc

variable {U : Type}

/-- Is the handler about to push its reply? -/
def replies : SocketPc U → Bool
  | reply _ _ => true
  | _ => false

end SocketPc

/-- The steps of a handler that began at `pc`, up to its reply. -/
inductive Handling {U : Type} [UuidText U] [DecidableEq U] (C : Crates) (s : Socket)
    (pc : SocketPc U) : List (Act U) → Socket → SocketPc U → Prop
  | start : Handling C s pc [] s pc
  | step {l : List (Act U)} {s₁ s₂ : Socket} {pc₁ pc₂ : SocketPc U} {e : RelayEvent U}
      {w w' : Relay U} (h : Handling C s pc l s₁ pc₁) (hr : pc₁.replies = false)
      (hs : pc₁.step C e s₁ w = some (s₂, pc₂, w')) :
      Handling C s pc (l ++ [⟨pc₁, e, w, w'⟩]) s₂ pc₂

/-- The steps of a handler that runs alone from relay `w`. -/
inductive Alone {U : Type} [UuidText U] [DecidableEq U] (C : Crates) (s : Socket)
    (pc : SocketPc U) (w : Relay U) : List (Act U) → Socket → SocketPc U → Relay U → Prop
  | start : Alone C s pc w [] s pc w
  | step {l : List (Act U)} {s₁ s₂ : Socket} {pc₁ pc₂ : SocketPc U} {e : RelayEvent U}
      {w₁ w₂ : Relay U} (h : Alone C s pc w l s₁ pc₁ w₁) (hr : pc₁.replies = false)
      (hs : pc₁.step C e s₁ w₁ = some (s₂, pc₂, w₂)) :
      Alone C s pc w (l ++ [⟨pc₁, e, w₁, w₂⟩]) s₂ pc₂ w₂

section Alone

variable {U : Type} [UuidText U] [DecidableEq U]

theorem Alone.handling {C : Crates} {s s' : Socket} {pc pc' : SocketPc U} {w w' : Relay U}
    {l : List (Act U)} (h : Alone C s pc w l s' pc' w') : Handling C s pc l s' pc' := by
  induction h with
  | start => exact .start
  | step _ hr hs ih => exact .step ih hr hs

/-- Run a handler alone under the given events, up to its reply. -/
def runAlone (C : Crates) : List (RelayEvent U) → List (Act U) → Socket → SocketPc U → Relay U →
    Option (List (Act U) × Socket × SocketPc U × Relay U)
  | [], l, s, pc, w => some (l, s, pc, w)
  | e :: es, l, s, pc, w =>
    if pc.replies then none
    else
      match pc.step C e s w with
      | none => none
      | some (s', pc', w') => runAlone C es (l ++ [⟨pc, e, w, w'⟩]) s' pc' w'

theorem alone_of_run {C : Crates} {s₀ : Socket} {pc₀ : SocketPc U} {w₀ : Relay U}
    (es : List (RelayEvent U)) {l l' : List (Act U)} {s s' : Socket} {pc pc' : SocketPc U}
    {w w' : Relay U} (h : Alone C s₀ pc₀ w₀ l s pc w)
    (hrun : runAlone C es l s pc w = some (l', s', pc', w')) :
    Alone C s₀ pc₀ w₀ l' s' pc' w' := by
  induction es generalizing l s pc w with
  | nil =>
    cases hrun
    exact h
  | cons e es ih =>
    unfold runAlone at hrun
    split_ifs at hrun with hr
    cases hs : pc.step C e s w with
    | none =>
      rw [hs] at hrun
      cases hrun
    | some r =>
      rw [hs] at hrun
      exact ih (.step h (by simpa using hr) hs) hrun

/-- A handler that is refused at once replies nothing else. -/
theorem Alone.of_reply {C : Crates} {s s' : Socket} {f : ServerFrame U} {last : Bool}
    {pc' : SocketPc U} {w w' : Relay U} {l : List (Act U)}
    (h : Alone C s (.reply f last) w l s' pc' w') : pc' = .reply f last := by
  induction h with
  | start => rfl
  | step _ hr hs ih =>
    subst ih
    cases hr

/-- A handler that calls a store once, at `k`. Before the call it is at places `P`,
    afterwards at places `Q`, where `D` stays as the call has left it. -/
theorem Alone.calls {C : Crates} {s s' : Socket} {pc pc' : SocketPc U} {w w' : Relay U}
    {l : List (Act U)} {P Q : SocketPc U → Relay U → Prop} {k : SocketPc U}
    {D : Relay U → Prop} {A : Act U → Prop} (h : Alone C s pc w l s' pc' w') (h0 : P pc w)
    (hpre : ∀ {pc pc' s s' e w w'}, P pc w → pc ≠ k → pc.step C e s w = some (s', pc', w') →
      P pc' w')
    (hcall : ∀ {pc' s s' e w w'}, P k w → k.step C e s w = some (s', pc', w') →
      Q pc' w' ∧ (D w' ↔ A ⟨k, e, w, w'⟩))
    (hpost : ∀ {pc pc' s s' e w w'}, Q pc w → pc.replies = false →
      pc.step C e s w = some (s', pc', w') → Q pc' w' ∧ (D w' ↔ D w)) :
    P pc' w' ∨ (Q pc' w' ∧ ∃ a ∈ l, a.pc = k ∧ (D w' ↔ A a)) := by
  induction h with
  | start => exact Or.inl h0
  | @step l s₁ s₂ pc₁ pc₂ e w₁ w₂ _ hr hs ih =>
    rcases ih with hbefore | ⟨hafter, a, ha, hpc, hiff⟩
    · by_cases heq : pc₁ = k
      · subst heq
        obtain ⟨hafter, hiff⟩ := hcall hbefore hs
        exact Or.inr ⟨hafter, _, List.mem_append_right _ List.mem_cons_self, rfl, hiff⟩
      · exact Or.inl (hpre hbefore heq hs)
    · obtain ⟨hafter', hsame⟩ := hpost hafter hr hs
      exact Or.inr ⟨hafter', a, List.mem_append_left _ ha, hpc, hsame.trans hiff⟩

end Alone

section Send

variable {U : Type}

/-! ## SendEnvelope -/

/-- No step touched the rows of any queue. -/
def Untouched (log : List (Act U)) : Prop :=
  ∀ a ∈ log, a.after.app.queues.envelopes = a.before.app.queues.envelopes

/-- No step pushed anything. -/
def Unpushed (log : List (Act U)) : Prop := ∀ a ∈ log, a.after.chans = a.before.chans

/-- A step committed the envelope to the queue of its destination. -/
def Committed [UuidText U] (env : StoredEnvelope U) (log : List (Act U)) : Prop :=
  ∃ a ∈ log, ∃ (v : StoredValue) (evicted : List U),
    (v.t = env.envelopeType ∧ v.c = env.ciphertext) ∧ a.after.app.queues.envelopes =
      enqueueTable env.toId env.id v evicted a.before.app.queues.envelopes

/-- A step pushed the envelope on the live channel of its destination. -/
def Pushed (env : StoredEnvelope U) (log : List (Act U)) : Prop :=
  ∃ a ∈ log, ∃ (sid : Nat) (c : Chan U), a.before.app.online.get env.toId = some sid ∧
    a.before.chans[sid]? = some c ∧ a.after.chans = a.before.chans.set sid (c.push (.envelope env))

/-- A reply to a send to `m` that says what the steps did. -/
def Honest [UuidText U] (r : Option String) (m ty ct : String) (log : List (Act U)) :
    ServerFrame U → Prop
  | .sendOk id queued r' => r' = r ∧
    (Committed ⟨id, m, ty, ct⟩ log ∨ Pushed ⟨id, m, ty, ct⟩ log) ∧
    (queued = true → Committed ⟨id, m, ty, ct⟩ log)
  | .sendError r' _ _ => r' = r ∧ Untouched log ∧ Unpushed log
  | _ => False

/-- Has this call of `enqueue` committed? -/
def QueueTask.wrote : QueueTask U → Bool
  | enqAdd _ _ _ _ | enqSub _ _ _ _ | enqUpdate _ _ _ _ | done (.ok _) => true
  | _ => false

/-- What the steps so far did for an envelope, if the live push succeeded or not and the
    queue has it or not. -/
def Did [UuidText U] (env : StoredEnvelope U) (live queued : Bool) (log : List (Act U)) : Prop :=
  (if live then Pushed env log else Unpushed log) ∧
    if queued then Committed env log else Untouched log

/-- An envelope with what the sender put into it. -/
def IsFor (env : StoredEnvelope U) (m ty ct : String) : Prop :=
  env.toId = m ∧ env.envelopeType = ty ∧ env.ciphertext = ct

namespace SocketPc

/-- What the steps of a SendEnvelope handler did, by the place it has come to. -/
def SendAt [UuidText U] (r : Option String) (m ty ct : String) (log : List (Act U)) :
    SocketPc U → Prop
  | sendRate r' m' ty' ct' | sendLive r' m' ty' ct' =>
    (r' = r ∧ m' = m ∧ ty' = ty ∧ ct' = ct) ∧ Unpushed log ∧ Untouched log
  | sendStale r' env => (r' = r ∧ IsFor env m ty ct) ∧ Did env false false log
  | sendCheck r' env live => (r' = r ∧ IsFor env m ty ct) ∧ Did env live false log
  | sendQueue r' env live q =>
    (r' = r ∧ IsFor env m ty ct) ∧ q.Enqueues env ∧ Did env live q.wrote log
  | sendMark r' env live ok => (r' = r ∧ IsFor env m ty ct) ∧ Did env live ok log
  | reply g last => last = false ∧ Honest r m ty ct log g
  | _ => False

end SocketPc

/-- Steps an enqueue can still take. -/
def QueueTask.enqueueSteps : QueueTask U → Nat
  | enqSeq _ _ => 7
  | enqIndex _ _ _ => 6
  | enqRead _ _ _ => 5
  | enqWrite _ _ _ _ _ => 4
  | enqAdd _ _ _ _ => 3
  | enqSub _ _ _ _ => 2
  | enqUpdate _ _ _ _ => 1
  | _ => 0

/-- Steps a SendEnvelope handler can still take before it replies. -/
def SocketPc.sendSteps : SocketPc U → Nat
  | sendRate _ _ _ _ => 13
  | sendLive _ _ _ _ => 12
  | sendStale _ _ => 11
  | sendCheck _ _ _ => 10
  | sendQueue _ _ _ q => q.enqueueSteps + 2
  | sendMark _ _ _ _ => 1
  | _ => 0

theorem untouched_snoc {log : List (Act U)} {a : Act U} (h : Untouched log)
    (ha : a.after.app.queues.envelopes = a.before.app.queues.envelopes) :
    Untouched (log ++ [a]) := by
  intro b hb
  rcases List.mem_append.mp hb with hb | hb
  · exact h b hb
  · rw [List.mem_singleton.mp hb]
    exact ha

theorem unpushed_snoc {log : List (Act U)} {a : Act U} (h : Unpushed log)
    (ha : a.after.chans = a.before.chans) : Unpushed (log ++ [a]) := by
  intro b hb
  rcases List.mem_append.mp hb with hb | hb
  · exact h b hb
  · rw [List.mem_singleton.mp hb]
    exact ha

theorem Pushed.snoc {env : StoredEnvelope U} {log : List (Act U)} (h : Pushed env log)
    (a : Act U) : Pushed env (log ++ [a]) := by
  obtain ⟨b, hb, hpush⟩ := h
  exact ⟨b, List.mem_append_left _ hb, hpush⟩

/-- A step that leaves the channels alone. -/
theorem live_snoc {env : StoredEnvelope U} {live : Bool} {log : List (Act U)}
    (h : if live then Pushed env log else Unpushed log) {a : Act U}
    (ha : a.after.chans = a.before.chans) :
    if live then Pushed env (log ++ [a]) else Unpushed (log ++ [a]) := by
  cases live with
  | true => exact Pushed.snoc h a
  | false => exact unpushed_snoc h ha

end Send

section Steps

variable {U : Type} [UuidText U]

theorem Committed.snoc {env : StoredEnvelope U} {log : List (Act U)} (h : Committed env log)
    (a : Act U) : Committed env (log ++ [a]) := by
  obtain ⟨b, hb, hrow⟩ := h
  exact ⟨b, List.mem_append_left _ hb, hrow⟩

/-- A step that leaves the rows alone. -/
theorem queued_snoc {env : StoredEnvelope U} {queued : Bool} {log : List (Act U)}
    (h : if queued then Committed env log else Untouched log) {a : Act U}
    (ha : a.after.app.queues.envelopes = a.before.app.queues.envelopes) :
    if queued then Committed env (log ++ [a]) else Untouched (log ++ [a]) := by
  cases queued with
  | true => exact Committed.snoc h a
  | false => exact untouched_snoc h ha

theorem Did.snoc {env : StoredEnvelope U} {live queued : Bool} {log : List (Act U)}
    (h : Did env live queued log) {a : Act U} (hchans : a.after.chans = a.before.chans)
    (hrows : a.after.app.queues.envelopes = a.before.app.queues.envelopes) :
    Did env live queued (log ++ [a]) :=
  ⟨live_snoc h.1 hchans, queued_snoc h.2 hrows⟩

/-- An enqueue commits once, with its own envelope. -/
theorem QueueTask.Stepped.wrote {e : StoreEvent} {q q' : QueueTask U} {st st' : QueueStore}
    (hs : Stepped e q st q' st') {env : StoredEnvelope U} (hq : q.Enqueues env) :
    (q'.wrote = q.wrote ∧ st'.envelopes = st.envelopes) ∨
      (q.wrote = false ∧ q'.wrote = true ∧ ∃ v ids, (v.t = env.envelopeType ∧ v.c = env.ciphertext) ∧
        st'.envelopes = enqueueTable env.toId env.id v ids st.envelopes) := by
  cases hs
  case failed ht =>
    left
    cases q <;> first | exact ⟨rfl, rfl⟩ | cases ht
  case write v ids b =>
    right
    obtain ⟨rfl, rfl, hv⟩ := hq
    exact ⟨rfl, rfl, v, ids, hv, rfl⟩
  all_goals first | exact hq.elim | exact Or.inl ⟨rfl, rfl⟩

theorem QueueTask.Stepped.enqueueSteps {e : StoreEvent} {q q' : QueueTask U} {st st' : QueueStore}
    (hs : Stepped e q st q' st') {env : StoredEnvelope U} (hq : q.Enqueues env) :
    q'.enqueueSteps < q.enqueueSteps := by
  cases hs
  case failed ht => cases q <;> first | exact hq.elim | exact Nat.succ_pos _ | cases ht
  all_goals first | exact hq.elim | simp [QueueTask.enqueueSteps]

/-- An enqueue that has not returned is not stuck. -/
theorem QueueTask.Enqueues.enabled {q : QueueTask U} {env : StoredEnvelope U}
    (hq : q.Enqueues env) (hrun : q.finished = false) (e : StoreEvent) (st : QueueStore) :
    (q.step e st).isSome = true := by
  cases q with
  | enqIndex m env' v =>
    simp only [QueueTask.step]
    split_ifs <;> rfl
  | enqRead m env' v =>
    simp only [QueueTask.step]
    split <;> rfl
  | enqWrite m env' v ids b =>
    simp only [QueueTask.step]
    split <;> rfl
  | done res => cases hrun
  | _ => first | rfl | exact hq.elim

end Steps

namespace SocketPc

variable {U : Type} [UuidText U] [DecidableEq U]

/-- A step of a send keeps the account of what was done. -/
theorem SendAt.step {C : Crates} {e : RelayEvent U} {r : Option String} {m ty ct : String}
    {log : List (Act U)} {s s' : Socket} {pc pc' : SocketPc U} {w w' : Relay U}
    (h : pc.SendAt r m ty ct log) (hr : pc.replies = false)
    (hs : pc.step C e s w = some (s', pc', w')) :
    pc'.SendAt r m ty ct (log ++ [⟨pc, e, w, w'⟩]) := by
  cases pc with
  | sendRate r' m' ty' ct' =>
    obtain ⟨⟨rfl, rfl, rfl, rfl⟩, hpush, hrows⟩ := h
    simp only [SocketPc.step, AppState.allowDestSend] at hs
    split_ifs at hs <;> cases hs
    · exact ⟨⟨rfl, rfl, rfl, rfl⟩, unpushed_snoc hpush rfl, untouched_snoc hrows rfl⟩
    · exact ⟨rfl, rfl, untouched_snoc hrows rfl, unpushed_snoc hpush rfl⟩
    · exact ⟨⟨rfl, rfl, rfl, rfl⟩, unpushed_snoc hpush rfl, untouched_snoc hrows rfl⟩
  | sendLive r' m' ty' ct' =>
    obtain ⟨⟨rfl, rfl, rfl, rfl⟩, hpush, hrows⟩ := h
    cases stepped_of_step hs
    case inner hin => cases hin
    case sendMissed => exact ⟨⟨rfl, rfl, rfl, rfl⟩, unpushed_snoc hpush rfl, untouched_snoc hrows rfl⟩
    case sendPushed sid c hnew hc hget =>
      refine ⟨⟨rfl, rfl, rfl, rfl⟩, ?_, untouched_snoc hrows rfl⟩
      exact ⟨_, List.mem_append_right _ List.mem_cons_self, sid, c, hget, hc, rfl⟩
    case sendFailed => exact ⟨⟨rfl, rfl, rfl, rfl⟩, unpushed_snoc hpush rfl, untouched_snoc hrows rfl⟩
  | sendStale r' env =>
    cases hs
    exact ⟨h.1, h.2.snoc rfl rfl⟩
  | sendCheck r' env live =>
    obtain ⟨id, dst, ty', ct'⟩ := env
    obtain ⟨⟨rfl, rfl, rfl, rfl⟩, hdid⟩ := h
    simp only [SocketPc.step] at hs
    split_ifs at hs with hfull hlive <;> cases hs
    · have hpush := hdid.1
      rw [if_pos hlive] at hpush
      exact ⟨rfl, rfl, Or.inr (hpush.snoc _), fun hq => by cases hq⟩
    · have hpush := hdid.1
      rw [if_neg hlive] at hpush
      exact ⟨rfl, rfl, untouched_snoc hdid.2 rfl, unpushed_snoc hpush rfl⟩
    · exact ⟨⟨rfl, rfl, rfl, rfl⟩, ⟨rfl, rfl⟩, hdid.snoc rfl rfl⟩
  | sendQueue r' env live q =>
    obtain ⟨hfor, hq, hdid⟩ := h
    obtain ⟨⟨pc1, w1⟩, hstep, heq⟩ := Option.map_eq_some_iff.mp hs
    cases heq
    rcases queueStep_cases hstep with ⟨res, rfl, rfl, rfl⟩ | ⟨hstart, _, rfl, rfl⟩ |
      ⟨q', st, hst, rfl, rfl⟩
    · refine ⟨hfor, Did.snoc ?_ rfl rfl⟩
      cases res <;> exact hdid
    · have hno : q.wrote = false := by
        cases q <;> first | rfl | cases hstart
      rw [hno] at hdid
      exact ⟨hfor, hdid.snoc rfl rfl⟩
    · have hcall := QueueTask.stepped_of_call (fun n hn => by subst hn; exact hq.elim) hst
      refine ⟨hfor, hcall.enqueues hq, live_snoc hdid.1 rfl, ?_⟩
      rcases hcall.wrote hq with ⟨hsame, hrows⟩ | ⟨_, hyes, v, ids, hv, hrows⟩
      · rw [hsame]
        exact queued_snoc hdid.2 hrows
      · rw [if_pos hyes]
        exact ⟨_, List.mem_append_right _ List.mem_cons_self, v, ids, hv, hrows⟩
  | sendMark r' env live ok =>
    obtain ⟨id, dst, ty', ct'⟩ := env
    obtain ⟨⟨rfl, rfl, rfl, rfl⟩, hdid⟩ := h
    obtain ⟨hpush, hrows⟩ := hdid.snoc (a := ⟨sendMark r' ⟨id, dst, ty', ct'⟩ live ok, e, w, w'⟩)
      (by cases hs; rfl) (by cases hs; rfl)
    simp only [SocketPc.step] at hs
    cases live with
    | true =>
      simp only [Bool.or_true, if_true] at hs
      cases hs
      exact ⟨rfl, rfl, Or.inr hpush, fun hq => by cases hq⟩
    | false =>
      cases ok with
      | true =>
        cases hs
        exact ⟨rfl, rfl, Or.inl hrows, fun _ => hrows⟩
      | false =>
        cases hs
        exact ⟨rfl, rfl, hrows, hpush⟩
  | reply f last => cases hr
  | _ => exact h.elim

/-- A step of a send comes closer to its reply. -/
theorem SendAt.sendSteps_lt {C : Crates} {e : RelayEvent U} {r : Option String} {m ty ct : String}
    {log : List (Act U)} {s s' : Socket} {pc pc' : SocketPc U} {w w' : Relay U}
    (h : pc.SendAt r m ty ct log) (hr : pc.replies = false)
    (hs : pc.step C e s w = some (s', pc', w')) : pc'.sendSteps < pc.sendSteps := by
  cases pc with
  | sendQueue r' env live q =>
    obtain ⟨⟨pc1, w1⟩, hstep, heq⟩ := Option.map_eq_some_iff.mp hs
    cases heq
    rcases queueStep_cases hstep with ⟨res, rfl, rfl, rfl⟩ | ⟨hstart, _, rfl, rfl⟩ |
      ⟨q', st, hst, rfl, rfl⟩
    · simp [SocketPc.sendSteps]
    · simp [SocketPc.sendSteps]
    · have hcall := QueueTask.stepped_of_call (fun n hn => by subst hn; exact h.2.1.elim) hst
      have hlt := hcall.enqueueSteps h.2.1
      simp only [SocketPc.sendSteps]
      omega
  | sendRate r' m' ty' ct' =>
    cases stepped_of_step hs
    case inner hin => cases hin
    all_goals simp [SocketPc.sendSteps]
  | sendLive r' m' ty' ct' =>
    cases stepped_of_step hs
    case inner hin => cases hin
    all_goals simp [SocketPc.sendSteps]
  | sendStale r' env =>
    cases stepped_of_step hs
    case inner hin => cases hin
    all_goals simp [SocketPc.sendSteps]
  | sendCheck r' env live =>
    cases stepped_of_step hs
    case inner hin => cases hin
    all_goals simp [SocketPc.sendSteps, QueueTask.enqueueSteps]
  | sendMark r' env live ok =>
    cases stepped_of_step hs
    case inner hin => cases hin
    all_goals simp [SocketPc.sendSteps]
  | reply f last => cases hr
  | _ => exact h.elim

/-- A send that has not replied yet is not stuck. -/
theorem SendAt.enabled {r : Option String} {m ty ct : String} {log : List (Act U)}
    {pc : SocketPc U} (h : pc.SendAt r m ty ct log) (hr : pc.replies = false) (C : Crates)
    (e : RelayEvent U) (s : Socket) (w : Relay U) (hnew : e.uuid ∉ w.issued) :
    (pc.step C e s w).isSome = true := by
  cases pc with
  | sendRate r' m' ty' ct' =>
    simp only [SocketPc.step]
    split <;> rfl
  | sendLive r' m' ty' ct' =>
    simp only [SocketPc.step, if_neg hnew]
    split
    · rfl
    · split <;> rfl
  | sendStale r' env => rfl
  | sendCheck r' env live =>
    simp only [SocketPc.step]
    split_ifs <;> rfl
  | sendQueue r' env live q =>
    simp only [SocketPc.step, Option.isSome_map]
    unfold queueStep
    split
    · rfl
    · split_ifs
      · rfl
      · rw [Option.isSome_map]
        refine h.2.1.enabled ?_ e.store _
        cases q <;> first | rfl | simp_all
  | sendMark r' env live ok =>
    simp only [SocketPc.step]
    split_ifs <;> rfl
  | reply f last => cases hr
  | _ => exact h.elim

omit [DecidableEq U] in
/-- The first piece of a send. -/
theorem sendAt_handle (C : Crates) (e : RelayEvent U) (s : Socket) (w : Relay U)
    (r : Option String) (m token ty ct : String) :
    (handle C e s w (.sendEnvelope r m token ty ct)).1.SendAt r m ty ct
        [⟨ready, e, w, (handle C e s w (.sendEnvelope r m token ty ct)).2⟩] ∧
      (handle C e s w (.sendEnvelope r m token ty ct)).1.sendSteps ≤ 13 := by
  have hone : ∀ w' : Relay U, w'.chans = w.chans →
      w'.app.queues.envelopes = w.app.queues.envelopes →
      Unpushed [⟨ready, e, w, w'⟩] ∧ Untouched [⟨ready, e, w, w'⟩] := by
    intro w' hc hq
    refine ⟨fun a ha => ?_, fun a ha => ?_⟩
    · rw [List.mem_singleton.mp ha]
      exact hc
    · rw [List.mem_singleton.mp ha]
      exact hq
  obtain ⟨hpush, hrows⟩ := hone w rfl rfl
  unfold handle
  dsimp only
  split_ifs
  · exact ⟨⟨rfl, rfl, hrows, hpush⟩, Nat.zero_le _⟩
  · exact ⟨⟨rfl, rfl, hrows, hpush⟩, Nat.zero_le _⟩
  · cases happ : sendAuth C e.store.now m token w.app with
    | none => exact ⟨⟨rfl, rfl, hrows, hpush⟩, Nat.zero_le _⟩
    | some app =>
      obtain ⟨auth, _, _, rfl⟩ := sendAuth_cases happ
      exact ⟨⟨⟨rfl, rfl, rfl, rfl⟩, hone _ rfl rfl⟩, le_refl 13⟩

end SocketPc

section Send

variable {U : Type} [UuidText U] [DecidableEq U]

/-- **A send's reply tells the truth.** Whatever happens between its steps, the handler of
    a SendEnvelope frame takes at most 13 more steps and is never stuck before it has
    replied. It replies once, SendOk or SendError, and the reply says what its steps did. -/
theorem send_reply_honest {C : Crates} {e : RelayEvent U} {s s' : Socket} {w : Relay U}
    {r : Option String} {m token ty ct : String} {l : List (Act U)} {pc : SocketPc U}
    (h : Handling C s (SocketPc.handle C e s w (.sendEnvelope r m token ty ct)).1 l s' pc) :
    l.length ≤ 13 ∧
      ((∃ g, pc = .reply g false ∧ Honest r m ty ct
          (⟨.ready, e, w, (SocketPc.handle C e s w (.sendEnvelope r m token ty ct)).2⟩ :: l) g) ∨
        (pc.replies = false ∧ ∀ (e' : RelayEvent U) (w' : Relay U), e'.uuid ∉ w'.issued →
          (pc.step C e' s' w').isSome = true)) := by
  obtain ⟨hstart, hle⟩ := SocketPc.sendAt_handle C e s w r m token ty ct
  have hinv : pc.SendAt r m ty ct
        (⟨.ready, e, w, (SocketPc.handle C e s w (.sendEnvelope r m token ty ct)).2⟩ :: l) ∧
      l.length + pc.sendSteps ≤ 13 := by
    induction h with
    | start => exact ⟨hstart, by rw [List.length_nil, Nat.zero_add]; exact hle⟩
    | step _ hr hs ih =>
      obtain ⟨hat, hlen⟩ := ih
      have hlt := hat.sendSteps_lt hr hs
      refine ⟨hat.step hr hs, ?_⟩
      rw [List.length_append, List.length_singleton]
      omega
  refine ⟨by omega, ?_⟩
  cases hreplies : pc.replies with
  | true =>
    left
    cases pc with
    | reply g last =>
      obtain ⟨rfl, hhonest⟩ := hinv.1
      exact ⟨g, rfl, hhonest⟩
    | _ => cases hreplies
  | false => exact Or.inr ⟨rfl, fun e' w' hnew => hinv.1.enabled hreplies C e' s' w' hnew⟩

end Send

section Removal

variable {U : Type} [UuidText U] [DecidableEq U]

/-! ## DeleteTransfer and RetireMailbox -/

/-- The store call of a delete goes through, or the transfer was gone before it. -/
def DeletesAll (id : String) (a : Act U) : Prop :=
  Gone id a.before.app.files.tables ∨
    (a.event.notRun = false ∧
      ((deleteTxn a.event.store.lost id).commit a.event.store.faults
        a.before.app.files.tables).1.isOk = true ∧
      readable a.event.store.lost (chunkRows id a.before.app.files.tables) =
        chunkRows id a.before.app.files.tables)

/-- The store call of a retirement goes through, or the queue was empty before it. -/
def PurgesAll (rid : RecipientId) (a : Act U) : Prop :=
  rowsOf rid a.before.app.queues.envelopes = [] ∨
    (a.event.notRun = false ∧
      ((purgeTxn rid).commit a.event.store.faults a.before.app.queues.envelopes).1.isOk = true)

namespace SocketPc

/-- The places of a delete behind its transaction. -/
def Deleted (r id : String) : SocketPc U → Prop
  | file (.delUncache _ _ .ret) r' id' _ | file (.delSlot _ _ .ret) r' id' _
  | file (.delBytes _ _ .ret) r' id' _ | file (.done (.deleted _)) r' id' _ => r' = r ∧ id' = id
  | reply _ _ => True
  | _ => False

/-- The places of a retirement behind its transaction. -/
def Purged (rid : RecipientId) : SocketPc U → Prop
  | retirePurge m q => m = rid ∧ q.Purges rid ∧ q.starts = false
  | retireRate m | retireOnline m | retireMark m => m = rid
  | reply _ _ => True
  | _ => False

/-- The transaction of a delete, run or not. -/
theorem delete_call {C : Crates} {e : RelayEvent U} {s s' : Socket} {r id : String}
    {pc' : SocketPc U} {w w' : Relay U}
    (hs : (file (.delTxn id .ret) r id 0 : SocketPc U).step C e s w = some (s', pc', w')) :
    pc'.Deleted r id ∧ (Gone id w'.app.files.tables ↔
      DeletesAll id ⟨file (.delTxn id .ret) r id 0, e, w, w'⟩) := by
  simp only [SocketPc.step] at hs
  by_cases hrun : e.notRun = true
  · simp only [hrun, Bool.true_and, FileTask.starts, if_true] at hs
    cases hs
    refine ⟨trivial, ?_⟩
    simp [DeletesAll, hrun]
  · have hno : e.notRun = false := by simpa using hrun
    simp only [hno, Bool.false_and, Bool.false_eq_true, if_false, FileTask.step] at hs
    rcases deletedTables_cases e.store.lost e.store.faults id w.app.files.tables with
      ⟨err, he⟩ | he
    · rw [he] at hs
      cases hs
      refine ⟨⟨rfl, rfl⟩, ?_⟩
      simp [DeletesAll, he, Except.isOk, Except.toBool]
    · have hgone := gone_deletedTables e.store.lost id w.app.files.tables
      have hempty : Gone id w.app.files.tables →
          readable e.store.lost (chunkRows id w.app.files.tables) =
            chunkRows id w.app.files.tables := by
        intro h
        exact List.sublist_nil.mp (h.2 ▸ readable_sublist e.store.lost _) |>.trans h.2.symm
      have hiff : DeletesAll id ⟨file (.delTxn id .ret) r id 0, e, w, w'⟩ ↔
          readable e.store.lost (chunkRows id w.app.files.tables) =
            chunkRows id w.app.files.tables := by
        unfold DeletesAll
        rw [he]
        constructor
        · rintro (h | ⟨_, _, h⟩)
          · exact hempty h
          · exact h
        · exact fun h => Or.inr ⟨hno, rfl, h⟩
      rw [he] at hs
      cases hm : (w.app.files.tables.fileMeta.get id) with
      | none =>
        simp only [hm, Option.map_none, Option.map_some] at hs
        cases hs
        exact ⟨⟨rfl, rfl⟩, hgone.trans hiff.symm⟩
      | some m =>
        simp only [hm, Option.map_some] at hs
        cases hs
        exact ⟨⟨rfl, rfl⟩, hgone.trans hiff.symm⟩

/-- What follows the transaction leaves the tables alone. -/
theorem Deleted.step {C : Crates} {e : RelayEvent U} {s s' : Socket} {r id : String}
    {pc pc' : SocketPc U} {w w' : Relay U} (h : pc.Deleted r id) (hr : pc.replies = false)
    (hs : pc.step C e s w = some (s', pc', w')) :
    pc'.Deleted r id ∧ w'.app.files.tables = w.app.files.tables := by
  cases pc with
  | reply f last => cases hr
  | file t r' id' i =>
    cases t with
    | delUncache _ _ k | delSlot _ _ k | delBytes _ _ k =>
      cases k with
      | sweep rest n => exact h.elim
      | ret =>
        simp only [SocketPc.step, FileTask.starts, Bool.and_false, Bool.false_eq_true, if_false,
          FileTask.step, Option.map_some] at hs
        cases hs
        exact ⟨h, rfl⟩
    | done res =>
      cases res with
      | deleted res =>
        cases hs
        exact ⟨trivial, rfl⟩
      | _ => exact h.elim
    | _ => exact h.elim
  | _ => exact h.elim

/-- The transaction of a retirement, run or not. -/
theorem retire_call {C : Crates} {e : RelayEvent U} {s s' : Socket} {rid : RecipientId}
    {pc' : SocketPc U} {w w' : Relay U}
    (hs : (retirePurge rid (.purgeTxn rid) : SocketPc U).step C e s w = some (s', pc', w')) :
    pc'.Purged rid ∧ w'.app.mailboxAuth = w.app.mailboxAuth ∧
      (rowsOf rid w'.app.queues.envelopes = [] ↔
        PurgesAll rid ⟨retirePurge rid (.purgeTxn rid), e, w, w'⟩) := by
  obtain ⟨⟨pc1, w1⟩, hstep, heq⟩ := Option.map_eq_some_iff.mp hs
  cases heq
  rcases queueStep_cases hstep with ⟨res, hres, _, _⟩ | ⟨_, hrun, rfl, rfl⟩ |
    ⟨q', st, hst, rfl, rfl⟩
  · cases hres
  · refine ⟨rfl, rfl, ?_⟩
    simp [PurgesAll, hrun]
  · have hno : e.notRun = false := by
      by_contra hrun
      simp only [queueStep, QueueTask.starts, Bool.and_true] at hstep
      rw [if_pos (by simpa using hrun)] at hstep
      cases hstep
    simp only [QueueTask.step] at hst
    rcases rowsOf_purge rid e.store.faults w.app.queues.envelopes with ⟨err, he⟩ | ⟨res, he, hrows⟩
    · rw [he] at hst
      cases hst
      refine ⟨⟨rfl, trivial, rfl⟩, rfl, ?_⟩
      simp [PurgesAll, he, Except.isOk, Except.toBool]
    · have hgood : ∀ w₂, PurgesAll rid ⟨retirePurge rid (.purgeTxn rid), e, w, w₂⟩ :=
        fun _ => Or.inr ⟨hno, by rw [he]; rfl⟩
      generalize (purgeTxn rid).commit e.store.faults w.app.queues.envelopes = r at he hrows hst
      obtain ⟨ret, t⟩ := r
      obtain rfl : ret = .ok res := he
      cases hst
      exact ⟨⟨rfl, rfl, rfl⟩, rfl, iff_of_true hrows (hgood _)⟩

/-- What follows the transaction leaves the queues alone. -/
theorem Purged.step {C : Crates} {e : RelayEvent U} {s s' : Socket} {rid : RecipientId}
    {pc pc' : SocketPc U} {w w' : Relay U} (h : pc.Purged rid) (hr : pc.replies = false)
    (hs : pc.step C e s w = some (s', pc', w')) :
    pc'.Purged rid ∧ w'.app.mailboxAuth = w.app.mailboxAuth ∧
      w'.app.queues.envelopes = w.app.queues.envelopes := by
  cases pc with
  | reply f last => cases hr
  | retirePurge m q =>
    obtain ⟨rfl, hq, hstarts⟩ := h
    obtain ⟨⟨pc1, w1⟩, hstep, heq⟩ := Option.map_eq_some_iff.mp hs
    cases heq
    rcases queueStep_cases hstep with ⟨res, rfl, rfl, rfl⟩ | ⟨hstart, _, _, _⟩ |
      ⟨q', st, hst, rfl, rfl⟩
    · exact ⟨rfl, rfl, rfl⟩
    · rw [hstarts] at hstart
      cases hstart
    · have hcall := QueueTask.stepped_of_call (fun n hn => by subst hn; cases hstarts) hst
      have hquiet : q.transacts = false := by
        cases q <;> first | rfl | exact hq.elim | cases hstarts
      refine ⟨⟨rfl, hcall.purges hq, ?_⟩, rfl, hcall.sameRows hquiet⟩
      cases hcall <;> rfl
  | retireRate m =>
    cases hs
    exact ⟨h, rfl, rfl⟩
  | retireOnline m =>
    cases hs
    exact ⟨h, rfl, rfl⟩
  | retireMark m =>
    cases hs
    exact ⟨trivial, rfl, rfl⟩
  | _ => exact h.elim

end SocketPc

/-- **Confirmations of removal.** A handler that runs alone makes one store call before it
    confirms a removal. When it confirms, the transfer is gone from disk exactly if that
    call ran, committed and read every chunk, or the transfer was gone already; a retired
    mailbox is unregistered and its queue is empty exactly if the call ran and committed,
    or the queue was empty already. -/
theorem removal_honest_iff (C : Crates) (e : RelayEvent U) (s : Socket) (w : Relay U) :
    (∀ (r id r' id' : String) (l : List (Act U)) (s' : Socket) (last : Bool) (w' : Relay U),
      Alone C s (SocketPc.handle C e s w (.deleteTransfer r id)).1
          (SocketPc.handle C e s w (.deleteTransfer r id)).2 l s'
          (.reply (.transferDeleted r' id') last) w' →
        ∃ a ∈ l, a.pc = .file (.delTxn id .ret) r id 0 ∧
          (Gone id w'.app.files.tables ↔ DeletesAll id a)) ∧
    (∀ (rid : RecipientId) (n : Nat) (l : List (Act U)) (s' : Socket) (last : Bool) (w' : Relay U),
      s.recipientId = some rid →
      Alone C s (SocketPc.handle C e s w .retireMailbox).1
          (SocketPc.handle C e s w .retireMailbox).2 l s' (.reply (.ackOk n) last) w' →
        ∃ a ∈ l, a.pc = .retirePurge rid (.purgeTxn rid) ∧
          ((w'.app.mailboxAuth.get rid = none ∧ rowsOf rid w'.app.queues.envelopes = []) ↔
            PurgesAll rid a)) := by
  constructor
  · intro r id r' id' l s' last w' h
    by_cases hid : validBundleId id = true
    · have hpc : SocketPc.handle C e s w (.deleteTransfer r id) =
          (.file (.delTxn id .ret) r id 0, w) := by
        simp [SocketPc.handle, hid]
      rw [hpc] at h
      have hend := h.calls (k := .file (.delTxn id .ret) r id 0)
        (P := fun pc _ => pc = .file (.delTxn id .ret) r id 0)
        (Q := fun pc _ => pc.Deleted r id) (D := fun w => Gone id w.app.files.tables)
        (A := DeletesAll id) rfl (fun hpre hne => absurd hpre hne)
        (fun _ hs => SocketPc.delete_call hs) (fun hpost hr hs => by
          obtain ⟨hpost', hsame⟩ := hpost.step hr hs
          exact ⟨hpost', by rw [hsame]⟩)
      rcases hend with hpre | ⟨_, hcall⟩
      · cases hpre
      · exact hcall
    · have hpc : (SocketPc.handle C e s w (.deleteTransfer r id)).1 =
          .reply (fileErr r id "bad_request" "invalid transfer id") false := by
        simp [SocketPc.handle, hid, SocketPc.refuseFile]
      rw [hpc] at h
      cases h.of_reply
  · intro rid n l s' last w' hrid h
    obtain ⟨hplace, hauth⟩ : ((SocketPc.handle C e s w .retireMailbox).1 = .retireCount rid ∨
          (SocketPc.handle C e s w .retireMailbox).1 = .retirePurge rid (.purgeTxn rid)) ∧
        (SocketPc.handle C e s w .retireMailbox).2.app.mailboxAuth.get rid = none := by
      simp only [SocketPc.handle, hrid]
      split_ifs with hsome
      · exact ⟨Or.inl rfl, (OrdMap.get_erase _ _ _).trans (if_pos rfl)⟩
      · exact ⟨Or.inr rfl, by simpa using hsome⟩
    have hend := h.calls (k := .retirePurge rid (.purgeTxn rid))
      (P := fun pc w => (pc = .retireCount rid ∨ pc = .retirePurge rid (.purgeTxn rid)) ∧
        w.app.mailboxAuth.get rid = none)
      (Q := fun pc w => pc.Purged rid ∧ w.app.mailboxAuth.get rid = none)
      (D := fun w => w.app.mailboxAuth.get rid = none ∧ rowsOf rid w.app.queues.envelopes = [])
      (A := PurgesAll rid) ⟨hplace, hauth⟩
      (fun hpre hne hs => by
        obtain ⟨rfl | rfl, hnone⟩ := hpre
        · cases hs
          exact ⟨Or.inr rfl, hnone⟩
        · exact absurd rfl hne)
      (fun hpre hs => by
        obtain ⟨hpost, hsame, hiff⟩ := SocketPc.retire_call hs
        have hnone := hpre.2
        rw [← hsame] at hnone
        exact ⟨⟨hpost, hnone⟩, (and_iff_right hnone).trans hiff⟩)
      (fun hpost hr hs => by
        obtain ⟨hpost', hsame, hrows⟩ := hpost.1.step hr hs
        rw [hsame, hrows]
        exact ⟨⟨hpost', hpost.2⟩, Iff.rfl⟩)
    rcases hend with hpre | ⟨_, hcall⟩
    · rcases hpre.1 with hpc | hpc <;> cases hpc
    · exact hcall

end Removal

section Samples

/-- A relay with mailbox and transfer of the samples, and nobody connected but socket 0. -/
def storedRelay : Relay Nat :=
  { app := { AppState.sampleState with
      files := (FileStore.call sampleCreate sampleOpened).2
      mailboxAuth := OrdMap.empty.insert AppState.sampleRid
        (MailboxAuth.new 0 (tokenHash sampleCrates "receive_secret_alice_01")
          (tokenHash sampleCrates "delivery_secret_alice_01")) }
    chans := [Chan.new]
    issued := [] }

def storedSocket : Socket := ⟨0, some AppState.sampleRid, 0, 0⟩

/-- A step at which nothing fails; `notRun` says whether a blocking call is dropped. -/
def calmEvent (notRun : Bool) : RelayEvent Nat := ⟨⟨0, [], [], 0⟩, .other, 7, notRun, .error ""⟩

def sampleDelete : ClientFrame Nat := .deleteTransfer "r" sampleTransfer.1

/-- The store call of a DeleteTransfer is never run: the transfer is confirmed deleted
    and still there. -/
theorem delete_confirmed_undone :
    ¬∀ (e : RelayEvent Nat) (s s' : Socket) (w w' : Relay Nat) (r id : String) (l : List (Act Nat)),
      Alone sampleCrates s (SocketPc.handle sampleCrates e s w (.deleteTransfer r id)).1
        (SocketPc.handle sampleCrates e s w (.deleteTransfer r id)).2 l s'
        (.reply (.transferDeleted r id) false) w' → Gone id w'.app.files.tables := by
  intro hall
  have hrun : Alone sampleCrates storedSocket
      (SocketPc.handle sampleCrates (calmEvent false) storedSocket storedRelay sampleDelete).1
      (SocketPc.handle sampleCrates (calmEvent false) storedSocket storedRelay sampleDelete).2 _ _
      (.reply (.transferDeleted "r" sampleTransfer.1) false) _ :=
    alone_of_run [calmEvent true] .start rfl
  have hgone := (hall _ _ _ _ _ _ _ _ hrun).1
  revert hgone
  decide

/-- A delete and a retirement whose calls go through. -/
theorem removal_honest_sample :
    (∃ (l : List (Act Nat)) (w' : Relay Nat), ∃ a ∈ l,
      a.pc = .file (.delTxn sampleTransfer.1 .ret) "r" sampleTransfer.1 0 ∧
        (Gone sampleTransfer.1 w'.app.files.tables ↔ DeletesAll sampleTransfer.1 a)) ∧
    ∃ (l : List (Act Nat)) (w' : Relay Nat), ∃ a ∈ l,
      a.pc = .retirePurge AppState.sampleRid (.purgeTxn AppState.sampleRid) ∧
        ((w'.app.mailboxAuth.get AppState.sampleRid = none ∧
          rowsOf AppState.sampleRid w'.app.queues.envelopes = []) ↔
            PurgesAll AppState.sampleRid a) := by
  obtain ⟨hdelete, hretire⟩ :=
    removal_honest_iff sampleCrates (calmEvent false) storedSocket storedRelay
  have hdeleted : Alone sampleCrates storedSocket
      (SocketPc.handle sampleCrates (calmEvent false) storedSocket storedRelay sampleDelete).1
      (SocketPc.handle sampleCrates (calmEvent false) storedSocket storedRelay sampleDelete).2 _ _
      (.reply (.transferDeleted "r" sampleTransfer.1) false) _ :=
    alone_of_run (List.replicate 5 (calmEvent false)) .start rfl
  have hretired : Alone sampleCrates storedSocket
      (SocketPc.handle sampleCrates (calmEvent false) storedSocket storedRelay .retireMailbox).1
      (SocketPc.handle sampleCrates (calmEvent false) storedSocket storedRelay .retireMailbox).2 _ _
      (.reply (.ackOk 0) true) _ :=
    alone_of_run (List.replicate 8 (calmEvent false)) .start rfl
  exact ⟨⟨_, _, hdelete _ _ _ _ _ _ _ _ hdeleted⟩, ⟨_, _, hretire _ _ _ _ _ _ rfl hretired⟩⟩

/-- An envelope is queued for a mailbox that is not connected. -/
theorem send_reply_honest_sample : ∃ (l : List (Act Nat)), l.length ≤ 13 ∧
    Honest none AppState.sampleRid "message" "hi" (⟨.ready, calmEvent false, storedRelay,
      (SocketPc.handle sampleCrates (calmEvent false) storedSocket storedRelay sampleSend).2⟩ :: l)
      (.sendOk 7 true none) := by
  have hsent : Alone sampleCrates storedSocket
      (SocketPc.handle sampleCrates (calmEvent false) storedSocket storedRelay sampleSend).1
      (SocketPc.handle sampleCrates (calmEvent false) storedSocket storedRelay sampleSend).2 _ _
      (.reply (.sendOk 7 true none) false) _ :=
    alone_of_run (List.replicate 11 (calmEvent false)) .start rfl
  obtain ⟨hle, hend⟩ := send_reply_honest hsent.handling
  refine ⟨_, hle, ?_⟩
  rcases hend with ⟨g, hg, hhonest⟩ | ⟨hno, _⟩
  · cases hg
    exact hhonest
  · cases hno

end Samples

end AxenoRelay
