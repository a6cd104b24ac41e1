/-
  Registrations of mailboxes, and the steps that begin and end them.

  `AuthEdit` lists how a step of a task can touch `mailbox_auth`: an accepted Hello, a
  new allowlist, a lease refreshed by a sender, a retirement, or a collection. No step
  changes the receive hash of a registered mailbox, so a registration is the time from
  the Hello that inserted the record to the step that removed it; `epoch` counts the
  registrations of a mailbox that have ended.
-/
import AxenoRelay.Ws.Moves

namespace AxenoRelay

open Interleave

/-! ## Records -/

theorem MailboxAuth.ensureDeliveryHash_receiveAuthHash (a : MailboxAuth) (hash : String) :
    (a.ensureDeliveryHash hash).2.receiveAuthHash = a.receiveAuthHash := by
  unfold MailboxAuth.ensureDeliveryHash
  dsimp only
  split_ifs <;> rfl

/-- The record an accepted Hello leaves has the hash of its token. -/
theorem SocketPc.helloEntry_auth {C : Crates} {now : Nat} {rid auth delivery : String}
    {pow : Option String} {st st' : AppState}
    (h : SocketPc.helloEntry C now rid auth delivery pow st = .ok st') :
    ∃ a, a.receiveAuthHash = auth ∧ st'.mailboxAuth = st.mailboxAuth.insert rid a ∧
      ∀ b, st.mailboxAuth.get rid = some b → b.receiveAuthHash = auth := by
  unfold SocketPc.helloEntry at h
  cases hget : st.mailboxAuth.get rid with
  | some b =>
    simp only [hget] at h
    split_ifs at h with heq
    cases h
    have hb : b.receiveAuthHash = auth := by simpa [ctEq_iff] using heq
    refine ⟨_, ?_, rfl, fun c hc => ?_⟩
    · rw [MailboxAuth.ensureDeliveryHash_receiveAuthHash]
      exact hb
    · rw [← Option.some.inj hc]
      exact hb
  | none =>
    simp only [hget, AppState.reserveMailboxSlot] at h
    split_ifs at h
    cases h
    exact ⟨_, rfl, rfl, fun b hb => by cases hb⟩

/-! ## One step -/

section

variable {U : Type}

/-- How a step of a task touches the records. -/
inductive AuthEdit (C : Crates) (e : RelayEvent U) : RelayTask U → RelayTask U →
    OrdMap RecipientId MailboxAuth → OrdMap RecipientId MailboxAuth → Prop
  | same (t t' : RelayTask U) (m : OrdMap RecipientId MailboxAuth) : AuthEdit C e t t' m m
  | hello (s s' : Socket) (n : Nat) (rid token delivery : String)
      (pmin pmax version : Option Nat) (pow : Option String) (selected : Nat) (certOnly : Bool)
      (a : MailboxAuth) (m : OrdMap RecipientId MailboxAuth)
      (hin : e.incoming = .text n (.ok (.hello rid token delivery pmin pmax version pow certOnly)))
      (ha : a.receiveAuthHash = tokenHash C token)
      (hold : ∀ b, m.get rid = some b → b.receiveAuthHash = tokenHash C token) :
      AuthEdit C e (.socket s .ready) (.socket s' (.helloMark rid selected certOnly)) m
        (m.insert rid a)
  | tokens (s s' : Socket) (n : Nat) (rid requestId : String) (tokens : List String)
      (f : ServerFrame U) (a b : MailboxAuth) (m : OrdMap RecipientId MailboxAuth)
      (hin : e.incoming = .text n (.ok (.setDeliveryTokens requestId tokens)))
      (hs : s.recipientId = some rid) (hold : m.get rid = some b)
      (ha : a.receiveAuthHash = b.receiveAuthHash) :
      AuthEdit C e (.socket s .ready) (.socket s' (.tokensMark rid f)) m (m.insert rid a)
  | send (s s' : Socket) (n : Nat) (r : Option String) (rid token ty ct : String)
      (a b : MailboxAuth) (m : OrdMap RecipientId MailboxAuth)
      (hin : e.incoming = .text n (.ok (.sendEnvelope r rid token ty ct)))
      (haccepts : b.acceptsDeliveryHash (tokenHash C token) = true) (hold : m.get rid = some b)
      (ha : a.receiveAuthHash = b.receiveAuthHash) :
      AuthEdit C e (.socket s .ready) (.socket s' (.sendRate r rid ty ct)) m (m.insert rid a)
  | retire (s s' : Socket) (n : Nat) (rid : RecipientId) (b : MailboxAuth)
      (m : OrdMap RecipientId MailboxAuth) (hin : e.incoming = .text n (.ok .retireMailbox))
      (hs : s.recipientId = some rid) (hold : m.get rid = some b) :
      AuthEdit C e (.socket s .ready) (.socket s' (.retireCount rid)) m (m.erase rid)
  | collected (now : Nat) (rid : RecipientId) (stale : List RecipientId) (b : MailboxAuth)
      (m : OrdMap RecipientId MailboxAuth) (hold : m.get rid = some b) :
      AuthEdit C e (.gc (.collect now (rid :: stale))) (.gc (.count now rid stale)) m
        (m.erase rid)

/-- A record after a step: the one before with the same hash, or a new one. -/
theorem AuthEdit.kept {C : Crates} {e : RelayEvent U} {t t' : RelayTask U}
    {m m' : OrdMap RecipientId MailboxAuth} (h : AuthEdit C e t t' m m') {rid : RecipientId}
    {a : MailboxAuth} (ha : m.get rid = some a) :
    m'.get rid = none ∨ ∃ a', m'.get rid = some a' ∧ a'.receiveAuthHash = a.receiveAuthHash := by
  have hins : ∀ (r : RecipientId) (b : MailboxAuth),
      (∀ c, m.get r = some c → b.receiveAuthHash = c.receiveAuthHash) →
      ∃ a', (m.insert r b).get rid = some a' ∧ a'.receiveAuthHash = a.receiveAuthHash := by
    intro r b hb
    rw [OrdMap.get_insert]
    split_ifs with hr
    · exact ⟨b, rfl, hb a (hr ▸ ha)⟩
    · exact ⟨a, ha, rfl⟩
  have herase : ∀ r : RecipientId, (m.erase r).get rid = none ∨
      ∃ a', (m.erase r).get rid = some a' ∧ a'.receiveAuthHash = a.receiveAuthHash := by
    intro r
    rw [OrdMap.get_erase]
    split_ifs
    · exact Or.inl rfl
    · exact Or.inr ⟨a, ha, rfl⟩
  cases h with
  | same => exact Or.inr ⟨a, ha, rfl⟩
  | hello _ _ _ r _ _ _ _ _ _ _ _ b _ _ hb hold =>
    exact Or.inr (hins r b fun c hc => hb.trans (hold c hc).symm)
  | tokens _ _ _ r _ _ _ b c _ _ _ hold hb =>
    exact Or.inr (hins r b fun c' hc => by rw [hb, Option.some.inj (hold.symm.trans hc)])
  | send _ _ _ _ r _ _ _ b c _ _ _ hold hb =>
    exact Or.inr (hins r b fun c' hc => by rw [hb, Option.some.inj (hold.symm.trans hc)])
  | retire _ _ _ r => exact herase r
  | collected _ r => exact herase r

/-- A record that a step changes was there before, unless a Hello was taken up. -/
theorem AuthEdit.changed {C : Crates} {e : RelayEvent U} {t t' : RelayTask U}
    {tab tab' : OrdMap RecipientId MailboxAuth} (h : AuthEdit C e t t' tab tab')
    {m : RecipientId} (hne : tab.get m ≠ tab'.get m) :
    (∃ a, tab.get m = some a) ∨ ∃ s n rid token delivery pmin pmax version pow certOnly,
      t = .socket s .ready ∧
        e.incoming = .text n (.ok (.hello rid token delivery pmin pmax version pow certOnly)) := by
  have hins : ∀ {rid : RecipientId} {a b : MailboxAuth}, tab.get rid = some b →
      tab.get m ≠ (tab.insert rid a).get m → ∃ a, tab.get m = some a := by
    intro rid a b hold hne
    rw [OrdMap.get_insert] at hne
    split_ifs at hne with hm
    · exact ⟨b, hm ▸ hold⟩
    · exact absurd rfl hne
  have herase : ∀ {rid : RecipientId} {b : MailboxAuth}, tab.get rid = some b →
      tab.get m ≠ (tab.erase rid).get m → ∃ a, tab.get m = some a := by
    intro rid b hold hne
    rw [OrdMap.get_erase] at hne
    split_ifs at hne with hm
    · exact ⟨b, hm ▸ hold⟩
    · exact absurd rfl hne
  cases h with
  | same => exact absurd rfl hne
  | hello s _ n rid token delivery pmin pmax version pow _ certOnly _ _ hin =>
    exact Or.inr ⟨s, n, rid, token, delivery, pmin, pmax, version, pow, certOnly, rfl, hin⟩
  | tokens _ _ _ _ _ _ _ _ _ _ _ _ hold => exact Or.inl (hins hold hne)
  | send _ _ _ _ _ _ _ _ _ _ _ _ _ hold => exact Or.inl (hins hold hne)
  | retire _ _ _ _ _ _ _ _ hold => exact Or.inl (herase hold hne)
  | collected _ _ _ _ _ hold => exact Or.inl (herase hold hne)

end

section

variable {U : Type} [UuidText U]

theorem SocketPc.Stepped.authEdit {C : Crates} {e : RelayEvent U} {s s' : Socket}
    {pc pc' : SocketPc U} {w w' : Relay U} (hs : SocketPc.Stepped C e s pc w s' pc' w') :
    AuthEdit C e (.socket s pc) (.socket s' pc') w.app.mailboxAuth w'.app.mailboxAuth := by
  cases hs
  case said =>
    rw [Relay.say_app]
    exact .same _ _ _
  case helloOk =>
    rw [Relay.say_app]
    exact .same _ _ _
  case pruned hp => cases PruneTask.stepped_of_step hp <;> exact .same _ _ _
  case hello hin hrid hentry hsame =>
    obtain ⟨a, ha, hmap, hold⟩ := SocketPc.helloEntry_auth hentry
    dsimp only
    rw [hmap]
    exact .hello s s' _ _ _ _ _ _ _ _ _ _ a _ hin ha hold
  case tokens auth _ _ _ _ hin hrid hget _ =>
    exact .tokens s s' _ _ _ _ _ _ auth _ hin hrid hget rfl
  case sendAuth auth hin haccepts _ hget _ =>
    exact .send s s' _ _ _ _ _ _ _ auth _ hin haccepts hget rfl
  case retire auth hin hrid hget _ => exact .retire s s' _ _ auth _ hin hrid hget
  all_goals exact .same _ _ _

theorem RelayTask.Stepped.authEdit {C : Crates} {e : RelayEvent U} {t t' : RelayTask U}
    {w w' : Relay U} (hs : t.Stepped C e w t' w') :
    AuthEdit C e t t' w.app.mailboxAuth w'.app.mailboxAuth := by
  cases hs with
  | socket s s' pc pc' w w' h => exact h.authEdit
  | flush f f' st w h => cases h <;> exact .same _ _ _
  | gc g g' st w h =>
    cases h
    case collected hget => exact .collected _ _ _ _ _ hget
    all_goals exact .same _ _ _
  | sweepQueues | sweepFiles => exact .same _ _ _

end

/-! ## Registrations that have ended -/

section

variable {U : Type} [UuidText U]

/-- A record after a move: the one before with the same hash, or none. -/
theorem Moved.record {C : Crates} {c c' : RelayConfig U} {mv : Move (RelayMove U)}
    (hm : Moved C c mv c') {m : RecipientId} {a : MailboxAuth}
    (ha : c.shared.app.mailboxAuth.get m = some a) :
    c'.shared.app.mailboxAuth.get m = none ∨
      ∃ a', c'.shared.app.mailboxAuth.get m = some a' ∧
        a'.receiveAuthHash = a.receiveAuthHash := by
  cases hm with
  | spawned ev t c w hs =>
    obtain ⟨n, happ⟩ := hs.app
    exact Or.inr ⟨a, by dsimp only; rw [happ]; exact ha, rfl⟩
  | wrote ev c w hs => exact Or.inr ⟨a, by dsimp only; rw [hs.app]; exact ha, rfl⟩
  | stepped i e t t' c w ht hs => exact hs.authEdit.kept ha

variable [DecidableEq U]

/-- Does this move end the registration of `m`? -/
def endsReg (C : Crates) (m : RecipientId) (c : RelayConfig U) (mv : Move (RelayMove U)) : Bool :=
  (c.shared.app.mailboxAuth.get m).isSome &&
    ((relayMachine C).next mv c).any fun c' => (c'.shared.app.mailboxAuth.get m).isNone

/-- How many registrations of `m` have ended. -/
def epoch (C : Crates) (m : RecipientId) : RelayPast U → Nat
  | [] => 0
  | (c, mv) :: h => epoch C m h + if endsReg C m c mv then 1 else 0

variable {C : Crates} {h : RelayPast U} {c c' : RelayConfig U} {mv : Move (RelayMove U)}

theorem epoch_le (m : RecipientId) : epoch C m h ≤ epoch C m ((c, mv) :: h) :=
  Nat.le_add_right _ _

/-- A mailbox that is registered after a move did not lose its registration by it. -/
theorem epoch_of_registered (hn : (relayMachine C).next mv c = some c') {m : RecipientId}
    {a : MailboxAuth} (ha : c'.shared.app.mailboxAuth.get m = some a) :
    epoch C m ((c, mv) :: h) = epoch C m h := by
  have hends : endsReg C m c mv = false := by
    simp only [endsReg, hn, ha, Option.any_some, Option.isNone_some, Bool.and_false]
  rw [epoch, hends, if_neg Bool.false_ne_true, Nat.add_zero]

/-- A registration that a move did not end goes on with the same hash. -/
theorem registered_of_epoch (hn : (relayMachine C).next mv c = some c') {m : RecipientId}
    {a : MailboxAuth} (ha : c.shared.app.mailboxAuth.get m = some a)
    (hsame : epoch C m ((c, mv) :: h) = epoch C m h) :
    ∃ a', c'.shared.app.mailboxAuth.get m = some a' ∧
      a'.receiveAuthHash = a.receiveAuthHash := by
  rcases (moved_of_next hn).record ha with hnone | hkept
  · have hends : endsReg C m c mv = true := by
      simp only [endsReg, hn, ha, hnone, Option.any_some, Option.isNone_none, Option.isSome_some,
        Bool.and_self]
    rw [epoch, hends, if_pos rfl] at hsame
    omega
  · exact hkept

end

end AxenoRelay
