/-
  The release-notification check of `update_check.rs`.

  A run of the check is the list of what it does, given how each of its requests went: the
  requests and the comparison of versions are calls into `reqwest` and `semver`, so the reply
  to a request is free and the order of versions a parameter. The log lines are left out, but
  for the notification itself. `update_check_policy` is the policy of the module's header: no
  request goes to the clearnet that was not asked for, requests keep their distance, and a
  release is announced exactly if it was fetched and is newer.
-/
import AxenoRelay.Util
import Mathlib.Tactic

namespace AxenoRelay

namespace UpdateCheck

/-- `CARGO_PKG_VERSION`. -/
def current : String := "0.1.9"

/-- Seconds between two checks. -/
def checkInterval : Nat := 24 * 60 * 60

/-- Seconds before the first check. -/
def initialDelay : Nat := 2 * 60

/-- Seconds after a check that failed. -/
def retryInterval : Nat := 30 * 60

inductive Mode where
  | default
  | enabled
  | disabled
  deriving DecidableEq, Repr

/-- `str::to_ascii_lowercase`. -/
def toAsciiLowercase (s : String) : String := String.ofList (s.toList.map Char.toLower)

def mode (env : String → Option String) : Mode :=
  match env "AXENO_UPDATE_CHECK" with
  | none => .default
  | some v =>
    if toAsciiLowercase (trim v) ∈ ["1", "true", "yes", "on"] then .enabled
    -- "0", "false", "no", "off" and the empty text, and with a warning any other
    else .disabled

example : mode (fun _ => some " Yes\n") = .enabled := by decide +kernel
example : mode (fun _ => some "tor") = .disabled := by decide +kernel

/-- `spawn`: the SOCKS port for the requests of the background task, if one is started. -/
def spawn (env : String → Option String) (torSocksPort : Option Nat) : Option (Option Nat) :=
  match mode env with
  | .disabled => none
  | .default => torSocksPort.map some
  | .enabled => some torSocksPort

structure Release where
  tagName : String
  htmlUrl : String
  deriving DecidableEq, Repr

/-- How one request goes: there is no client for it, it gets no response, or the response has
    a status and a body, which may not be that of a release. -/
inductive Reply where
  | noClient
  | unsent
  | answered (status : Nat) (body : Option Release)

/-- `trim_start_matches('v')`. -/
def trimV (s : String) : String := String.ofList (s.toList.dropWhile (· = 'v'))

/-- `StatusCode::is_success`. -/
def IsSuccess (status : Nat) : Prop := 200 ≤ status ∧ status < 300

instance (status : Nat) : Decidable (IsSuccess status) := inferInstanceAs (Decidable (_ ∧ _))

section

variable {V : Type} [LT V] [DecidableLT V] (parse : String → Option V)

def checkOnce : Reply → Except Unit (Option Release)
  | .noClient | .unsent => .error ()
  | .answered status body =>
    if IsSuccess status then
      match body with
      | none => .error ()
      | some release =>
        match parse current, parse (trimV release.tagName) with
        | none, _ => .error ()
        | some cur, some latest => if cur < latest then .ok (some release) else .ok none
        | some _, none => .ok none
    else .error ()

/-- What the background task does: it sleeps for some seconds, sends a request through a SOCKS
    port or without one, or announces a release. -/
inductive Deed where
  | sleep (secs : Nat)
  | request (proxy : Option Nat)
  | notify (release : Release)

/-- One pass of the loop of `spawn`. -/
def pass (proxy : Option Nat) (reply : Reply) : List Deed :=
  (match reply with
    | .noClient => []
    | _ => [.request proxy]) ++
  match checkOnce parse reply with
  | .ok (some release) => [.notify release, .sleep checkInterval]
  | .ok none => [.sleep checkInterval]
  | .error () => [.sleep retryInterval]

/-- What the check does, if its requests go as in `replies`. -/
def deeds (env : String → Option String) (torSocksPort : Option Nat) (replies : List Reply) :
    List Deed :=
  match spawn env torSocksPort with
  | none => []
  | some proxy => .sleep initialDelay :: replies.flatMap (pass parse proxy)

end

/-! ## Who may be asked -/

/-- The operator turned the check on. -/
def OptedIn (env : String → Option String) : Prop :=
  ∃ v, env "AXENO_UPDATE_CHECK" = some v ∧ toAsciiLowercase (trim v) ∈ ["1", "true", "yes", "on"]

theorem mode_eq_enabled {env : String → Option String} : mode env = .enabled ↔ OptedIn env := by
  unfold mode OptedIn
  cases henv : env "AXENO_UPDATE_CHECK" with
  | none => simp
  | some v =>
    dsimp only
    split_ifs with hv
    · exact ⟨fun _ => ⟨v, rfl, hv⟩, fun _ => rfl⟩
    · refine ⟨fun h => (nomatch h), ?_⟩
      rintro ⟨w, hw, hon⟩
      cases hw
      exact absurd hon hv

theorem mode_eq_default {env : String → Option String} :
    mode env = .default ↔ env "AXENO_UPDATE_CHECK" = none := by
  unfold mode
  cases env "AXENO_UPDATE_CHECK" with
  | none => simp
  | some v =>
    dsimp only
    split_ifs <;> simp

/-- The task uses the port there is, and without one it runs only if it was turned on. -/
theorem spawn_eq_some {env : String → Option String} {port proxy : Option Nat} :
    spawn env port = some proxy ↔
      proxy = port ∧ (OptedIn env ∨ env "AXENO_UPDATE_CHECK" = none ∧ port ≠ none) := by
  rw [← mode_eq_enabled, ← mode_eq_default]
  unfold spawn
  cases hmode : mode env with
  | default => cases port <;> simp [eq_comm]
  | enabled => simp [eq_comm]
  | disabled => simp

/-! ## One pass -/

section

variable {V : Type} [LT V] [DecidableLT V] {parse : String → Option V}

/-- `release` was fetched, and its version is newer than the one that runs. -/
def Announces (parse : String → Option V) (release : Release) : Reply → Prop
  | .answered status body => IsSuccess status ∧ body = some release ∧
      ∃ cur latest, parse current = some cur ∧ parse (trimV release.tagName) = some latest ∧
        cur < latest
  | _ => False

theorem checkOnce_eq_some {reply : Reply} {release : Release} :
    checkOnce parse reply = .ok (some release) ↔ Announces parse release reply := by
  cases reply with
  | noClient => simp [checkOnce, Announces]
  | unsent => simp [checkOnce, Announces]
  | answered status body =>
    unfold checkOnce Announces
    dsimp only
    by_cases hok : IsSuccess status
    · rw [if_pos hok]
      cases body with
      | none => simp
      | some found =>
        dsimp only
        by_cases heq : found = release
        · subst heq
          cases hcur : parse current with
          | none => simp
          | some cur =>
            cases hlatest : parse (trimV found.tagName) with
            | none => simp
            | some latest =>
              dsimp only
              split_ifs with hlt
              · simp [hok, hlt]
              · simp [hlt]
        · refine ⟨fun h => ?_, fun h => absurd (Option.some.inj h.2.1) heq⟩
          split at h
          · cases h
          · split_ifs at h
            · cases h
              exact absurd rfl heq
            · cases h
          · cases h
    · rw [if_neg hok]
      simp [hok]

/-- A pass ends asleep, after at most one request, which goes to `proxy`. -/
theorem pass_cases (parse : String → Option V) (proxy : Option Nat) (reply : Reply) :
    ∃ asked told secs, pass parse proxy reply = asked ++ told ++ [.sleep secs] ∧
      retryInterval ≤ secs ∧ (asked = [] ∨ asked = [.request proxy]) ∧
      (told = [] ∧ (∀ release, ¬Announces parse release reply) ∨
        ∃ release, told = [.notify release] ∧ Announces parse release reply) := by
  have hasked : ∃ asked : List Deed, (asked = [] ∨ asked = [.request proxy]) ∧
      (match reply with
        | .noClient => []
        | _ => [.request proxy]) = asked := by
    cases reply with
    | noClient => exact ⟨_, Or.inl rfl, rfl⟩
    | unsent => exact ⟨_, Or.inr rfl, rfl⟩
    | answered status body => exact ⟨_, Or.inr rfl, rfl⟩
  obtain ⟨asked, hcases, heq⟩ := hasked
  unfold pass
  rw [heq]
  have hle : retryInterval ≤ checkInterval := by decide
  cases hcheck : checkOnce parse reply with
  | error _ =>
    refine ⟨asked, [], retryInterval, by simp, le_refl _, hcases, Or.inl ⟨rfl, fun release h => ?_⟩⟩
    rw [checkOnce_eq_some.mpr h] at hcheck
    cases hcheck
  | ok found =>
    cases found with
    | none =>
      refine ⟨asked, [], checkInterval, by simp, hle, hcases, Or.inl ⟨rfl, fun release h => ?_⟩⟩
      rw [checkOnce_eq_some.mpr h] at hcheck
      cases hcheck
    | some release =>
      exact ⟨asked, [.notify release], checkInterval, by simp, hle, hcases,
        Or.inr ⟨release, rfl, checkOnce_eq_some.mp hcheck⟩⟩

theorem request_of_mem_pass {proxy p : Option Nat} {reply : Reply}
    (h : .request p ∈ pass parse proxy reply) : p = proxy := by
  obtain ⟨asked, told, secs, heq, -, hasked, htold⟩ := pass_cases parse proxy reply
  have hmem : Deed.request p ∈ asked := by
    rw [heq] at h
    rcases htold with ⟨rfl, -⟩ | ⟨r, rfl, -⟩ <;> simpa using h
  rcases hasked with rfl | rfl
  · exact absurd hmem List.not_mem_nil
  · cases List.mem_singleton.mp hmem
    rfl

theorem notify_mem_pass {proxy : Option Nat} {reply : Reply} {release : Release} :
    .notify release ∈ pass parse proxy reply ↔ Announces parse release reply := by
  obtain ⟨asked, told, secs, heq, -, hasked, htold⟩ := pass_cases parse proxy reply
  have hmem : Deed.notify release ∈ pass parse proxy reply ↔ Deed.notify release ∈ told := by
    rw [heq]
    rcases hasked with rfl | rfl <;> simp
  rw [hmem]
  rcases htold with ⟨rfl, hnone⟩ | ⟨r, rfl, hr⟩
  · exact ⟨fun h => absurd h List.not_mem_nil, fun h => absurd h (hnone release)⟩
  · rw [List.mem_singleton]
    constructor
    · intro h
      cases h
      exact hr
    · intro h
      have hsame := (checkOnce_eq_some.mpr hr).symm.trans (checkOnce_eq_some.mpr h)
      cases hsame
      rfl

/-! ## How often -/

def Deed.isRequest : Deed → Bool
  | request _ => true
  | _ => false

def Deed.secs : Deed → Nat
  | sleep secs => secs
  | _ => 0

/-- The requests sent so far. -/
def requests (l : List Deed) : Nat := l.countP Deed.isRequest

/-- The seconds slept so far. -/
def elapsed (l : List Deed) : Nat := (l.map Deed.secs).sum

theorem requests_append (l l' : List Deed) : requests (l ++ l') = requests l + requests l' :=
  List.countP_append

theorem elapsed_append (l l' : List Deed) : elapsed (l ++ l') = elapsed l + elapsed l' := by
  unfold elapsed
  rw [List.map_append, List.sum_append]

theorem pass_cost (parse : String → Option V) (proxy : Option Nat) (reply : Reply) :
    requests (pass parse proxy reply) ≤ 1 ∧ retryInterval ≤ elapsed (pass parse proxy reply) := by
  obtain ⟨asked, told, secs, heq, hsecs, hasked, htold⟩ := pass_cases parse proxy reply
  rw [heq, requests_append, requests_append, elapsed_append]
  have hasked' : requests asked ≤ 1 := by
    rcases hasked with rfl | rfl
    · exact Nat.zero_le 1
    · exact le_refl 1
  have htold' : requests told = 0 := by rcases htold with ⟨rfl, -⟩ | ⟨r, rfl, -⟩ <;> rfl
  have hlast : requests [.sleep secs] = 0 ∧ elapsed [.sleep secs] = secs := ⟨rfl, rfl⟩
  omega

/-- At any point of the loop the requests but the last have been waited for. -/
theorem requests_le (proxy : Option Nat) (replies : List Reply) {l : List Deed}
    (h : l <+: replies.flatMap (pass parse proxy)) :
    requests l * retryInterval ≤ elapsed l + retryInterval := by
  induction replies generalizing l with
  | nil =>
    obtain rfl := List.prefix_nil.mp h
    exact Nat.zero_le _
  | cons reply replies ih =>
    rw [List.flatMap_cons] at h
    obtain ⟨hone, hslept⟩ := pass_cost parse proxy reply
    rcases List.prefix_or_prefix_of_prefix h (List.prefix_append _ _) with hin | ⟨l', rfl⟩
    · -- still in the first pass
      have hle : requests l ≤ 1 := (hin.sublist.countP_le).trans hone
      calc requests l * retryInterval ≤ 1 * retryInterval := Nat.mul_le_mul_right _ hle
        _ = retryInterval := Nat.one_mul _
        _ ≤ elapsed l + retryInterval := Nat.le_add_left _ _
    · have hrest := ih ((List.prefix_append_right_inj _).mp h)
      rw [requests_append, elapsed_append, Nat.add_mul]
      have hfirst : requests (pass parse proxy reply) * retryInterval ≤ retryInterval := by
        simpa using Nat.mul_le_mul_right retryInterval hone
      omega

/-! ## A whole run -/

variable {env : String → Option String} {port : Option Nat} {replies : List Reply}

theorem deeds_of_spawn_none (h : spawn env port = none) : deeds parse env port replies = [] := by
  rw [deeds, h]

theorem deeds_of_spawn_some {proxy : Option Nat} (h : spawn env port = some proxy) :
    deeds parse env port replies =
      .sleep initialDelay :: replies.flatMap (pass parse proxy) := by
  rw [deeds, h]

/-- The check does nothing at all unless it was turned on, or left alone with a port there. -/
theorem deeds_ne_nil : deeds parse env port replies ≠ [] ↔
    OptedIn env ∨ env "AXENO_UPDATE_CHECK" = none ∧ port ≠ none := by
  cases hspawn : spawn env port with
  | none =>
    rw [deeds_of_spawn_none hspawn]
    refine ⟨fun h => absurd rfl h, fun hon => ?_⟩
    rw [spawn_eq_some.mpr ⟨rfl, hon⟩] at hspawn
    cases hspawn
  | some proxy =>
    rw [deeds_of_spawn_some hspawn]
    exact ⟨fun _ => (spawn_eq_some.mp hspawn).2, fun _ => List.cons_ne_nil _ _⟩

theorem request_of_mem_deeds {proxy : Option Nat}
    (h : .request proxy ∈ deeds parse env port replies) :
    proxy = port ∧ (proxy = none → OptedIn env) := by
  cases hspawn : spawn env port with
  | none =>
    rw [deeds_of_spawn_none hspawn] at h
    exact absurd h List.not_mem_nil
  | some p =>
    obtain ⟨rfl, hon⟩ := spawn_eq_some.mp hspawn
    rw [deeds_of_spawn_some hspawn, List.mem_cons, List.mem_flatMap] at h
    rcases h with h | ⟨reply, -, h⟩
    · cases h
    · obtain rfl := request_of_mem_pass h
      exact ⟨rfl, fun hnone => hon.resolve_right fun hport => hport.2 hnone⟩

theorem elapsed_of_prefix {l : List Deed} (h : l <+: deeds parse env port replies)
    (hpos : 0 < requests l) : initialDelay + (requests l - 1) * retryInterval ≤ elapsed l := by
  cases l with
  | nil => exact absurd hpos (Nat.lt_irrefl 0)
  | cons d l =>
    cases hspawn : spawn env port with
    | none =>
      rw [deeds_of_spawn_none hspawn] at h
      cases List.prefix_nil.mp h
    | some proxy =>
      rw [deeds_of_spawn_some hspawn] at h
      obtain ⟨rfl, hloop⟩ := List.cons_prefix_cons.mp h
      have hle := requests_le proxy replies hloop
      have hfirst : requests (.sleep initialDelay :: l) = requests l := rfl
      have hslept : elapsed (.sleep initialDelay :: l) = initialDelay + elapsed l := rfl
      rw [hfirst] at hpos
      rw [hfirst, hslept, Nat.sub_mul, Nat.one_mul]
      omega

theorem notify_mem_deeds {release : Release} : .notify release ∈ deeds parse env port replies ↔
    deeds parse env port replies ≠ [] ∧ ∃ reply ∈ replies, Announces parse release reply := by
  cases hspawn : spawn env port with
  | none =>
    rw [deeds_of_spawn_none hspawn]
    exact ⟨fun h => absurd h List.not_mem_nil, fun h => absurd rfl h.1⟩
  | some proxy =>
    rw [deeds_of_spawn_some hspawn, List.mem_cons, List.mem_flatMap]
    constructor
    · rintro (h | ⟨reply, hreply, h⟩)
      · cases h
      · exact ⟨List.cons_ne_nil _ _, reply, hreply, notify_mem_pass.mp h⟩
    · rintro ⟨-, reply, hreply, h⟩
      exact Or.inr ⟨reply, hreply, notify_mem_pass.mpr h⟩

end

end UpdateCheck

end AxenoRelay
