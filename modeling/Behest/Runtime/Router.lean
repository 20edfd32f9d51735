import Mathlib.Data.Nat.Find
import Behest.Word.Overflow
import Behest.Core.Error

/-!
# The model router

`behest-runtime/src/router.rs`: a request is sent to a provider again while it fails with an
error that may pass, up to the attempts of the policy, and to the next provider of a chain when
it fails for good. A provider answers its calls one after the other; calls and sleeps are kept as
events.
-/

namespace Behest

/-- Retrying the same request may succeed. Source: `behest-core/src/error.rs:115–123`. -/
def ProviderError.isRetryable : ProviderError → Bool
  | rateLimited _ _ | timeout _ | overloaded _ | transport _ _ => true
  | _ => false

/-- The fields of the runtime policy that the router reads. Source: `policy.rs:250–253`. -/
structure RetryPolicy where
  retryOnProviderError : Bool := true
  maxRetries : Nat := 2

/-- The capabilities that the router compares. Source: `behest-core/src/capabilities.rs:11–25`. -/
structure ProviderCapabilities where
  chat : Bool
  chatStream : Bool
  toolCalling : Bool
  parallelToolCalls : Bool
  jsonSchemaOutput : Bool
  vision : Bool
  embeddings : Bool

/-- Source: `router.rs:195–206`. -/
def supportsCapabilities (available required : ProviderCapabilities) : Bool :=
  (!required.chat || available.chat)
    && (!required.chatStream || available.chatStream)
    && (!required.toolCalling || available.toolCalling)
    && (!required.parallelToolCalls || available.parallelToolCalls)
    && (!required.jsonSchemaOutput || available.jsonSchemaOutput)
    && (!required.vision || available.vision)
    && (!required.embeddings || available.embeddings)

variable {R : Type}

/-- A provider with the outcomes of its calls, by the number of calls before. -/
structure RoutedProvider (R : Type) where
  capabilities : ProviderCapabilities
  outcome : Nat → Except ProviderError R

/-- What the router does: a call with its outcome, or a sleep in milliseconds. -/
inductive RouteEvent (R : Type) where
  | attempted (id : String) (outcome : Except ProviderError R)
  | slept (millis : Nat)

/-- Source: `router.rs:21–24`. -/
structure ModelRouter (R : Type) where
  registry : String → Option (RoutedProvider R)
  policy : RetryPolicy

/-- The calls of a provider so far. -/
def routedCalls (id : String) (events : List (RouteEvent R)) : Nat :=
  events.countP fun
    | .attempted id' _ => id' == id
    | .slept _ => false

/-! ### Routing -/

namespace ModelRouter

/-- `100 * 2u64.pow(attempt as u32 - 1)`. Source: `router.rs:86–87`. -/
def backoffMillis (mode : Word.Overflow) (attempt : Nat) : Option Nat := do
  let exponent ← Word.sub mode Word.max32 (attempt % (Word.max32 + 1)) 1
  let power ← Word.pow mode Word.max64 2 exponent
  Word.mul mode Word.max64 100 power

/-- The attempts that are left; the result is `none` after a panic. Source: `router.rs:78–105`. -/
def attemptFrom (mode : Word.Overflow) (provider : RoutedProvider R) (id : String)
    (maxAttempts : Nat) : Nat → Nat → Option ProviderError → List (RouteEvent R) →
    Option (Except RuntimeError R) × List (RouteEvent R)
  | 0, _, lastError, events =>
      (some (.error (.provider (lastError.getD (.timeout id)))), events)
  | left + 1, attempt, _, events =>
      let outcome := provider.outcome (routedCalls id events)
      let events := events ++ [.attempted id outcome]
      match outcome with
      | .ok response => (some (.ok response), events)
      | .error e =>
          if !e.isRetryable || attempt == maxAttempts then
            (some (.error (.provider e)), events)
          else
            match backoffMillis mode attempt with
            | none => (none, events)
            | some millis =>
                attemptFrom mode provider id maxAttempts left (attempt + 1) (some e)
                  (events ++ [.slept millis])

section Route

variable (mode : Word.Overflow) (router : ModelRouter R)

/-- The provider with the capabilities required. Source: `router.rs:57–69`. -/
def select (id : String) (required : Option ProviderCapabilities) :
    Except RuntimeError (RoutedProvider R) :=
  match router.registry id with
  | none => .error (.providerNotFound id)
  | some provider =>
      if required.any fun r => !supportsCapabilities provider.capabilities r then
        .error (.providerNotFound ("provider " ++ id ++ " lacks required capabilities"))
      else .ok provider

/-- Source: `router.rs:51–106`. -/
def routeChat (id : String) (required : Option ProviderCapabilities)
    (events : List (RouteEvent R)) : Option (Except RuntimeError R) × List (RouteEvent R) :=
  match router.select id required with
  | .error e => (some (.error e), events)
  | .ok provider =>
      let maxAttempts :=
        if router.policy.retryOnProviderError then
          Word.add mode Word.max64 router.policy.maxRetries 1
        else some 1
      match maxAttempts with
      | none => (none, events)
      | some maxAttempts => attemptFrom mode provider id maxAttempts maxAttempts 1 none events

/-- The providers that are left. Source: `router.rs:125–139`. -/
def fallbackFrom (required : Option ProviderCapabilities) : List String → Option RuntimeError →
    List (RouteEvent R) → Option (Except RuntimeError R) × List (RouteEvent R)
  | [], lastError, events =>
      (some (.error (lastError.getD (.providerNotFound "no providers available"))), events)
  | id :: rest, _, events =>
      match routeChat mode router id required events with
      | (none, events) => (none, events)
      | (some (.ok response), events) => (some (.ok response), events)
      | (some (.error e), events) => fallbackFrom required rest (some e) events

/-- Source: `router.rs:117–140`. -/
def routeChatWithFallback (ids : List String) (required : Option ProviderCapabilities)
    (events : List (RouteEvent R)) : Option (Except RuntimeError R) × List (RouteEvent R) :=
  fallbackFrom mode router required ids none events

end Route

end ModelRouter

/-! ### What routing should do -/

/-- The outcome is an error that may pass. -/
def Retryable (outcome : Except ProviderError R) : Prop :=
  ∃ e, outcome = .error e ∧ e.isRetryable = true

/-- The most attempts that a policy allows. -/
def RetryPolicy.attempts (policy : RetryPolicy) : Nat :=
  if policy.retryOnProviderError then policy.maxRetries + 1 else 1

/-- The call with this number is the last: it is the first, from a call on, that does not fail
with an error that may pass, or it uses up the attempts. -/
structure StopsAt (outcome : Nat → Except ProviderError R) (attempts first k : Nat) : Prop where
  lt : k < attempts
  before : ∀ i < k, Retryable (outcome (first + i))
  stop : Retryable (outcome (first + k)) → k + 1 = attempts

/-- Attempts that fail for now, each followed by a sleep twice as long as the one before. -/
def retries (id : String) (outcome : Nat → Except ProviderError R) (first k : Nat) :
    List (RouteEvent R) :=
  (List.range k).flatMap fun i => [.attempted id (outcome (first + i)), .slept (100 * 2 ^ i)]

namespace ModelRouter

variable (router : ModelRouter R) (required : Option ProviderCapabilities)

/-- A provider that is there is called up to its last attempt, whose outcome is the result. -/
def Serves (id : String) (events : List (RouteEvent R)) (result : Except RuntimeError R)
    (events' : List (RouteEvent R)) : Prop :=
  match router.select id required with
  | .error e => result = .error e ∧ events' = events
  | .ok provider => ∃ k,
      StopsAt provider.outcome router.policy.attempts (routedCalls id events) k ∧
      result = (provider.outcome (routedCalls id events + k)).mapError .provider ∧
      events' = events ++ retries id provider.outcome (routedCalls id events) k ++
        [.attempted id (provider.outcome (routedCalls id events + k))]

/-- Providers that fail one after the other, with their errors. -/
inductive Failing : List String → List (RouteEvent R) → List RuntimeError →
    List (RouteEvent R) → Prop
  | nil (events : List (RouteEvent R)) : Failing [] events [] events
  | cons {id : String} {rest : List String} {e : RuntimeError} {errors : List RuntimeError}
      {events events' events'' : List (RouteEvent R)} :
      Serves router required id events (.error e) events' → Failing rest events' errors events'' →
      Failing (id :: rest) events (e :: errors) events''

/-- The first provider of the chain that succeeds gives the result, else the last error does. -/
def ServesChain (ids : List String) (events : List (RouteEvent R))
    (result : Except RuntimeError R) (events' : List (RouteEvent R)) : Prop :=
  (∃ failed id rest errors reached response, ids = failed ++ id :: rest ∧
    Failing router required failed events errors reached ∧
    Serves router required id reached (.ok response) events' ∧ result = .ok response) ∨
  ∃ errors, Failing router required ids events errors events' ∧
    result = .error (errors.getLast?.getD (.providerNotFound "no providers available"))

/-- The attempts of the policy do not fit a word, or the first 59 calls all fail for now and there
is an attempt after them: the sleep before it does not fit. -/
def Overflows (id : String) (events : List (RouteEvent R)) : Prop :=
  ∃ provider, router.select id required = .ok provider ∧
    router.policy.retryOnProviderError = true ∧ (Word.max64 < router.policy.maxRetries + 1 ∨
      59 ≤ router.policy.maxRetries ∧
        ∀ i < 59, Retryable (provider.outcome (routedCalls id events + i)))

end ModelRouter

/-! ### The last attempt -/

variable {outcome : Nat → Except ProviderError R} {attempts first k k' : Nat}

theorem exists_stopsAt (h : 1 ≤ attempts) : ∃ k, StopsAt outcome attempts first k := by
  classical
  have hstops : ∃ k, ¬ Retryable (outcome (first + k)) ∨ k + 1 = attempts :=
    ⟨attempts - 1, .inr (by omega)⟩
  refine ⟨Nat.find hstops, ?_, fun i hi => ?_, fun hretry => ?_⟩
  · have hle : Nat.find hstops ≤ attempts - 1 := Nat.find_min' hstops (.inr (by omega))
    omega
  · exact not_not.mp (not_or.mp (Nat.find_min hstops hi)).1
  · exact (Nat.find_spec hstops).resolve_left (not_not.mpr hretry)

/-- There is one last attempt. -/
theorem StopsAt.eq (h : StopsAt outcome attempts first k) (h' : StopsAt outcome attempts first k') :
    k = k' := by
  rcases Nat.lt_trichotomy k k' with hlt | heq | hlt
  · have hlast := h.stop (h'.before k hlt)
    have hbound := h'.lt
    omega
  · exact heq
  · have hlast := h'.stop (h.before k' hlt)
    have hbound := h.lt
    omega

theorem retries_succ (id : String) (outcome : Nat → Except ProviderError R) (first k : Nat) :
    retries id outcome first (k + 1) = retries id outcome first k ++
      [.attempted id (outcome (first + k)), .slept (100 * 2 ^ k)] := by
  simp [retries, List.range_succ]

@[simp] theorem routedCalls_append (id : String) (events events' : List (RouteEvent R)) :
    routedCalls id (events ++ events') = routedCalls id events + routedCalls id events' :=
  List.countP_append

@[simp] theorem routedCalls_retries (id : String) (outcome : Nat → Except ProviderError R)
    (first k : Nat) : routedCalls id (retries id outcome first k) = k := by
  induction k with
  | zero => rfl
  | succ k ih =>
    rw [retries_succ, routedCalls_append, ih]
    simp [routedCalls]

namespace ModelRouter

variable {mode : Word.Overflow}

/-- The sleeps before the first 59 attempts fit a word. -/
theorem backoffMillis_eq {i : Nat} (h : i < 58) :
    backoffMillis mode (i + 1) = some (100 * 2 ^ i) := by
  have hattempt : (i + 1) % (Word.max32 + 1) = i + 1 :=
    Nat.mod_eq_of_lt (Nat.lt_trans (Nat.succ_lt_succ h) (by decide))
  have hpow : 2 ^ i ≤ 2 ^ 57 := Nat.pow_le_pow_right (by decide) (by omega)
  have hmul : 100 * 2 ^ 57 ≤ Word.max64 := by decide
  have hsub : Word.sub mode Word.max32 (i + 1) 1 = some i := by simp [Word.sub]
  have hfits : Word.pow mode Word.max64 2 i = some (2 ^ i) := Word.fit_of_le (by omega)
  unfold backoffMillis
  rw [hattempt, hsub, Option.bind_eq_bind, Option.bind_some, hfits]
  exact Word.fit_of_le (by omega)

/-- The sleep after the 59th does not. -/
theorem backoffMillis_panics : backoffMillis .panics (58 + 1) = none := by decide

/-! ### One provider -/

section Attempts

variable {provider : RoutedProvider R} {id : String} {events : List (RouteEvent R)}
  {attempts k i : Nat}

variable (mode) in
/-- An attempt that fails for now is followed by a sleep and the next attempt. -/
theorem attemptFrom_step (hi : i < 58) (hmore : i + 1 < attempts)
    (h : Retryable (provider.outcome (routedCalls id events + i)))
    (lastError : Option ProviderError) : ∃ e,
    attemptFrom mode provider id attempts (attempts - i) (i + 1) lastError
        (events ++ retries id provider.outcome (routedCalls id events) i) =
      attemptFrom mode provider id attempts (attempts - (i + 1)) (i + 1 + 1) (some e)
        (events ++ retries id provider.outcome (routedCalls id events) (i + 1)) := by
  obtain ⟨e, houtcome, hretry⟩ := h
  have hgoes : (!e.isRetryable || i + 1 == attempts) = false := by
    rw [hretry]
    simpa using Nat.ne_of_lt hmore
  have hleft : attempts - i = attempts - (i + 1) + 1 := by omega
  refine ⟨e, ?_⟩
  rw [hleft, attemptFrom, routedCalls_append, routedCalls_retries, houtcome, retries_succ, houtcome]
  simp only [hgoes, Bool.false_eq_true, if_false, backoffMillis_eq hi]
  simp

/-- From one attempt on, the attempts go up to the last. -/
theorem attemptFrom_eq (h : StopsAt provider.outcome attempts (routedCalls id events) k)
    (hk : k ≤ 58) (hi : i ≤ k) (lastError : Option ProviderError) :
    attemptFrom mode provider id attempts (attempts - i) (i + 1) lastError
        (events ++ retries id provider.outcome (routedCalls id events) i) =
      (some ((provider.outcome (routedCalls id events + k)).mapError .provider),
        events ++ retries id provider.outcome (routedCalls id events) k ++
          [.attempted id (provider.outcome (routedCalls id events + k))]) := by
  obtain ⟨left, hleft⟩ : ∃ left, k - i = left := ⟨_, rfl⟩
  have hlt := h.lt
  induction left generalizing i lastError with
  | zero =>
    obtain rfl : i = k := by omega
    obtain ⟨n, hn⟩ : ∃ n, attempts - i = n + 1 := ⟨attempts - i - 1, by omega⟩
    have hlast := h.stop
    rw [hn, attemptFrom, routedCalls_append, routedCalls_retries]
    cases houtcome : provider.outcome (routedCalls id events + i) with
    | ok response => rfl
    | error e =>
      rw [houtcome] at hlast
      have hstop : (!e.isRetryable || i + 1 == attempts) = true := by
        cases hretry : e.isRetryable with
        | false => rfl
        | true => simpa using hlast ⟨e, rfl, hretry⟩
      simp only [hstop, if_true]
      rfl
  | succ left ih =>
    have hsmall : i < 58 := by omega
    have hmore : i + 1 < attempts := by omega
    obtain ⟨e, hstep⟩ := attemptFrom_step mode hsmall hmore (h.before i (by omega)) lastError
    rw [hstep]
    exact ih (by omega) (some e) (by omega)

/-- Where overflow panics, the sleep after 59 attempts that fail for now does. -/
theorem attemptFrom_panics (hattempts : 59 < attempts)
    (h : ∀ i < 59, Retryable (provider.outcome (routedCalls id events + i))) (hi : i < 59)
    (lastError : Option ProviderError) :
    (attemptFrom .panics provider id attempts (attempts - i) (i + 1) lastError
      (events ++ retries id provider.outcome (routedCalls id events) i)).1 = none := by
  obtain ⟨left, hleft⟩ : ∃ left, 58 - i = left := ⟨_, rfl⟩
  induction left generalizing i lastError with
  | zero =>
    obtain rfl : i = 58 := by omega
    obtain ⟨n, hn⟩ : ∃ n, attempts - 58 = n + 1 := ⟨attempts - 58 - 1, by omega⟩
    obtain ⟨e, houtcome, hretry⟩ := h 58 (by decide)
    have hgoes : (!e.isRetryable || 59 == attempts) = false := by
      rw [hretry]
      simpa using (by omega : 59 ≠ attempts)
    rw [hn, attemptFrom, routedCalls_append, routedCalls_retries, houtcome]
    simp only [hgoes, Bool.false_eq_true, if_false, backoffMillis_panics]
  | succ left ih =>
    have hsmall : i < 58 := by omega
    have hmore : i + 1 < attempts := by omega
    obtain ⟨e, hstep⟩ := attemptFrom_step .panics hsmall hmore (h i hi) lastError
    rw [hstep]
    exact ih (by omega) (some e) (by omega)

end Attempts

section Chain

variable {router : ModelRouter R} {required : Option ProviderCapabilities} {id : String}
  {events events' events'' : List (RouteEvent R)} {result result' : Except RuntimeError R}

/-- A provider that serves a request is called no more often than the policy allows. -/
theorem Serves.calls_le (h : Serves router required id events result events') :
    routedCalls id events' ≤ routedCalls id events + router.policy.attempts := by
  unfold Serves at h
  split at h
  · obtain ⟨-, rfl⟩ := h
    exact Nat.le_add_right ..
  · next provider _ =>
    obtain ⟨k, hk, -, rfl⟩ := h
    have hlt := hk.lt
    have hone : routedCalls id
        [RouteEvent.attempted id (provider.outcome (routedCalls id events + k))] = 1 := by
      simp [routedCalls]
    rw [routedCalls_append, routedCalls_append, routedCalls_retries, hone]
    omega

/-- A request is served in one way. -/
theorem Serves.eq (h : Serves router required id events result events')
    (h' : Serves router required id events result' events'') :
    result = result' ∧ events' = events'' := by
  unfold Serves at h h'
  split at h
  · next e heq =>
    rw [heq] at h'
    exact ⟨h.1.trans h'.1.symm, h.2.trans h'.2.symm⟩
  · next provider heq =>
    rw [heq] at h'
    obtain ⟨k, hk, rfl, rfl⟩ := h
    obtain ⟨k', hk', rfl, rfl⟩ := h'
    obtain rfl := hk.eq hk'
    exact ⟨rfl, rfl⟩

variable (mode) in
/-- Without overflow the provider serves the request. -/
theorem routeChat_serves (h : ¬ Overflows router required id events) :
    ∃ result events', routeChat mode router id required events = (some result, events') ∧
      Serves router required id events result events' := by
  unfold routeChat Serves
  cases hselect : router.select id required with
  | error e => exact ⟨_, _, rfl, rfl, rfl⟩
  | ok provider =>
    have hpos : 1 ≤ router.policy.attempts := by
      unfold RetryPolicy.attempts
      split <;> omega
    obtain ⟨k, hk⟩ : ∃ k,
        StopsAt provider.outcome router.policy.attempts (routedCalls id events) k :=
      exists_stopsAt hpos
    have hlt := hk.lt
    have hattempts : (if router.policy.retryOnProviderError = true then
        Word.add mode Word.max64 router.policy.maxRetries 1 else some 1) =
        some router.policy.attempts := by
      unfold RetryPolicy.attempts
      split
      · next hretry =>
        refine Word.fit_of_le (Nat.not_lt.mp fun hover => h ?_)
        exact ⟨provider, hselect, hretry, .inl hover⟩
      · rfl
    have hsmall : k ≤ 58 := by
      by_contra hlarge
      unfold RetryPolicy.attempts at hlt
      split at hlt
      · next hretry =>
        exact h ⟨provider, hselect, hretry, .inr ⟨by omega, fun i hi => hk.before i (by omega)⟩⟩
      · omega
    have hrun : attemptFrom mode provider id router.policy.attempts router.policy.attempts 1 none
        (events ++ []) = _ := attemptFrom_eq hk hsmall (Nat.zero_le k) none
    dsimp only
    rw [hattempts]
    rw [List.append_nil] at hrun
    exact ⟨_, _, hrun, k, hk, rfl, rfl⟩

/-- Where overflow panics, the request ends with it. -/
theorem routeChat_panics (h : Overflows router required id events) :
    (routeChat .panics router id required events).1 = none := by
  obtain ⟨provider, hselect, hretry, hover⟩ := h
  unfold routeChat
  rw [hselect]
  dsimp only
  rw [if_pos hretry]
  cases hadd : Word.add .panics Word.max64 router.policy.maxRetries 1 with
  | none => rfl
  | some attempts =>
    rcases Word.fit_eq_some_iff.mp hadd with ⟨hle, rfl⟩ | ⟨hmode, -⟩
    · obtain ⟨hmany, hall⟩ := hover.resolve_left (Nat.not_lt.mpr hle)
      have hattempts : 59 < router.policy.maxRetries + 1 := by omega
      have hrun := attemptFrom_panics hattempts hall (by decide : 0 < 59) none
      simpa [retries] using hrun
    · cases hmode

/-- Without overflow the chain is served, whatever the error before it. -/
theorem fallbackFrom_serves {ids : List String} (lastError : Option RuntimeError)
    (h : ∀ failed id rest errors reached, ids = failed ++ id :: rest →
      Failing router required failed events errors reached →
      ¬ Overflows router required id reached) :
    ∃ result events', fallbackFrom mode router required ids lastError events =
        (some result, events') ∧
      ((∃ failed id rest errors reached response, ids = failed ++ id :: rest ∧
        Failing router required failed events errors reached ∧
        Serves router required id reached (.ok response) events' ∧ result = .ok response) ∨
      ∃ errors, Failing router required ids events errors events' ∧
        result = .error ((errors.getLast?.or lastError).getD
          (.providerNotFound "no providers available"))) := by
  induction ids generalizing events lastError with
  | nil => exact ⟨_, _, rfl, .inr ⟨[], .nil events, rfl⟩⟩
  | cons id rest ih =>
    obtain ⟨served, events', hrun, hserves⟩ :=
      routeChat_serves mode (h [] id rest [] events rfl (.nil events))
    rw [fallbackFrom, hrun]
    cases served with
    | ok response =>
      exact ⟨_, _, rfl, .inl ⟨[], id, rest, [], events, response, rfl, .nil events, hserves, rfl⟩⟩
    | error e =>
      obtain ⟨result, events'', hrest, hresult⟩ := ih (some e)
        fun failed id' rest' errors reached hsplit hfailing =>
          h (id :: failed) id' rest' (e :: errors) reached (hsplit ▸ rfl)
            (.cons hserves hfailing)
      refine ⟨result, events'', hrest, ?_⟩
      rcases hresult with ⟨failed, id', rest', errors, reached, response, rfl, hfailing, hok, rfl⟩ |
        ⟨errors, hfailing, rfl⟩
      · exact .inl ⟨id :: failed, id', rest', e :: errors, reached, response, rfl,
          .cons hserves hfailing, hok, rfl⟩
      · refine .inr ⟨e :: errors, .cons hserves hfailing, ?_⟩
        cases errors with
        | nil => rfl
        | cons second errors =>
          obtain ⟨last, hlast⟩ : ∃ last, (second :: errors).getLast? = some last :=
            ⟨_, List.getLast?_eq_some_getLast (List.cons_ne_nil _ _)⟩
          rw [List.getLast?_cons_cons, hlast]
          rfl

theorem fallbackFrom_of_panics (h : (routeChat mode router id required events).1 = none)
    (rest : List String) (lastError : Option RuntimeError) :
    (fallbackFrom mode router required (id :: rest) lastError events).1 = none := by
  rw [fallbackFrom]
  split
  · rfl
  · next hrun => simp [hrun] at h
  · next hrun => simp [hrun] at h

/-- Where overflow panics, a chain that comes to a provider with overflow ends there. -/
theorem fallbackFrom_panics {failed rest : List String} {errors : List RuntimeError}
    (hfailing : Failing router required failed events errors events')
    (h : Overflows router required id events') (lastError : Option RuntimeError) :
    (fallbackFrom .panics router required (failed ++ id :: rest) lastError events).1 = none := by
  induction hfailing generalizing lastError with
  | nil events => exact fallbackFrom_of_panics (routeChat_panics h) rest lastError
  | @cons first failed e errors events reached events' hserves _ ih =>
    by_cases hover : Overflows router required first events
    · exact fallbackFrom_of_panics (routeChat_panics hover) _ lastError
    · obtain ⟨served, after, hrun, hserved⟩ := routeChat_serves .panics hover
      obtain ⟨rfl, rfl⟩ := hserves.eq hserved
      rw [List.cons_append, fallbackFrom, hrun]
      exact ih h (some e)

end Chain

section Claims

variable (mode : Word.Overflow) (router : ModelRouter R) (required : Option ProviderCapabilities)

/-- A request to one provider is routed as it should be, within the attempts of the policy and
with no panic. -/
def Routes (id : String) (events : List (RouteEvent R)) : Prop :=
  ∃ result events', routeChat mode router id required events = (some result, events') ∧
    Serves router required id events result events' ∧
    routedCalls id events' ≤ routedCalls id events + router.policy.attempts

/-- A request to a chain is routed as it should be. -/
def RoutesChain (ids : List String) (events : List (RouteEvent R)) : Prop :=
  ∃ result events', routeChatWithFallback mode router ids required events = (some result, events') ∧
    ServesChain router required ids events result events'

/-- No provider that the chain comes to overflows. -/
def ChainFits (ids : List String) (events : List (RouteEvent R)) : Prop :=
  ∀ failed id rest errors reached, ids = failed ++ id :: rest →
    Failing router required failed events errors reached →
    ¬ Overflows router required id reached

/-- **Requests are routed as they should be, to one provider and to a chain, exactly when the
attempts of the policy fit a word and no provider on the way fails for now 59 times with an
attempt left; where overflow wraps, they are then too**. -/
theorem routes_iff (events : List (RouteEvent R)) :
    (∀ id, (Routes .panics router required id events ↔ ¬ Overflows router required id events) ∧
      (¬ Overflows router required id events → Routes .wraps router required id events)) ∧
    ∀ ids, (RoutesChain .panics router required ids events ↔
        ChainFits router required ids events) ∧
      (ChainFits router required ids events → RoutesChain .wraps router required ids events) := by
  have hroutes (mode : Word.Overflow) (id : String)
      (h : ¬ Overflows router required id events) : Routes mode router required id events := by
    obtain ⟨result, events', hrun, hserves⟩ := routeChat_serves mode h
    exact ⟨result, events', hrun, hserves, hserves.calls_le⟩
  have hchain (mode : Word.Overflow) (ids : List String)
      (h : ChainFits router required ids events) :
      RoutesChain mode router required ids events := by
    obtain ⟨result, events', hrun, hresult⟩ := fallbackFrom_serves none h
    refine ⟨result, events', hrun, hresult.imp_right ?_⟩
    rintro ⟨errors, hfailing, rfl⟩
    exact ⟨errors, hfailing, by rw [Option.or_none]⟩
  refine ⟨fun id => ⟨⟨fun h hover => ?_, hroutes .panics id⟩, hroutes .wraps id⟩,
    fun ids => ⟨⟨fun h failed id rest errors reached hsplit hfailing hover => ?_,
      hchain .panics ids⟩, hchain .wraps ids⟩⟩
  · obtain ⟨result, events', hrun, -⟩ := h
    have hnone := routeChat_panics hover
    rw [hrun] at hnone
    cases hnone
  · obtain ⟨result, events', hrun, -⟩ := h
    have hnone : (routeChatWithFallback .panics router ids required events).1 = none := by
      rw [hsplit]
      exact fallbackFrom_panics hfailing hover none
    rw [hrun] at hnone
    cases hnone

/-- The largest number of retries panics before the first attempt, or wraps to no attempt. -/
theorem largest_retries_unrouted :
    let provider : RoutedProvider Unit :=
      ⟨⟨true, true, true, true, true, true, true⟩, fun _ => .ok ()⟩
    let router : ModelRouter Unit := ⟨fun _ => some provider, { maxRetries := Word.max64 }⟩
    routeChat .panics router "a" none [] = (none, []) ∧
      routeChat .wraps router "a" none [] =
        (some (.error (.provider (.timeout "a"))), []) ∧
      ¬ Routes .panics router none "a" [] ∧ ¬ Routes .wraps router none "a" [] := by
  refine ⟨rfl, rfl, ?_, ?_⟩
  · rintro ⟨result, events', hrun, -⟩
    cases hrun
  · rintro ⟨result, events', hrun, hserves, -⟩
    cases hrun
    obtain ⟨k, -, hresult, -⟩ := hserves
    cases hresult

end Claims

end ModelRouter

end Behest
