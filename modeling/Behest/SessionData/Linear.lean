import Behest.Effect.Linear
import Behest.SessionData.Stores

/-!
# The stores of session data, interchanged

Calls of the file store in any interleaving. A call takes effect while it holds the lock of its
session: where it writes the file, where it has read the file of a `get`, or where it sees that
there is no file. The answers are those of the map in memory in the order of these steps.
-/

namespace Behest.SessionData

open Effect

variable {format : MapFormat}

/-! ### The locks of a call -/

namespace Phase

/-- The session lock that the call has looked up and not yet let go of. -/
def lock? : Phase format → Option Nat
  | lockRegistry | lookUp | returned _ => none
  | unlockRegistry lock | lockSession lock | createDir lock | checkFile lock | readFile lock
  | parse lock _ | write lock _ | unlock lock _ => some lock

/-- The session lock that the call holds. -/
def held : Phase format → Option Nat
  | lockRegistry | lookUp | unlockRegistry _ | lockSession _ | returned _ => none
  | createDir lock | checkFile lock | readFile lock | parse lock _ | write lock _
  | unlock lock _ => some lock

/-- The call holds the lock of the registry. -/
def holdsRegistry : Phase format → Bool
  | lookUp | unlockRegistry _ => true
  | _ => false

/-- How many steps the call still takes at most. -/
def remaining : Phase format → Nat
  | lockRegistry => 10
  | lookUp => 9
  | unlockRegistry _ => 8
  | lockSession _ => 7
  | createDir _ => 6
  | checkFile _ => 5
  | readFile _ => 4
  | parse _ _ => 3
  | write _ _ => 2
  | unlock _ _ => 1
  | returned _ => 0

/-- What a call returns, once it has taken effect. -/
def settled : Phase format → Option Outcome
  | unlock _ outcome | returned outcome => some outcome
  | _ => none

theorem lock?_of_held {p : Phase format} {lock : Nat} (h : p.held = some lock) :
    p.lock? = some lock := by
  cases p <;> first | exact h | cases h

end Phase

namespace FileSessionDataStore

/-! ### The steps of a call -/

/-- What a step does to the locks; a call that holds the lock of its session only changes the file
of that session. -/
inductive Step (baseDir : String) (s : FileSessionDataStore format) (op : Operation) :
    Phase format → Phase format → FileSessionDataStore format → Prop
  | takeRegistry (hfree : s.registryHeld = false) :
      Step baseDir s op .lockRegistry .lookUp { s with registryHeld := true }
  | find {lock : Nat} (hfound : s.locks op.sessionId = some lock) :
      Step baseDir s op .lookUp (.unlockRegistry lock) s
  | make (hnew : s.locks op.sessionId = none) :
      Step baseDir s op .lookUp (.unlockRegistry s.mutexes.length)
        { s with locks := Function.update s.locks op.sessionId (some s.mutexes.length)
                 mutexes := s.mutexes ++ [false] }
  | freeRegistry {lock : Nat} :
      Step baseDir s op (.unlockRegistry lock) (.lockSession lock)
        { s with registryHeld := false }
  | take {lock : Nat} {p : Phase format} (hfree : s.mutexes.getD lock false = false)
      (hp : p = .createDir lock ∨ p = .checkFile lock) :
      Step baseDir s op (.lockSession lock) p { s with mutexes := s.mutexes.set lock true }
  | work {lock : Nat} {p p' : Phase format} {files : String → Option format.Text} {order : Nat}
      (hp : p.held = some lock) (hp' : p'.held = some lock)
      (hless : p'.remaining < p.remaining)
      (hfiles : ∀ path, path ≠ sessionPath baseDir op.sessionId → files path = s.files path) :
      Step baseDir s op p p' { s with files, order }
  | free {lock : Nat} {outcome : Outcome} :
      Step baseDir s op (.unlock lock outcome) (.returned outcome)
        { s with mutexes := s.mutexes.set lock false }

variable {baseDir : String} {s s' : FileSessionDataStore format} {c c' : FileCall format}

theorem held_afterRead (lock : Nat) (m : SessionMap) (op : Operation) :
    (afterRead lock m op : Phase format).held = some lock := by
  cases op <;> rfl

theorem held_withoutFile (lock : Nat) (op : Operation) :
    (withoutFile lock op : Phase format).held = some lock := by
  cases op <;> rfl

theorem remaining_afterRead (lock : Nat) (m : SessionMap) (op : Operation) :
    (afterRead lock m op : Phase format).remaining < 3 := by
  cases op <;> simp [afterRead, Phase.remaining]

theorem remaining_withoutFile (lock : Nat) (op : Operation) :
    (withoutFile lock op : Phase format).remaining < 3 := by
  cases op <;> simp [withoutFile, Phase.remaining]

/-- The step of a call is one of these, and it keeps its operation. -/
theorem step_of_move (h : move baseDir c s = some (c', s')) :
    c'.operation = c.operation ∧ Step baseDir s c.operation c.phase c'.phase s' := by
  obtain ⟨op, p⟩ := c
  cases p with
  | lockRegistry =>
    simp only [move] at h
    split at h
    · cases h
    · next hfree =>
      cases h
      exact ⟨rfl, .takeRegistry (by simpa using hfree)⟩
  | lookUp =>
    simp only [move] at h
    split at h
    · next lock hfound =>
      cases h
      exact ⟨rfl, .find hfound⟩
    · next hnew =>
      cases h
      exact ⟨rfl, .make hnew⟩
  | unlockRegistry lock =>
    cases h
    exact ⟨rfl, .freeRegistry⟩
  | lockSession lock =>
    simp only [move] at h
    split at h
    · cases h
    · next hfree =>
      have hfree : s.mutexes.getD lock false = false := by simpa using hfree
      cases op <;> cases h
      · exact ⟨rfl, .take hfree (.inl rfl)⟩
      · exact ⟨rfl, .take hfree (.inr rfl)⟩
      · exact ⟨rfl, .take hfree (.inr rfl)⟩
  | createDir lock =>
    cases h
    exact ⟨rfl, .work rfl rfl (by simp [Phase.remaining]) fun _ _ => rfl⟩
  | checkFile lock =>
    simp only [move] at h
    split at h
    · cases h
      exact ⟨rfl, .work rfl rfl (by simp [Phase.remaining]) fun _ _ => rfl⟩
    · cases h
      have hless : (withoutFile lock op : Phase format).remaining < 5 :=
        (remaining_withoutFile lock op).trans (by decide)
      exact ⟨rfl, .work rfl (held_withoutFile lock op) hless fun _ _ => rfl⟩
  | readFile lock =>
    simp only [move] at h
    split at h <;> cases h <;> exact ⟨rfl, .work rfl rfl (by simp [Phase.remaining]) fun _ _ => rfl⟩
  | parse lock text =>
    simp only [move] at h
    split at h
    · next m hm =>
      cases h
      exact ⟨rfl, .work rfl (held_afterRead lock m op) (remaining_afterRead lock m op)
        fun _ _ => rfl⟩
    · cases h
      exact ⟨rfl, .work rfl rfl (by simp [Phase.remaining]) fun _ _ => rfl⟩
  | write lock m =>
    cases h
    exact ⟨rfl, .work rfl rfl (by simp [Phase.remaining]) fun path hpath =>
      Function.update_of_ne hpath _ _⟩
  | unlock lock outcome =>
    cases h
    exact ⟨rfl, .free⟩
  | returned outcome => cases h

/-! ### Locks are exclusive -/

/-- The locks of the sessions differ. -/
structure Apart (s : FileSessionDataStore format) : Prop where
  inj : ∀ id id' lock, s.locks id = some lock → s.locks id' = some lock → id = id'
  lt : ∀ id lock, s.locks id = some lock → lock < s.mutexes.length

section Step

variable {op : Operation} {p p' : Phase format}

theorem Apart.step (h : Apart s) (hstep : Step baseDir s op p p' s') : Apart s' := by
  cases hstep with
  | takeRegistry | freeRegistry | work => exact ⟨h.inj, h.lt⟩
  | find => exact h
  | take | free => exact ⟨h.inj, fun id lock hlock => by simpa using h.lt id lock hlock⟩
  | make hnew =>
    -- the new lock is none of those made before
    have hcases : ∀ id lock,
        Function.update s.locks op.sessionId (some s.mutexes.length) id = some lock →
        id = op.sessionId ∧ lock = s.mutexes.length ∨
          s.locks id = some lock ∧ lock < s.mutexes.length := by
      intro id lock hlock
      by_cases hid : id = op.sessionId
      · subst hid
        rw [Function.update_self, Option.some.injEq] at hlock
        exact .inl ⟨rfl, hlock.symm⟩
      · rw [Function.update_of_ne hid] at hlock
        exact .inr ⟨hlock, h.lt id lock hlock⟩
    refine ⟨fun id id' lock hlock hlock' => ?_, fun id lock hlock => ?_⟩
    · rcases hcases id lock hlock with ⟨rfl, heq⟩ | ⟨hold, hlt⟩ <;>
        rcases hcases id' lock hlock' with ⟨rfl, heq'⟩ | ⟨hold', hlt'⟩
      · rfl
      · omega
      · omega
      · exact h.inj id id' lock hold hold'
    · rw [List.length_append, List.length_singleton]
      rcases hcases id lock hlock with ⟨-, heq⟩ | ⟨-, hlt⟩ <;> omega

/-- Session locks stay in the registry. -/
theorem Step.locks_mono (hstep : Step baseDir s op p p' s') {id : SessionId} {lock : Nat}
    (h : s.locks id = some lock) : s'.locks id = some lock := by
  cases hstep with
  | make hnew =>
    have hid : id ≠ op.sessionId := by
      rintro rfl
      rw [hnew] at h
      cases h
    exact (Function.update_of_ne hid _ _).trans h
  | _ => exact h

/-- The lock that a call goes on with is that of its session. -/
theorem Step.own (hstep : Step baseDir s op p p' s')
    (h : ∀ lock, p.lock? = some lock → s.locks op.sessionId = some lock) {lock : Nat}
    (hlock : p'.lock? = some lock) : s'.locks op.sessionId = some lock := by
  cases hstep with
  | takeRegistry => cases hlock
  | find hfound => exact hfound.trans hlock
  | make hnew => exact (Function.update_self _ _ _).trans hlock
  | freeRegistry => exact h lock hlock
  | take hfree hp => rcases hp with rfl | rfl <;> exact h lock hlock
  | work hp hp' =>
    rw [Phase.lock?_of_held hp', ← Phase.lock?_of_held hp] at hlock
    exact h lock hlock
  | free => cases hlock

theorem holdsRegistry_of_held {lock : Nat} (h : p.held = some lock) : p.holdsRegistry = false := by
  cases p <;> first | rfl | cases h

/-- The lock of the registry passes between the registry and the call. -/
theorem Step.registry (hstep : Step baseDir s op p p' s')
    (h : p.holdsRegistry = true → s.registryHeld = true) :
    (if s'.registryHeld then 1 else 0) + (if p.holdsRegistry then 1 else 0) =
      (if s.registryHeld then 1 else 0) + if p'.holdsRegistry then 1 else 0 := by
  cases hstep with
  | takeRegistry hfree => simp [hfree, Phase.holdsRegistry]
  | find | make | free => simp [Phase.holdsRegistry]
  | freeRegistry => simp [h rfl, Phase.holdsRegistry]
  | take hfree hp => rcases hp with rfl | rfl <;> simp [Phase.holdsRegistry]
  | work hp hp' => simp [holdsRegistry_of_held hp, holdsRegistry_of_held hp']

/-- A session lock passes between the store and the call. -/
theorem Step.mutex (hstep : Step baseDir s op p p' s') (lock : Nat)
    (h : p.held = some lock → s.mutexes.getD lock false = true)
    (hlt : ∀ lock, p.lock? = some lock → lock < s.mutexes.length) :
    (if s'.mutexes.getD lock false then 1 else 0) + (if p.held = some lock then 1 else 0) =
      (if s.mutexes.getD lock false then 1 else 0) + if p'.held = some lock then 1 else 0 := by
  cases hstep with
  | takeRegistry | find | freeRegistry => simp [Phase.held]
  | make hnew =>
    have hgetD : (s.mutexes ++ [false]).getD lock false = s.mutexes.getD lock false := by
      grind
    show (if (s.mutexes ++ [false]).getD lock false then 1 else 0) + _ = _
    rw [hgetD]
    rfl
  | @take taken _ hfree hp =>
    have hlt := hlt taken rfl
    have hheld : p'.held = some taken := by rcases hp with rfl | rfl <;> rfl
    rw [hheld]
    by_cases heq : taken = lock
    · subst heq
      have hset : (s.mutexes.set taken true).getD taken false = true := by simp [hlt]
      rw [hset, hfree]
      simp [Phase.held]
    · simp [heq, Phase.held]
  | work hp hp' => rw [hp, hp']
  | @free freed outcome =>
    by_cases heq : freed = lock
    · subst heq
      have hset : (s.mutexes.set freed false).getD freed false = false := by
        simp [hlt freed rfl]
      rw [hset, h rfl]
      simp [Phase.held]
    · simp [heq, Phase.held]

end Step

/-- Calls go on with the locks of their sessions, and a lock that is held is held by one call. -/
structure Locked (x : Crowd (FileCall format) (FileSessionDataStore format)) : Prop where
  apart : Apart x.state
  own : ∀ c ∈ x.calls, ∀ lock, c.phase.lock? = some lock →
    x.state.locks c.operation.sessionId = some lock
  registry : x.calls.countP (·.phase.holdsRegistry) = if x.state.registryHeld then 1 else 0
  exclusive : ∀ lock, x.calls.countP (·.phase.held = some lock) =
    if x.state.mutexes.getD lock false then 1 else 0

section Locked

variable {x : Crowd (FileCall format) (FileSessionDataStore format)}

/-- A call that enters holds nothing. -/
theorem Locked.enter (h : Locked x) (op : Operation) : Locked ⟨x.calls ++ [start op], x.state⟩ where
  apart := h.apart
  own c hc lock hlock := by
    rcases List.mem_append.mp hc with hc | hc
    · exact h.own c hc lock hlock
    · rw [List.mem_singleton.mp hc] at hlock
      cases hlock
  registry := by simpa [start, Phase.holdsRegistry] using h.registry
  exclusive lock := by simpa [start, Phase.held] using h.exclusive lock

theorem Locked.registryHeld (h : Locked x) (hc : c ∈ x.calls) (hp : c.phase.holdsRegistry = true) :
    x.state.registryHeld = true := by
  have hpos : 0 < x.calls.countP (·.phase.holdsRegistry) := List.countP_pos_iff.mpr ⟨c, hc, hp⟩
  by_contra hfree
  rw [h.registry, if_neg hfree] at hpos
  exact absurd hpos (Nat.lt_irrefl 0)

theorem Locked.mutexHeld (h : Locked x) (hc : c ∈ x.calls) {lock : Nat}
    (hp : c.phase.held = some lock) : x.state.mutexes.getD lock false = true := by
  have hpos : 0 < x.calls.countP (·.phase.held = some lock) :=
    List.countP_pos_iff.mpr ⟨c, hc, decide_eq_true hp⟩
  by_contra hfree
  rw [h.exclusive, if_neg hfree] at hpos
  exact absurd hpos (Nat.lt_irrefl 0)

theorem Locked.advance (h : Locked x) {i : Nat} (hc : x.calls[i]? = some c)
    (hmove : move baseDir c x.state = some (c', s')) : Locked ⟨x.calls.set i c', s'⟩ := by
  obtain ⟨hop, hstep⟩ := step_of_move hmove
  have hmem := List.mem_of_getElem? hc
  refine ⟨h.apart.step hstep, fun d hd lock hlock => ?_, ?_, fun lock => ?_⟩
  · rcases List.mem_or_eq_of_mem_set hd with hd | rfl
    · exact hstep.locks_mono (h.own d hd lock hlock)
    · rw [hop]
      exact hstep.own (h.own c hmem) hlock
  · have hcount := countP_set_add (·.phase.holdsRegistry) hc c'
    have hpass := hstep.registry (h.registryHeld hmem)
    have := h.registry
    dsimp only at hcount ⊢
    omega
  · have hcount := countP_set_add (·.phase.held = some lock) hc c'
    have hpass := hstep.mutex lock (h.mutexHeld hmem) fun own hown =>
      h.apart.lt _ _ (h.own c hmem own hown)
    have := h.exclusive lock
    simp only [decide_eq_true_eq] at hcount ⊢
    omega

/-- A call can go on, waits for a lock that is held, or has returned. -/
theorem move_or_waits (baseDir : String) (c : FileCall format) (s : FileSessionDataStore format) :
    (move baseDir c s).isSome ∨ c.phase = .lockRegistry ∧ s.registryHeld = true ∨
      (∃ lock, c.phase = .lockSession lock ∧ s.mutexes.getD lock false = true) ∨
      (answer c).isSome := by
  obtain ⟨op, p⟩ := c
  cases p with
  | lockRegistry =>
    by_cases hheld : s.registryHeld = true
    · exact .inr (.inl ⟨rfl, hheld⟩)
    · exact .inl (by simp [move, hheld])
  | lockSession lock =>
    by_cases hheld : s.mutexes.getD lock false = true
    · exact .inr (.inr (.inl ⟨lock, rfl, hheld⟩))
    · left
      simp only [move, if_neg hheld]
      cases op <;> rfl
  | lookUp | checkFile | readFile | parse =>
    left
    simp only [move]
    split <;> rfl
  | unlockRegistry | createDir | write | unlock => exact .inl rfl
  | returned => exact .inr (.inr (.inr rfl))

/-- A call that holds a lock can go on. -/
theorem isSome_move_of_holds
    (h : c.phase.holdsRegistry = true ∨ ∃ lock, c.phase.held = some lock) :
    (move baseDir c s).isSome := by
  rcases move_or_waits baseDir c s with hmove | ⟨hp, -⟩ | ⟨lock, hp, -⟩ | hreturned
  · exact hmove
  · rw [hp] at h
    rcases h with h | ⟨_, h⟩ <;> cases h
  · rw [hp] at h
    rcases h with h | ⟨_, h⟩ <;> cases h
  · obtain ⟨op, p⟩ := c
    cases p with
    | returned => rcases h with h | ⟨_, h⟩ <;> cases h
    | _ => cases hreturned

/-- Calls that wait wait for one that can go on. -/
theorem Locked.exists_move (h : Locked x) (baseDir : String) :
    (∀ c ∈ x.calls, (answer c).isSome) ∨ ∃ c ∈ x.calls, (move baseDir c x.state).isSome := by
  by_cases hall : ∀ c ∈ x.calls, (answer c).isSome
  · exact .inl hall
  · right
    push Not at hall
    obtain ⟨c, hc, hpending⟩ := hall
    rcases move_or_waits baseDir c x.state with hmove | ⟨-, hheld⟩ | ⟨lock, -, hheld⟩ | hreturned
    · exact ⟨c, hc, hmove⟩
    · have hcount := h.registry
      rw [if_pos hheld] at hcount
      obtain ⟨d, hd, hp⟩ := List.countP_pos_iff.mp (hcount ▸ Nat.one_pos)
      exact ⟨d, hd, isSome_move_of_holds (.inl hp)⟩
    · have hcount := h.exclusive lock
      rw [if_pos hheld] at hcount
      obtain ⟨d, hd, hp⟩ := List.countP_pos_iff.mp (hcount ▸ Nat.one_pos)
      exact ⟨d, hd, isSome_move_of_holds (.inr ⟨lock, of_decide_eq_true hp⟩)⟩
    · exact absurd hreturned hpending

end Locked

/-! ### The files hold what the map in memory holds -/

/-- The map that a file holds. -/
def contents (files : String → Option format.Text) (path : String) : SessionMap :=
  match files path with
  | none => ∅
  | some text =>
      match format.fromStr text with
      | .ok map => map
      | .error _ => ∅

/-- Every session file can be read, and together they hold the entries of the map in memory. -/
structure Represents (baseDir : String) (files : String → Option format.Text)
    (data : MemorySessionDataStore) : Prop where
  readable : ∀ id text, files (sessionPath baseDir id) = some text →
    format.fromStr text = .ok (contents files (sessionPath baseDir id))
  agrees : ∀ id key, data.lookup (id, key) = (contents files (sessionPath baseDir id)).lookup key

/-- What a call has seen of the file of its session is still so. -/
def Knows (baseDir : String) (files : String → Option format.Text) (c : FileCall format) : Prop :=
  let path := sessionPath baseDir c.operation.sessionId
  match c.phase with
  | .readFile _ => (files path).isSome = true
  | .parse _ text => files path = some text
  | .write lock map =>
      (afterRead lock (contents files path) c.operation : Phase format) = .write lock map
  | _ => True

section Files

variable {files files' : String → Option format.Text} {data : MemorySessionDataStore}

theorem joinPath_inj {base name name' : String}
    (h : ToolOutput.joinPath base name = ToolOutput.joinPath base name') : name = name' := by
  have hlist := congrArg String.toList h
  unfold ToolOutput.joinPath at hlist
  split_ifs at hlist <;> simpa [String.toList_inj] using hlist

/-- Every session has a file of its own. -/
theorem sessionPath_inj {id id' : SessionId}
    (h : sessionPath baseDir id = sessionPath baseDir id') : id = id' := by
  have hlist := congrArg String.toList (joinPath_inj h)
  rw [String.toList_append, String.toList_append] at hlist
  have hdisplay := String.toList_inj.mp (List.append_cancel_right hlist)
  exact Subtype.ext (display_inj id.property id'.property hdisplay)

theorem contents_congr {path : String} (h : files' path = files path) :
    contents files' path = contents files path := by
  rw [contents, contents, h]

/-- A call sees nothing of the files of other sessions. -/
theorem Knows.congr (h : Knows baseDir files c)
    (hfiles : files' (sessionPath baseDir c.operation.sessionId) =
      files (sessionPath baseDir c.operation.sessionId)) : Knows baseDir files' c := by
  simp only [Knows, hfiles, contents_congr hfiles] at h ⊢
  exact h

/-- A call without the lock has seen nothing. -/
theorem knows_of_not_held (h : c.phase.held = none) : Knows baseDir files c := by
  obtain ⟨op, p⟩ := c
  cases p <;> first | exact True.intro | cases h

theorem represents_new : Represents baseDir (fun _ => none : String → Option format.Text)
    MemorySessionDataStore.new where
  readable _ _ h := by cases h
  agrees _ _ := rfl

/-- What an operation does to the map of its session is what it does to the map in memory. -/
theorem lookup_call {op : Operation} {lock : Nat} {m m' : SessionMap}
    (hm : ∀ key, data.lookup (op.sessionId, key) = m.lookup key)
    (h : (afterRead lock m op : Phase format) = .write lock m') (key : String) :
    (MemorySessionDataStore.call data op).1.lookup (op.sessionId, key) = m'.lookup key := by
  cases op with
  | set id key' value =>
    cases h
    by_cases hkey : key = key'
    · subst hkey
      simp [MemorySessionDataStore.call, Operation.sessionId]
    · have hpair : (id, key) ≠ (id, key') := by simpa using hkey
      rw [Finmap.lookup_insert_of_ne _ hkey, ← hm]
      exact Finmap.lookup_insert_of_ne _ hpair
  | get => cases h
  | delete id key' =>
    cases h
    by_cases hkey : key = key'
    · subst hkey
      simp [MemorySessionDataStore.call, Operation.sessionId]
    · have hpair : (id, key) ≠ (id, key') := by simpa using hkey
      rw [Finmap.lookup_erase_ne hkey, ← hm]
      exact Finmap.lookup_erase_ne hpair

/-- An operation leaves the other sessions as they are. -/
theorem lookup_call_of_ne {op : Operation} {id : SessionId} (h : id ≠ op.sessionId)
    (key : String) :
    (MemorySessionDataStore.call data op).1.lookup (id, key) = data.lookup (id, key) := by
  cases op with
  | set id' key' value =>
    have hpair : (id, key) ≠ (id', key') := fun heq => h (congrArg Prod.fst heq)
    exact Finmap.lookup_insert_of_ne _ hpair
  | get => rfl
  | delete id' key' =>
    have hpair : (id, key) ≠ (id', key') := fun heq => h (congrArg Prod.fst heq)
    exact Finmap.lookup_erase_ne hpair

/-- The file of a session is written back with the operation done. -/
theorem Represents.write (h : Represents baseDir files data) {op : Operation} {lock : Nat}
    {m : SessionMap} (order : Nat)
    (hm : (afterRead lock (contents files (sessionPath baseDir op.sessionId)) op : Phase format) =
      .write lock m) :
    Represents baseDir (Function.update files (sessionPath baseDir op.sessionId)
      (some (format.toStringPretty order m))) (MemorySessionDataStore.call data op).1 := by
  have hself : contents (Function.update files (sessionPath baseDir op.sessionId)
      (some (format.toStringPretty order m))) (sessionPath baseDir op.sessionId) = m := by
    rw [contents, Function.update_self]
    simp only [format.roundTrip]
  have hother : ∀ id, id ≠ op.sessionId → Function.update files
      (sessionPath baseDir op.sessionId) (some (format.toStringPretty order m))
        (sessionPath baseDir id) = files (sessionPath baseDir id) := fun id hid =>
    Function.update_of_ne (fun hpath => hid (sessionPath_inj hpath)) _ _
  refine ⟨fun id text htext => ?_, fun id key => ?_⟩
  · by_cases hid : id = op.sessionId
    · subst hid
      rw [Function.update_self, Option.some.injEq] at htext
      rw [hself, ← htext, format.roundTrip]
    · rw [hother id hid] at htext
      rw [contents_congr (hother id hid)]
      exact h.readable id text htext
  · by_cases hid : id = op.sessionId
    · subst hid
      rw [hself]
      exact lookup_call (h.agrees op.sessionId) hm key
    · rw [contents_congr (hother id hid), lookup_call_of_ne hid]
      exact h.agrees id key

/-- Deleting what is not there changes nothing that can be looked up. -/
theorem Represents.delete (h : Represents baseDir files data) {id : SessionId} (key : String)
    (hfile : files (sessionPath baseDir id) = none) :
    Represents baseDir files (MemorySessionDataStore.call data (.delete id key)).1 := by
  refine ⟨h.readable, fun id' key' => ?_⟩
  by_cases hpair : (id', key') = (id, key)
  · obtain ⟨rfl, rfl⟩ := Prod.mk.inj hpair
    rw [contents, hfile]
    exact Finmap.lookup_erase _ _
  · rw [← h.agrees]
    exact Finmap.lookup_erase_ne hpair

/-- A call takes effect where it finds no file to read or to write. -/
theorem withoutFile_effect (lock : Nat) (op : Operation)
    (hdata : Represents baseDir files data)
    (hnone : files (sessionPath baseDir op.sessionId) = none) :
    Knows baseDir files ⟨op, withoutFile lock op⟩ ∧
      ((withoutFile lock op : Phase format).settled = none ∧ Represents baseDir files data ∨
        (withoutFile lock op : Phase format).settled =
            some (MemorySessionDataStore.call data op).2 ∧
          Represents baseDir files (MemorySessionDataStore.call data op).1) := by
  have hempty : contents files (sessionPath baseDir op.sessionId) = ∅ := by rw [contents, hnone]
  cases op with
  | set id key value =>
    refine ⟨?_, .inl ⟨rfl, hdata⟩⟩
    show afterRead lock (contents files (sessionPath baseDir id)) _ = _
    rw [show contents files (sessionPath baseDir id) = ∅ from hempty]
    rfl
  | get id key =>
    refine ⟨trivial, .inr ⟨?_, hdata⟩⟩
    have hlookup : data.lookup (id, key) = none := by
      rw [hdata.agrees, show contents files (sessionPath baseDir id) = ∅ from hempty]
      rfl
    simp [withoutFile, Phase.settled, MemorySessionDataStore.call, hlookup]
  | delete id key => exact ⟨trivial, .inr ⟨rfl, hdata.delete key hnone⟩⟩

/-- A `get` takes effect where it has read the file. -/
theorem afterRead_effect (lock : Nat) (op : Operation) (hdata : Represents baseDir files data) :
    Knows baseDir files
        ⟨op, afterRead lock (contents files (sessionPath baseDir op.sessionId)) op⟩ ∧
      ((afterRead lock (contents files (sessionPath baseDir op.sessionId)) op :
            Phase format).settled = none ∧ Represents baseDir files data ∨
        (afterRead lock (contents files (sessionPath baseDir op.sessionId)) op :
            Phase format).settled = some (MemorySessionDataStore.call data op).2 ∧
          Represents baseDir files (MemorySessionDataStore.call data op).1) := by
  cases op with
  | set | delete => exact ⟨rfl, .inl ⟨rfl, hdata⟩⟩
  | get id key =>
    refine ⟨trivial, .inr ⟨?_, hdata⟩⟩
    simp [afterRead, Phase.settled, MemorySessionDataStore.call, hdata.agrees, Operation.sessionId]

/-- **What a step shows of the file**: a call knows what it has seen, and a step either does
nothing to the map in memory or is that of its operation. -/
theorem move_effect (hknows : Knows baseDir s.files c) (hdata : Represents baseDir s.files data)
    (hmove : move baseDir c s = some (c', s')) :
    Knows baseDir s'.files c' ∧
      (c'.phase.settled = c.phase.settled ∧ Represents baseDir s'.files data ∨
        c.phase.settled = none ∧
          c'.phase.settled = some (MemorySessionDataStore.call data c.operation).2 ∧
          Represents baseDir s'.files (MemorySessionDataStore.call data c.operation).1) := by
  obtain ⟨op, p⟩ := c
  cases p with
  | lockRegistry =>
    simp only [move] at hmove
    split at hmove <;> cases hmove
    exact ⟨trivial, .inl ⟨rfl, hdata⟩⟩
  | lookUp =>
    simp only [move] at hmove
    split at hmove <;> cases hmove <;> exact ⟨trivial, .inl ⟨rfl, hdata⟩⟩
  | lockSession lock =>
    simp only [move] at hmove
    split at hmove
    · cases hmove
    · cases op <;> cases hmove <;> exact ⟨trivial, .inl ⟨rfl, hdata⟩⟩
  | unlockRegistry | createDir | unlock =>
    cases hmove
    exact ⟨trivial, .inl ⟨rfl, hdata⟩⟩
  | checkFile lock =>
    simp only [move] at hmove
    split at hmove
    · next hfile =>
      cases hmove
      exact ⟨hfile, .inl ⟨rfl, hdata⟩⟩
    · next hfile =>
      cases hmove
      obtain ⟨hseen, heffect⟩ := withoutFile_effect lock op hdata
        (Option.not_isSome_iff_eq_none.mp hfile)
      exact ⟨hseen, heffect.imp_right fun heffect => ⟨rfl, heffect⟩⟩
  | readFile lock =>
    simp only [move] at hmove
    split at hmove
    · next text htext =>
      cases hmove
      exact ⟨htext, .inl ⟨rfl, hdata⟩⟩
    · next hnone =>
      -- the file does not go away under the lock
      have hfile : (s.files (sessionPath baseDir op.sessionId)).isSome = true := hknows
      rw [hnone] at hfile
      cases hfile
  | parse lock text =>
    have htext : s.files (sessionPath baseDir op.sessionId) = some text := hknows
    simp only [move, hdata.readable _ _ htext] at hmove
    cases hmove
    obtain ⟨hseen, heffect⟩ := afterRead_effect lock op hdata
    exact ⟨hseen, heffect.imp_right fun heffect => ⟨rfl, heffect⟩⟩
  | write lock m =>
    cases hmove
    refine ⟨trivial, .inr ⟨rfl, ?_, hdata.write s.order hknows⟩⟩
    cases op with
    | get => cases hknows
    | _ => rfl
  | returned => cases hmove

end Files

/-! ### Any interleaving -/

/-- A step leaves the files of the sessions alone whose locks its call does not hold. -/
theorem Step.files_eq {op : Operation} {p p' : Phase format} (hstep : Step baseDir s op p p' s')
    (path : String) : s'.files path = s.files path ∨
      (∃ lock, p.held = some lock) ∧ path = sessionPath baseDir op.sessionId := by
  cases hstep with
  | work hp hp' hless hfiles =>
    by_cases hpath : path = sessionPath baseDir op.sessionId
    · exact .inr ⟨⟨_, hp⟩, hpath⟩
    · exact .inl (hfiles path hpath)
  | _ => exact .inl rfl

/-- What holds of the calls and the files in any interleaving. -/
structure Consistent (baseDir : String)
    (x : Crowd (FileCall format) (FileSessionDataStore format)) : Prop where
  locked : Locked x
  knows : ∀ c ∈ x.calls, Knows baseDir x.state.files c

section Consistent

variable {x : Crowd (FileCall format) (FileSessionDataStore format)} {i : Nat}

/-- What the others have seen, a step of one call leaves as it is. -/
theorem Consistent.others (h : Consistent baseDir x) (hc : x.calls[i]? = some c)
    (hmove : move baseDir c x.state = some (c', s')) {d : FileCall format}
    (hd : d ∈ x.calls.set i c') : d = c' ∨ Knows baseDir s'.files d := by
  obtain ⟨-, hstep⟩ := step_of_move hmove
  rcases List.mem_or_eq_of_mem_set hd with hmem | rfl
  · rcases hstep.files_eq (sessionPath baseDir d.operation.sessionId) with
      hfiles | ⟨⟨lock, hlock⟩, hpath⟩
    · exact .inr ((h.knows d hmem).congr hfiles)
    · -- the one call that holds the lock of this session is the one that moves
      have hcount : x.calls.countP (·.phase.held = some lock) ≤ 1 := by
        rw [h.locked.exclusive]
        split <;> decide
      rcases mem_set_of_countP_le_one hc (decide_eq_true hlock) hcount hd with rfl | ⟨-, hother⟩
      · exact .inl rfl
      · refine .inr (knows_of_not_held ?_)
        cases hheld : d.phase.held with
        | none => rfl
        | some lock' =>
          have hown := h.locked.own d hmem lock' (Phase.lock?_of_held hheld)
          have hown' := h.locked.own c (List.mem_of_getElem? hc) lock (Phase.lock?_of_held hlock)
          rw [sessionPath_inj hpath, hown', Option.some.injEq] at hown
          exact absurd (hheld.trans (congrArg some hown.symm)) (of_decide_eq_false hother)
  · exact .inl rfl

end Consistent

/-- Each call takes effect in one of its steps. -/
theorem points (format : MapFormat) (baseDir : String) :
    Crowd.Points start (move baseDir) MemorySessionDataStore.call FileCall.operation answer
      (fun c : FileCall format => c.phase.settled) (Consistent baseDir)
      (fun s data => Represents baseDir s.files data) where
  operation_start _ := rfl
  pending _ := rfl
  answered c r h := by
    obtain ⟨op, p⟩ := c
    cases p <;> first | exact h | cases h
  enter x op h := by
    refine ⟨h.locked.enter op, fun c hc => ?_⟩
    rcases List.mem_append.mp hc with hc | hc
    · exact h.knows c hc
    · rw [List.mem_singleton.mp hc]
      exact knows_of_not_held rfl
  advance x i c c' s' data h hdata hc hmove := by
    obtain ⟨hseen, heffect⟩ := move_effect (h.knows c (List.mem_of_getElem? hc)) hdata hmove
    refine ⟨⟨h.locked.advance hc hmove, fun d hd => ?_⟩, (step_of_move hmove).1, heffect⟩
    rcases h.others hc hmove hd with rfl | hknows
    · exact hseen
    · exact hknows

theorem consistent_new (format : MapFormat) (baseDir : String) :
    Consistent baseDir (⟨[], new⟩ : Crowd (FileCall format) (FileSessionDataStore format)) where
  locked :=
    { apart := ⟨fun _ _ _ h => (by cases h), fun _ _ h => (by cases h)⟩
      own := fun _ h => (by cases h)
      registry := rfl
      exclusive := fun _ => rfl }
  knows _ h := by cases h

/-- Each step of a call leaves it fewer of them. -/
theorem remaining_lt (h : move baseDir c s = some (c', s')) :
    c'.phase.remaining < c.phase.remaining := by
  obtain ⟨-, hstep⟩ := step_of_move h
  generalize c.phase = p, c'.phase = p' at hstep
  cases hstep with
  | work hp hp' hless => exact hless
  | take hfree hp => rcases hp with rfl | rfl <;> simp [Phase.remaining]
  | _ => simp [Phase.remaining]

/-- **The file store is the store in memory**: whatever the interleaving of the calls, there is an
order of them that respects which had returned when which entered, in which the map in memory
gives every call what the file store returns; and the calls all return. -/
theorem fileSessionDataStore_linearizes (format : MapFormat) (baseDir : String)
    (turns : List (Crowd.Turn Operation))
    (y : Crowd (FileCall format) (FileSessionDataStore format))
    (hrun : Crowd.run start (move baseDir) ⟨[], new⟩ turns = some y) :
    (∃ log, Crowd.Linearizes start (move baseDir) MemorySessionDataStore.call FileCall.operation
      answer MemorySessionDataStore.new ⟨[], new⟩ turns y log) ∧
    Crowd.Completes start (move baseDir) answer y := by
  have hpoints := points format baseDir
  have hinv := consistent_new format baseDir
  have hdata : Represents baseDir (new : FileSessionDataStore format).files
      MemorySessionDataStore.new := represents_new
  refine ⟨Crowd.exists_linearization hpoints rfl hinv hdata hrun, ?_⟩
  obtain ⟨⟨hlocked, -⟩, -⟩ := Crowd.exists_settled hpoints rfl hinv hdata hrun
  refine Crowd.completes_of_countdown (fun c => c.phase.remaining) hlocked ?_ ?_ ?_
  · intro x i z hx hstep
    obtain ⟨op, hop, -⟩ | ⟨j, c, c', s', -, hc, hmove, rfl⟩ := Crowd.step_cases hstep
    · cases hop
    · exact hx.advance hc hmove
  · intro c s c' s' hmove
    exact remaining_lt hmove
  · intro x hx
    exact hx.exists_move baseDir

/-- The map with the one entry `flag`. -/
def flagMap : SessionMap := (∅ : SessionMap).insert "flag" (.bool true)

def flagText : String := "\x7b\n  \"flag\": true\n\x7d"

/-- Writes this map as its JSON text, and the others as they are. -/
def flagFormat : MapFormat where
  Text := String ⊕ SessionMap
  toStringPretty _ m := if m = flagMap then .inl flagText else .inr m
  fromStr
    | .inl text =>
        if text = flagText then .ok flagMap else .error "expected value at line 1 column 1"
    | .inr m => .ok m
  roundTrip order m := by
    by_cases hm : m = flagMap
    · simp [hm]
    · simp [hm]

/-- A `get` makes the lock of its session, is overtaken by a `set`, waits for it, and returns what
it has set. -/
theorem overtaken_get_linearizes :
    ∃ y, Crowd.run start (move "data") (⟨[], new⟩ : Crowd (FileCall flagFormat) _)
        ([.enter (.get ⟨7, by decide⟩ "flag"), .enter (.set ⟨7, by decide⟩ "flag" (.bool true))] ++
          [0, 0, 0, 1, 1, 1, 1, 1, 1, 1, 1, 0, 0, 0, 0, 0].map .advance) = some y ∧
      y.answerAt answer 0 = some (.ok (.found (some (.bool true)))) ∧
      (∃ log, Crowd.Linearizes start (move "data") MemorySessionDataStore.call FileCall.operation
        answer MemorySessionDataStore.new ⟨[], new⟩
        ([.enter (.get ⟨7, by decide⟩ "flag"), .enter (.set ⟨7, by decide⟩ "flag" (.bool true))] ++
          [0, 0, 0, 1, 1, 1, 1, 1, 1, 1, 1, 0, 0, 0, 0, 0].map .advance) y log) ∧
      Crowd.Completes start (move "data") answer y := by
  have hrun : ((Crowd.run start (move "data") (⟨[], new⟩ : Crowd (FileCall flagFormat) _)
      ([.enter (.get ⟨7, by decide⟩ "flag"), .enter (.set ⟨7, by decide⟩ "flag" (.bool true))] ++
        [0, 0, 0, 1, 1, 1, 1, 1, 1, 1, 1, 0, 0, 0, 0, 0].map .advance)).any fun y =>
      decide (y.answerAt answer 0 = some (.ok (.found (some (.bool true)))))) = true := by
    decide +kernel
  obtain ⟨y, hy, hanswer⟩ := Option.any_eq_true _ _ |>.mp hrun
  exact ⟨y, hy, of_decide_eq_true hanswer,
    fileSessionDataStore_linearizes flagFormat "data" _ y hy⟩

end FileSessionDataStore

end Behest.SessionData
