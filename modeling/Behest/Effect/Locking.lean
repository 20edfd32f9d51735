import Mathlib.Data.Finset.Max
import Mathlib.Data.List.Basic
import Mathlib.Logic.Relation

/-!
# Methods of an object guarded by locks

A method takes locks, gives them back and reads and changes the state of its object. Alone
it is a function of the state; together with other calls it is interleaved step by step, and
a call whose next lock is held by others has to wait. Calls that all take their locks in the
order of some rank do not wait for each other in a circle.
-/

namespace Effect

/-- How a lock is held. -/
inductive Mode where
  | shared
  | exclusive
deriving DecidableEq

/-- Only two shared holders tolerate each other. -/
def Mode.excludes : Mode → Mode → Bool
  | .shared, .shared => false
  | _, _ => true

/-- A method of an object with state `σ` and locks `L`. An access changes the state and hands
the state it found to the rest of the method. -/
inductive Method (L σ α : Type) where
  | done (a : α)
  | acquire (l : L) (mode : Mode) (next : Method L σ α)
  | release (l : L) (next : Method L σ α)
  | access (f : σ → σ) (next : σ → Method L σ α)

namespace Method

variable {L σ α β : Type}

/-- One method after the other. -/
def andThen : Method L σ α → (α → Method L σ β) → Method L σ β
  | done a, k => k a
  | acquire l mode next, k => acquire l mode (next.andThen k)
  | release l next, k => release l (next.andThen k)
  | access f next, k => access f fun s => (next s).andThen k

instance : Monad (Method L σ) where
  pure := done
  bind := andThen

/-- Read the state. -/
def look : Method L σ σ := access id done

/-- Change the state; returns the state found. -/
def change (f : σ → σ) : Method L σ σ := access f done

/-- Hold a lock while the body runs. -/
def holding (l : L) (mode : Mode) (body : Method L σ α) : Method L σ α :=
  acquire l mode (body.andThen fun a => release l (done a))

/-- The method, its answer dropped. -/
def forget (m : Method L σ α) : Method L σ Unit := m.andThen fun _ => done ()

/-- The effect of a method that runs alone. -/
def run : Method L σ α → σ → α × σ
  | done a, s => (a, s)
  | acquire _ _ next, s => next.run s
  | release _ next, s => next.run s
  | access f next, s => (next s).run (f s)

theorem run_andThen (m : Method L σ α) (k : α → Method L σ β) (s : σ) :
    (m.andThen k).run s = (k (m.run s).1).run (m.run s).2 := by
  induction m generalizing s with
  | done a => rfl
  | acquire l mode next ih => exact ih s
  | release l next ih => exact ih s
  | access f next ih => exact ih s (f s)

@[simp] theorem run_pure (a : α) (s : σ) : (pure a : Method L σ α).run s = (a, s) := rfl

@[simp] theorem run_bind (m : Method L σ α) (k : α → Method L σ β) (s : σ) :
    (m >>= k).run s = (k (m.run s).1).run (m.run s).2 := run_andThen m k s

@[simp] theorem run_look (s : σ) : (look : Method L σ σ).run s = (s, s) := rfl

@[simp] theorem run_change (f : σ → σ) (s : σ) :
    (change f : Method L σ σ).run s = (s, f s) := rfl

@[simp] theorem run_holding (l : L) (mode : Mode) (body : Method L σ α) (s : σ) :
    (holding l mode body).run s = body.run s := run_andThen body _ s

/-- The lock a method takes next. -/
def wants : Method L σ α → Option (L × Mode)
  | acquire l mode _ => some (l, mode)
  | _ => none

/-- The next step of a method is an access. -/
def isAccess : Method L σ α → Bool
  | access _ _ => true
  | _ => false

end Method

/-- A call under way: the locks it holds, youngest first, and what is left of its method. -/
structure Call (L σ Op : Type) where
  op : Op
  held : List (L × Mode)
  todo : Method L σ Unit

/-- The calls on one object and the state they share. -/
structure Pool (L σ Op : Type) where
  calls : List (Call L σ Op)
  state : σ

/-- A call begins, or a call takes its next step. -/
inductive Turn (Op : Type) where
  | enter (op : Op)
  | advance (i : Nat)

variable {L σ Op : Type} [DecidableEq L]

namespace Call

/-- The call has the lock, in one mode or the other. -/
def holds (c : Call L σ Op) (l : L) : Bool := c.held.any fun h => h.1 == l

/-- Another call may not take the lock in the mode. -/
def refuses (c : Call L σ Op) (want : L × Mode) : Bool :=
  c.held.any fun h => h.1 == want.1 && want.2.excludes h.2

/-- One step of the call, when it is not made to wait. -/
def step (c : Call L σ Op) (s : σ) : Option (Call L σ Op × σ) :=
  match c.todo with
  | .done _ => none
  | .acquire l mode next => some ({ c with held := (l, mode) :: c.held, todo := next }, s)
  | .release l next => some ({ c with held := c.held.filter fun h => h.1 != l, todo := next }, s)
  | .access f next => some ({ c with todo := next s }, f s)

theorem op_step {c c' : Call L σ Op} {s s' : σ} (h : c.step s = some (c', s')) : c'.op = c.op := by
  unfold step at h
  split at h <;> simp only [Option.some.injEq, Prod.mk.injEq, reduceCtorEq] at h
  all_goals rw [← h.1]

end Call

namespace Pool

variable (method : Op → Method L σ Unit)

/-- No other call refuses what the call wants next. -/
def admits (pool : Pool L σ Op) (i : Nat) (c : Call L σ Op) : Bool :=
  match c.todo.wants with
  | some want => pool.calls.zipIdx.all fun other => other.2 == i || !other.1.refuses want
  | none => true

/-- One turn of the interleaving; `none` when it cannot be taken. -/
def step (pool : Pool L σ Op) : Turn Op → Option (Pool L σ Op)
  | .enter op => some { pool with calls := pool.calls ++ [⟨op, [], method op⟩] }
  | .advance i =>
      match pool.calls[i]? with
      | some c =>
          if pool.admits i c then (c.step pool.state).map fun r => ⟨pool.calls.set i r.1, r.2⟩
          else none
      | none => none

/-- A sequence of turns. -/
def steps (pool : Pool L σ Op) (turns : List (Turn Op)) : Option (Pool L σ Op) :=
  turns.foldlM (fun p t => p.step method t) pool

/-- The pools an interleaving can lead to by turns of a kind. -/
def Leads (allowed : Pool L σ Op → Turn Op → Prop) : Pool L σ Op → Pool L σ Op → Prop :=
  Relation.ReflTransGen fun p q => ∃ t, allowed p t ∧ p.step method t = some q

/-- The lock the call at a position takes next is held by the call at another one, in one mode
or the other: a fair lock may queue a reader behind a writer that waits for another reader. -/
def waits (pool : Pool L σ Op) (i j : Nat) : Bool :=
  i != j &&
    match pool.calls[i]?, pool.calls[j]? with
    | some c, some c' =>
        match c.todo.wants with
        | some want => c'.holds want.1
        | none => false
    | _, _ => false

/-- Some calls wait for each other. -/
def Deadlocked (pool : Pool L σ Op) : Prop :=
  ∃ S : Finset Nat, S.Nonempty ∧ ∀ i ∈ S, ∃ j ∈ S, pool.waits i j = true

variable {method}

theorem waits_iff {pool : Pool L σ Op} {i j : Nat} : pool.waits i j = true ↔
    i ≠ j ∧ ∃ c c' want, pool.calls[i]? = some c ∧ pool.calls[j]? = some c' ∧
      c.todo.wants = some want ∧ c'.holds want.1 = true := by
  unfold waits
  rw [Bool.and_eq_true, bne_iff_ne]
  apply and_congr_right
  intro _
  cases pool.calls[i]? <;> cases pool.calls[j]? <;> simp only [reduceCtorEq, false_and, and_false,
    exists_false, Bool.false_eq_true, Option.some.injEq]
  next c c' =>
    cases hw : c.todo.wants with
    | none => simp [hw]
    | some want => simp [hw]

/-- The rank of the lock the call at a position takes next. -/
def wantedRank (rank : L → Nat) (pool : Pool L σ Op) (i : Nat) : Nat :=
  match pool.calls[i]? with
  | some c => c.todo.wants.elim 0 fun want => rank want.1
  | none => 0

/-- **Calls that take every lock above the locks they hold do not deadlock**. -/
theorem not_deadlocked_of_rank (rank : L → Nat) {pool : Pool L σ Op}
    (h : ∀ c ∈ pool.calls, ∀ want, c.todo.wants = some want → ∀ l, c.holds l = true →
      rank l < rank want.1) : ¬ pool.Deadlocked := by
  rintro ⟨S, hne, hS⟩
  -- the call that wants the highest lock waits for one that wants a higher one
  obtain ⟨i, hi, hmax⟩ := S.exists_max_image (pool.wantedRank rank) hne
  obtain ⟨j, hj, hij⟩ := hS i hi
  obtain ⟨_, ci, cj, want, hci, hcj, hwant, hholds⟩ := waits_iff.mp hij
  obtain ⟨k, _, hjk⟩ := hS j hj
  obtain ⟨_, cj', _, want', hcj', _, hwant', _⟩ := waits_iff.mp hjk
  rw [hcj] at hcj'
  cases hcj'
  have hlt := h cj (List.mem_of_getElem? hcj) want' hwant' want.1 hholds
  have hle := hmax j hj
  simp only [wantedRank, hci, hcj, hwant, hwant', Option.elim_some] at hle
  omega

/-- The run rule: what every allowed turn preserves holds of every pool reached. -/
theorem Leads.invariant {allowed : Pool L σ Op → Turn Op → Prop} {p q : Pool L σ Op}
    (I : Pool L σ Op → Prop) (h : Leads method allowed p q) (hp : I p)
    (hI : ∀ p t q, I p → allowed p t → p.step method t = some q → I q) : I q := by
  induction h with
  | refl => exact hp
  | tail _ hstep ih =>
    obtain ⟨t, ht, hstep⟩ := hstep
    exact hI _ t _ ih ht hstep

/-- A sequence of turns, all of them allowed. -/
def stepsWhile (method : Op → Method L σ Unit) (allowed : Pool L σ Op → Turn Op → Prop)
    [∀ p t, Decidable (allowed p t)] (pool : Pool L σ Op) (turns : List (Turn Op)) :
    Option (Pool L σ Op) :=
  turns.foldlM (fun p t => if allowed p t then p.step method t else none) pool

theorem leads_of_stepsWhile {allowed : Pool L σ Op → Turn Op → Prop}
    [∀ p t, Decidable (allowed p t)] {p q : Pool L σ Op} {turns : List (Turn Op)}
    (h : p.stepsWhile method allowed turns = some q) : Leads method allowed p q := by
  induction turns generalizing p with
  | nil =>
    cases h
    exact .refl
  | cons t rest ih =>
    simp only [stepsWhile, List.foldlM_cons, Option.bind_eq_bind, Option.bind_eq_some_iff] at h
    obtain ⟨p', hstep, hrest⟩ := h
    split at hstep
    · next hallowed => exact .head ⟨t, hallowed, hstep⟩ (ih hrest)
    · cases hstep

/-- A turn adds a call at its beginning, or moves one call. -/
theorem step_cases {p q : Pool L σ Op} {t : Turn Op} (h : p.step method t = some q) :
    (∃ op, t = .enter op ∧ q = ⟨p.calls ++ [⟨op, [], method op⟩], p.state⟩) ∨
    ∃ i c c' s', t = .advance i ∧ p.calls[i]? = some c ∧ p.admits i c = true ∧
      c.step p.state = some (c', s') ∧ q = ⟨p.calls.set i c', s'⟩ := by
  cases t with
  | enter op =>
    simp only [step, Option.some.injEq] at h
    exact .inl ⟨op, rfl, h.symm⟩
  | advance i =>
    simp only [step] at h
    split at h
    · next c hc =>
      split at h
      · next hadmits =>
        obtain ⟨r, hr, rfl⟩ := Option.map_eq_some_iff.mp h
        exact .inr ⟨i, c, r.1, r.2, rfl, hc, hadmits, hr, rfl⟩
      · cases h
    · cases h

end Pool

namespace Method

variable {α : Type}

/-- What holds at every position of a method that starts with some locks, whatever state its
accesses find. -/
def Always (P : List (L × Mode) → Method L σ α → Prop) :
    List (L × Mode) → Method L σ α → Prop
  | held, done a => P held (done a)
  | held, acquire l mode next =>
      P held (acquire l mode next) ∧ Always P ((l, mode) :: held) next
  | held, release l next =>
      P held (release l next) ∧ Always P (held.filter fun h => h.1 != l) next
  | held, access f next => P held (access f next) ∧ ∀ s, Always P held (next s)

theorem Always.here {P : List (L × Mode) → Method L σ α → Prop} {held : List (L × Mode)}
    {m : Method L σ α} (h : m.Always P held) : P held m := by
  cases m with
  | done a => exact h
  | acquire l mode next => exact h.1
  | release l next => exact h.1
  | access f next => exact h.1

end Method

/-- The positions a call goes through are positions of its method. -/
theorem Call.always_step {P : List (L × Mode) → Method L σ Unit → Prop} {c c' : Call L σ Op}
    {s s' : σ} (h : c.todo.Always P c.held) (hstep : c.step s = some (c', s')) :
    c'.todo.Always P c'.held := by
  obtain ⟨op, held, todo⟩ := c
  cases todo with
  | done a => cases hstep
  | acquire l mode next =>
    cases hstep
    exact h.2
  | release l next =>
    cases hstep
    exact h.2
  | access f next =>
    cases hstep
    exact h.2 s

/-- A turn leaves every call at a position of its method. -/
theorem Pool.always_step {method : Op → Method L σ Unit}
    {P : Op → List (L × Mode) → Method L σ Unit → Prop}
    (hmethod : ∀ op, (method op).Always (P op) []) {p q : Pool L σ Op} {t : Turn Op}
    (hp : ∀ c ∈ p.calls, c.todo.Always (P c.op) c.held) (hstep : p.step method t = some q) :
    ∀ c ∈ q.calls, c.todo.Always (P c.op) c.held := by
  rcases step_cases hstep with ⟨op, rfl, rfl⟩ | ⟨i, c, c', s', rfl, hc, _, hmove, rfl⟩
  · intro c hc
    rcases List.mem_append.mp hc with hc | hc
    · exact hp c hc
    · rw [List.mem_singleton] at hc
      subst hc
      exact hmethod op
  · intro d hd
    rcases List.mem_or_eq_of_mem_set hd with hd | rfl
    · exact hp d hd
    · rw [Call.op_step hmove]
      exact Call.always_step (hp c (List.mem_of_getElem? hc)) hmove

end Effect
