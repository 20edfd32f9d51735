import Behest.Effect.Logged
import Behest.Runtime.Provider

/-!
# Rules for calls

The weakest precondition of each primitive of the runtime, for any failure postcondition
that accepts a crash, and the kinds of actions each primitive performs. A fault is never
resolved: a rule asks for its postcondition both for the call that meets some fault and for
the call that meets none.
-/

namespace Behest

open Effect

/-- A failure postcondition that accepts a process that crashes wherever it stands. -/
class Tolerant (E : Stop → World → Prop) : Prop where
  crashed (w : World) : E .crashed w

/-- A failure postcondition about the errors a program returns; a program that crashes,
panics or runs out of fuel returns nothing. -/
def Fails (P : RuntimeError → World → Prop) : Stop → World → Prop
  | .failed e, w => P e w
  | _, _ => True

@[simp] theorem fails_failed (P : RuntimeError → World → Prop) (e : RuntimeError) (w : World) :
    Fails P (.failed e) w ↔ P e w := Iff.rfl

@[simp] theorem fails_panicked (P : RuntimeError → World → Prop) (w : World) :
    Fails P .panicked w := trivial

@[simp] theorem fails_outOfFuel (P : RuntimeError → World → Prop) (w : World) :
    Fails P .outOfFuel w := trivial

instance (P : RuntimeError → World → Prop) : Tolerant (Fails P) := ⟨fun _ => trivial⟩

/-- The program returned an error or its process ended. -/
def Stop.Clean : Stop → Prop
  | .failed _ | .crashed => True
  | .panicked | .outOfFuel => False

instance : Tolerant fun e _ => e.Clean := ⟨fun _ => trivial⟩

section Rules

variable {α : Type} {host : Host} {w : World} {E : Stop → World → Prop}

@[simp] theorem wp_fail {Q : α → World → Prop} (e : RuntimeError) :
    wp (fail e : M α) Q E w ↔ E (.failed e) w := Iff.rfl

/-- The error of a program becomes a value; nothing else is caught. -/
theorem wp_caught {x : M α} {Q : Except RuntimeError α → World → Prop}
    (h : wp x (fun a w' => Q (.ok a) w') (fun e w' => match e with
      | .failed e => Q (.error e) w'
      | e => E e w') w) :
    wp (caught x) Q E w := by
  unfold caught
  rw [wp_attempt]
  apply wp_mono h
  · exact fun _ _ hq => hq
  · intro e w' he
    cases e <;> exact he

/-! The process may end right after an action, so the crash is a case of every rule. -/

theorem wp_perform_crash {Q : Unit → World → Prop} {a : Action}
    (h : E .crashed (w.apply a) ∧ Q () (w.apply a)) : wp (host.perform a) Q E w := by
  unfold Host.perform
  simp only [wp_bind, wp_modify, wp_get]
  split
  · exact h.1
  · exact h.2

theorem wp_call_crash {Q : Unit → World → Prop} {a : Action} {fault : Option RuntimeError}
    (hcrash : E .crashed (w.apply a)) (hfault : ∀ e, fault = some e → E (.failed e) (w.apply a))
    (hok : fault = none → Q () (w.apply a)) : wp (host.call a fault) Q E w := by
  unfold Host.call
  rw [wp_bind]
  apply wp_perform_crash
  constructor
  · exact hcrash
  · cases fault with
    | some e => exact hfault e rfl
    | none => exact hok rfl

/-- A call whose action tells its fault. -/
theorem wp_call_fault {ε : Type} {Q : Unit → World → Prop} {action : Option ε → Action}
    {error : ε → RuntimeError} {fault : Option ε} {reported : Option RuntimeError}
    (hreported : reported = fault.map error)
    (hfault : ∀ e, E .crashed (w.apply (action (some e))) ∧
      E (.failed (error e)) (w.apply (action (some e))))
    (hok : fault = none →
      E .crashed (w.apply (action none)) ∧ Q () (w.apply (action none))) :
    wp (host.call (action fault) reported) Q E w := by
  subst hreported
  cases fault with
  | some e =>
    apply wp_call_crash (hfault e).1
    · rintro _ ⟨⟩
      exact (hfault e).2
    · rintro ⟨⟩
  | none =>
    apply wp_call_crash (hok rfl).1
    · rintro _ ⟨⟩
    · exact fun _ => (hok rfl).2

theorem wp_newId_crash {Q : Uuid → World → Prop}
    (h : E .crashed (w.apply .drew) ∧ ∀ id, Q id (w.apply .drew)) : wp host.newId Q E w := by
  unfold Host.newId
  simp only [wp_bind, wp_get]
  exact wp_perform_crash ⟨h.1, h.2 _⟩

theorem wp_readClock_crash {Q : Nat → World → Prop}
    (h : E .crashed (w.apply .drew) ∧ ∀ t, Q t (w.apply .drew)) : wp host.readClock Q E w := by
  unfold Host.readClock
  simp only [wp_bind, wp_get]
  exact wp_perform_crash ⟨h.1, h.2 _⟩

theorem wp_onSession_crash {Q : Unit → World → Prop} {op : SessionOp}
    (hfault : ∀ e, E .crashed (w.apply (.session op (some e))) ∧
      E (.failed (.storage e)) (w.apply (.session op (some e))))
    (hok : w.sessionRefusal op = none →
      E .crashed (w.apply (.session op none)) ∧ Q () (w.apply (.session op none))) :
    wp (host.onSession op) Q E w := by
  unfold Host.onSession
  simp only [wp_bind, wp_get]
  exact wp_call_fault rfl hfault fun hnone => hok (Option.or_eq_none_iff.mp hnone).2

theorem wp_onRun_crash {Q : Unit → World → Prop} {op : RunOp}
    (hfault : ∀ e, E .crashed (w.apply (.run op (some e))) ∧
      E (.failed e) (w.apply (.run op (some e))))
    (hok : w.runRefusal op = none →
      E .crashed (w.apply (.run op none)) ∧ Q () (w.apply (.run op none))) :
    wp (host.onRun op) Q E w := by
  unfold Host.onRun
  simp only [wp_bind, wp_get]
  exact wp_call_fault Option.map_id_apply.symm hfault fun hnone =>
    hok (Option.or_eq_none_iff.mp hnone).2

theorem wp_onSnapshot_crash {Q : Unit → World → Prop} {op : SnapshotOp}
    (hfault : ∀ e, E .crashed (w.apply (.snapshot op (some e))) ∧
      E (.failed e) (w.apply (.snapshot op (some e))))
    (hok : E .crashed (w.apply (.snapshot op none)) ∧ Q () (w.apply (.snapshot op none))) :
    wp (host.onSnapshot op) Q E w := by
  unfold Host.onSnapshot
  simp only [wp_bind, wp_get]
  exact wp_call_fault Option.map_id_apply.symm hfault fun _ => hok

theorem wp_complete_crash {provider : ChatProvider} {request : ChatRequest}
    {Q : Except ProviderError ChatResponse → World → Prop}
    (h : E .crashed (w.apply (.requested provider.id false request)) ∧
      Q (provider.complete w request) (w.apply (.requested provider.id false request))) :
    wp (host.complete provider request) Q E w := by
  unfold Host.complete
  simp only [wp_bind, wp_get]
  exact wp_perform_crash h

theorem wp_stream_crash {provider : ChatProvider} {request : ChatRequest}
    {Q : Except ProviderError (List StreamItem) → World → Prop}
    (h : E .crashed (w.apply (.requested provider.id true request)) ∧
      Q (provider.stream w request) (w.apply (.requested provider.id true request))) :
    wp (host.stream provider request) Q E w := by
  unfold Host.stream
  simp only [wp_bind, wp_get]
  exact wp_perform_crash h

/-! Where every crash is accepted, the case disappears. -/

variable [Tolerant E]

theorem wp_perform {Q : Unit → World → Prop} {a : Action} (h : Q () (w.apply a)) :
    wp (host.perform a) Q E w :=
  wp_perform_crash ⟨Tolerant.crashed _, h⟩

theorem wp_newId {Q : Uuid → World → Prop} (h : ∀ id, Q id (w.apply .drew)) :
    wp host.newId Q E w :=
  wp_newId_crash ⟨Tolerant.crashed _, h⟩

theorem wp_readClock {Q : Nat → World → Prop} (h : ∀ t, Q t (w.apply .drew)) :
    wp host.readClock Q E w :=
  wp_readClock_crash ⟨Tolerant.crashed _, h⟩

theorem wp_onSession {Q : Unit → World → Prop} {op : SessionOp}
    (hfault : ∀ e, E (.failed (.storage e)) (w.apply (.session op (some e))))
    (hok : w.sessionRefusal op = none → Q () (w.apply (.session op none))) :
    wp (host.onSession op) Q E w :=
  wp_onSession_crash (fun e => ⟨Tolerant.crashed _, hfault e⟩) fun h => ⟨Tolerant.crashed _, hok h⟩

theorem wp_complete {provider : ChatProvider} {request : ChatRequest}
    {Q : Except ProviderError ChatResponse → World → Prop}
    (h : Q (provider.complete w request) (w.apply (.requested provider.id false request))) :
    wp (host.complete provider request) Q E w :=
  wp_complete_crash ⟨Tolerant.crashed _, h⟩

end Rules

/-! ### The actions a program performs -/

/-- Programs of the runtime that perform only actions of the kind `K`, and neither panic nor
run out of fuel. -/
abbrev Performs {α : Type} (K : Action → Prop) (x : M α) : Prop :=
  Effect.Performs World.apply K Stop.Clean x

/-- Worlds reached by actions of the kind `K`. -/
abbrev Reaches (K : Action → Prop) : World → World → Prop := Effect.Reaches World.apply K

/-- The transcript grows by actions of the kind. -/
theorem trace_of_reaches {K : Action → Prop} {w w' : World} (h : Reaches K w w') :
    ∃ as, w'.trace = w.trace ++ as ∧ ∀ a ∈ as, K a := by
  induction h with
  | refl => exact ⟨[], by simp⟩
  | @step w' a _ ha ih =>
    obtain ⟨as, has, hK⟩ := ih
    refine ⟨as ++ [a], by rw [World.apply_trace, has, List.append_assoc], ?_⟩
    simpa [or_imp, forall_and] using ⟨hK, ha⟩

/-- The transcript of the actions determines the world they lead to. -/
theorem eq_after_of_reaches {K : Action → Prop} {w w' : World} {as : List Action}
    (h : Reaches K w w') (htrace : w'.trace = w.trace ++ as) : w' = w.after as := by
  induction h generalizing as with
  | refl =>
    obtain rfl : as = [] := List.self_eq_append_right.mp htrace
    rfl
  | @step w' a _ _ ih =>
    obtain ⟨bs, hbs, -⟩ := trace_of_reaches ‹_›
    rw [World.apply_trace, hbs, List.append_assoc] at htrace
    obtain rfl := List.append_cancel_left htrace
    rw [World.after_append, ← ih hbs]
    rfl

section Performs

variable {α : Type} {host : Host} {K : Action → Prop}

theorem performs_fail (e : RuntimeError) : Performs K (fail e : M α) := performs_throw trivial

theorem performs_caught {x : M α} (h : Performs K x) : Performs K (caught x) :=
  performs_attempt h

theorem performs_perform {a : Action} (h : K a) : Performs K (host.perform a) := by
  unfold Host.perform
  apply performs_bind (performs_modify h)
  intro _
  apply performs_bind performs_get
  intro w
  exact performs_ite (performs_throw trivial) (performs_pure _)

theorem performs_call {a : Action} {fault : Option RuntimeError} (h : K a) :
    Performs K (host.call a fault) := by
  unfold Host.call
  apply performs_bind (performs_perform h)
  intro _
  cases fault with
  | some e => exact performs_fail e
  | none => exact performs_pure _

theorem performs_newId (h : K .drew) : Performs K host.newId := by
  apply performs_bind performs_get
  intro w
  exact performs_bind (performs_perform h) fun _ => performs_pure _

theorem performs_readClock (h : K .drew) : Performs K host.readClock := by
  apply performs_bind performs_get
  intro w
  exact performs_bind (performs_perform h) fun _ => performs_pure _

theorem performs_onSession {op : SessionOp} (h : ∀ fault, K (.session op fault)) :
    Performs K (host.onSession op) :=
  performs_bind performs_get fun _ => performs_call (h _)

theorem performs_onRun {op : RunOp} (h : ∀ fault, K (.run op fault)) :
    Performs K (host.onRun op) :=
  performs_bind performs_get fun _ => performs_call (h _)

theorem performs_onSnapshot {op : SnapshotOp} (h : ∀ fault, K (.snapshot op fault)) :
    Performs K (host.onSnapshot op) :=
  performs_bind performs_get fun _ => performs_call (h _)

theorem performs_emit {event : AgentEvent} (h : K (.emitted event)) :
    Performs K (host.emit event) :=
  performs_perform h

theorem performs_listMessages {sessionId : Uuid}
    (h : ∀ fault, K (.session (.listMessages sessionId) fault)) :
    Performs K (host.listMessages sessionId) := by
  apply performs_bind (performs_onSession h)
  intro _
  exact performs_bind performs_get fun _ => performs_pure _

theorem performs_appendMessage {sessionId : Uuid} {message : Message} (hdrew : K .drew)
    (h : ∀ id createdAt fault,
      K (.session (.appendMessage (messageToRecord id createdAt sessionId message)) fault)) :
    Performs K (host.appendMessage sessionId message) := by
  apply performs_bind (performs_newId hdrew)
  intro id
  apply performs_bind (performs_readClock hdrew)
  intro createdAt
  exact performs_bind (performs_onSession (h id createdAt)) fun _ => performs_pure _

theorem performs_complete {provider : ChatProvider} {request : ChatRequest}
    (h : K (.requested provider.id false request)) :
    Performs K (host.complete provider request) := by
  apply performs_bind performs_get
  intro w
  exact performs_bind (performs_perform h) fun _ => performs_pure _

theorem performs_stream {provider : ChatProvider} {request : ChatRequest}
    (h : K (.requested provider.id true request)) :
    Performs K (host.stream provider request) := by
  apply performs_bind performs_get
  intro w
  exact performs_bind (performs_perform h) fun _ => performs_pure _

end Performs

end Behest
