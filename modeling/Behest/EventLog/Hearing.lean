import Behest.Effect.Crowd
import Behest.EventLog.Delivery
import Behest.Runtime.EventOrder

/-!
# A consumer that follows a run

The two ends of the way of an event put together. Where the bridge keeps up, the log accepts what
it appends and nobody else writes to the log of a run, a consumer that follows the run from its
start has at every moment a beginning of what the runtime sent of it; so what it has heard is a
word of the listener, and when it hears that the run is complete, it is.
-/

namespace Behest

open Channel Effect

namespace Heard

variable {runId : Uuid} {events heard : List AgentEvent} {p q : Heard}

/-- A beginning of a word is a word. -/
theorem listen_of_prefix (h : heard <+: events) (hp : listen runId events = some p) :
    ∃ q, listen runId heard = some q := by
  obtain ⟨rest, rfl⟩ := h
  unfold listen at hp ⊢
  rw [List.foldlM_append] at hp
  obtain ⟨q, hq, -⟩ := Option.bind_eq_some_iff.mp hp
  exact ⟨q, hq⟩

end Heard

namespace EventLog

namespace Delivery

variable {runId : Uuid} {x y : Delivery}

/-- The bridge is never further behind than its channel holds, and the log refuses nothing. -/
def KeepsUp (x : Delivery) : Turn → Prop
  | .forward _ _ accepted =>
      accepted = true ∧ x.emitted.length ≤ x.position + eventChannelCapacity
  | _ => True

instance (x : Delivery) : (t : Turn) → Decidable (KeepsUp x t)
  | .forward _ _ accepted => inferInstanceAs (Decidable (accepted = true ∧
      x.emitted.length ≤ x.position + eventChannelCapacity))
  | .emit _ | .publish | .append _ | .subscribeRun .. | .turnPage .. | .receive _ | .hand _
  | .poll _ | .drop _ => .isTrue trivial

/-- The bridge keeps up, and nobody else appends an event of the run. -/
def Prompt (runId : Uuid) (x : Delivery) (t : Turn) : Prop := Sole runId x t ∧ KeepsUp x t

instance (runId : Uuid) (x : Delivery) (t : Turn) : Decidable (Prompt runId x t) := by
  unfold Prompt
  infer_instance

/-- What the runtime has sent of a run. -/
def sentOf (x : Delivery) (runId : Uuid) : List AgentEvent :=
  x.emitted.filter fun e => e.runId = runId

/-- The log of the run has what the bridge has passed of it. -/
structure Logged (runId : Uuid) (x : Delivery) : Prop where
  sound : x.Sound
  within : x.position ≤ x.emitted.length
  log : (x.store.log runId).map RuntimeEventEnvelope.event =
    (x.emitted.take x.position).filter fun e => e.runId = runId

/-- A bridge that keeps up appends the next event. -/
theorem forward_of_prompt {eventId emittedAt : Nat}
    (hpace : x.emitted.length ≤ x.position + eventChannelCapacity)
    (h : x.forward eventId emittedAt true = some y) :
    ∃ hlt : x.position < x.emitted.length,
      y = x.appended (x.position + 1) ⟨x.emitted[x.position], eventId, emittedAt⟩ := by
  unfold Delivery.forward at h
  split at h
  · cases h
  · obtain ⟨⟨reading, position⟩, hrecv, rfl⟩ := Option.map_eq_some_iff.mp h
    rw [recv, if_neg (Nat.not_lt.mpr hpace)] at hrecv
    obtain ⟨event, hevent, hread⟩ := Option.map_eq_some_iff.mp hrecv
    cases hread
    obtain ⟨hlt, rfl⟩ := List.getElem?_eq_some_iff.mp hevent
    exact ⟨hlt, rfl⟩

theorem Logged.step (h : Logged runId x) {t : Turn} (hprompt : Prompt runId x t)
    (hstep : step x t = some y) : Logged runId y := by
  have hsound := h.sound.step hstep
  cases t with
  | emit event =>
    cases hstep
    refine ⟨hsound, Nat.le_trans h.within (by simp), ?_⟩
    show (x.store.log runId).map _ = ((x.emitted ++ [event]).take x.position).filter _
    rw [List.take_append_of_le_length h.within, h.log]
  | forward eventId emittedAt accepted =>
    obtain ⟨-, rfl, hpace⟩ := hprompt
    obtain ⟨hlt, rfl⟩ := forward_of_prompt hpace hstep
    refine ⟨hsound, hlt, ?_⟩
    show ((x.store.append _).2.log runId).map _ = (x.emitted.take (x.position + 1)).filter _
    rw [log_append h.sound, List.map_append, h.log, List.take_succ_eq_append_getElem hlt,
      List.filter_append, List.filter_singleton, Bool.cond_decide]
    congr 1
    split
    · next hrun => exact (if_pos hrun).symm
    · next hrun => exact (if_neg hrun).symm
  | publish =>
    have hpublish : x.publish = some y := hstep
    unfold Delivery.publish at hpublish
    split at hpublish <;> cases hpublish
    exact ⟨hsound, h.within, h.log⟩
  | append c =>
    cases hstep
    refine ⟨hsound, h.within, ?_⟩
    show ((x.store.append c).2.log runId).map _ = _
    rw [log_append h.sound, if_neg hprompt.1, List.append_nil]
    exact h.log
  | subscribeRun | turnPage | receive | hand | poll | drop =>
    have hkept := upstream_of_reader rfl hstep
    refine ⟨hsound, ?_, ?_⟩
    · rw [hkept.position, hkept.emitted]
      exact h.within
    · rw [hkept.position, hkept.emitted, hkept.store]
      exact h.log

theorem logged_of_leadsTo (h : LeadsTo step (Prompt runId) new x) : Logged runId x := by
  apply h.invariant (Logged runId) ⟨sound_new, Nat.le_refl 0, rfl⟩
  exact fun x t y hx hprompt hstep => hx.step hprompt hstep

theorem sole_of_prompt (h : LeadsTo step (Prompt runId) new x) :
    LeadsTo step (Sole runId) new x :=
  h.mono fun _ _ hprompt => hprompt.1

/-- What a consumer has heard. -/
def Consumer.heard (c : Consumer) : List AgentEvent :=
  c.follower.seen.map RuntimeEventEnvelope.event

/-- **A consumer that follows a run from its start has a beginning of what was sent of the run**;
when it follows, everything is polled and the bridge has passed everything, it has all of it. What
it has heard is a word of the listener as soon as what was sent is. -/
theorem heard_of_leadsTo (runId : Uuid) (x : Delivery) (h : LeadsTo step (Prompt runId) new x)
    (key : Nat) (c : Consumer) (hc : x.consumers key = some c) (hrun : c.runId = runId)
    (hstart : c.follower.after = none) :
    Consumer.heard c <+: x.sentOf runId ∧
      (c.follower.following = true → x.Drained key → x.bridge = .listening →
        x.position = x.emitted.length → Consumer.heard c = x.sentOf runId) ∧
      ∀ p, Heard.listen runId (x.sentOf runId) = some p →
        ∃ q, Heard.listen runId (Consumer.heard c) = some q ∧
          Heard.Word runId (Consumer.heard c) q := by
  have hlogged := logged_of_leadsTo h
  obtain ⟨hahead, hall⟩ := seen_of_sole runId x (sole_of_prompt h) key c hc hrun
  have hevery : (x.store.log runId).filter
      (Paging.isAfter RuntimeEventEnvelope.seq c.follower.after) = x.store.log runId := by
    rw [hstart]
    exact List.filter_eq_self.mpr fun _ _ => rfl
  have hbeginning : Consumer.heard c <+: x.sentOf runId := by
    have hseen : c.follower.seen <+: x.store.log runId := ⟨_, hahead.trans hevery⟩
    have hsent : (x.store.log runId).map RuntimeEventEnvelope.event <+: x.sentOf runId := by
      rw [hlogged.log]
      exact (List.take_prefix x.position x.emitted).filter _
    exact (hseen.map _).trans hsent
  refine ⟨hbeginning, fun hfollowing hdrained hlistening hpassed => ?_, fun p hp => ?_⟩
  · rw [Consumer.heard, hall hfollowing hdrained hlistening, hevery, hlogged.log, hpassed,
      List.take_length, sentOf]
  · obtain ⟨q, hq⟩ := Heard.listen_of_prefix hbeginning hp
    exact ⟨q, hq, Heard.word_of_listen hq⟩

/-- A consumer follows a run that starts, builds its first context and calls the model. -/
theorem heard_of_leadsTo_asking :
    ∃ (x : Delivery) (c : Consumer), x.consumers 0 = some c ∧
      Consumer.heard c = x.sentOf 1 ∧
      ∃ q, Heard.listen 1 (Consumer.heard c) = some q ∧ Heard.Word 1 (Consumer.heard c) q := by
  have hrun : ∃ x, takeTurns step (Prompt 1) new
      [.emit (.runStarted 1 7 "p" "m"), .forward 10 0 true, .publish, .publish,
        .subscribeRun 0 1 none, .emit (.contextBuilt 1 3), .forward 11 0 true, .publish,
        .publish, .turnPage 0 5, .turnPage 0 5, .receive 0, .hand 0, .poll 0] = some x := ⟨_, rfl⟩
  obtain ⟨x, hx⟩ := hrun
  have hheard := heard_of_leadsTo 1 x (leadsTo_of_takeTurns hx) 0
  cases hx
  obtain ⟨-, hall, hword⟩ := hheard _ rfl rfl rfl
  refine ⟨_, _, rfl, hall rfl ?_ rfl rfl, hword (.built 0) rfl⟩
  intro s hs
  cases hs
  decide

end Delivery

end EventLog

end Behest
