import Behest.Runtime.Copies
import Behest.Store.Pairing

/-!
# Calls that a run leaves unanswered

A response is stored before its calls are looked at, so a run can end, go on or fail between
the calls and their answers. The open calls of the session are followed along the protocol,
together with the responses that were stored.
-/

namespace Behest

open Effect

/-! ### The responses a run stores -/

/-- The last response, until it is stored, and the responses that were stored. -/
structure Responses where
  last : Option ModelAnswer
  stored : List ModelAnswer

/-- One more action. -/
def Responses.next (r : Responses) : Action → Responses
  | .modelAnswered _ _ (.ok answer) => ⟨some answer, r.stored⟩
  | .session (.appendMessage _) none =>
      match r.last with
      | some answer => ⟨none, r.stored ++ [answer]⟩
      | none => r
  | _ => r

/-- The responses of a transcript. -/
def responses (as : List Action) : Responses := as.foldl .next ⟨none, []⟩

theorem responses_snoc (as : List Action) (a : Action) :
    responses (as ++ [a]) = (responses as).next a := List.foldl_append

/-- The calls of some responses, in their order. -/
def callsOf (answers : List ModelAnswer) : List ToolCall :=
  answers.flatMap fun answer => answer.message.toolCalls

/-- What lets a run answer the calls it stores: a response with calls asks for tools, its
calls complete no loop, a batch of calls does not fail, and no collaborator fails the run
while calls are open. -/
structure Answerable (host : Host) (policy : RuntimePolicy) (sessionId : Uuid) (w : World)
    (as : List Action) : Prop where
  asks : ∀ answer ∈ (responses as).stored, answer.message.toolCalls ≠ [] →
    answer.finish = .toolCalls
  loopless : ∃ d, (DoomLoopDetector.new policy.doomLoop).checkCalls host.callHash
    (callsOf (responses as).stored) = .ok d
  answered : ∀ calls e, .toolsAnswered calls (.error e) ∈ as → calls = []
  undisturbed : ∀ before a rest, as = before ++ a :: rest → a.isFault = true →
    Paired ((w.after before).messages sessionId)

namespace Answerable

variable {host : Host} {policy : RuntimePolicy} {sessionId : Uuid} {w : World}
  {as : List Action} {a : Action}

theorem nil : Answerable host policy sessionId w [] where
  asks := by simp [responses]
  loopless := ⟨_, rfl⟩
  answered := by simp
  undisturbed := by simp

/-- One more action, in a world that the actions led to. -/
theorem snoc (h : Answerable host policy sessionId w as)
    (hasks : ∀ answer ∈ (responses (as ++ [a])).stored, answer.message.toolCalls ≠ [] →
      answer.finish = .toolCalls)
    (hloopless : ∃ d, (DoomLoopDetector.new policy.doomLoop).checkCalls host.callHash
      (callsOf (responses (as ++ [a])).stored) = .ok d)
    (hanswered : ∀ calls e, a = .toolsAnswered calls (.error e) → calls = [])
    (hundisturbed : a.isFault = true → Paired ((w.after as).messages sessionId)) :
    Answerable host policy sessionId w (as ++ [a]) where
  asks := hasks
  loopless := hloopless
  answered := by
    intro calls e hmem
    rcases List.mem_append.mp hmem with hmem | hmem
    · exact h.answered calls e hmem
    · exact hanswered calls e (List.mem_singleton.mp hmem).symm
  undisturbed := by
    intro before b rest hsplit hfault
    rcases List.eq_nil_or_concat rest with rfl | ⟨rest', c, rfl⟩
    · obtain ⟨rfl, hab⟩ := List.append_inj' hsplit rfl
      cases hab
      exact hundisturbed hfault
    · have hsplit' : as ++ [a] = (before ++ b :: rest') ++ [c] := by simpa using hsplit
      obtain ⟨hbefore, _⟩ := List.append_inj' hsplit' rfl
      exact h.undisturbed before b rest' hbefore hfault

/-- An action that stores no response. -/
theorem keep (h : Answerable host policy sessionId w as)
    (hstored : (responses (as ++ [a])).stored = (responses as).stored)
    (hanswered : ∀ calls e, a = .toolsAnswered calls (.error e) → calls = [])
    (hundisturbed : a.isFault = true → Paired ((w.after as).messages sessionId)) :
    Answerable host policy sessionId w (as ++ [a]) :=
  h.snoc (hstored ▸ h.asks) (hstored ▸ h.loopless) hanswered hundisturbed

theorem stored_next (r : Responses) (a : Action) : r.stored <+: (r.next a).stored := by
  unfold Responses.next
  split
  · exact List.prefix_rfl
  · split
    · exact List.prefix_append _ _
    · exact List.prefix_rfl
  · exact List.prefix_rfl

/-- What holds of a whole transcript holds before its last action. -/
theorem init (h : Answerable host policy sessionId w (as ++ [a])) :
    Answerable host policy sessionId w as where
  asks answer hmem := h.asks answer (by
    rw [responses_snoc]
    exact (stored_next _ a).subset hmem)
  loopless := by
    obtain ⟨d, hd⟩ := h.loopless
    obtain ⟨more, hmore⟩ := stored_next (responses as) a
    rw [responses_snoc, ← hmore, callsOf, List.flatMap_append,
      DoomLoopDetector.checkCalls_append] at hd
    cases hcheck : (DoomLoopDetector.new policy.doomLoop).checkCalls host.callHash
        (callsOf (responses as).stored) with
    | ok d => exact ⟨d, rfl⟩
    | error found =>
      unfold callsOf at hcheck
      rw [hcheck] at hd
      cases hd
  answered calls e hmem := h.answered calls e (List.mem_append_left _ hmem)
  undisturbed before b rest hsplit :=
    h.undisturbed before b (rest ++ [a]) (by rw [hsplit]; simp)

end Answerable

/-! ### Open calls along the protocol -/

namespace Phase

/-- The calls that may be open in a phase. -/
def Pending : Phase → List String → Prop
  | committed message _, pending => pending = message.toolCalls.map ToolCall.id
  | executed outcome rest, pending => pending = (outcome :: rest).map fun o => o.call.id
  | condemned, _ => False
  | _, pending => pending = []

/-- The calls that are not checked for loops yet. -/
def unchecked : Phase → List ToolCall
  | committed message _ => message.toolCalls
  | _ => []

/-- The response that is not stored yet. -/
def response : Phase → Option ModelAnswer
  | answered answer => some answer
  | _ => none

/-- The calls of the phase will not be answered. -/
def Abandoned (hash : String → Value → Nat) (d : DoomLoopDetector) : Phase → Prop
  | committed message finish => finish ≠ .toolCalls ∨
      ∃ found, d.checkCalls hash message.toolCalls = .error found
  | halted | condemned | closing _ | ended _ => True
  | _ => False

/-- Nothing is owed in the phase. -/
def Plain : Phase → Prop
  | answered _ | committed _ _ | executed _ _ | condemned => False
  | _ => True

theorem Plain.pending {p : Phase} (h : p.Plain) {pending : List String} :
    p.Pending pending ↔ pending = [] := by
  cases p <;> first | rfl | exact h.elim

theorem Plain.unchecked {p : Phase} (h : p.Plain) : p.unchecked = [] := by
  cases p <;> first | rfl | exact h.elim

theorem Plain.response {p : Phase} (h : p.Plain) : p.response = none := by
  cases p <;> first | rfl | exact h.elim

theorem Pending.unchecked {p : Phase} (h : p.Pending []) : p.unchecked = [] := by
  cases p with
  | committed message finish => exact List.map_eq_nil_iff.mp h.symm
  | _ => rfl

/-- A phase with open calls is left for good when a collaborator fails. -/
theorem Pending.refused {p : Phase} {pending : List String} (h : p.Pending pending)
    (hne : pending ≠ []) : p.refused = .halted := by
  cases p with
  | compacting kind => exact absurd h hne
  | _ => rfl

theorem plain_afterFailure (threshold : Nat) : (afterFailure threshold).Plain := by
  unfold afterFailure
  split <;> trivial

theorem plain_refused (p : Phase) : p.refused.Plain := by cases p <;> trivial

theorem pending_storing (outcomes : List ToolExecutionOutcome) :
    (storing outcomes).Pending (outcomes.map fun o => o.call.id) := by
  cases outcomes <;> rfl

@[simp] theorem unchecked_storing (outcomes : List ToolExecutionOutcome) :
    (storing outcomes).unchecked = [] := by
  cases outcomes <;> rfl

@[simp] theorem response_storing (outcomes : List ToolExecutionOutcome) :
    (storing outcomes).response = none := by
  cases outcomes <;> rfl

end Phase

namespace Setting

variable {S : Setting} {as : List Action} {w w₀ w' : World} {st st' : Stage} {a : Action}

/-- The calls that the session leaves open. -/
def unanswered (S : Setting) (w : World) : Option (List String) :=
  openCalls [] (w.messages S.sessionId)

/-- The open calls are those of the phase, and they will be answered. -/
structure Sound (S : Setting) (as : List Action) (w : World) (st : Stage) : Prop where
  honest : st.phase.Honest
  pending : ∃ pending, S.unanswered w = some pending ∧ st.phase.Pending pending
  checked : ∃ calls, callsOf (responses as).stored = calls ++ st.phase.unchecked ∧
    (DoomLoopDetector.new S.rt.policy.doomLoop).checkCalls S.host.callHash calls = .ok st.detector
  asks : ∀ message finish, st.phase = .committed message finish → message.toolCalls ≠ [] →
    finish = .toolCalls ∧
      ∃ d, st.detector.checkCalls S.host.callHash message.toolCalls = .ok d
  spoken : ∀ answer, st.phase = .answered answer → answer.message.isAssistant = true
  last : st.phase ≠ .halted → (responses as).last = st.phase.response

/-- Calls are open and will never be answered. -/
def Doomed (S : Setting) (w : World) (st : Stage) : Prop :=
  S.unanswered w = none ∨ S.unanswered w ≠ some [] ∧ st.phase.Abandoned S.host.callHash st.detector

theorem unanswered_apply (ha : ¬ a.touchesMessages) :
    S.unanswered (w.apply a) = S.unanswered w := by
  unfold unanswered
  rw [World.messages_apply _ _ _ ha]

theorem Stores.unanswered {message : Message} {pending : List String} (h : S.Stores w message a)
    (hpending : S.unanswered w = some pending) :
    S.unanswered (w.apply a) = message.leavesOpen pending := by
  obtain ⟨id, createdAt, rfl, hstored⟩ := h
  have hsession : (messageToRecord id createdAt S.sessionId message).sessionId = S.sessionId := by
    cases message <;> rfl
  unfold Setting.unanswered at *
  rw [World.messages_append hsession hstored, openCalls_append, hpending, Option.bind_some,
    openCalls_messageToRecord]

/-- What breaks the pairing stays in the history. -/
theorem Step.broken (h : S.Step w st a st') (hbroken : S.unanswered w = none) :
    S.unanswered (w.apply a) = none := by
  rcases h.messages with ha | ⟨r, -, hmessages⟩
  · rw [unanswered_apply ha, hbroken]
  · unfold unanswered at *
    rw [hmessages, openCalls_append, hbroken]
    rfl

/-- Abandoned calls stay unanswered. -/
theorem Doomed.step (h : S.Doomed w st) (hstep : S.Step w st a st') :
    S.Doomed (w.apply a) st' := by
  rcases h with hbroken | ⟨hopen, habandoned⟩
  · exact .inl (hstep.broken hbroken)
  · have hkeep : ¬ a.touchesMessages → st'.phase.Abandoned S.host.callHash st'.detector →
        S.Doomed (w.apply a) st' := fun ha h => .inr ⟨by rwa [unanswered_apply ha], h⟩
    cases hstep with
    | quiet _ h => exact hkeep h.not_touches habandoned
    | @fault p _ _ _ h =>
      apply hkeep (not_touches_of_isFault h)
      cases p <;> trivial
    | cleanup fault ended => exact hkeep nofun habandoned
    | loopFound _ | toolsFailed | failing _ _ | finishing _ | announceFailure
    | announceCompletion => exact hkeep nofun trivial
    | contextFailed hp => exact hkeep nofun trivial
    | compactionFailed hp => rcases hp with rfl | rfl <;> exact habandoned.elim
    | toolsAnswered _ hchecked _ =>
      rcases habandoned with hfinish | ⟨found, hfound⟩
      · exact absurd rfl hfinish
      · exact nomatch hchecked.symm.trans hfound
    | @recover d message _ hstores =>
      -- the prompt comes while calls are open
      cases hpending : S.unanswered w with
      | none =>
        have hstep : S.Step w ⟨.committed message .length, d⟩ a ⟨.idle, d⟩ := .recover hstores
        exact .inl (hstep.broken hpending)
      | some pending =>
        have hne : pending ≠ [] := fun hnil => hopen (hnil ▸ hpending)
        apply Or.inl
        rw [hstores.unanswered hpending]
        exact if_neg hne
    | _ => exact habandoned.elim

/-! ### One step -/

theorem Responses.next_eq_self {r : Responses} (ha : ¬ a.touchesMessages)
    (hsilent : ∀ iteration request answer, a ≠ .modelAnswered iteration request (.ok answer)) :
    r.next a = r := by
  cases a with
  | session op fault => cases op <;> cases fault <;> first | rfl | exact absurd rfl ha
  | modelAnswered iteration request answer =>
    cases answer with
    | ok answer => exact absurd rfl (hsilent _ _ answer)
    | error e => rfl
  | _ => rfl

theorem Responses.next_append {r : Responses} {record : MessageRecord} (hlast : r.last = none) :
    r.next (.session (.appendMessage record) none) = r := by
  simp only [Responses.next, hlast]

/-- A step to a phase that owes nothing, with no call open. -/
theorem Sound.rest (h : S.Sound as w st) (hstep : S.Step w st a st')
    (hopen : S.unanswered (w.apply a) = some []) (hsilent : (responses as).next a = responses as)
    (hplain : st'.phase.Plain) (hunchecked : st.phase.unchecked = [])
    (hdetector : st'.detector = st.detector)
    (hlast : st'.phase = .halted ∨ st.phase ≠ .halted ∧ st.phase.response = none) :
    S.Sound (as ++ [a]) (w.apply a) st' where
  honest := hstep.honest h.honest
  pending := ⟨[], hopen, hplain.pending.mpr rfl⟩
  checked := by
    rw [responses_snoc, hsilent, hplain.unchecked, hdetector, ← hunchecked]
    exact h.checked
  asks message finish hp := by
    rw [hp] at hplain
    exact hplain.elim
  spoken answer hp := by
    rw [hp] at hplain
    exact hplain.elim
  last hne := by
    obtain ⟨hne', hresponse⟩ := hlast.resolve_left hne
    rw [responses_snoc, hsilent, h.last hne', hresponse, hplain.response]

theorem Sound.unanswered_of_plain (h : S.Sound as w st) (hplain : st.phase.Plain) :
    S.unanswered w = some [] := by
  obtain ⟨pending, hopen, hpending⟩ := h.pending
  rw [hopen, hplain.pending.mp hpending]

/-- The condition on the collaborators of a run that started in a world. -/
abbrev Answered (S : Setting) (w₀ : World) (as : List Action) : Prop :=
  Answerable S.host S.rt.policy S.sessionId w₀ as

/-- The invariant of a run that keeps to the condition. -/
structure Keeps (S : Setting) (w₀ : World) (as : List Action) (w : World) (st : Stage) : Prop where
  sound : S.Sound as w st
  world : w = w₀.after as
  condition : S.Answered w₀ as

theorem Keeps.paired (h : S.Keeps w₀ as w st) (hopen : S.unanswered w = some []) :
    Paired ((w₀.after as).messages S.sessionId) := h.world ▸ hopen

theorem Keeps.world_snoc (h : S.Keeps w₀ as w st) : w.apply a = w₀.after (as ++ [a]) := by
  rw [World.after_append, ← h.world]
  rfl

/-- A step that stores nothing, from a phase without open calls to one that owes nothing. -/
theorem Keeps.rest (h : S.Keeps w₀ as w st) (hstep : S.Step w st a st')
    (hopen : S.unanswered w = some []) (hplain' : st'.phase.Plain) (ha : ¬ a.touchesMessages)
    (hsilent : (responses as).next a = responses as)
    (hanswered : ∀ calls e, a ≠ .toolsAnswered calls (.error e))
    (hunchecked : st.phase.unchecked = []) (hdetector : st'.detector = st.detector)
    (hlast : st'.phase = .halted ∨ st.phase ≠ .halted ∧ st.phase.response = none) :
    S.Keeps w₀ (as ++ [a]) (w.apply a) st' where
  sound := h.sound.rest hstep ((unanswered_apply ha).trans hopen) hsilent hplain' hunchecked
    hdetector hlast
  world := h.world_snoc
  condition := by
    apply h.condition.keep
    · rw [responses_snoc, hsilent]
    · exact fun calls e hcalls => absurd hcalls (hanswered calls e)
    · exact fun _ => h.paired hopen

/-- A step between phases that owe nothing. -/
theorem Keeps.idle (h : S.Keeps w₀ as w st) (hstep : S.Step w st a st') (hplain : st.phase.Plain)
    (hplain' : st'.phase.Plain) (ha : ¬ a.touchesMessages)
    (hsilent : (responses as).next a = responses as)
    (hanswered : ∀ calls e, a ≠ .toolsAnswered calls (.error e))
    (hdetector : st'.detector = st.detector) (hhalted : st.phase = .halted → st'.phase = .halted) :
    S.Keeps w₀ (as ++ [a]) (w.apply a) st' := by
  apply h.rest hstep (h.sound.unanswered_of_plain hplain) hplain' ha hsilent hanswered
    hplain.unchecked hdetector
  by_cases hp : st.phase = .halted
  · exact .inl (hhalted hp)
  · exact .inr ⟨hp, hplain.response⟩

/-- A message that is stored in a phase that owes nothing, and leaves no call open. -/
theorem Keeps.append (h : S.Keeps w₀ as w st) {record : MessageRecord}
    (hstep : S.Step w st (.session (.appendMessage record) none) st')
    (hopen : S.unanswered (w.apply (.session (.appendMessage record) none)) = some [])
    (hresponse : st.phase.response = none) (hhalted : st.phase ≠ .halted)
    (hplain' : st'.phase.Plain) (hunchecked : st.phase.unchecked = [])
    (hdetector : st'.detector = st.detector) :
    S.Keeps w₀ (as ++ [.session (.appendMessage record) none])
      (w.apply (.session (.appendMessage record) none)) st' := by
  have hsilent : (responses as).next (.session (.appendMessage record) none) = responses as :=
    Responses.next_append ((h.sound.last hhalted).trans hresponse)
  exact {
    sound := h.sound.rest hstep hopen hsilent hplain' hunchecked hdetector
      (.inr ⟨hhalted, hresponse⟩)
    world := h.world_snoc
    condition := h.condition.keep (by rw [responses_snoc, hsilent]) nofun nofun }

/-- What a step makes of the invariant: it is kept, or calls are abandoned for good. -/
def Decides (S : Setting) (w₀ : World) (as : List Action) (w : World) (st : Stage) : Prop :=
  S.Keeps w₀ as w st ∨ S.Doomed w st ∧ ¬ S.Answered w₀ as

/-- A collaborator that fails the run abandons the open calls. -/
theorem Keeps.fault (h : S.Keeps w₀ as w st) (ha : a.isFault = true)
    (hstep : S.Step w st a ⟨st.phase.refused, st.detector⟩) :
    S.Decides w₀ (as ++ [a]) (w.apply a) ⟨st.phase.refused, st.detector⟩ := by
  have htouches := not_touches_of_isFault ha
  have hsilent : (responses as).next a = responses as :=
    Responses.next_eq_self htouches (by rintro _ _ _ rfl; cases ha)
  obtain ⟨pending, hopen, hpending⟩ := h.sound.pending
  by_cases hnil : pending = []
  · subst hnil
    left
    exact {
      sound := by
        apply h.sound.rest hstep ((unanswered_apply htouches).trans hopen) hsilent
          (Phase.plain_refused _) hpending.unchecked rfl
        cases st.phase <;> first | exact .inl rfl | exact .inr ⟨nofun, rfl⟩
      world := h.world_snoc
      condition := by
        apply h.condition.keep (by rw [responses_snoc, hsilent])
        · rintro calls e rfl
          cases ha
        · exact fun _ => h.paired hopen }
  · right
    constructor
    · right
      rw [unanswered_apply htouches, hopen, hpending.refused hnil]
      exact ⟨by simpa using hnil, trivial⟩
    · intro hafter
      have hpaired : S.unanswered w = some [] :=
        h.world ▸ hafter.undisturbed as a [] rfl ha
      exact hnil (Option.some.inj (hopen.symm.trans hpaired))

/-- A response that is stored opens its calls. -/
theorem Keeps.commit (h : S.Keeps w₀ as w st) {answer : ModelAnswer} {d : DoomLoopDetector}
    (hst : st = ⟨.answered answer, d⟩) (hstores : S.Stores w answer.message a) :
    S.Decides w₀ (as ++ [a]) (w.apply a) ⟨.committed answer.message answer.finish, d⟩ := by
  subst hst
  obtain ⟨pending, hopen, rfl⟩ := h.sound.pending
  have hopen' := hstores.unanswered hopen
  have hids : answer.message.leavesOpen [] = some (answer.message.toolCalls.map ToolCall.id) := by
    have hspoken := h.sound.spoken answer rfl
    cases hm : answer.message <;> first | rfl | (rw [hm] at hspoken; cases hspoken)
  rw [hids] at hopen'
  obtain ⟨r, rfl, -, -, -⟩ := hstores.messages
  have hnext : responses (as ++ [.session (.appendMessage r) none]) =
      ⟨none, (responses as).stored ++ [answer]⟩ := by
    rw [responses_snoc]
    simp only [Responses.next, h.sound.last nofun, Phase.response]
  obtain ⟨calls, hcalls, hchecked⟩ := h.sound.checked
  have hcalls : callsOf (responses as).stored = calls := by simpa [Phase.unchecked] using hcalls
  have hcallsOf : callsOf ((responses as).stored ++ [answer]) =
      calls ++ answer.message.toolCalls := by
    rw [← hcalls]
    simp [callsOf]
  have hrecheck : (DoomLoopDetector.new S.rt.policy.doomLoop).checkCalls S.host.callHash
      (calls ++ answer.message.toolCalls) =
        d.checkCalls S.host.callHash answer.message.toolCalls := by
    rw [DoomLoopDetector.checkCalls_append, hchecked]
    rfl
  by_cases hasks : answer.message.toolCalls ≠ [] → answer.finish = .toolCalls ∧
      ∃ d', d.checkCalls S.host.callHash answer.message.toolCalls = .ok d'
  · left
    exact {
      sound := {
        honest := trivial
        pending := ⟨_, hopen', rfl⟩
        checked := ⟨calls, by rw [hnext, hcallsOf]; rfl, hchecked⟩
        asks := by
          rintro _ _ ⟨⟩
          exact hasks
        spoken := nofun
        last := fun _ => by rw [hnext]; rfl }
      world := h.world_snoc
      condition := by
        apply h.condition.snoc
        · intro answer' hmem hcalls'
          rw [hnext] at hmem
          rcases List.mem_append.mp hmem with hmem | hmem
          · exact h.condition.asks answer' hmem hcalls'
          · obtain rfl := List.mem_singleton.mp hmem
            exact (hasks hcalls').1
        · rw [hnext, hcallsOf, hrecheck]
          by_cases hnil : answer.message.toolCalls = []
          · exact ⟨d, by rw [hnil]; rfl⟩
          · exact (hasks hnil).2
        · exact nofun
        · exact nofun }
  · right
    have ⟨hne, hnot⟩ := Classical.not_imp.mp hasks
    constructor
    · right
      refine ⟨by rw [hopen']; simpa using hne, ?_⟩
      by_cases hfinish : answer.finish = .toolCalls
      · right
        cases hcheck : d.checkCalls S.host.callHash answer.message.toolCalls with
        | ok d' => exact absurd ⟨hfinish, d', hcheck⟩ hnot
        | error found => exact ⟨found, rfl⟩
      · exact .inl hfinish
    · intro hafter
      apply hnot
      constructor
      · apply hafter.asks answer _ hne
        rw [hnext]
        simp
      · have hloopless := hafter.loopless
        rwa [hnext, hcallsOf, hrecheck] at hloopless

/-- An outcome that is stored answers the first of the open calls. -/
theorem Keeps.store (h : S.Keeps w₀ as w st) {outcome : ToolExecutionOutcome}
    {rest : List ToolExecutionOutcome} {d : DoomLoopDetector}
    (hst : st = ⟨.executed outcome rest, d⟩) (hstores : S.Stores w outcome.message a) :
    S.Keeps w₀ (as ++ [a]) (w.apply a) ⟨.storing rest, d⟩ := by
  subst hst
  obtain ⟨pending, hopen, rfl⟩ := h.sound.pending
  have hopen' := hstores.unanswered hopen
  obtain ⟨content, hmessage⟩ := (h.sound.honest outcome (by simp)).message_eq
  have hrest : outcome.message.leavesOpen ((outcome :: rest).map fun o => o.call.id) =
      some (rest.map fun o => o.call.id) := by
    rw [hmessage]
    simp [Message.leavesOpen]
  have hstep : S.Step w ⟨.executed outcome rest, d⟩ a ⟨.storing rest, d⟩ := .store hstores
  obtain ⟨r, rfl, -, -, -⟩ := hstores.messages
  have hnext : responses (as ++ [.session (.appendMessage r) none]) = responses as := by
    rw [responses_snoc]
    exact Responses.next_append (h.sound.last nofun)
  exact {
    sound := {
      honest := hstep.honest h.sound.honest
      pending := ⟨_, hopen'.trans hrest, Phase.pending_storing rest⟩
      checked := by
        rw [hnext, Phase.unchecked_storing]
        exact h.sound.checked
      asks := fun message finish hp _ => by cases rest <;> cases hp
      spoken := fun answer hp => by cases rest <;> cases hp
      last := fun _ => by
        rw [hnext, Phase.response_storing]
        exact h.sound.last nofun }
    world := h.world_snoc
    condition := h.condition.keep (by rw [hnext]) nofun nofun }

/-- Calls that are answered are still open until their outcomes are stored. -/
theorem Keeps.toolsAnswered (h : S.Keeps w₀ as w st) {message : Message}
    {outcomes : List ToolExecutionOutcome} {d d' : DoomLoopDetector}
    (hst : st = ⟨.committed message .toolCalls, d⟩)
    (hcheck : d.checkCalls S.host.callHash message.toolCalls = .ok d')
    (hanswers : List.Forall₂ Answers message.toolCalls outcomes) :
    S.Keeps w₀ (as ++ [.toolsAnswered message.toolCalls (.ok outcomes)])
      (w.apply (.toolsAnswered message.toolCalls (.ok outcomes))) ⟨.storing outcomes, d'⟩ := by
  subst hst
  obtain ⟨pending, hopen, rfl⟩ := h.sound.pending
  obtain ⟨hcalls, hhonest⟩ := answers_call hanswers
  have hnext : responses (as ++ [.toolsAnswered message.toolCalls (.ok outcomes)]) =
      responses as := responses_snoc as _
  exact {
    sound := {
      honest := Phase.honest_storing hhonest
      pending := by
        refine ⟨_, hopen, ?_⟩
        rw [← hcalls, List.map_map]
        exact Phase.pending_storing outcomes
      checked := by
        obtain ⟨calls, hstored, hchecked⟩ := h.sound.checked
        refine ⟨calls ++ message.toolCalls, ?_, ?_⟩
        · rw [hnext, hstored, Phase.unchecked_storing, List.append_nil]
          rfl
        rw [DoomLoopDetector.checkCalls_append, hchecked]
        exact hcheck
      asks := fun message finish hp _ => by cases outcomes <;> cases hp
      spoken := fun answer hp => by cases outcomes <;> cases hp
      last := fun _ => by
        rw [hnext, Phase.response_storing]
        exact h.sound.last nofun }
    world := h.world_snoc
    condition := h.condition.keep (by rw [hnext]) nofun nofun }

/-- A batch that fails abandons its calls. -/
theorem Keeps.toolsFailed (h : S.Keeps w₀ as w st) {message : Message} {e : RuntimeError}
    {d : DoomLoopDetector} (hst : st = ⟨.committed message .toolCalls, d⟩) :
    S.Decides w₀ (as ++ [.toolsAnswered message.toolCalls (.error e)])
      (w.apply (.toolsAnswered message.toolCalls (.error e))) ⟨.halted, d⟩ := by
  subst hst
  obtain ⟨pending, hopen, rfl⟩ := h.sound.pending
  have hsilent : (responses as).next (.toolsAnswered message.toolCalls (.error e)) =
    responses as := rfl
  by_cases hnil : message.toolCalls = []
  · left
    exact {
      sound := h.sound.rest .toolsFailed (hopen.trans (by rw [hnil]; rfl)) hsilent trivial hnil rfl
        (.inl rfl)
      world := h.world_snoc
      condition := by
        apply h.condition.keep (by rw [responses_snoc, hsilent])
        · rintro calls e ⟨⟩
          exact hnil
        · exact nofun }
  · right
    constructor
    · right
      refine ⟨?_, trivial⟩
      have hopen' : S.unanswered (w.apply (.toolsAnswered message.toolCalls (.error e))) =
        some (message.toolCalls.map ToolCall.id) := hopen
      rw [hopen']
      simpa using hnil
    · exact fun hafter => hnil (hafter.answered message.toolCalls e (by simp))

/-- A quiet action changes nothing of it. -/
theorem Keeps.quiet (h : S.Keeps w₀ as w st) (hquiet : S.Quiet a) :
    S.Keeps w₀ (as ++ [a]) (w.apply a) st := by
  have hnext : responses (as ++ [a]) = responses as := by
    rw [responses_snoc]
    apply Responses.next_eq_self hquiet.not_touches
    rintro _ _ _ rfl
    exact hquiet
  have hfatal : a.isFault = false := by
    cases hfault : a.isFault with
    | false => rfl
    | true =>
      have hnot := hquiet.not_fatal
      have hfatal : a.isFatal = true := by cases a <;> first | exact hfault | cases hfault
      exact nomatch hnot.symm.trans hfatal
  exact {
    sound := {
      honest := h.sound.honest
      pending := by
        rw [unanswered_apply hquiet.not_touches]
        exact h.sound.pending
      checked := hnext ▸ h.sound.checked
      asks := h.sound.asks
      spoken := h.sound.spoken
      last := hnext ▸ h.sound.last }
    world := h.world_snoc
    condition := by
      apply h.condition.keep (by rw [hnext])
      · rintro calls e rfl
        exact hquiet.elim
      · exact fun hfault => nomatch hfatal.symm.trans hfault }

/-- A response that is not stored yet opens nothing. -/
theorem Keeps.modelAnswered (h : S.Keeps w₀ as w st) {iteration : Nat} {request : ChatRequest}
    {answer : ModelAnswer} {d : DoomLoopDetector} (hst : st = ⟨.built iteration request, d⟩)
    (hspoken : answer.message.isAssistant = true) :
    S.Keeps w₀ (as ++ [.modelAnswered iteration request (.ok answer)])
      (w.apply (.modelAnswered iteration request (.ok answer))) ⟨.answered answer, d⟩ := by
  subst hst
  have hnext : responses (as ++ [.modelAnswered iteration request (.ok answer)]) =
      ⟨some answer, (responses as).stored⟩ := responses_snoc as _
  exact {
    sound := {
      honest := trivial
      pending := ⟨[], h.sound.unanswered_of_plain trivial, rfl⟩
      checked := by
        rw [hnext]
        exact h.sound.checked
      asks := nofun
      spoken := by
        rintro _ ⟨⟩
        exact hspoken
      last := fun _ => by rw [hnext]; rfl }
    world := h.world_snoc
    condition := h.condition.keep (by rw [hnext]) nofun nofun }

/-- A step keeps the invariant, or leaves calls unanswered for good. -/
theorem Keeps.step (h : S.Keeps w₀ as w st) (hstep : S.Step w st a st')
    (hspoken : ∀ iteration request answer, a = .modelAnswered iteration request (.ok answer) →
      answer.message.isAssistant = true) :
    S.Decides w₀ (as ++ [a]) (w.apply a) st' := by
  have hidle := fun hplain hplain' ha hsilent hanswered hdetector hhalted =>
    (Or.inl (h.idle hstep hplain hplain' ha hsilent hanswered hdetector hhalted) :
      S.Decides w₀ (as ++ [a]) (w.apply a) st')
  cases hstep with
  | quiet _ hquiet => exact .inl (h.quiet hquiet)
  | fault live hfault => exact h.fault hfault (.fault live hfault)
  | @cleanup p d fault ended =>
    have hplain : p.Plain := by cases p <;> trivial
    exact hidle hplain hplain (by rintro ⟨⟩) rfl (by rintro _ _ ⟨⟩) rfl id
  | @greet d _ hstores =>
    have hstep : S.Step w ⟨.opening, d⟩ _ ⟨.idle, d⟩ := .greet hstores
    obtain ⟨r, rfl, -, -, -⟩ := hstores.messages
    have hopen := hstores.unanswered (h.sound.unanswered_of_plain trivial)
    exact .inl (h.append hstep hopen rfl (by rintro ⟨⟩) trivial rfl rfl)
  | @compactionWrite kind d r hrecord hstored =>
    left
    have hstep : S.Step w ⟨.compacting kind, d⟩ _ ⟨.compacting kind, d⟩ :=
      .compactionWrite hrecord hstored
    apply h.append hstep _ rfl (by rintro ⟨⟩) trivial rfl rfl
    have hopen : S.unanswered w = some [] := h.sound.unanswered_of_plain trivial
    unfold unanswered at *
    rw [World.messages_append hrecord.session hstored, openCalls_append, hopen]
    rcases hrecord.spoken with hrole | hrole <;> simp [openCalls, hrole, hrecord.noCalls]
  | considered | historyRead | historyRefused | compacted | breakerOpened | contextBuilt _
  | contextDiscarded | modelFailed _ | announceFailure | announceCompletion =>
    exact hidle trivial trivial (by rintro ⟨⟩) rfl (by rintro _ _ ⟨⟩) rfl (by rintro ⟨⟩)
  | compactionFailed hp =>
    rcases hp with rfl | rfl <;>
      exact hidle trivial (Phase.plain_afterFailure _) (by rintro ⟨⟩) rfl (by rintro _ _ ⟨⟩) rfl
        (by rintro ⟨⟩)
  | contextFailed hp =>
    rcases hp with rfl | rfl <;>
      exact hidle trivial trivial (by rintro ⟨⟩) rfl (by rintro _ _ ⟨⟩) rfl fun _ => rfl
  | modelAnswered => exact .inl (h.modelAnswered rfl (hspoken _ _ _ rfl))
  | modelOverflowed hover =>
    apply hidle trivial _ (by rintro ⟨⟩) rfl (by rintro _ _ ⟨⟩) rfl (by rintro ⟨⟩)
    cases S.rt.policy.compaction.auto <;> trivial
  | commit hstores => exact h.commit rfl hstores
  | @recover d message _ hstores =>
    -- a response that is cut off makes no calls
    have hnil : message.toolCalls = [] := by
      by_contra hne
      cases (h.sound.asks message .length rfl hne).1
    obtain ⟨pending, hopen, rfl⟩ := h.sound.pending
    rw [hnil] at hopen
    have hstep : S.Step w ⟨.committed message .length, d⟩ _ ⟨.idle, d⟩ := .recover hstores
    obtain ⟨r, rfl, -, -, -⟩ := hstores.messages
    exact .inl (h.append hstep (hstores.unanswered hopen) rfl (by rintro ⟨⟩) trivial hnil rfl)
  | @loopFound d message found hfound =>
    by_cases hnil : message.toolCalls = []
    · rw [hnil] at hfound
      cases hfound
    · obtain ⟨d', hd'⟩ := (h.sound.asks message .toolCalls rfl hnil).2
      cases hfound.symm.trans hd'
  | toolsAnswered hcalls hchecked hanswers => exact .inl (h.toolsAnswered rfl hchecked hanswers)
  | toolsFailed => exact h.toolsFailed rfl
  | store hstores => exact .inl (h.store rfl hstores)
  | failing fault hp =>
    rcases hp with rfl | rfl
    · exact hidle trivial trivial (by rintro ⟨⟩) rfl (by rintro _ _ ⟨⟩) rfl (by rintro ⟨⟩)
    · obtain ⟨_, _, hpending⟩ := h.sound.pending
      exact hpending.elim
  | @finishing message finish d hend =>
    have hnil : message.toolCalls = [] := by
      by_contra hne
      exact (hend.resolve_left hne) (h.sound.asks message finish rfl hne).1
    obtain ⟨pending, hopen, rfl⟩ := h.sound.pending
    rw [hnil] at hopen
    have hstep : S.Step w ⟨.committed message finish, d⟩ _ ⟨.closing .completed, d⟩ :=
      .finishing hend
    exact .inl (h.rest hstep hopen trivial (by rintro ⟨⟩) rfl (by rintro _ _ ⟨⟩) hnil rfl
      (.inr ⟨by rintro ⟨⟩, rfl⟩))

/-- The run lemma: the calls of a run are answered as long as it keeps to the condition, and
abandoned for good once it does not. -/
theorem decides_of_trail {st₀ : Stage} (h : Trail World.apply S.Step w₀ st₀ as w st)
    (hstart : S.Keeps w₀ [] w₀ st₀)
    (hspoken : ∀ iteration request answer, .modelAnswered iteration request (.ok answer) ∈ as →
      answer.message.isAssistant = true) : S.Decides w₀ as w st := by
  apply h.invariant (fun as w st => (∀ iteration request answer,
    .modelAnswered iteration request (.ok answer) ∈ as → answer.message.isAssistant = true) →
      S.Decides w₀ as w st) _ _ hspoken
  · exact fun _ => .inl hstart
  · intro bs t q a q' ih hstep hbs
    rcases ih fun iteration request answer hmem =>
      hbs iteration request answer (List.mem_append_left _ hmem) with hkeeps | ⟨hdoomed, hnot⟩
    · apply hkeeps.step hstep
      rintro iteration request answer rfl
      exact hbs iteration request answer (by simp)
    · exact .inr ⟨hdoomed.step hstep, fun hafter => hnot hafter.init⟩

theorem keeps_opened (hpaired : Paired (w₀.messages S.sessionId)) :
    S.Keeps w₀ [] w₀ S.opened where
  sound := {
    honest := trivial
    pending := ⟨[], hpaired, rfl⟩
    checked := ⟨[], rfl, rfl⟩
    asks := nofun
    spoken := nofun
    last := fun _ => rfl }
  world := rfl
  condition := .nil

/-- Where a call returns, the history is paired unless calls were abandoned. -/
theorem Decides.paired_iff (h : S.Decides w₀ as w st) {ok : Bool} (hstage : st.ReturnsIn ok) :
    Paired (w.messages S.sessionId) ↔ S.Answered w₀ as := by
  have hplain : st.phase.Plain := by
    rcases hstage with ⟨-, hp⟩ | ⟨-, hp | hp | hp⟩ <;> rw [hp] <;> trivial
  rcases h with hkeeps | ⟨hdoomed, hnot⟩
  · exact iff_of_true (hkeeps.sound.unanswered_of_plain hplain) hkeeps.condition
  · apply iff_of_false _ hnot
    intro hpaired
    have hpaired : S.unanswered w = some [] := hpaired
    rcases hdoomed with hnone | ⟨hne, -⟩
    · exact nomatch hnone.symm.trans hpaired
    · exact hne hpaired

end Setting

/-- What precedes a run stores no message. -/
theorem paired_of_preliminary {w w' : World} (h : Reaches Setting.Preliminary w w') {id : Uuid}
    (hpaired : Paired (w.messages id)) : Paired (w'.messages id) := by
  apply h.invariant (fun w => Paired (w.messages id)) _ hpaired
  intro w a ha hpaired
  by_cases htouches : a.touchesMessages = true
  · cases a with
    | session op fault =>
      cases op with
      | createSession new =>
        cases fault with
        | none =>
          by_cases hid : id = new
          · subst hid
            simp [World.messages, Action.onSessions, Paired, openCalls]
          · simpa [World.messages, Action.onSessions, Function.update_of_ne hid] using hpaired
        | some e => cases htouches
      | appendMessage record => exact ha.elim
      | _ => cases htouches
    | _ => cases htouches
  · rwa [World.messages_apply _ _ _ htouches]

/-- The run that is created in a session, and the condition on its collaborators. -/
theorem run_paired_iff {host : Host} {rt : AgentRuntime} {fuel : Nat} {request : RunRequest}
    {w w' : World} {ok : Bool} {record : RunRecord} {before after : List Action}
    (hreturns : Returns (rt.run host fuel request) w ok w')
    (htrace : w'.trace = w.trace ++ before ++ .run (.createRun record) none :: after)
    (hpaired : Paired ((w.after before).messages record.sessionId))
    (hspoken : ∀ iteration chatRequest answer,
      .modelAnswered iteration chatRequest (.ok answer) ∈ after →
        answer.message.isAssistant = true) :
    Paired (w'.messages record.sessionId) ↔
      Answerable host rt.policy record.sessionId
        (w.after (before ++ [.run (.createRun record) none])) after := by
  obtain ⟨-, w₁, st, hcreates, hcreated, htrail, hstage⟩ := trail_of_run hreturns htrace
  have hw₁ := hcreates.eq_after hcreated
  have hhistory : w₁.messages record.sessionId = (w.after before).messages record.sessionId := by
    rw [hw₁, World.after_append]
    exact World.messages_apply _ _ _ nofun
  rw [← hw₁]
  let S : Setting := ⟨host, rt, record.id, record.sessionId, request⟩
  have hstart : S.Keeps w₁ [] w₁ S.opened := Setting.keeps_opened (hhistory ▸ hpaired)
  exact (Setting.decides_of_trail htrail hstart hspoken).paired_iff hstage

/-- **A run leaves its session well paired if and only if its collaborators let it answer the
calls it stores**: for every run that returns, with a value or an error, when the responses
are assistant messages. A run that is refused before it is created unpairs no session. -/
theorem run_pairs_iff (host : Host) (rt : AgentRuntime) (fuel : Nat) (request : RunRequest)
    (w w' : World) (ok : Bool) (hreturns : Returns (rt.run host fuel request) w ok w') :
    (∀ record before after,
      w'.trace = w.trace ++ before ++ .run (.createRun record) none :: after →
      Paired ((w.after before).messages record.sessionId) →
      (∀ iteration chatRequest answer,
        .modelAnswered iteration chatRequest (.ok answer) ∈ after →
          answer.message.isAssistant = true) →
      (Paired (w'.messages record.sessionId) ↔
        Answerable host rt.policy record.sessionId
          (w.after (before ++ [.run (.createRun record) none])) after)) ∧
    ((∀ record before after,
      w'.trace ≠ w.trace ++ before ++ .run (.createRun record) none :: after) →
      ∀ id, Paired (w.messages id) → Paired (w'.messages id)) := by
  constructor
  · exact fun record before after htrace hpaired hspoken =>
      run_paired_iff hreturns htrace hpaired hspoken
  · intro hnone id hpaired
    rcases Setting.stage_of_run hreturns with
      hr | ⟨runId, sessionId, w₁, st, hcreates, ⟨bs, htrail⟩, -⟩
    · exact paired_of_preliminary hr hpaired
    · obtain ⟨pre, now, hcreated, -⟩ := hcreates.trace
      refine (hnone (.new runId sessionId request now) pre bs ?_).elim
      rw [Setting.trace_of_trail htrail, hcreated, List.append_assoc]
      rfl

/-! ### A run that asks for a tool -/

/-- A provider that always makes the same call and ends with the reason. -/
def calling (finish : FinishReason) : ChatProvider where
  id := "p"
  capabilities := ⟨false, none, none⟩
  complete _ _ := .ok ⟨.assistant [] [⟨"a", "t", .null⟩], finish, none⟩
  stream _ _ := .error (.overloaded "p")

/-- A runtime that asks this provider once. -/
def asking (finish : FinishReason) : AgentRuntime :=
  .new ⟨[calling finish]⟩ ⟨[]⟩ { maxIterations := 1 } false

/-- A response that makes a call and stops is stored, and the call is never answered. -/
theorem askPing_unpaired :
    ∃ w', Returns ((asking .stop).run .benign 2 askPing) (.ofSession 7 []) true w' ∧
      Paired ((World.ofSession 7 []).messages 7) ∧ ¬ Paired (w'.messages 7) := by
  refine ⟨_, returns_of_isValue (by decide +kernel), rfl, ?_⟩
  have hopen : openCalls [] ((final ((asking .stop).run .benign 2 askPing
      (.ofSession 7 []))).messages 7) = some ["a"] := by decide +kernel
  unfold Paired
  rw [hopen]
  decide

/-- The action answers a call, or is no failure of a collaborator. -/
def Action.goesWell : Action → Bool
  | .modelAnswered _ _ (.ok answer) => answer.message.isAssistant
  | .toolsAnswered calls (.error _) => calls.isEmpty
  | a => !a.isFault

/-- A response that asks for the tool is answered, and the run fails at the next policy check. -/
theorem askPing_paired :
    ∃ w', Returns ((asking .toolCalls).run .benign 2 askPing) (.ofSession 7 []) false w' ∧
      Paired (w'.messages 7) := by
  have hreturns : Returns ((asking .toolCalls).run .benign 2 askPing) (.ofSession 7 []) false
      (final ((asking .toolCalls).run .benign 2 askPing (.ofSession 7 []))) :=
    returns_of_isError (by decide +kernel)
  have hcreated : (final ((asking .toolCalls).run .benign 2 askPing
      (.ofSession 7 []))).trace[5]?.any
        (Action.createsWith (·.sessionId == 7)) = true := by decide +kernel
  have hnew : ((World.ofSession 7 []).after ((final ((asking .toolCalls).run .benign 2 askPing
      (.ofSession 7 []))).trace.take 5)).messages 7 = [] := by decide +kernel
  have hsteps : ((final ((asking .toolCalls).run .benign 2 askPing
      (.ofSession 7 []))).trace.drop 6).all Action.goesWell = true := by
    decide +kernel
  have hstored : (responses ((final ((asking .toolCalls).run .benign 2 askPing
      (.ofSession 7 []))).trace.drop 6)).stored.map (fun answer =>
        (answer.message.toolCalls, answer.finish)) = [([⟨"a", "t", .null⟩], .toolCalls)] := by
    decide +kernel
  generalize final ((asking .toolCalls).run .benign 2 askPing (.ofSession 7 [])) = w' at *
  obtain ⟨record, hsession, -, htrace⟩ := exists_createRun hcreated
  have hsteps := List.all_eq_true.mp hsteps
  refine ⟨w', hreturns, hsession ▸ ?_⟩
  apply ((run_pairs_iff .benign (asking .toolCalls) 2 askPing (.ofSession 7 []) w' false
    hreturns).1 record (w'.trace.take 5) (w'.trace.drop 6) htrace
      (by rw [hsession, hnew]; rfl) ?_).mpr
  · exact {
      asks := by
        intro answer hmem _
        have hpair : (answer.message.toolCalls, answer.finish) ∈
            [([(⟨"a", "t", .null⟩ : ToolCall)], FinishReason.toolCalls)] :=
          hstored ▸ List.mem_map_of_mem hmem
        exact (Prod.mk.inj (List.mem_singleton.mp hpair)).2
      loopless := by
        have hcalls : callsOf (responses (w'.trace.drop 6)).stored = [⟨"a", "t", .null⟩] := by
          have hflat := congrArg (fun l => l.flatMap Prod.fst) hstored
          simpa [callsOf, List.flatMap_map] using hflat
        rw [hcalls]
        exact ⟨_, rfl⟩
      answered := by
        intro calls e hmem
        simpa [Action.goesWell] using hsteps _ hmem
      undisturbed := by
        intro bs a rest hsplit hfault
        have ha := hsteps a (by rw [hsplit]; simp)
        have hnone : a.isFault = false := by
          cases a with
          | modelAnswered _ _ _ => rfl
          | toolsAnswered _ _ => rfl
          | _ => simpa [Action.goesWell] using ha
        cases hnone.symm.trans hfault }
  · intro iteration chatRequest answer hmem
    exact hsteps _ hmem

end Behest
