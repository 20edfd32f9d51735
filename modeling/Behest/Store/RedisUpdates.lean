import Behest.Store.RedisKept

/-!
# Messages in Redis while they are updated

Where every update removes a member that is still there and gets to add the new one, every
message is listed once, with the usage of an update that has completed.
-/

namespace Behest

open Effect

namespace RedisState

namespace RedisCall

variable {json : RedisJson} {x : RedisCrowd json} {i : Nat} {c c' : RedisCall json}
  {s' : RedisState json} {sessionId : Uuid} {records : List MessageRecord}

theorem Owned.set (h : Owned x.calls) (hi : x.calls[i]? = some c)
    (happends : RedisCall.appends c' = RedisCall.appends c)
    (hadding : ∀ m, adding c' = some m → adding c = some m)
    (hfetched : ∀ sessionId member record, c'.phase = .fetched sessionId member record →
      ∃ usage, c'.request.op = .updateUsage record.id usage ∧ parse member = .ok record)
    (hremoved : ∀ sessionId record, c'.phase = .removed sessionId record →
      ∃ usage, c'.request.op = .updateUsage record.id usage)
    (hcompleted : ∀ id usage, completed id c' = some usage →
      ∃ m ∈ x.calls.filterMap RedisCall.appends, m.id = id ∧ m ∉ x.calls.filterMap adding) :
    Owned (x.calls.set i c') := by
  have happendss : (x.calls.set i c').filterMap RedisCall.appends =
      x.calls.filterMap RedisCall.appends := filterMap_set_eq hi happends
  constructor
  · rw [happendss]
    exact h.appends
  · intro d hd
    rcases List.mem_or_eq_of_mem_set hd with hd | rfl
    · exact h.fetched d hd
    · exact hfetched
  · intro d hd
    rcases List.mem_or_eq_of_mem_set hd with hd | rfl
    · exact h.removed d hd
    · exact hremoved
  · intro id usage husage
    rw [happendss]
    have hbefore : ∃ m ∈ x.calls.filterMap RedisCall.appends,
        m.id = id ∧ m ∉ x.calls.filterMap adding := by
      rcases mem_filterMap_set husage with hself | husage
      · exact hcompleted id usage hself
      · exact h.updated id usage husage
    obtain ⟨m, hm, hid, hadded⟩ := hbefore
    refine ⟨m, hm, hid, fun hin => hadded ?_⟩
    rcases mem_filterMap_set hin with hself | hin
    · exact List.mem_filterMap.mpr ⟨c, List.mem_of_getElem? hi, hadding m hself⟩
    · exact hin

/-- A step of a call that touches no set and completes no update. -/
theorem Whole.quiet (h : Whole x) (hi : x.calls[i]? = some c)
    (hmessages : s'.messages = x.state.messages) (happends : appends c' = appends c)
    (haway : ∀ sessionId, away sessionId c' = away sessionId c)
    (hcompleted : ∀ id, completed id c' = completed id c)
    (hadding : ∀ m, adding c' = some m → adding c = some m)
    (hkeeping : ∀ m, keeping c' = some m → keeping c = some m)
    (hfetched : ∀ sessionId member record, c'.phase = .fetched sessionId member record →
      ∃ usage, c'.request.op = .updateUsage record.id usage ∧ parse member = .ok record)
    (hremoved : ∀ sessionId record, c'.phase ≠ .removed sessionId record) :
    Whole ⟨x.calls.set i c', s'⟩ := by
  constructor
  · apply h.1.set hi happends hadding hfetched
    · exact fun sessionId record hphase => absurd hphase (hremoved sessionId record)
    · intro id usage husage
      rw [hcompleted] at husage
      exact h.1.updated id usage (List.mem_filterMap.mpr ⟨c, List.mem_of_getElem? hi, husage⟩)
  · intro sessionId
    obtain ⟨records, hkept⟩ := h.2 sessionId
    exact ⟨records, hkept.quiet hi (congrFun hmessages sessionId) happends (haway sessionId)
      (fun r _ => hcompleted r.id) hadding fun m hm _ => hkeeping m hm⟩

/-- A call whose connection breaks, or that finds nothing to do. -/
theorem Whole.fail (h : Whole x) (hi : x.calls[i]? = some c)
    (hphase : ∀ sessionId record, c.phase ≠ .removed sessionId record)
    (hanswer : ∀ answer, c.phase ≠ .ended answer) (error : StorageError) :
    Whole ⟨x.calls.set i (c.endWith (.error error)), x.state⟩ := by
  obtain ⟨⟨op, breaks⟩, phase⟩ := c
  refine h.quiet hi rfl rfl ?_ ?_ ?_ ?_ ?_ ?_
  · intro sessionId
    cases op <;> cases phase <;> first | rfl | exact absurd rfl (hphase _ _)
  · intro id
    cases op <;> cases phase <;> first | rfl | exact absurd rfl (hanswer _)
  · intro m hm
    cases op <;> cases hm
  · intro m hm
    cases op <;> cases hm
  · intro sessionId member record hfetched
    cases hfetched
  · intro sessionId record hremoved
    cases hremoved

theorem Kept.id_of_mem (h : Kept sessionId x records) {r : MessageRecord}
    (hr : r ∈ records ++ x.calls.filterMap (away sessionId)) :
    ∃ m ∈ x.calls.filterMap appends, m.sessionId = sessionId ∧ r.id = m.id := by
  obtain ⟨m, hm, hsession, heq⟩ := h.versions r hr
  exact ⟨m, hm, hsession, by rw [heq]⟩

/-- Calls that enter with messages of their own. -/
theorem Kept.enter (h : Kept sessionId x records) {calls : List (RedisCall json)}
    (haway : calls.filterMap (away sessionId) = x.calls.filterMap (away sessionId))
    (hcompleted : ∀ id, calls.filterMap (completed id) = x.calls.filterMap (completed id))
    (hkeeping : calls.filterMap keeping = x.calls.filterMap keeping)
    (happends : x.calls.filterMap appends ⊆ calls.filterMap appends)
    (hadding : ∀ m ∈ calls.filterMap adding, m ∈ x.calls.filterMap adding ∨
      ∀ other ∈ x.calls.filterMap appends, other.id ≠ m.id) :
    Kept sessionId ⟨calls, x.state⟩ records := by
  constructor
  · exact h.texts
  · dsimp only
    rw [haway]
    exact h.distinct
  · dsimp only
    rw [haway]
    intro r hr
    obtain ⟨m, hm, hrest⟩ := h.versions r hr
    exact ⟨m, happends hm, hrest⟩
  · dsimp only
    rw [haway]
    intro m hm r hr
    rcases hadding m hm with hm | hnew
    · exact h.fresh m hm r hr
    · obtain ⟨other, hother, _, hid⟩ := h.id_of_mem hr
      rw [hid]
      exact hnew other hother
  · dsimp only
    rw [haway, hkeeping]
    exact h.kept
  · intro r hr
    unfold Settled
    dsimp only
    rw [hcompleted]
    refine (h.settled r hr).imp_right fun ⟨hnone, m, hm, hrest⟩ => ⟨hnone, m, happends hm, hrest⟩

/-- A call that enters. -/
theorem Whole.enter (h : Whole x) {request : RedisRequest}
    (ht : undisturbed x (.enter request) = true) : Whole ⟨x.calls ++ [start request], x.state⟩ := by
  obtain ⟨op, breaks⟩ := request
  generalize hcalls : x.calls ++ [start ⟨op, breaks⟩] = calls
  have hparts : ∀ {β : Type} (part : RedisCall json → Option β), part (start ⟨op, breaks⟩) = none →
      calls.filterMap part = x.calls.filterMap part := by
    intro β part hnone
    rw [← hcalls, List.filterMap_append, List.filterMap_cons_none hnone, List.filterMap_nil,
      List.append_nil]
  have hgain : ∀ (part : RedisCall json → Option MessageRecord) {message : MessageRecord},
      part (start ⟨op, breaks⟩) = some message →
      calls.filterMap part = x.calls.filterMap part ++ [message] := by
    intro part message hsome
    rw [← hcalls, List.filterMap_append, List.filterMap_cons_some hsome, List.filterMap_nil]
  have haway : ∀ sessionId, calls.filterMap (away sessionId) =
      x.calls.filterMap (away sessionId) := fun sessionId => hparts _ (by cases op <;> rfl)
  have hcompleted : ∀ id, calls.filterMap (completed id) = x.calls.filterMap (completed id) :=
    fun id => hparts _ (by cases op <;> rfl)
  have hkeeping : calls.filterMap keeping = x.calls.filterMap keeping :=
    hparts _ (by cases op <;> rfl)
  have hphases : ∀ d ∈ calls, d ∈ x.calls ∨ d.phase = .starting := by
    intro d hd
    rw [← hcalls] at hd
    rcases List.mem_append.mp hd with hd | hd
    · exact .inl hd
    · exact .inr (by rw [List.mem_singleton.mp hd]; rfl)
  have hfetched : ∀ d ∈ calls, ∀ sessionId member record,
      d.phase = .fetched sessionId member record →
      ∃ usage, d.request.op = .updateUsage record.id usage ∧ parse member = .ok record := by
    intro d hd sessionId member record hphase
    rcases hphases d hd with hd | hstart
    · exact h.1.fetched d hd sessionId member record hphase
    · rw [hstart] at hphase
      cases hphase
  have hremoved : ∀ d ∈ calls, ∀ sessionId record, d.phase = .removed sessionId record →
      ∃ usage, d.request.op = .updateUsage record.id usage := by
    intro d hd sessionId record hphase
    rcases hphases d hd with hd | hstart
    · exact h.1.removed d hd sessionId record hphase
    · rw [hstart] at hphase
      cases hphase
  cases op with
  | updateUsage messageId usage =>
    have happends : calls.filterMap appends = x.calls.filterMap appends := hparts _ rfl
    have hadding : calls.filterMap adding = x.calls.filterMap adding := hparts _ rfl
    constructor
    · refine ⟨happends ▸ h.1.appends, hfetched, hremoved, fun id => ?_⟩
      rw [happends, hadding, hcompleted]
      exact h.1.updated id
    · intro sessionId
      obtain ⟨records, hkept⟩ := h.2 sessionId
      refine ⟨records, hkept.enter (haway sessionId) hcompleted hkeeping ?_ ?_⟩
      · rw [happends]
        exact List.Subset.refl _
      · rw [hadding]
        exact fun _ => .inl
  | appendMessage message =>
    have happends : calls.filterMap appends = x.calls.filterMap appends ++ [message] := hgain _ rfl
    have hadding : calls.filterMap adding = x.calls.filterMap adding ++ [message] := hgain _ rfl
    have hnew : ∀ other ∈ x.calls.filterMap appends, other.id ≠ message.id := by
      intro other hother
      have hne := List.all_eq_true.mp ht other hother
      simpa using hne
    constructor
    · refine ⟨?_, hfetched, hremoved, fun id usage husage => ?_⟩
      · rw [happends, List.map_append, List.nodup_append]
        refine ⟨h.1.appends, List.nodup_singleton _, ?_⟩
        intro a ha b hb
        obtain ⟨other, hother, rfl⟩ := List.mem_map.mp ha
        rw [List.mem_singleton.mp hb]
        exact hnew other hother
      · rw [hcompleted] at husage
        obtain ⟨m, hm, hid, hadded⟩ := h.1.updated id usage husage
        rw [happends, hadding]
        refine ⟨m, List.mem_append_left _ hm, hid, fun hin => ?_⟩
        rcases List.mem_append.mp hin with hin | hin
        · exact hadded hin
        · exact hnew m hm (congrArg MessageRecord.id (List.mem_singleton.mp hin))
    · intro sessionId
      obtain ⟨records, hkept⟩ := h.2 sessionId
      refine ⟨records, hkept.enter (haway sessionId) hcompleted hkeeping ?_ ?_⟩
      · rw [happends]
        exact List.subset_append_left _ _
      · rw [hadding]
        intro m hm
        rcases List.mem_append.mp hm with hm | hm
        · exact .inl hm
        · rw [List.mem_singleton.mp hm]
          exact .inr hnew

/-- A command of an append. -/
theorem Whole.appendMessage (h : Whole x) {message : MessageRecord}
    {breaks : Option (Nat × String)} {phase : CommandPhase json}
    (hi : x.calls[i]? = some ⟨⟨.appendMessage message, breaks⟩, phase⟩)
    (hcommand : command ⟨⟨.appendMessage message, breaks⟩, phase⟩ x.state = some (c', s')) :
    Whole ⟨x.calls.set i c', s'⟩ := by
  cases phase with
  | starting =>
    simp only [command] at hcommand
    split at hcommand
    · cases hcommand
      exact h.quiet hi rfl rfl (fun _ => rfl) (fun _ => rfl) (fun _ => id) (by rintro _ ⟨⟩)
        (by rintro _ _ _ ⟨⟩) (by rintro _ _ ⟨⟩)
    · cases hcommand
      exact h.fail hi (by rintro _ _ ⟨⟩) (by rintro _ ⟨⟩) _
  | verified =>
    cases hcommand
    constructor
    · exact h.1.set hi rfl (by rintro _ ⟨⟩) (by rintro _ _ _ ⟨⟩) (by rintro _ _ ⟨⟩)
        (by rintro _ _ ⟨⟩)
    · intro sessionId
      obtain ⟨records, hkept⟩ := h.2 sessionId
      by_cases hsession : message.sessionId = sessionId
      · exact hkept.add hi h.1 hsession
      · refine ⟨records, hkept.quiet hi (putMessages_of_ne _ (Ne.symm hsession) _) rfl rfl
          (fun _ _ => rfl) (by rintro _ ⟨⟩) ?_⟩
        intro m hm heq
        cases hm
        exact absurd heq hsession
  | added =>
    cases hcommand
    exact h.quiet hi rfl rfl (fun _ => rfl) (fun _ => rfl) (fun _ => id) (fun _ => id)
      (by rintro _ _ _ ⟨⟩) (by rintro _ _ ⟨⟩)
  | indexed =>
    cases hcommand
    exact h.quiet hi rfl rfl (fun _ => rfl) (fun _ => rfl) (fun _ => id) (fun _ => id)
      (by rintro _ _ _ ⟨⟩) (by rintro _ _ ⟨⟩)
  | _ => cases hcommand

/-- A command of an update; if it is a removal, the member is there. -/
theorem Whole.updateUsage (h : Whole x) {messageId : Uuid} {usage : TokenUsage}
    {breaks : Option (Nat × String)} {phase : CommandPhase json}
    (hi : x.calls[i]? = some ⟨⟨.updateUsage messageId usage, breaks⟩, phase⟩)
    (hmember : ∀ sessionId member record, phase = .fetched sessionId member record →
      ∃ e ∈ x.state.messages sessionId, e.2 = member)
    (hcommand : command ⟨⟨.updateUsage messageId usage, breaks⟩, phase⟩ x.state = some (c', s')) :
    Whole ⟨x.calls.set i c', s'⟩ := by
  have hc := List.mem_of_getElem? hi
  cases phase with
  | starting =>
    simp only [command] at hcommand
    split at hcommand
    · cases hcommand
      exact h.quiet hi rfl rfl (fun _ => rfl) (fun _ => rfl) (fun _ => id) (fun _ => id)
        (by rintro _ _ _ ⟨⟩) (by rintro _ _ ⟨⟩)
    · cases hcommand
      exact h.fail hi (by rintro _ _ ⟨⟩) (by rintro _ ⟨⟩) _
  | found sessionId =>
    simp only [command] at hcommand
    split at hcommand
    · next member record hfind =>
      cases hcommand
      obtain ⟨hparse, rfl⟩ := findRecord_some hfind
      refine h.quiet hi rfl rfl (fun _ => rfl) (fun _ => rfl) (fun _ => id) (fun _ => id) ?_
        (by rintro _ _ ⟨⟩)
      intro other member' record' hphase
      cases hphase
      exact ⟨usage, rfl, hparse⟩
    · cases hcommand
      exact h.fail hi (by rintro _ _ ⟨⟩) (by rintro _ ⟨⟩) _
    · cases hcommand
      exact h.fail hi (by rintro _ _ ⟨⟩) (by rintro _ ⟨⟩) _
  | fetched other member record =>
    cases hcommand
    obtain ⟨_, hop, hparse⟩ := h.1.fetched _ hc other member record rfl
    cases hop
    constructor
    · refine h.1.set hi rfl (fun _ => id) (by rintro _ _ _ ⟨⟩) ?_ (by rintro _ _ ⟨⟩)
      intro sessionId record' hphase
      cases hphase
      exact ⟨usage, rfl⟩
    · intro sessionId
      obtain ⟨records, hkept⟩ := h.2 sessionId
      by_cases hsession : other = sessionId
      · subst hsession
        exact hkept.remove hi hparse (hmember other member record rfl)
      · refine ⟨records, hkept.quiet hi (putMessages_of_ne _ (Ne.symm hsession) _) rfl ?_
          (fun _ _ => rfl) (fun _ => id) (fun _ hm _ => hm)⟩
        exact if_neg hsession
  | removed other record =>
    cases hcommand
    obtain ⟨_, hop⟩ := h.1.removed _ hc other record rfl
    cases hop
    obtain ⟨held, hheld⟩ := h.2 other
    have haway : { record with usage := some usage } ∈
        held ++ x.calls.filterMap (away other) :=
      List.mem_append_right _ (List.mem_filterMap.mpr ⟨_, hc, if_pos rfl⟩)
    obtain ⟨m, hm, hown, hid⟩ := hheld.id_of_mem haway
    constructor
    · refine h.1.set hi rfl (fun _ => id) (by rintro _ _ _ ⟨⟩) (by rintro _ _ ⟨⟩) ?_
      intro id usage' husage
      by_cases heq : record.id = id
      · exact ⟨m, hm, hid.symm.trans heq, fun hadded => hheld.fresh m hadded _ haway hid⟩
      · cases (if_neg heq).symm.trans husage
    · intro sessionId
      by_cases hsession : other = sessionId
      · subst hsession
        exact hheld.restore hi
      · obtain ⟨records, hkept⟩ := h.2 sessionId
        refine ⟨records, hkept.quiet hi (putMessages_of_ne _ (Ne.symm hsession) _) rfl ?_ ?_
          (fun _ => id) (fun _ hm _ => hm)⟩
        · exact (if_neg hsession).symm
        · -- the record of the update belongs to the other session
          intro r hr
          apply if_neg
          intro heq
          obtain ⟨m', hm', hown', hid'⟩ := hkept.id_of_mem (List.mem_append_left _ hr)
          have hsame : m = m' := List.inj_on_of_nodup_map h.1.appends hm hm'
            ((hid.symm.trans heq).trans hid')
          rw [hsame, hown'] at hown
          exact hsession hown.symm
  | _ => cases hcommand

/-- A call that has not returned breaks, or takes its next command. -/
theorem move_cases {s : RedisState json} (h : c.move s = some (c', s')) :
    (∀ answer, c.phase ≠ .ended answer) ∧
      ((∃ message, c.broken = some message ∧
        c' = c.endWith (.error (.backendError "redis" message)) ∧ s' = s) ∨
      (c.broken = none ∧ c.command s = some (c', s'))) := by
  unfold move at h
  split at h
  · cases h
  · next message hbroken hended =>
    cases h
    exact ⟨hended, .inl ⟨message, hbroken, rfl, rfl⟩⟩
  · next hbroken hended => exact ⟨hended, .inr ⟨hbroken, h⟩⟩

/-- A turn that leaves the messages undisturbed. -/
theorem Whole.step {t : Crowd.Turn RedisRequest} {y : RedisCrowd json} (h : Whole x)
    (ht : undisturbed x t = true) (hstep : x.step start move t = some y) : Whole y := by
  rcases Crowd.step_cases hstep with ⟨request, rfl, rfl⟩ | ⟨i, c, c', s', rfl, hi, hmove, rfl⟩
  · exact h.enter ht
  · simp only [undisturbed, hi] at ht
    obtain ⟨hended, ⟨message, hbroken, rfl, rfl⟩ | ⟨hbroken, hcommand⟩⟩ := move_cases hmove
    · apply h.fail hi _ hended
      intro sessionId record hphase
      rw [hphase, hbroken] at ht
      cases ht
    · obtain ⟨⟨op, breaks⟩, phase⟩ := c
      cases op with
      | appendMessage message => exact h.appendMessage hi hcommand
      | updateUsage messageId usage =>
        apply h.updateUsage hi _ hcommand
        intro sessionId member record hphase
        subst hphase
        rw [hbroken] at ht
        obtain ⟨e, he, heq⟩ := List.any_eq_true.mp ht
        exact ⟨e, he, of_decide_eq_true heq⟩

theorem keeping_of_returned {m : MessageRecord} (h : returned c = some m) :
    keeping c = some m ∧ appends c = some m := by
  obtain ⟨⟨op, breaks⟩, phase⟩ := c
  unfold returned at h
  split at h
  · next hop hphase =>
    cases h
    dsimp only at hop hphase
    rw [hop, hphase]
    exact ⟨rfl, rfl⟩
  · cases h

/-- **A message whose append has returned is listed once, with the usage of an update that has
completed** or, when none has, with its own, unless an update has it in hand: whatever calls
there are and in whatever order they send their commands, where every turn leaves the messages
undisturbed. -/
theorem listed_once (sessions : List Uuid) (x : RedisCrowd json)
    (h : LeadsTo (Crowd.step start move) (fun x t => undisturbed x t = true)
      ⟨[], ⟨sessions, fun _ => [], fun _ => none⟩⟩ x)
    {message : MessageRecord} (hreturned : message ∈ x.calls.filterMap returned)
    (hrest : ∀ r ∈ x.calls.filterMap (away message.sessionId), r.id ≠ message.id) :
    ∃ records usage, x.state.listMessages message.sessionId = .ok records ∧
      (records.map MessageRecord.id).count message.id = 1 ∧
      { message with usage := usage } ∈ records ∧
      ((∃ u ∈ x.calls.filterMap (completed message.id), usage = some u) ∨
        x.calls.filterMap (completed message.id) = [] ∧ usage = message.usage) := by
  obtain ⟨howned, hall⟩ : Whole x :=
    h.invariant Whole (whole_new sessions) fun _ _ _ hx ht hstep => hx.step ht hstep
  obtain ⟨records, hkept⟩ := hall message.sessionId
  obtain ⟨c, hc, hphase⟩ := List.mem_filterMap.mp hreturned
  obtain ⟨hkeeps, happends⟩ := keeping_of_returned hphase
  have hkeeping := List.mem_filterMap.mpr ⟨c, hc, hkeeps⟩
  have happends := List.mem_filterMap.mpr ⟨c, hc, happends⟩
  obtain ⟨r, hr, hid⟩ := hkept.kept message hkeeping rfl
  obtain ⟨m, hm, _, heq⟩ := hkept.versions r hr
  have hmessage : m = message := by
    apply List.inj_on_of_nodup_map howned.appends hm happends
    rw [← hid, heq]
  subst hmessage
  have hlisted : r ∈ records := by
    rcases List.mem_append.mp hr with hr | hr
    · exact hr
    · exact absurd hid (hrest r hr)
  have hnodup : (records.map MessageRecord.id).Nodup := by
    have hdistinct := hkept.distinct
    rw [List.map_append] at hdistinct
    exact (List.nodup_append.mp hdistinct).1
  refine ⟨records, r.usage, listMessages_entries hkept.texts, ?_, heq ▸ hlisted, ?_⟩
  · rw [← hid]
    exact List.count_eq_one_of_mem hnodup (List.mem_map_of_mem hlisted)
  · rcases hkept.settled r hlisted with ⟨u, hu, husage⟩ | ⟨hnone, m', hm', hid', husage⟩
    · exact .inl ⟨u, hid ▸ hu, husage⟩
    · right
      have hsame : m' = m := List.inj_on_of_nodup_map howned.appends hm' hm (hid'.trans hid)
      exact ⟨hid ▸ hnone, hsame ▸ husage⟩

/-- Members that are the records themselves. -/
def plainRecords : RedisJson :=
  ⟨.identity _, inferInstanceAs (DecidableEq MessageRecord), fun _ _ => true⟩

/-- A message of session 7. -/
def reply : MessageRecord := .new 1 0 7 .assistant []

/-- The message is appended, and two updates of its usage find it; the connection of the second
may break. -/
def twoUpdates (breaks : Option (Nat × String)) : List (Crowd.Turn RedisRequest) :=
  [.enter ⟨.appendMessage reply, none⟩] ++ List.replicate 4 (.advance 0) ++
    [.enter ⟨.updateUsage 1 ⟨10, 20, 30, none, none, none⟩, none⟩,
      .enter ⟨.updateUsage 1 ⟨11, 22, 33, none, none, none⟩, breaks⟩, .advance 1, .advance 2]

/-- One update after the other. -/
theorem twoUpdates_listed_once :
    ∃ x : RedisCrowd plainRecords, (x.calls.filterMap (completed 1)).length = 2 ∧
      ∃ records usage, x.state.listMessages 7 = .ok records ∧
        (records.map MessageRecord.id).count 1 = 1 ∧ { reply with usage := usage } ∈ records ∧
        ((∃ u ∈ x.calls.filterMap (completed 1), usage = some u) ∨
          x.calls.filterMap (completed 1) = [] ∧ usage = none) := by
  obtain ⟨x, hx, hreturned, haway, hcompleted⟩ := exists_leadsTo (Crowd.step start move)
    (fun x t => undisturbed x t = true)
    (⟨[], ⟨[7], fun _ => [], fun _ => none⟩⟩ : RedisCrowd plainRecords)
    (twoUpdates none ++ List.replicate 3 (.advance 1) ++ List.replicate 3 (.advance 2))
    (fun x => reply ∈ x.calls.filterMap returned ∧ x.calls.filterMap (away 7) = [] ∧
      (x.calls.filterMap (completed 1)).length = 2) (by decide +kernel)
  refine ⟨x, hcompleted, listed_once [7] x hx hreturned ?_⟩
  intro r hr
  exact absurd (haway ▸ hr) List.not_mem_nil

/-- Both read the member before either removes it; or the second breaks between its removal and
its addition. -/
theorem twoUpdates_disturbed :
    (∃ x : RedisCrowd plainRecords,
      LeadsTo (Crowd.step start move) (fun _ _ => True)
        ⟨[], ⟨[7], fun _ => [], fun _ => none⟩⟩ x ∧
      reply ∈ x.calls.filterMap returned ∧ (x.calls.filterMap (completed 1)).length = 2 ∧
      (x.state.listMessages 7).toOption.map (List.map MessageRecord.id) = some [1, 1]) ∧
    ∃ x : RedisCrowd plainRecords,
      LeadsTo (Crowd.step start move) (fun _ _ => True)
        ⟨[], ⟨[7], fun _ => [], fun _ => none⟩⟩ x ∧
      reply ∈ x.calls.filterMap returned ∧ (x.calls.filterMap (completed 1)).length = 1 ∧
      (x.state.listMessages 7).toOption.map (List.map MessageRecord.id) = some [] := by
  constructor
  · apply exists_leadsTo (Crowd.step start move) (fun _ _ => True) _
      (twoUpdates none ++ [.advance 1, .advance 2] ++ List.replicate 2 (.advance 1) ++
        List.replicate 2 (.advance 2))
    decide +kernel
  · apply exists_leadsTo (Crowd.step start move) (fun _ _ => True) _
      (twoUpdates (some (3, "connection reset")) ++ List.replicate 3 (.advance 1) ++
        List.replicate 3 (.advance 2))
    decide +kernel

end RedisCall

end RedisState

end Behest
