import Behest.Store.Sections

/-!
# Careful sections

Each section of a call keeps the state between sections, where its turn is careful; so the maps
of the in-memory session store are sound when all calls have returned.
-/

namespace Behest

open Effect

namespace MemoryState

theorem Present.putMessages {s : Guarded} {sessionId messageId : Uuid}
    (h : Present s.store sessionId messageId) {id : Uuid} {records : Option (List MessageRecord)}
    (hid : sessionId = id → ∃ kept, records = some kept ∧ messageId ∈ kept.map MessageRecord.id) :
    Present (s.putMessages id records).store sessionId messageId := by
  by_cases heq : sessionId = id
  · obtain ⟨kept, rfl, hmem⟩ := hid heq
    refine ⟨kept, ?_, hmem⟩
    rw [heq]
    exact Function.update_self _ _ _
  · obtain ⟨kept, hkept, hmem⟩ := h
    refine ⟨kept, ?_, hmem⟩
    rw [← hkept]
    exact Function.update_of_ne heq _ _

theorem isSome_putMessages {s : Guarded} {id other : Uuid} {records : Option (List MessageRecord)}
    (h : ((s.putMessages id records).store.messages other).isSome) :
    (other = id ∧ records.isSome) ∨ (other ≠ id ∧ (s.store.messages other).isSome) := by
  by_cases heq : other = id
  · left
    refine ⟨heq, ?_⟩
    rw [heq] at h
    rwa [show (s.putMessages id records).store.messages id = records from
      Function.update_self _ _ _] at h
  · right
    refine ⟨heq, ?_⟩
    rwa [show (s.putMessages id records).store.messages other = s.store.messages other from
      Function.update_of_ne heq _ _] at h

variable {x : SessionCrowd} {i : Nat} {c : SessionCall}

/-- A section that leaves the sessions, the creations and the deletions alone. -/
theorem Tracked.frame (h : Tracked x) (hi : x.calls[i]? = some c) {c' : SessionCall} {s' : Guarded}
    (hkept : s'.sessionsKept = x.state.sessionsKept)
    (hsessions : s'.store.sessions = x.state.store.sessions)
    (hcreating : creating c' = creating c) (hremoving : removing c' = removing c)
    (hdropping : dropping c' = dropping c)
    (hstored : ∀ id, (s'.store.messages id).isSome →
      (x.state.store.messages id).isSome ∨ id ∈ x.calls.filterMap MemoryState.pushing)
    (hpushing : ∀ id, MemoryState.pushing c' = some id → id ∈ x.state.store.sessions)
    (hpresent : ∀ sessionId messageId, Present x.state.store sessionId messageId →
      Present s'.store sessionId messageId)
    (hindexing : ∀ message, MemoryState.indexing c' = some message →
      Present s'.store message.sessionId message.id)
    (hindexed : ∀ messageId sessionId, s'.store.messageIndex messageId = some sessionId →
      x.state.store.messageIndex messageId = some sessionId ∨
        Present x.state.store sessionId messageId) :
    Tracked ⟨x.calls.set i c', s'⟩ := by
  have hremoving' : (x.calls.set i c').filterMap removing = x.calls.filterMap removing :=
    filterMap_set_eq hi hremoving
  constructor
  · show s'.sessionsKept = false ∧ (x.calls.set i c').filterMap creating = [] ∨
      s'.sessionsKept = true ∧
        ∃ id ∈ s'.store.sessions, (x.calls.set i c').filterMap creating = [id]
    rw [filterMap_set_eq hi hcreating, hkept, hsessions]
    exact h.kept
  · intro id hid
    show id ∈ s'.store.sessions ∨ id ∈ (x.calls.set i c').filterMap removing
    rw [hsessions, hremoving']
    rcases hstored id hid with hid | hid
    · exact h.stored id hid
    · exact h.pushing id hid
  · intro id hid
    show id ∈ s'.store.sessions ∨ id ∈ (x.calls.set i c').filterMap removing
    rw [hsessions, hremoving']
    rcases mem_filterMap_set hid with hid | hid
    · exact .inl (hpushing id hid)
    · exact h.pushing id hid
  · intro message hmessage
    rcases mem_filterMap_set hmessage with hmessage | hmessage
    · exact hindexing message hmessage
    · exact hpresent _ _ (h.indexing message hmessage)
  · intro messageId sessionId hindex
    show Present s'.store sessionId messageId ∨
      ∃ records ∈ (x.calls.set i c').filterMap dropping, messageId ∈ records.map MessageRecord.id
    rw [filterMap_set_eq hi hdropping]
    rcases hindexed messageId sessionId hindex with hindex | hindex
    · exact (h.indexed messageId sessionId hindex).imp_left (hpresent _ _)
    · exact .inl (hpresent _ _ hindex)

/-- A section that changes nothing that is kept. -/
theorem Tracked.same (h : Tracked x) (hi : x.calls[i]? = some c) {c' : SessionCall}
    (hcreating : creating c' = creating c) (hremoving : removing c' = removing c)
    (hdropping : dropping c' = dropping c)
    (hpushing : ∀ id, MemoryState.pushing c' = some id → id ∈ x.state.store.sessions)
    (hindexing : MemoryState.indexing c' = none) :
    Tracked ⟨x.calls.set i c', x.state⟩ := by
  apply h.frame hi rfl rfl hcreating hremoving hdropping (fun _ => .inl) hpushing (fun _ _ => id)
  · intro message hmessage
    rw [hindexing] at hmessage
    cases hmessage
  · exact fun _ _ => .inl

/-- `append_message`, the messages. -/
theorem Tracked.push (h : Tracked x) {message : MessageRecord}
    (hi : x.calls[i]? = some ⟨.appendMessage message, .checked⟩) :
    Tracked ⟨x.calls.set i ⟨.appendMessage message, .pushed⟩,
      x.state.putMessages message.sessionId
        (some ((x.state.store.messages message.sessionId).getD [] ++ [message]))⟩ := by
  refine h.frame hi rfl rfl rfl rfl rfl ?_ ?_ ?_ ?_ ?_
  · intro id hid
    rcases isSome_putMessages hid with ⟨rfl, _⟩ | ⟨_, hid⟩
    · exact .inr (List.mem_filterMap.mpr ⟨_, List.mem_of_getElem? hi, rfl⟩)
    · exact .inl hid
  · intro id hid
    cases hid
  · intro sessionId messageId hpresent
    apply hpresent.putMessages
    rintro rfl
    obtain ⟨records, hrecords, hmem⟩ := hpresent
    refine ⟨_, rfl, ?_⟩
    rw [hrecords, Option.getD_some, List.map_append]
    exact List.mem_append_left _ hmem
  · intro message' hmessage
    cases hmessage
    refine ⟨_, Function.update_self _ _ _, ?_⟩
    rw [List.map_append]
    exact List.mem_append_right _ (List.mem_singleton.mpr rfl)
  · exact fun _ _ => .inl

/-- `append_message`, the index. -/
theorem Tracked.index (h : Tracked x) {message : MessageRecord}
    (hi : x.calls[i]? = some ⟨.appendMessage message, .pushed⟩) :
    Tracked ⟨x.calls.set i ⟨.appendMessage message, .ended (.ok (.appended message))⟩,
      { x.state with store := { x.state.store with
        messageIndex :=
          Function.update x.state.store.messageIndex message.id (some message.sessionId) } }⟩ := by
  refine h.frame hi rfl rfl rfl rfl rfl (fun _ => .inl) (fun _ => nofun) (fun _ _ => id)
    (fun _ => nofun) ?_
  intro messageId sessionId hindex
  by_cases hid : messageId = message.id
  · right
    rw [hid] at hindex ⊢
    dsimp only at hindex
    rw [Function.update_self, Option.some.injEq] at hindex
    rw [← hindex]
    exact h.indexing message (List.mem_filterMap.mpr ⟨_, List.mem_of_getElem? hi, rfl⟩)
  · left
    dsimp only at hindex
    rwa [Function.update_of_ne hid] at hindex

theorem setUsage_ids {messageId : Uuid} {usage : TokenUsage} {records records' : List MessageRecord}
    (h : setUsage messageId usage records = some records') :
    records'.map MessageRecord.id = records.map MessageRecord.id := by
  induction records generalizing records' with
  | nil => cases h
  | cons r rest ih =>
    unfold setUsage at h
    split at h
    · cases h
      rfl
    · obtain ⟨rest', hrest, rfl⟩ := Option.map_eq_some_iff.mp h
      rw [List.map_cons, List.map_cons, ih hrest]

/-- `update_usage`, the messages. -/
theorem Tracked.setUsage (h : Tracked x) {messageId sessionId : Uuid} {usage : TokenUsage}
    (hi : x.calls[i]? = some ⟨.updateUsage messageId usage, .found sessionId⟩)
    {records : List MessageRecord} (hrecords : (x.state.store.messages sessionId).bind
      (MemoryState.setUsage messageId usage) = some records) :
    Tracked ⟨x.calls.set i ⟨.updateUsage messageId usage, .ended (.ok .updated)⟩,
      x.state.putMessages sessionId (some records)⟩ := by
  obtain ⟨before, hbefore, hset⟩ := Option.bind_eq_some_iff.mp hrecords
  refine h.frame hi rfl rfl rfl rfl rfl ?_ ?_ ?_ ?_ ?_
  · intro id hid
    rcases isSome_putMessages hid with ⟨rfl, _⟩ | ⟨_, hid⟩
    · exact .inl (Option.isSome_of_eq_some hbefore)
    · exact .inl hid
  · exact fun _ => nofun
  · intro id other hpresent
    apply hpresent.putMessages
    rintro rfl
    obtain ⟨kept, hkept, hmem⟩ := hpresent
    rw [hbefore] at hkept
    cases hkept
    exact ⟨records, rfl, setUsage_ids hset ▸ hmem⟩
  · exact fun _ => nofun
  · exact fun _ _ => .inl

/-- A section of a creation or a deletion is none of the appends' business. -/
theorem appends_set (hi : x.calls[i]? = some c) {c' : SessionCall}
    (hpushing : pushing c' = pushing c) (hindexing : indexing c' = indexing c) :
    (x.calls.set i c').filterMap pushing = x.calls.filterMap pushing ∧
      (x.calls.set i c').filterMap indexing = x.calls.filterMap indexing :=
  ⟨filterMap_set_eq hi hpushing, filterMap_set_eq hi hindexing⟩

theorem Tracked.creating_of_free (h : Tracked x) (hfree : x.state.sessionsKept = false) :
    x.calls.filterMap creating = [] := by
  rcases h.kept with hkept | ⟨hkept, _⟩
  · exact hkept.2
  · rw [hfree] at hkept
    cases hkept

/-- `create_session`, the sessions. -/
theorem Tracked.insert (h : Tracked x) {id : Uuid}
    (hi : x.calls[i]? = some ⟨.createSession id, .starting⟩)
    (hfree : x.state.sessionsKept = false) :
    Tracked ⟨x.calls.set i ⟨.createSession id, .inserted⟩,
      { x.state with
        store := { x.state.store with sessions := id :: x.state.store.sessions }
        sessionsKept := true }⟩ := by
  generalize hcalls : x.calls.set i ⟨.createSession id, .inserted⟩ = calls
  have hcreating : (calls.filterMap creating).Perm (id :: x.calls.filterMap creating) :=
    hcalls ▸ filterMap_set_perm_cons hi rfl rfl
  have hremoving : calls.filterMap removing = x.calls.filterMap removing :=
    hcalls ▸ filterMap_set_eq hi rfl
  have hdropping : calls.filterMap dropping = x.calls.filterMap dropping :=
    hcalls ▸ filterMap_set_eq hi rfl
  obtain ⟨hpushing, hindexing⟩ : calls.filterMap MemoryState.pushing =
      x.calls.filterMap MemoryState.pushing ∧ calls.filterMap MemoryState.indexing =
      x.calls.filterMap MemoryState.indexing := hcalls ▸ appends_set hi rfl rfl
  rw [h.creating_of_free hfree, List.perm_singleton] at hcreating
  have hgrow : ∀ {other}, other ∈ x.state.store.sessions → other ∈ id :: x.state.store.sessions :=
    List.mem_cons_of_mem _
  constructor
  · exact .inr ⟨rfl, id, List.mem_cons_self, hcreating⟩
  · intro other hother
    dsimp only
    rw [hremoving]
    exact (h.stored other hother).imp_left hgrow
  · intro other hother
    dsimp only at hother ⊢
    rw [hremoving]
    rw [hpushing] at hother
    exact (h.pushing other hother).imp_left hgrow
  · intro message hmessage
    dsimp only at hmessage
    rw [hindexing] at hmessage
    exact h.indexing message hmessage
  · intro messageId sessionId hindex
    dsimp only
    rw [hdropping]
    exact h.indexed messageId sessionId hindex

theorem ne_of_settled {id : Uuid} {calls : List SessionCall} (h : settled id calls = true)
    {message : MessageRecord} (hmem : message ∈ calls.filterMap indexing) :
    message.sessionId ≠ id := by
  have hne := List.all_eq_true.mp h message hmem
  simpa using hne

/-- `create_session`, the messages: nothing that is indexed is replaced. -/
theorem Tracked.replace (h : Tracked x) {id : Uuid}
    (hi : x.calls[i]? = some ⟨.createSession id, .inserted⟩)
    (hsettled : settled id x.calls = true)
    (hlist : ∀ r ∈ (x.state.store.messages id).getD [],
      x.state.store.messageIndex r.id ≠ some id) :
    Tracked ⟨x.calls.set i ⟨.createSession id, .ended (.ok (.created id))⟩,
      { x.state.putMessages id (some []) with sessionsKept := false }⟩ := by
  generalize hcalls : x.calls.set i ⟨.createSession id, .ended (.ok (.created id))⟩ = calls
  have hperm : (x.calls.filterMap creating).Perm (id :: calls.filterMap creating) :=
    hcalls ▸ perm_cons_filterMap_set hi rfl rfl
  have hremoving : calls.filterMap removing = x.calls.filterMap removing :=
    hcalls ▸ filterMap_set_eq hi rfl
  have hdropping : calls.filterMap dropping = x.calls.filterMap dropping :=
    hcalls ▸ filterMap_set_eq hi rfl
  obtain ⟨hpushing, hindexing⟩ : calls.filterMap MemoryState.pushing =
      x.calls.filterMap MemoryState.pushing ∧ calls.filterMap MemoryState.indexing =
      x.calls.filterMap MemoryState.indexing := hcalls ▸ appends_set hi rfl rfl
  have hcreating : id ∈ x.state.store.sessions ∧ calls.filterMap creating = [] := by
    rcases h.kept with ⟨_, hnone⟩ | ⟨_, other, hother, hone⟩
    · rw [hnone] at hperm
      exact absurd hperm.nil_eq (List.cons_ne_nil _ _).symm
    · rw [hone, List.singleton_perm] at hperm
      exact ⟨(List.cons.inj hperm).1 ▸ hother, (List.cons.inj hperm).2.symm⟩
  constructor
  · exact .inl ⟨rfl, hcreating.2⟩
  · intro other hother
    dsimp only
    rw [hremoving]
    rcases isSome_putMessages hother with ⟨rfl, _⟩ | ⟨_, hother⟩
    · exact .inl hcreating.1
    · exact h.stored other hother
  · intro other hother
    dsimp only at hother ⊢
    rw [hremoving]
    rw [hpushing] at hother
    exact h.pushing other hother
  · intro message hmessage
    dsimp only at hmessage
    rw [hindexing] at hmessage
    exact (h.indexing message hmessage).putMessages fun heq =>
      absurd heq (ne_of_settled hsettled hmessage)
  · intro messageId sessionId hindex
    dsimp only
    rw [hdropping]
    apply (h.indexed messageId sessionId hindex).imp_left
    intro hpresent
    apply hpresent.putMessages
    rintro rfl
    obtain ⟨records, hrecords, hmem⟩ := hpresent
    obtain ⟨r, hr, rfl⟩ := List.mem_map.mp hmem
    rw [hrecords] at hlist
    exact absurd hindex (hlist r hr)

/-- `delete_session`, the sessions. -/
theorem Tracked.remove (h : Tracked x) {id : Uuid}
    (hi : x.calls[i]? = some ⟨.deleteSession id, .starting⟩)
    (hfree : x.state.sessionsKept = false) :
    Tracked ⟨x.calls.set i ⟨.deleteSession id, .removed⟩,
      { x.state with store := { x.state.store with
        sessions := x.state.store.sessions.filter (· != id) } }⟩ := by
  generalize hcalls : x.calls.set i ⟨.deleteSession id, .removed⟩ = calls
  have hcreating : calls.filterMap creating = x.calls.filterMap creating :=
    hcalls ▸ filterMap_set_eq hi rfl
  have hremoving : (calls.filterMap removing).Perm (id :: x.calls.filterMap removing) :=
    hcalls ▸ filterMap_set_perm_cons hi rfl rfl
  have hdropping : calls.filterMap dropping = x.calls.filterMap dropping :=
    hcalls ▸ filterMap_set_eq hi rfl
  obtain ⟨hpushing, hindexing⟩ : calls.filterMap MemoryState.pushing =
      x.calls.filterMap MemoryState.pushing ∧ calls.filterMap MemoryState.indexing =
      x.calls.filterMap MemoryState.indexing := hcalls ▸ appends_set hi rfl rfl
  have hshrink : ∀ {other}, other ∈ x.state.store.sessions ∨ other ∈ x.calls.filterMap removing →
      other ∈ x.state.store.sessions.filter (· != id) ∨ other ∈ calls.filterMap removing := by
    intro other hother
    rw [hremoving.mem_iff, List.mem_cons, List.mem_filter, bne_iff_ne]
    by_cases heq : other = id
    · exact .inr (.inl heq)
    · exact hother.imp (fun hmem => ⟨hmem, heq⟩) .inr
  constructor
  · exact .inl ⟨hfree, hcreating.trans (h.creating_of_free hfree)⟩
  · exact fun other hother => hshrink (h.stored other hother)
  · intro other hother
    dsimp only at hother
    rw [hpushing] at hother
    exact hshrink (h.pushing other hother)
  · intro message hmessage
    dsimp only at hmessage
    rw [hindexing] at hmessage
    exact h.indexing message hmessage
  · intro messageId sessionId hindex
    dsimp only
    rw [hdropping]
    exact h.indexed messageId sessionId hindex

/-- `delete_session`, the messages: no append is about to need them, and those that were there
are to be cleaned from the index. -/
theorem Tracked.drop (h : Tracked x) {id : Uuid}
    (hi : x.calls[i]? = some ⟨.deleteSession id, .removed⟩)
    (hsettled : settled id x.calls = true)
    (hpush : id ∈ x.state.store.sessions ∨ id ∉ x.calls.filterMap MemoryState.pushing)
    (phase : SectionPhase) (hphase : removing ⟨.deleteSession id, phase⟩ = none)
    (hrecords : ∀ records, x.state.store.messages id = some records →
      dropping ⟨.deleteSession id, phase⟩ = some records) (messagesKept : Bool) :
    Tracked ⟨x.calls.set i ⟨.deleteSession id, phase⟩,
      { x.state.putMessages id none with messagesKept := messagesKept }⟩ := by
  have hdropped : ∀ records, x.state.store.messages id = some records →
      records ∈ (x.calls.set i ⟨.deleteSession id, phase⟩).filterMap dropping :=
    fun records hget => mem_filterMap_set_self hi (hrecords records hget)
  have hdropping : ∀ records ∈ x.calls.filterMap dropping,
      records ∈ (x.calls.set i ⟨.deleteSession id, phase⟩).filterMap dropping := by
    intro records hmem
    rcases mem_filterMap_of_set hi hmem with hself | hmem
    · cases hself
    · exact hmem
  generalize hcalls : x.calls.set i ⟨.deleteSession id, phase⟩ = calls at *
  have hcreating : calls.filterMap creating = x.calls.filterMap creating :=
    hcalls ▸ filterMap_set_eq hi rfl
  have hremoving : (x.calls.filterMap removing).Perm (id :: calls.filterMap removing) :=
    hcalls ▸ perm_cons_filterMap_set hi rfl hphase
  obtain ⟨hpushing, hindexing⟩ : calls.filterMap MemoryState.pushing =
      x.calls.filterMap MemoryState.pushing ∧ calls.filterMap MemoryState.indexing =
      x.calls.filterMap MemoryState.indexing := hcalls ▸ appends_set hi rfl rfl
  have hother : ∀ {other}, other ≠ id → other ∈ x.state.store.sessions ∨
      other ∈ x.calls.filterMap removing →
      other ∈ x.state.store.sessions ∨ other ∈ calls.filterMap removing := by
    intro other hne hor
    rw [hremoving.mem_iff, List.mem_cons] at hor
    exact hor.imp_right fun hmem => hmem.resolve_left hne
  constructor
  · dsimp only
    rw [hcreating]
    exact h.kept
  · intro other hsome
    rcases isSome_putMessages hsome with ⟨_, hnone⟩ | ⟨hne, hsome⟩
    · cases hnone
    · exact hother hne (h.stored other hsome)
  · intro other hmem
    dsimp only at hmem
    rw [hpushing] at hmem
    by_cases heq : other = id
    · rw [heq] at hmem ⊢
      exact .inl (hpush.resolve_right (not_not_intro hmem))
    · exact hother heq (h.pushing other hmem)
  · intro message hmessage
    dsimp only at hmessage
    rw [hindexing] at hmessage
    exact (h.indexing message hmessage).putMessages fun heq =>
      absurd heq (ne_of_settled hsettled hmessage)
  · intro messageId sessionId hindex
    rcases h.indexed messageId sessionId hindex with hpresent | ⟨records, hmem, hid⟩
    · by_cases heq : sessionId = id
      · obtain ⟨records, hget, hid⟩ := hpresent
        exact .inr ⟨records, hdropped records (heq ▸ hget), hid⟩
      · exact .inl (hpresent.putMessages fun hself => absurd hself heq)
    · exact .inr ⟨records, hdropping records hmem, hid⟩

/-- `delete_session`, the index. -/
theorem Tracked.clean (h : Tracked x) {id : Uuid} {records : List MessageRecord}
    (hi : x.calls[i]? = some ⟨.deleteSession id, .dropped records⟩) :
    Tracked ⟨x.calls.set i ⟨.deleteSession id, .ended (.ok .deleted)⟩,
      { x.state with
        store := { x.state.store with
          messageIndex := MemorySessionStore.unindex x.state.store.messageIndex records }
        messagesKept := false }⟩ := by
  generalize hcalls : x.calls.set i ⟨.deleteSession id, .ended (.ok .deleted)⟩ = calls
  have hcreating : calls.filterMap creating = x.calls.filterMap creating :=
    hcalls ▸ filterMap_set_eq hi rfl
  have hremoving : calls.filterMap removing = x.calls.filterMap removing :=
    hcalls ▸ filterMap_set_eq hi rfl
  have hdropping : (x.calls.filterMap dropping).Perm (records :: calls.filterMap dropping) :=
    hcalls ▸ perm_cons_filterMap_set hi rfl rfl
  obtain ⟨hpushing, hindexing⟩ : calls.filterMap MemoryState.pushing =
      x.calls.filterMap MemoryState.pushing ∧ calls.filterMap MemoryState.indexing =
      x.calls.filterMap MemoryState.indexing := hcalls ▸ appends_set hi rfl rfl
  constructor
  · dsimp only
    rw [hcreating]
    exact h.kept
  · dsimp only
    rw [hremoving]
    exact h.stored
  · dsimp only
    rw [hremoving, hpushing]
    exact h.pushing
  · dsimp only
    rw [hindexing]
    exact h.indexing
  · intro messageId sessionId hindex
    dsimp only at hindex ⊢
    have hmem : messageId ∉ records.map MessageRecord.id := by
      intro hmem
      rw [MemorySessionStore.unindex_of_mem hmem] at hindex
      cases hindex
    rw [MemorySessionStore.unindex_of_notMem hmem] at hindex
    rcases h.indexed messageId sessionId hindex with hpresent | ⟨other, hother, hid⟩
    · exact .inl hpresent
    · rcases List.mem_cons.mp (hdropping.mem_iff.mp hother) with rfl | hother
      · exact absurd hid hmem
      · exact .inr ⟨other, hother, hid⟩

/-- A call that enters stands nowhere yet. -/
theorem Tracked.enter (h : Tracked x) (op : SessionOp) :
    Tracked ⟨x.calls ++ [start op], x.state⟩ := by
  have hparts : ∀ {β : Type} (part : SessionCall → Option β), part (start op) = none →
      (x.calls ++ [start op]).filterMap part = x.calls.filterMap part := by
    intro β part hnone
    rw [List.filterMap_append, List.filterMap_cons_none hnone, List.filterMap_nil, List.append_nil]
  have hcreating := hparts creating (by cases op <;> rfl)
  have hremoving := hparts removing (by cases op <;> rfl)
  have hdropping := hparts dropping (by cases op <;> rfl)
  have hpushing := hparts MemoryState.pushing (by cases op <;> rfl)
  have hindexing := hparts MemoryState.indexing (by cases op <;> rfl)
  constructor
  · dsimp only
    rw [hcreating]
    exact h.kept
  · dsimp only
    rw [hremoving]
    exact h.stored
  · dsimp only
    rw [hremoving, hpushing]
    exact h.pushing
  · dsimp only
    rw [hindexing]
    exact h.indexing
  · dsimp only
    rw [hdropping]
    exact h.indexed

variable {c' : SessionCall} {s' : Guarded} {phase : SectionPhase}

theorem Tracked.createSession (h : Tracked x) {id : Uuid}
    (hi : x.calls[i]? = some ⟨.createSession id, phase⟩) (ht : careful x (.advance i) = true)
    (hmove : move ⟨.createSession id, phase⟩ x.state = some (c', s')) :
    Tracked ⟨x.calls.set i c', s'⟩ := by
  cases phase with
  | starting =>
    simp only [move] at hmove
    split at hmove
    · cases hmove
    · next hfree =>
      cases hmove
      exact h.insert hi (Bool.eq_false_iff.mpr hfree)
  | inserted =>
    simp only [move] at hmove
    split at hmove
    · cases hmove
    · cases hmove
      simp only [careful, hi, removing, creating, Bool.and_eq_true, List.all_eq_true,
        bne_iff_ne] at ht
      exact h.replace hi ht.1 ht.2
  | _ => cases hmove

theorem Tracked.deleteSession (h : Tracked x) {id : Uuid}
    (hi : x.calls[i]? = some ⟨.deleteSession id, phase⟩) (ht : careful x (.advance i) = true)
    (hmove : move ⟨.deleteSession id, phase⟩ x.state = some (c', s')) :
    Tracked ⟨x.calls.set i c', s'⟩ := by
  cases phase with
  | starting =>
    simp only [move] at hmove
    split at hmove
    · cases hmove
    · next hfree =>
      cases hmove
      exact h.remove hi (Bool.eq_false_iff.mpr hfree)
  | removed =>
    simp only [careful, hi, removing, Bool.and_eq_true, Bool.or_eq_true, decide_eq_true_eq,
      Bool.not_eq_true', List.contains_eq_mem, decide_eq_false_iff_not] at ht
    simp only [move] at hmove
    split at hmove
    · cases hmove
    · split at hmove
      · next records hrecords =>
        cases hmove
        apply h.drop hi ht.1 ht.2 _ rfl
        intro records' hrecords'
        rw [hrecords] at hrecords'
        cases hrecords'
        rfl
      · next hnone =>
        cases hmove
        have hdrop := h.drop hi ht.1 ht.2 (.ended (.ok .deleted)) rfl
          (fun records hrecords => by rw [hnone] at hrecords; cases hrecords) x.state.messagesKept
        have hsame : { x.state.putMessages id none with messagesKept := x.state.messagesKept } =
            x.state := by
          show Guarded.mk ⟨_, Function.update x.state.store.messages id none, _⟩ _ _ = _
          rw [← hnone, Function.update_eq_self]
          rfl
        rwa [hsame] at hdrop
  | dropped records =>
    cases hmove
    exact h.clean hi
  | _ => cases hmove

theorem Tracked.appendMessage (h : Tracked x) {message : MessageRecord}
    (hi : x.calls[i]? = some ⟨.appendMessage message, phase⟩)
    (hmove : move ⟨.appendMessage message, phase⟩ x.state = some (c', s')) :
    Tracked ⟨x.calls.set i c', s'⟩ := by
  cases phase with
  | starting =>
    simp only [move] at hmove
    split at hmove
    · cases hmove
    · split at hmove
      · next hmem =>
        cases hmove
        refine h.same hi rfl rfl rfl ?_ rfl
        intro id hid
        cases hid
        exact hmem
      · cases hmove
        exact h.same hi rfl rfl rfl (by rintro _ ⟨⟩) rfl
  | checked =>
    simp only [move] at hmove
    split at hmove
    · cases hmove
    · cases hmove
      exact h.push hi
  | pushed =>
    cases hmove
    exact h.index hi
  | _ => cases hmove

theorem Tracked.listMessages (h : Tracked x) {sessionId : Uuid}
    (hi : x.calls[i]? = some ⟨.listMessages sessionId, phase⟩)
    (hmove : move ⟨.listMessages sessionId, phase⟩ x.state = some (c', s')) :
    Tracked ⟨x.calls.set i c', s'⟩ := by
  cases phase with
  | starting =>
    simp only [move] at hmove
    split at hmove
    · cases hmove
    · cases hmove
      exact h.same hi rfl rfl rfl (by rintro _ ⟨⟩) rfl
  | _ => cases hmove

theorem Tracked.updateUsage (h : Tracked x) {messageId : Uuid} {usage : TokenUsage}
    (hi : x.calls[i]? = some ⟨.updateUsage messageId usage, phase⟩)
    (hmove : move ⟨.updateUsage messageId usage, phase⟩ x.state = some (c', s')) :
    Tracked ⟨x.calls.set i c', s'⟩ := by
  cases phase with
  | starting =>
    simp only [move] at hmove
    split at hmove
    all_goals
      cases hmove
      exact h.same hi rfl rfl rfl (by rintro _ ⟨⟩) rfl
  | found sessionId =>
    simp only [move] at hmove
    split at hmove
    · cases hmove
    · split at hmove
      · next records hrecords =>
        cases hmove
        exact h.setUsage hi hrecords
      · cases hmove
        exact h.same hi rfl rfl rfl (by rintro _ ⟨⟩) rfl
  | _ => cases hmove

/-- A careful turn. -/
theorem Tracked.step {t : Crowd.Turn SessionOp} {y : SessionCrowd} (h : Tracked x)
    (ht : careful x t = true) (hstep : x.step start move t = some y) : Tracked y := by
  rcases Crowd.step_cases hstep with ⟨op, rfl, rfl⟩ | ⟨i, ⟨op, phase⟩, c', s', rfl, hi, hmove, rfl⟩
  · exact h.enter op
  · cases op with
    | createSession id => exact h.createSession hi ht hmove
    | deleteSession id => exact h.deleteSession hi ht hmove
    | appendMessage message => exact h.appendMessage hi hmove
    | listMessages sessionId => exact h.listMessages hi hmove
    | updateUsage messageId usage => exact h.updateUsage hi hmove

/-- **When all calls have returned, messages are kept for sessions that exist and the index is
right**, however their sections were interleaved, where every turn was careful: a session that is
not there lists no messages. -/
theorem sound_of_careful (x : SessionCrowd)
    (h : LeadsTo (Crowd.step start move) (fun x t => careful x t = true) idle x)
    (hrest : x.calls.all returned = true) :
    Sound x.state.store ∧
      ∀ id ∉ x.state.store.sessions, x.state.store.listMessages id = .ok [] := by
  have htracked : Tracked x :=
    h.invariant Tracked tracked_idle fun _ _ _ hx ht hstep => hx.step ht hstep
  have hsound := htracked.sound hrest
  refine ⟨hsound, fun id hid => ?_⟩
  have hnone : x.state.store.messages id = none := by
    rw [← Option.not_isSome_iff_eq_none]
    exact fun hsome => hid (hsound.stored id hsome)
  unfold MemoryState.listMessages
  rw [hnone]
  rfl

/-- A session with a message, which is being deleted while another message is appended. -/
def deletionBesideAppend : List (Crowd.Turn SessionOp) :=
  [.enter (.createSession 1), .advance 0, .advance 0,
    .enter (.appendMessage (.new 10 0 1 .user [])), .advance 1, .advance 1, .advance 1,
    .enter (.appendMessage (.new 11 0 1 .user [])), .enter (.deleteSession 1), .advance 2]

/-- The deletion waits for the append before it drops the messages. -/
theorem deletionBesideAppend_sound :
    ∃ x : SessionCrowd, x.calls.length = 4 ∧ x.calls.all returned = true ∧
      x.state.store.sessions = [] ∧ Sound x.state.store := by
  obtain ⟨x, hx, hlength, hrest, hsessions⟩ := exists_leadsTo (Crowd.step start move)
    (fun x t => careful x t = true) idle
    (deletionBesideAppend ++ [.advance 3, .advance 2, .advance 2, .advance 3, .advance 3])
    (fun x => x.calls.length = 4 ∧ x.calls.all returned = true ∧ x.state.store.sessions = [])
    (by decide +kernel)
  exact ⟨x, hlength, hrest, hsessions, (sound_of_careful x hx hrest).1⟩

/-- The deletion completes between the check and the push. -/
theorem deletionBesideAppend_unsound :
    ∃ x, LeadsTo (Crowd.step start move) (fun _ _ => True) idle x ∧
      x.calls.all returned = true ∧ 1 ∉ x.state.store.sessions ∧
      ((x.state.store.messages 1).getD []).map MessageRecord.id = [11] ∧
      ¬ Sound x.state.store := by
  obtain ⟨x, hx, hrest, hsessions, hmessages⟩ := exists_leadsTo (Crowd.step start move)
    (fun _ _ => True) idle
    (deletionBesideAppend ++ [.advance 3, .advance 3, .advance 3, .advance 2, .advance 2])
    (fun x => x.calls.all returned = true ∧ 1 ∉ x.state.store.sessions ∧
      ((x.state.store.messages 1).getD []).map MessageRecord.id = [11]) (by decide +kernel)
  refine ⟨x, hx, hrest, hsessions, hmessages, fun hsound => hsessions (hsound.stored 1 ?_)⟩
  cases hget : x.state.store.messages 1 with
  | none =>
    rw [hget] at hmessages
    cases hmessages
  | some records => rfl

end MemoryState

end Behest
