import Mathlib.Data.List.Perm.Basic
import Mathlib.Data.Set.List
import Behest.Store.Agreement
import Behest.Store.RedisCommands

/-!
# What the sorted set of a session holds

The sorted set of a session and the records that updates have in hand hold every message once;
what an append that adds its message, an update that removes its member and an update that adds
the new one do to them.
-/

namespace Behest

open Effect

namespace RedisState

variable {json : RedisJson}

theorem entry_injective : Function.Injective (entry json) :=
  fun _ _ h => render_injective (congrArg Prod.snd h)

/-- A record that is added to a set of others. -/
theorem exists_zadd (json : RedisJson) {records : List MessageRecord} {m : MessageRecord}
    (h : ∀ r ∈ records, r.id ≠ m.id) :
    ∃ records' : List MessageRecord, zadd (entry json m) (records.map (entry json)) =
      records'.map (entry json) ∧ records'.Perm (m :: records) := by
  have hperm : (zadd (entry json m) (records.map (entry json))).Perm
      ((m :: records).map (entry json)) := by
    unfold zadd
    rw [show (entry json m).2 = json.record.render m from rfl, filter_entries h]
    exact List.perm_orderedInsert _ _ _
  have hrange : zadd (entry json m) (records.map (entry json)) ∈
      Set.range (List.map (entry json)) := by
    rw [Set.range_list_map]
    intro e he
    obtain ⟨r, _, rfl⟩ := List.mem_map.mp (hperm.mem_iff.mp he)
    exact ⟨r, rfl⟩
  obtain ⟨records', hrecords⟩ := hrange
  refine ⟨records', hrecords.symm, ?_⟩
  rw [← hrecords] at hperm
  exact (List.map_perm_map_iff entry_injective).mp hperm

/-- What is found is a member that parses to the record. -/
theorem findRecord_some {messageId : Uuid} {zset : List json.Scored} {member : json.record.Text}
    {record : MessageRecord} (h : findRecord messageId zset = .ok (some (member, record))) :
    parse member = .ok record ∧ record.id = messageId := by
  induction zset with
  | nil => cases h
  | cons e rest ih =>
    unfold findRecord at h
    split at h
    · cases h
    · next found hparse =>
      split at h
      · next hid =>
        cases h
        exact ⟨hparse, hid⟩
      · exact ih h

theorem listMessages_entries {s : RedisState json} {sessionId : Uuid}
    {records : List MessageRecord} (h : s.messages sessionId = records.map (entry json)) :
    s.listMessages sessionId = .ok records := by
  unfold listMessages
  rw [h]
  clear h
  induction records with
  | nil => rfl
  | cons r rest ih =>
    rw [List.map_cons, List.mapM_cons, parse_entry, ih]
    rfl

namespace RedisCall

/-- The usage is that of an update that has completed, or that of the append when none has. -/
def Settled (calls : List (RedisCall json)) (r : MessageRecord) : Prop :=
  (∃ usage ∈ calls.filterMap (completed r.id), r.usage = some usage) ∨
    calls.filterMap (completed r.id) = [] ∧
      ∃ m ∈ calls.filterMap appends, m.id = r.id ∧ r.usage = m.usage

/-- The records in the set of a session and in the hands of updates: every message that has been
kept once. -/
structure Kept (sessionId : Uuid) (x : RedisCrowd json) (records : List MessageRecord) : Prop where
  texts : x.state.messages sessionId = records.map (entry json)
  distinct : ((records ++ x.calls.filterMap (away sessionId)).map MessageRecord.id).Nodup
  versions : ∀ r ∈ records ++ x.calls.filterMap (away sessionId),
    ∃ m ∈ x.calls.filterMap appends, m.sessionId = sessionId ∧ r = { m with usage := r.usage }
  fresh : ∀ m ∈ x.calls.filterMap adding, ∀ r ∈ records ++ x.calls.filterMap (away sessionId),
    r.id ≠ m.id
  kept : ∀ m ∈ x.calls.filterMap keeping, m.sessionId = sessionId →
    ∃ r ∈ records ++ x.calls.filterMap (away sessionId), r.id = m.id
  settled : ∀ r ∈ records, Settled x.calls r

/-- Appends have messages of their own, and updates the record they are about. -/
structure Owned (calls : List (RedisCall json)) : Prop where
  appends : ((calls.filterMap appends).map MessageRecord.id).Nodup
  fetched : ∀ c ∈ calls, ∀ sessionId member record, c.phase = .fetched sessionId member record →
    ∃ usage, c.request.op = .updateUsage record.id usage ∧ parse member = .ok record
  removed : ∀ c ∈ calls, ∀ sessionId record, c.phase = .removed sessionId record →
    ∃ usage, c.request.op = .updateUsage record.id usage
  updated : ∀ id, ∀ usage ∈ calls.filterMap (completed id),
    ∃ m ∈ calls.filterMap RedisCall.appends, m.id = id ∧ m ∉ calls.filterMap adding

/-- The invariant: every session is kept. -/
def Whole (x : RedisCrowd json) : Prop :=
  Owned x.calls ∧ ∀ sessionId, ∃ records, Kept sessionId x records

theorem whole_new (sessions : List Uuid) :
    Whole (⟨[], ⟨sessions, fun _ => [], fun _ => none⟩⟩ : RedisCrowd json) := by
  constructor
  · exact ⟨.nil, fun _ hc => absurd hc List.not_mem_nil, fun _ hc => absurd hc List.not_mem_nil,
      fun _ _ hu => absurd hu List.not_mem_nil⟩
  · intro sessionId
    refine ⟨[], rfl, .nil, ?_, ?_, ?_, ?_⟩
    all_goals exact fun _ h => absurd h List.not_mem_nil

variable {sessionId : Uuid} {x : RedisCrowd json} {records : List MessageRecord} {i : Nat}
  {c c' : RedisCall json} {s' : RedisState json}

/-- A step that leaves the set of the session and the hands of its updates alone. -/
theorem Kept.quiet (h : Kept sessionId x records) (hi : x.calls[i]? = some c)
    (hmessages : s'.messages sessionId = x.state.messages sessionId)
    (happends : appends c' = appends c) (haway : away sessionId c' = away sessionId c)
    (hcompleted : ∀ r ∈ records, completed r.id c' = completed r.id c)
    (hadding : ∀ m, adding c' = some m → adding c = some m)
    (hkeeping : ∀ m, keeping c' = some m → m.sessionId = sessionId → keeping c = some m) :
    Kept sessionId ⟨x.calls.set i c', s'⟩ records := by
  have hc := List.mem_of_getElem? hi
  have haways : (x.calls.set i c').filterMap (away sessionId) =
      x.calls.filterMap (away sessionId) := filterMap_set_eq hi haway
  have happendss : (x.calls.set i c').filterMap appends = x.calls.filterMap appends :=
    filterMap_set_eq hi happends
  constructor
  · exact hmessages.trans h.texts
  · dsimp only
    rw [haways]
    exact h.distinct
  · dsimp only
    rw [haways, happendss]
    exact h.versions
  · dsimp only
    rw [haways]
    intro m hm
    rcases mem_filterMap_set hm with hself | hm
    · exact h.fresh m (List.mem_filterMap.mpr ⟨c, hc, hadding m hself⟩)
    · exact h.fresh m hm
  · dsimp only
    rw [haways]
    intro m hm hsession
    rcases mem_filterMap_set hm with hself | hm
    · exact h.kept m (List.mem_filterMap.mpr ⟨c, hc, hkeeping m hself hsession⟩) hsession
    · exact h.kept m hm hsession
  · intro r hr
    unfold Settled
    dsimp only
    rw [filterMap_set_eq hi (hcompleted r hr), happendss]
    exact h.settled r hr

@[simp] theorem putMessages_self (s : RedisState json) (sessionId : Uuid)
    (zset : List json.Scored) : (s.putMessages sessionId zset).messages sessionId = zset :=
  Function.update_self _ _ _

theorem putMessages_of_ne (s : RedisState json) {sessionId other : Uuid} (h : sessionId ≠ other)
    (zset : List json.Scored) :
    (s.putMessages other zset).messages sessionId = s.messages sessionId :=
  Function.update_of_ne h _ _

theorem appends_of_adding {m : MessageRecord} (h : adding c = some m) : appends c = some m := by
  unfold adding at h
  unfold appends
  split at h
  · next hop _ => rwa [hop]
  · next hop _ => rwa [hop]
  · cases h

/-- An append that adds its message. -/
theorem Kept.add (h : Kept sessionId x records) {message : MessageRecord}
    {breaks : Option (Nat × String)}
    (hi : x.calls[i]? = some ⟨⟨.appendMessage message, breaks⟩, .verified⟩)
    (howned : Owned x.calls) (hsession : message.sessionId = sessionId) :
    ∃ records', Kept sessionId ⟨x.calls.set i ⟨⟨.appendMessage message, breaks⟩, .added⟩,
      x.state.putMessages message.sessionId
        (zadd (entry json message) (x.state.messages message.sessionId))⟩ records' := by
  subst hsession
  have hc := List.mem_of_getElem? hi
  have hfresh := h.fresh message (List.mem_filterMap.mpr ⟨_, hc, rfl⟩)
  obtain ⟨records', hzadd, hperm⟩ := exists_zadd json (m := message) fun r hr =>
    hfresh r (List.mem_append_left _ hr)
  generalize hcalls : x.calls.set i ⟨⟨.appendMessage message, breaks⟩, .added⟩ = calls
  have happends : calls.filterMap appends = x.calls.filterMap appends :=
    hcalls ▸ filterMap_set_eq hi rfl
  have haway : calls.filterMap (away message.sessionId) =
      x.calls.filterMap (away message.sessionId) := hcalls ▸ filterMap_set_eq hi rfl
  have hadding : (x.calls.filterMap adding).Perm (message :: calls.filterMap adding) :=
    hcalls ▸ perm_cons_filterMap_set hi rfl rfl
  have hkeeping : (calls.filterMap keeping).Perm (message :: x.calls.filterMap keeping) :=
    hcalls ▸ filterMap_set_perm_cons hi rfl rfl
  have hcompleted : ∀ id, calls.filterMap (completed id) = x.calls.filterMap (completed id) :=
    fun id => hcalls ▸ filterMap_set_eq hi rfl
  have hmem : message ∈ x.calls.filterMap appends := List.mem_filterMap.mpr ⟨_, hc, rfl⟩
  have hall : (records' ++ x.calls.filterMap (away message.sessionId)).Perm
      (message :: (records ++ x.calls.filterMap (away message.sessionId))) :=
    hperm.append_right _
  have hids : ((x.calls.filterMap adding).map MessageRecord.id).Nodup :=
    howned.appends.sublist ((filterMap_sublist (fun _ _ => appends_of_adding) x.calls).map _)
  rw [(hadding.map _).nodup_iff, List.map_cons, List.nodup_cons] at hids
  refine ⟨records', ?_, ?_, ?_, ?_, ?_, ?_⟩
  · rw [putMessages_self, h.texts, hzadd]
  · dsimp only
    rw [haway, (hall.map _).nodup_iff, List.map_cons, List.nodup_cons]
    refine ⟨fun hin => ?_, h.distinct⟩
    obtain ⟨r, hr, hid⟩ := List.mem_map.mp hin
    exact hfresh r hr hid
  · intro r hr
    dsimp only at hr ⊢
    rw [haway] at hr
    rw [happends]
    rcases List.mem_cons.mp (hall.mem_iff.mp hr) with rfl | hr
    · exact ⟨r, hmem, rfl, rfl⟩
    · exact h.versions r hr
  · intro m hm r hr
    dsimp only at hm hr
    rw [haway] at hr
    rcases List.mem_cons.mp (hall.mem_iff.mp hr) with rfl | hr
    · intro hid
      exact hids.1 (List.mem_map.mpr ⟨m, hm, hid.symm⟩)
    · exact h.fresh m (hadding.mem_iff.mpr (List.mem_cons_of_mem _ hm)) r hr
  · intro m hm hsession
    dsimp only at hm ⊢
    rw [haway]
    rcases List.mem_cons.mp (hkeeping.mem_iff.mp hm) with rfl | hm
    · exact ⟨m, hall.mem_iff.mpr List.mem_cons_self, rfl⟩
    · obtain ⟨r, hr, hid⟩ := h.kept m hm hsession
      exact ⟨r, hall.mem_iff.mpr (List.mem_cons_of_mem _ hr), hid⟩
  · intro r hr
    unfold Settled
    dsimp only
    rw [hcompleted, happends]
    rcases List.mem_cons.mp (hperm.mem_iff.mp hr) with rfl | hr
    · refine .inr ⟨?_, r, hmem, rfl, rfl⟩
      rw [List.eq_nil_iff_forall_not_mem]
      intro usage husage
      obtain ⟨m, hm, hid, hadded⟩ := howned.updated r.id usage husage
      have heq : m = r := List.inj_on_of_nodup_map howned.appends hm hmem hid
      exact hadded (heq ▸ List.mem_filterMap.mpr ⟨_, hc, rfl⟩)
    · exact h.settled r hr

/-- An update that removes its member. -/
theorem Kept.remove (h : Kept sessionId x records) {record : MessageRecord} {usage : TokenUsage}
    {breaks : Option (Nat × String)} {member : json.record.Text}
    (hi : x.calls[i]? = some
      ⟨⟨.updateUsage record.id usage, breaks⟩, .fetched sessionId member record⟩)
    (hparse : parse member = .ok record)
    (hmember : ∃ e ∈ x.state.messages sessionId, e.2 = member) :
    ∃ records', Kept sessionId
      ⟨x.calls.set i ⟨⟨.updateUsage record.id usage, breaks⟩, .removed sessionId record⟩,
        x.state.putMessages sessionId (zrem member (x.state.messages sessionId))⟩ records' := by
  have hrecord : record ∈ records ∧ member = json.record.render record := by
    obtain ⟨e, he, rfl⟩ := hmember
    rw [h.texts] at he
    obtain ⟨r, hr, rfl⟩ := List.mem_map.mp he
    rw [parse_entry] at hparse
    cases hparse
    exact ⟨hr, rfl⟩
  obtain ⟨as, bs, rfl⟩ := List.append_of_mem hrecord.1
  generalize hcalls : x.calls.set i
    ⟨⟨.updateUsage record.id usage, breaks⟩, .removed sessionId record⟩ = calls
  have happends : calls.filterMap appends = x.calls.filterMap appends :=
    hcalls ▸ filterMap_set_eq hi rfl
  have haway : (calls.filterMap (away sessionId)).Perm
      ({ record with usage := some usage } :: x.calls.filterMap (away sessionId)) :=
    hcalls ▸ filterMap_set_perm_cons hi rfl (if_pos rfl)
  have hadding : calls.filterMap adding = x.calls.filterMap adding :=
    hcalls ▸ filterMap_set_eq hi rfl
  have hkeeping : calls.filterMap keeping = x.calls.filterMap keeping :=
    hcalls ▸ filterMap_set_eq hi rfl
  have hcompleted : ∀ id, calls.filterMap (completed id) = x.calls.filterMap (completed id) :=
    fun id => hcalls ▸ filterMap_set_eq hi rfl
  -- the record has only changed hands, and its usage
  have hall : ((as ++ bs) ++ calls.filterMap (away sessionId)).Perm
      ({ record with usage := some usage } :: ((as ++ bs) ++ x.calls.filterMap (away sessionId))) :=
    (haway.append_left _).trans List.perm_middle
  have hold : ((as ++ record :: bs) ++ x.calls.filterMap (away sessionId)).Perm
      (record :: ((as ++ bs) ++ x.calls.filterMap (away sessionId))) :=
    List.perm_middle.append_right _
  have hids := (hold.map MessageRecord.id).nodup_iff.mp h.distinct
  rw [List.map_cons, List.nodup_cons] at hids
  have hothers : ∀ r ∈ as ++ bs, r.id ≠ record.id := fun r hr hid =>
    hids.1 (List.mem_map.mpr ⟨r, List.mem_append_left _ hr, hid⟩)
  refine ⟨as ++ bs, ?_, ?_, ?_, ?_, ?_, ?_⟩
  · rw [putMessages_self, h.texts, hrecord.2]
    exact zrem_entries (fun r hr => hothers r (List.mem_append_left _ hr)) fun r hr =>
      hothers r (List.mem_append_right _ hr)
  · dsimp only
    rw [(hall.map _).nodup_iff]
    exact (hold.map _).nodup_iff.mp h.distinct
  · intro r hr
    dsimp only at hr ⊢
    rw [happends]
    rcases List.mem_cons.mp (hall.mem_iff.mp hr) with rfl | hr
    · obtain ⟨m, hm, hsession, heq⟩ := h.versions record (hold.mem_iff.mpr List.mem_cons_self)
      refine ⟨m, hm, hsession, ?_⟩
      rw [heq]
    · exact h.versions r (hold.mem_iff.mpr (List.mem_cons_of_mem _ hr))
  · intro m hm r hr
    dsimp only at hm hr
    rw [hadding] at hm
    rcases List.mem_cons.mp (hall.mem_iff.mp hr) with rfl | hr
    · exact h.fresh m hm record (hold.mem_iff.mpr List.mem_cons_self)
    · exact h.fresh m hm r (hold.mem_iff.mpr (List.mem_cons_of_mem _ hr))
  · intro m hm hsession
    dsimp only at hm ⊢
    rw [hkeeping] at hm
    obtain ⟨r, hr, hid⟩ := h.kept m hm hsession
    rcases List.mem_cons.mp (hold.mem_iff.mp hr) with rfl | hr
    · exact ⟨_, hall.mem_iff.mpr List.mem_cons_self, hid⟩
    · exact ⟨r, hall.mem_iff.mpr (List.mem_cons_of_mem _ hr), hid⟩
  · intro r hr
    unfold Settled
    dsimp only
    rw [hcompleted, happends]
    apply h.settled r
    rcases List.mem_append.mp hr with hr | hr
    · exact List.mem_append_left _ hr
    · exact List.mem_append_right _ (List.mem_cons_of_mem _ hr)

/-- An update that adds its new member. -/
theorem Kept.restore (h : Kept sessionId x records) {record : MessageRecord} {usage : TokenUsage}
    {breaks : Option (Nat × String)}
    (hi : x.calls[i]? = some ⟨⟨.updateUsage record.id usage, breaks⟩, .removed sessionId record⟩) :
    ∃ records', Kept sessionId
      ⟨x.calls.set i ⟨⟨.updateUsage record.id usage, breaks⟩, .ended (.ok none)⟩,
        x.state.putMessages sessionId (zadd (entry json { record with usage := some usage })
          (x.state.messages sessionId))⟩ records' := by
  have hself : usage ∈ (x.calls.set i
      ⟨⟨.updateUsage record.id usage, breaks⟩, .ended (.ok none)⟩).filterMap
        (completed record.id) := mem_filterMap_set_self hi (if_pos rfl)
  generalize hcalls : x.calls.set i
    ⟨⟨.updateUsage record.id usage, breaks⟩, .ended (.ok none)⟩ = calls at *
  generalize hnew : { record with usage := some usage } = new
  have hid : new.id = record.id := by rw [← hnew]
  have happends : calls.filterMap appends = x.calls.filterMap appends :=
    hcalls ▸ filterMap_set_eq hi rfl
  have haway : (x.calls.filterMap (away sessionId)).Perm
      (new :: calls.filterMap (away sessionId)) := by
    rw [← hcalls, ← hnew]
    exact perm_cons_filterMap_set hi (if_pos rfl) rfl
  have hadding : calls.filterMap adding = x.calls.filterMap adding :=
    hcalls ▸ filterMap_set_eq hi rfl
  have hkeeping : calls.filterMap keeping = x.calls.filterMap keeping :=
    hcalls ▸ filterMap_set_eq hi rfl
  have hcompleted : ∀ id ≠ record.id,
      calls.filterMap (completed id) = x.calls.filterMap (completed id) :=
    fun id hne => hcalls ▸ filterMap_set_eq hi (if_neg hne.symm)
  have hold : (records ++ x.calls.filterMap (away sessionId)).Perm
      (new :: (records ++ calls.filterMap (away sessionId))) :=
    (haway.append_left _).trans List.perm_middle
  have hids := (hold.map MessageRecord.id).nodup_iff.mp h.distinct
  rw [List.map_cons, List.nodup_cons] at hids
  have hothers : ∀ r ∈ records, r.id ≠ new.id := fun r hr heq =>
    hids.1 (List.mem_map.mpr ⟨r, List.mem_append_left _ hr, heq⟩)
  obtain ⟨records', hzadd, hperm⟩ := exists_zadd json hothers
  have hall : (records' ++ calls.filterMap (away sessionId)).Perm
      (records ++ x.calls.filterMap (away sessionId)) :=
    (hperm.append_right _).trans hold.symm
  refine ⟨records', ?_, ?_, ?_, ?_, ?_, ?_⟩
  · rw [putMessages_self, h.texts, hzadd]
  · exact (hall.map _).nodup_iff.mpr h.distinct
  · intro r hr
    dsimp only at hr ⊢
    rw [happends]
    exact h.versions r (hall.mem_iff.mp hr)
  · intro m hm r hr
    dsimp only at hm hr
    rw [hadding] at hm
    exact h.fresh m hm r (hall.mem_iff.mp hr)
  · intro m hm hsession
    dsimp only at hm ⊢
    rw [hkeeping] at hm
    obtain ⟨r, hr, heq⟩ := h.kept m hm hsession
    exact ⟨r, hall.mem_iff.mpr hr, heq⟩
  · intro r hr
    unfold Settled
    dsimp only
    rcases List.mem_cons.mp (hperm.mem_iff.mp hr) with rfl | hr
    · left
      rw [hid]
      exact ⟨usage, hself, by rw [← hnew]⟩
    · rw [hcompleted r.id (hid ▸ hothers r hr), happends]
      exact h.settled r hr

end RedisCall

end RedisState

end Behest
