import Mathlib.Data.List.Pairwise
import Behest.Store.Backends

/-!
# The backends and the log

Under calls that the log admits, every backend represents the log: it answers every call as
the log does and lists the records in the order they were appended. What a listed record
reads back as is decided by the columns: SQL and MongoDB have none for the call and the name
of a tool message.
-/

namespace Behest

/-! ### Orderly calls -/

namespace MessageLog

/-- No session is created twice, no identifier is used twice, and a record comes after those
its session already holds. -/
def Orderly (before : MessageRecord → MessageRecord → Prop) (l : MessageLog) : StoreCall → Prop
  | .createSession id => id ∉ l.sessions
  | .appendMessage r =>
      ∀ r' ∈ l.records, r'.id ≠ r.id ∧ (r'.sessionId = r.sessionId → before r' r)
  | .updateUsage _ _ => True

/-- What orderly calls keep. -/
structure Kept (before : MessageRecord → MessageRecord → Prop) (l : MessageLog) : Prop where
  ordered : l.records.Pairwise fun r' r =>
    r'.id ≠ r.id ∧ (r'.sessionId = r.sessionId → before r' r)
  found : ∀ r ∈ l.records, r.sessionId ∈ l.sessions

variable {before : MessageRecord → MessageRecord → Prop} {l l' : MessageLog}

theorem kept_new : Kept before ⟨[], []⟩ := ⟨.nil, by simp⟩

theorem Kept.createSession (h : l.Kept before) (id : Uuid) :
    Kept before { l with sessions := id :: l.sessions } :=
  ⟨h.ordered, fun r hr => List.mem_cons_of_mem id (h.found r hr)⟩

theorem Kept.appendMessage (h : l.Kept before) {r : MessageRecord} (hr : r.sessionId ∈ l.sessions)
    (horderly : l.Orderly before (.appendMessage r)) :
    Kept before { l with records := l.records ++ [r] } where
  ordered := by
    rw [List.pairwise_append]
    refine ⟨h.ordered, List.pairwise_singleton _ _, ?_⟩
    intro r' hr' r'' hr''
    obtain rfl := List.mem_singleton.mp hr''
    exact horderly r' hr'
  found := by
    intro r' hr'
    rcases List.mem_append.mp hr' with hr' | hr'
    · exact h.found r' hr'
    · obtain rfl := List.mem_singleton.mp hr'
      exact hr

/-- The order of two records does not depend on their usage. -/
def UsageFree (before : MessageRecord → MessageRecord → Prop) : Prop :=
  ∀ r' r u v, before r' r → before { r' with usage := u } { r with usage := v }

theorem Kept.updateUsage (h : l.Kept before) (hfree : UsageFree before) (messageId : Uuid)
    (usage : TokenUsage) :
    Kept before { l with records := l.records.map (MessageRecord.withUsage messageId usage) } where
  ordered := by
    rw [List.pairwise_map]
    apply h.ordered.imp
    intro r' r ⟨hid, hbefore⟩
    simp only [MessageRecord.withUsage_id, MessageRecord.withUsage_sessionId]
    refine ⟨hid, fun hsession => ?_⟩
    obtain ⟨u, hu⟩ := r'.withUsage_eq messageId usage
    obtain ⟨v, hv⟩ := r.withUsage_eq messageId usage
    rw [hu, hv]
    exact hfree r' r u v (hbefore hsession)
  found := by
    intro r hr
    obtain ⟨r', hr', rfl⟩ := List.mem_map.mp hr
    rw [MessageRecord.withUsage_sessionId]
    exact h.found r' hr'

/-- The records of a session come one after the other. -/
theorem Kept.messages (h : l.Kept before) (sessionId : Uuid) :
    (l.messages sessionId).Pairwise before := by
  unfold MessageLog.messages
  apply (h.ordered.filter _).imp_of_mem
  intro r' r hr' hr hbefore
  have hr'id := (List.mem_filter.mp hr').2
  have hrid := (List.mem_filter.mp hr).2
  exact hbefore.2 ((beq_iff_eq.mp hr'id).trans (beq_iff_eq.mp hrid).symm)

/-- A record found by its identifier is the only one that has it. -/
theorem Kept.eq_of_id (h : l.Kept before) {r r' : MessageRecord} (hr : r ∈ l.records)
    (hr' : r' ∈ l.records) (hid : r.id = r'.id) : r = r' := by
  by_contra hne
  have hsym : Std.Symm fun r' r : MessageRecord => r'.id ≠ r.id := ⟨fun _ _ h => h.symm⟩
  have hdistinct : l.records.Pairwise fun r' r => r'.id ≠ r.id := h.ordered.imp fun h => h.1
  exact hdistinct.forall hr hr' hne hid

end MessageLog

/-! ### Tables -/

/-- Rows that stand one strictly before the other are returned as they are. -/
theorem OrderBy.sort_eq {ρ τ : Type} {column : ρ → τ} (order : OrderBy column) {rows : List ρ}
    (h : rows.Pairwise fun a b =>
      order.le (column a) (column b) ∧ ¬ order.le (column b) (column a)) :
    order.sort rows = rows := by
  apply List.Perm.eq_of_pairwise _ (order.sorted rows) (h.imp fun h => h.1) (order.perm rows)
  intro a b ha hb hab hba
  by_contra hne
  have hsym : Std.Symm fun a b : ρ =>
      ¬ (order.le (column a) (column b) ∧ order.le (column b) (column a)) :=
    ⟨fun _ _ h h' => h h'.symm⟩
  have hstrict : rows.Pairwise fun a b =>
      ¬ (order.le (column a) (column b) ∧ order.le (column b) (column a)) :=
    h.imp fun h h' => h.2 h'.2
  exact hstrict.forall ((order.perm rows).subset ha) hb hne ⟨hab, hba⟩

namespace Table

variable {t : Table} {forget : MessageRecord → MessageRecord}

/-- The rows keep the identifiers and the usage of the records, and read back as `forget`
says. -/
structure Faithful (t : Table) (forget : MessageRecord → MessageRecord) : Prop where
  id_encode (m : MessageRecord) : t.id (t.encode m) = m.id
  sessionId_encode (m : MessageRecord) : t.sessionId (t.encode m) = m.sessionId
  decode_encode (m : MessageRecord) : t.decode (t.encode m) = .ok (forget m)
  setUsage_encode (usage : TokenUsage) (m : MessageRecord) :
    t.setUsage usage (t.encode m) = t.encode { m with usage := some usage }
  createdAt_encode (usage : Option TokenUsage) (m : MessageRecord) :
    t.createdAt (t.encode { m with usage := usage }) = t.createdAt (t.encode m)

/-- The table orders one record strictly before the other. -/
def Before (t : Table) (r' r : MessageRecord) : Prop :=
  t.order.le (t.createdAt (t.encode r')) (t.createdAt (t.encode r)) ∧
    ¬ t.order.le (t.createdAt (t.encode r)) (t.createdAt (t.encode r'))

theorem Faithful.usageFree (h : t.Faithful forget) : MessageLog.UsageFree t.Before := by
  intro r' r u v hbefore
  simpa only [Before, h.createdAt_encode] using hbefore

/-- The table holds the rows of the records of the log. -/
structure Represents (t : Table) (s : TableState t) (l : MessageLog) : Prop where
  kept : l.Kept t.Before
  sessions : s.sessions = l.sessions
  rows : s.rows = l.records.map t.encode

theorem Faithful.any_rows (h : t.Faithful forget) (records : List MessageRecord) (id : Uuid) :
    (records.map t.encode).any (fun row => t.id row == id) = records.any (fun r => r.id == id) := by
  simp [List.any_map, Function.comp_def, h.id_encode]

theorem Faithful.map_rows (h : t.Faithful forget) (records : List MessageRecord) (id : Uuid)
    (usage : TokenUsage) :
    (records.map t.encode).map (t.withUsage id usage) =
      (records.map (MessageRecord.withUsage id usage)).map t.encode := by
  rw [List.map_map, List.map_map]
  apply List.map_congr_left
  intro r _
  simp only [Function.comp_apply, withUsage, MessageRecord.withUsage, h.id_encode]
  split
  · exact h.setUsage_encode usage r
  · rfl

/-- A table answers a call as the log does, and goes on representing it. -/
theorem Faithful.step (h : t.Faithful forget) (s : TableState t) (l : MessageLog) (c : StoreCall)
    (hs : t.Represents s l) (hc : l.Orderly t.Before c) :
    SessionStore.Matches t.store MessageLog.store t.Represents s l c := by
  obtain ⟨sessions, rows⟩ := s
  obtain ⟨hkept, rfl, rfl⟩ := hs
  cases c with
  | createSession id =>
    have hnew : id ∉ l.sessions := hc
    exact .inl ⟨_, _, if_neg hnew, rfl, hkept.createSession id, rfl, rfl⟩
  | appendMessage r =>
    by_cases hr : r.sessionId ∈ l.sessions
    · have hfresh : (l.records.map t.encode).any (fun row => t.id row == r.id) ≠ true := by
        rw [h.any_rows]
        intro hany
        obtain ⟨r', hr', hid⟩ := List.any_eq_true.mp hany
        exact (hc r' hr').1 (beq_iff_eq.mp hid)
      apply Or.inl
      refine ⟨⟨l.sessions, l.records.map t.encode ++ [t.encode r]⟩, _, ?_, if_pos hr,
        hkept.appendMessage hr hc, rfl, ?_⟩
      · exact (if_pos hr).trans (if_neg hfresh)
      · simp
    · exact .inr ⟨_, if_neg hr, if_neg hr⟩
  | updateUsage messageId usage =>
    have hany := h.any_rows l.records messageId
    by_cases hfound : l.records.any (fun r => r.id == messageId) = true
    · apply Or.inl
      refine ⟨⟨l.sessions, (l.records.map t.encode).map (t.withUsage messageId usage)⟩, _,
        if_pos (hany.trans hfound), if_pos hfound, hkept.updateUsage h.usageFree messageId usage,
        rfl, ?_⟩
      exact h.map_rows l.records messageId usage
    · exact .inr ⟨_, if_neg (hany ▸ hfound), if_neg hfound⟩

/-- A table lists the records of a session in the order of the log. -/
theorem Faithful.listMessages (h : t.Faithful forget) {s : TableState t} {l : MessageLog}
    (hs : t.Represents s l) (sessionId : Uuid) :
    t.listMessages s sessionId = .ok ((l.messages sessionId).map forget) := by
  have hrows : s.rows.filter (fun row => t.sessionId row == sessionId) =
      (l.messages sessionId).map t.encode := by
    rw [hs.rows, List.filter_map]
    simp [MessageLog.messages, Function.comp_def, h.sessionId_encode]
  have hordered : ((l.messages sessionId).map t.encode).Pairwise fun a b =>
      t.order.le (t.createdAt a) (t.createdAt b) ∧
        ¬ t.order.le (t.createdAt b) (t.createdAt a) := by
    rw [List.pairwise_map]
    exact hs.kept.messages sessionId
  unfold Table.listMessages
  rw [hrows, t.order.sort_eq hordered]
  generalize l.messages sessionId = records
  induction records with
  | nil => rfl
  | cons r rest ih =>
    rw [List.map_cons, List.mapM_cons, h.decode_encode, ih]
    rfl

end Table

/-! ### Stores with an index of identifiers -/

/-- Records that are not named stay as they are. -/
theorem MessageRecord.map_withUsage {records : List MessageRecord} {messageId : Uuid}
    (usage : TokenUsage) (h : ∀ r ∈ records, r.id ≠ messageId) :
    records.map (withUsage messageId usage) = records := by
  have hsame : records.map (withUsage messageId usage) = records.map fun r => r :=
    List.map_congr_left fun r hr => if_neg (h r hr)
  rw [hsame, List.map_id']

namespace MessageLog

variable {before : MessageRecord → MessageRecord → Prop} {l : MessageLog}

/-- A new session has no records. -/
theorem Kept.messages_new (h : l.Kept before) {id : Uuid} (hid : id ∉ l.sessions) :
    l.messages id = [] := by
  unfold MessageLog.messages
  rw [List.filter_eq_nil_iff]
  intro r hr hsession
  exact hid (beq_iff_eq.mp hsession ▸ h.found r hr)

theorem messages_append (l : MessageLog) (r : MessageRecord) (id : Uuid) :
    MessageLog.messages { l with records := l.records ++ [r] } id =
      if id = r.sessionId then l.messages id ++ [r] else l.messages id := by
  unfold MessageLog.messages
  rw [List.filter_append]
  by_cases hid : id = r.sessionId
  · simp [hid]
  · have hne : r.sessionId ≠ id := fun h => hid h.symm
    simp [hid, hne]

theorem messages_updateUsage (l : MessageLog) (messageId : Uuid) (usage : TokenUsage) (id : Uuid) :
    MessageLog.messages
      { l with records := l.records.map (MessageRecord.withUsage messageId usage) } id =
      (l.messages id).map (MessageRecord.withUsage messageId usage) := by
  unfold MessageLog.messages
  rw [List.filter_map]
  simp [Function.comp_def]

/-- The record with the identifier. -/
def lookup (l : MessageLog) (id : Uuid) : Option MessageRecord :=
  l.records.find? fun r => r.id == id

/-- The index names the session of every record. -/
def Indexed (l : MessageLog) (index : Uuid → Option Uuid) : Prop :=
  ∀ id, index id = (l.lookup id).map MessageRecord.sessionId

theorem lookup_eq_none {id : Uuid} :
    l.lookup id = none ↔ l.records.any (fun r => r.id == id) ≠ true := by
  simp [lookup]

theorem lookup_eq_some {id : Uuid} {r : MessageRecord} (h : l.lookup id = some r) :
    r ∈ l.records ∧ r.id = id :=
  ⟨List.mem_of_find?_eq_some h, by simpa using List.find?_some h⟩

theorem Indexed.append {index : Uuid → Option Uuid} (h : l.Indexed index) {r : MessageRecord}
    (hr : ∀ r' ∈ l.records, r'.id ≠ r.id) :
    Indexed { l with records := l.records ++ [r] }
      (Function.update index r.id (some r.sessionId)) := by
  intro id
  by_cases hid : id = r.id
  · have hnone : l.records.find? (fun r' => r'.id == r.id) = none := by
      rw [List.find?_eq_none]
      exact fun r' hr' hid' => hr r' hr' (beq_iff_eq.mp hid')
    rw [hid, Function.update_self, lookup, List.find?_append, hnone]
    simp
  · have hne : r.id ≠ id := fun h => hid h.symm
    rw [Function.update_of_ne hid, h id, lookup, lookup, List.find?_append]
    simp [hne]

theorem Indexed.of_none {index : Uuid → Option Uuid} (h : l.Indexed index) {messageId : Uuid}
    (hlookup : l.lookup messageId = none) : index messageId = none := by
  rw [h messageId, hlookup]
  rfl

theorem Indexed.of_some {index : Uuid → Option Uuid} (h : l.Indexed index) {messageId : Uuid}
    {r : MessageRecord} (hlookup : l.lookup messageId = some r) :
    index messageId = some r.sessionId := by
  rw [h messageId, hlookup]
  rfl

theorem Indexed.updateUsage {index : Uuid → Option Uuid} (h : l.Indexed index) (messageId : Uuid)
    (usage : TokenUsage) :
    Indexed
      { l with records := l.records.map (MessageRecord.withUsage messageId usage) } index := by
  intro id
  rw [h id, lookup, lookup, List.find?_map, Option.map_map]
  simp [Function.comp_def]

/-- Only the session of the named record changes. -/
theorem Kept.map_withUsage (h : l.Kept before) {r : MessageRecord} (hr : r ∈ l.records)
    (usage : TokenUsage) {id : Uuid} (hid : id ≠ r.sessionId) :
    (l.messages id).map (MessageRecord.withUsage r.id usage) = l.messages id := by
  apply MessageRecord.map_withUsage
  intro r' hr' hsame
  obtain ⟨hmem, hsession⟩ := List.mem_filter.mp hr'
  rw [h.eq_of_id hmem hr hsame] at hsession
  exact hid (beq_iff_eq.mp hsession).symm

end MessageLog

/-! ### In memory -/

namespace MemoryState

/-- The order of two records does not matter. -/
def Before (_ _ : MessageRecord) : Prop := True

/-- The state holds the records of each session of the log. -/
structure Represents (s : MemoryState) (l : MessageLog) : Prop where
  kept : l.Kept Before
  sessions : s.sessions = l.sessions
  messages (id : Uuid) : s.messages id = if id ∈ l.sessions then some (l.messages id) else none
  index : l.Indexed s.messageIndex

/-- Setting the usage of the first record sets that of the only one. -/
theorem setUsage_eq {r : MessageRecord} (usage : TokenUsage) {records : List MessageRecord}
    (hdistinct : records.Pairwise fun r' r => r'.id ≠ r.id) (hr : r ∈ records) :
    setUsage r.id usage records = some (records.map (MessageRecord.withUsage r.id usage)) := by
  induction records with
  | nil => cases hr
  | cons r' rest ih =>
    rw [List.pairwise_cons] at hdistinct
    by_cases hid : r'.id = r.id
    · have hrest : rest.map (MessageRecord.withUsage r.id usage) = rest :=
        MessageRecord.map_withUsage usage
          fun r'' hr'' h => hdistinct.1 r'' hr'' (hid.trans h.symm)
      simp [setUsage, MessageRecord.withUsage, hid, hrest]
    · have hmem : r ∈ rest := by
        rcases List.mem_cons.mp hr with rfl | hmem
        · exact absurd rfl hid
        · exact hmem
      simp [setUsage, MessageRecord.withUsage, hid, ih hdistinct.2 hmem]

/-- The usage of a record is set where the record stands. -/
theorem call_updateUsage {s : MemoryState} {l : MessageLog} {r : MessageRecord}
    (hkept : l.Kept Before) (hmem : r ∈ l.records)
    (hsome : s.messageIndex r.id = some r.sessionId)
    (hsession : s.messages r.sessionId = some (l.messages r.sessionId)) (usage : TokenUsage) :
    store.call s (.updateUsage r.id usage) = .ok { s with
      messages := Function.update s.messages r.sessionId
        (some ((l.messages r.sessionId).map (MessageRecord.withUsage r.id usage))) } := by
  have hset : setUsage r.id usage (l.messages r.sessionId) =
      some ((l.messages r.sessionId).map (MessageRecord.withUsage r.id usage)) := by
    apply setUsage_eq
    · exact (hkept.ordered.imp fun h => h.1).filter _
    · exact List.mem_filter.mpr ⟨hmem, beq_self_eq_true _⟩
  simp [SessionStore.call, store, MemoryState.updateUsage, hsome, hsession, hset]

theorem step (s : MemoryState) (l : MessageLog) (c : StoreCall) (hs : s.Represents l)
    (hc : l.Orderly Before c) :
    SessionStore.Matches store MessageLog.store Represents s l c := by
  obtain ⟨hkept, hsessions, hmessages, hindex⟩ := hs
  cases c with
  | createSession id =>
    have hnew : id ∉ l.sessions := hc
    refine .inl ⟨_, _, rfl, rfl, hkept.createSession id, congrArg _ hsessions, ?_, hindex⟩
    intro id'
    by_cases hid : id' = id
    · subst hid
      have hnone : MessageLog.messages { l with sessions := id' :: l.sessions } id' = [] :=
        hkept.messages_new hnew
      simp [hnone]
    · simp [hmessages, hid, MessageLog.messages]
  | appendMessage r =>
    by_cases hr : r.sessionId ∈ l.sessions
    · refine .inl ⟨_, _, if_pos (hsessions ▸ hr), if_pos hr, hkept.appendMessage hr hc, hsessions,
        ?_, hindex.append fun r' hr' => (hc r' hr').1⟩
      intro id
      rw [MessageLog.messages_append]
      by_cases hid : id = r.sessionId
      · simp [hid, hmessages, hr]
      · simp [hmessages, hid]
    · exact .inr ⟨_, if_neg (hsessions ▸ hr), if_neg hr⟩
  | updateUsage messageId usage =>
    cases hlookup : l.lookup messageId with
    | none =>
      have hnone : s.messageIndex messageId = none := hindex.of_none hlookup
      refine .inr ⟨.notFound messageId.display, ?_, if_neg (MessageLog.lookup_eq_none.mp hlookup)⟩
      simp [SessionStore.call, store, MemoryState.updateUsage, hnone]
    | some r =>
      obtain ⟨hmem, rfl⟩ := MessageLog.lookup_eq_some hlookup
      have hsome : s.messageIndex r.id = some r.sessionId := hindex.of_some hlookup
      have hany : l.records.any (fun r' => r'.id == r.id) = true :=
        List.any_eq_true.mpr ⟨r, hmem, beq_self_eq_true _⟩
      have hsession := hmessages r.sessionId
      rw [if_pos (hkept.found r hmem)] at hsession
      refine .inl ⟨_, _, call_updateUsage hkept hmem hsome hsession usage, if_pos hany,
        hkept.updateUsage (fun _ _ _ _ _ => trivial) r.id usage, hsessions, ?_,
        hindex.updateUsage r.id usage⟩
      intro id
      rw [MessageLog.messages_updateUsage]
      by_cases hid : id = r.sessionId
      · simp [hid, hkept.found r hmem]
      · rw [hkept.map_withUsage hmem usage hid]
        simp [hid, hmessages]

theorem listMessages_eq {s : MemoryState} {l : MessageLog} (hs : s.Represents l)
    (sessionId : Uuid) : s.listMessages sessionId = .ok (l.messages sessionId) := by
  unfold listMessages
  rw [hs.messages]
  split
  · rfl
  · next hnew => rw [hs.kept.messages_new hnew]; rfl

end MemoryState

/-! ### Redis -/

/-- Inserting between the elements that come before and those that come after. -/
theorem orderedInsert_between {α : Type} {le : α → α → Prop} [DecidableRel le] {x : α}
    {as bs : List α} (has : ∀ a ∈ as, ¬ le x a) (hbs : ∀ b ∈ bs, le x b) :
    (as ++ bs).orderedInsert le x = as ++ x :: bs := by
  induction as with
  | nil =>
    cases bs with
    | nil => rfl
    | cons b rest => exact List.orderedInsert_cons_of_le _ rest (hbs b (by simp))
  | cons a rest ih =>
    rw [List.cons_append, List.orderedInsert_of_not_le _ _ (has a (by simp)), ih]
    · rfl
    · exact fun a ha => has a (by simp [ha])

namespace RedisState

variable {json : RedisJson}

/-- Redis orders one record strictly before the other, whatever their usage. -/
def Before (json : RedisJson) (r' r : MessageRecord) : Prop :=
  ∀ u v, scoredLe (entry json { r' with usage := u }) (entry json { r with usage := v }) = true ∧
    scoredLe (entry json { r with usage := v }) (entry json { r' with usage := u }) = false

theorem usageFree_before (json : RedisJson) : MessageLog.UsageFree (Before json) :=
  fun _ _ _ _ h u v => h u v

/-- The sorted sets hold the records of each session of the log, in order. -/
structure Represents (json : RedisJson) (s : RedisState json) (l : MessageLog) : Prop where
  kept : l.Kept (Before json)
  sessions : s.sessions = l.sessions
  messages (id : Uuid) : s.messages id = (l.messages id).map (entry json)
  index : l.Indexed s.messageIndex

/-- Two texts are the same only for the same record. -/
theorem render_injective {m m' : MessageRecord}
    (h : json.record.render m = json.record.render m') : m = m' := by
  have hparse := json.record.parse_render m
  rw [h, json.record.parse_render] at hparse
  exact (Except.ok.inj hparse).symm

theorem parse_entry (m : MessageRecord) : parse (entry json m).2 = .ok m := by
  unfold parse entry
  rw [json.record.parse_render]

/-- Removing a text that no record renders to changes nothing. -/
theorem filter_entries {records : List MessageRecord} {m : MessageRecord}
    (h : ∀ r ∈ records, r.id ≠ m.id) :
    (records.map (entry json)).filter (fun e => decide (e.2 ≠ json.record.render m)) =
      records.map (entry json) := by
  rw [List.filter_eq_self]
  intro e he
  obtain ⟨r, hr, rfl⟩ := List.mem_map.mp he
  apply decide_eq_true
  intro hrender
  exact h r hr (congrArg MessageRecord.id (render_injective hrender))

/-- A record goes between those before it and those after it. -/
theorem zadd_entries {as bs : List MessageRecord} {m : MessageRecord}
    (has : ∀ r ∈ as, r.id ≠ m.id ∧ Before json r m)
    (hbs : ∀ r ∈ bs, r.id ≠ m.id ∧ Before json m r) :
    zadd (entry json m) ((as ++ bs).map (entry json)) = (as ++ m :: bs).map (entry json) := by
  have hids : ∀ r ∈ as ++ bs, r.id ≠ m.id := by
    intro r hr
    rcases List.mem_append.mp hr with hr | hr
    · exact (has r hr).1
    · exact (hbs r hr).1
  unfold zadd
  rw [show (entry json m).2 = json.record.render m from rfl, filter_entries hids, List.map_append,
    orderedInsert_between]
  · simp
  · intro e he
    obtain ⟨r, hr, rfl⟩ := List.mem_map.mp he
    simpa using ((has r hr).2 r.usage m.usage).2
  · intro e he
    obtain ⟨r, hr, rfl⟩ := List.mem_map.mp he
    exact ((hbs r hr).2 m.usage r.usage).1

/-- Removing a record leaves those before it and those after it. -/
theorem zrem_entries {as bs : List MessageRecord} {m : MessageRecord}
    (has : ∀ r ∈ as, r.id ≠ m.id) (hbs : ∀ r ∈ bs, r.id ≠ m.id) :
    zrem (json.record.render m) ((as ++ m :: bs).map (entry json)) =
      (as ++ bs).map (entry json) := by
  unfold zrem
  rw [List.map_append, List.map_cons, List.filter_append, List.filter_cons, filter_entries has,
    filter_entries hbs, List.map_append]
  simp [entry]

theorem findRecord_entries {as bs : List MessageRecord} {m : MessageRecord}
    (has : ∀ r ∈ as, r.id ≠ m.id) :
    findRecord m.id ((as ++ m :: bs).map (entry json)) =
      .ok (some (json.record.render m, m)) := by
  induction as with
  | nil =>
    simp only [List.nil_append, List.map_cons, findRecord, parse_entry, if_true]
    rfl
  | cons a rest ih =>
    have ha := has a (by simp)
    simp only [List.cons_append, List.map_cons, findRecord, parse_entry, ha, if_false]
    exact ih fun r hr => has r (by simp [hr])

/-- A record of a session, between those before it and those after it. -/
theorem split_messages {l : MessageLog} (h : l.Kept (Before json)) {r : MessageRecord}
    (hr : r ∈ l.records) : ∃ as bs, l.messages r.sessionId = as ++ r :: bs ∧
      (∀ r' ∈ as, r'.id ≠ r.id ∧ Before json r' r) ∧
      ∀ r' ∈ bs, r'.id ≠ r.id ∧ Before json r r' := by
  have hmem : r ∈ l.messages r.sessionId := List.mem_filter.mpr ⟨hr, beq_self_eq_true _⟩
  have hids : (l.messages r.sessionId).Pairwise fun r' r => r'.id ≠ r.id :=
    (h.ordered.imp fun h => h.1).filter _
  have hordered := hids.and (h.messages r.sessionId)
  obtain ⟨as, bs, hsplit⟩ := List.append_of_mem hmem
  rw [hsplit, List.pairwise_append, List.pairwise_cons] at hordered
  refine ⟨as, bs, hsplit, fun r' hr' => hordered.2.2 r' hr' r (by simp), fun r' hr' => ?_⟩
  have hafter := hordered.2.1.1 r' hr'
  exact ⟨fun hid => hafter.1 hid.symm, hafter.2⟩

/-- The usage of a record is set where the record stands. -/
theorem call_updateUsage {s : RedisState json} {l : MessageLog} {r : MessageRecord}
    (hkept : l.Kept (Before json)) (hmem : r ∈ l.records)
    (hsome : s.messageIndex r.id = some r.sessionId)
    (hsession : s.messages r.sessionId = (l.messages r.sessionId).map (entry json))
    (usage : TokenUsage) :
    (store json).call s (.updateUsage r.id usage) = .ok { s with
      messages := Function.update s.messages r.sessionId
        (((l.messages r.sessionId).map (MessageRecord.withUsage r.id usage)).map
          (entry json)) } := by
  obtain ⟨as, bs, hsplit, has, hbs⟩ := split_messages hkept hmem
  rw [hsplit] at hsession
  have hfind : findRecord r.id (s.messages r.sessionId) =
      .ok (some (json.record.render r, r)) := by
    rw [hsession]
    exact findRecord_entries fun r' hr' => (has r' hr').1
  have hzrem : zrem (json.record.render r) (s.messages r.sessionId) =
      (as ++ bs).map (entry json) := by
    rw [hsession]
    exact zrem_entries (fun r' hr' => (has r' hr').1) fun r' hr' => (hbs r' hr').1
  have hfree := usageFree_before json
  have hzadd : zadd (entry json { r with usage := some usage }) ((as ++ bs).map (entry json)) =
      (as ++ { r with usage := some usage } :: bs).map (entry json) :=
    zadd_entries
      (fun r' hr' => ⟨(has r' hr').1, hfree r' r r'.usage (some usage) (has r' hr').2⟩)
      fun r' hr' => ⟨(hbs r' hr').1, hfree r r' (some usage) r'.usage (hbs r' hr').2⟩
  have hmap : (l.messages r.sessionId).map (MessageRecord.withUsage r.id usage) =
      as ++ { r with usage := some usage } :: bs := by
    rw [hsplit, List.map_append, List.map_cons,
      MessageRecord.map_withUsage usage fun r' hr' => (has r' hr').1,
      MessageRecord.map_withUsage usage fun r' hr' => (hbs r' hr').1]
    simp [MessageRecord.withUsage]
  simp only [SessionStore.call, store, RedisState.updateUsage, hsome, hfind, hzrem, hzadd, hmap]

theorem step (s : RedisState json) (l : MessageLog) (c : StoreCall) (hs : s.Represents json l)
    (hc : l.Orderly (Before json) c) :
    SessionStore.Matches (store json) MessageLog.store (Represents json) s l c := by
  obtain ⟨hkept, hsessions, hmessages, hindex⟩ := hs
  cases c with
  | createSession id =>
    exact .inl ⟨_, _, rfl, rfl, hkept.createSession id, congrArg _ hsessions, hmessages, hindex⟩
  | appendMessage r =>
    by_cases hr : r.sessionId ∈ l.sessions
    · refine .inl ⟨_, _, if_pos (hsessions ▸ hr), if_pos hr, hkept.appendMessage hr hc, hsessions,
        ?_, hindex.append fun r' hr' => (hc r' hr').1⟩
      intro id
      rw [MessageLog.messages_append]
      by_cases hid : id = r.sessionId
      · have hbefore : ∀ r' ∈ l.messages r.sessionId, r'.id ≠ r.id ∧ Before json r' r := by
          intro r' hr'
          obtain ⟨hmem, hsession⟩ := List.mem_filter.mp hr'
          exact ⟨(hc r' hmem).1, (hc r' hmem).2 (beq_iff_eq.mp hsession)⟩
        have hzadd : zadd (entry json r) ((l.messages r.sessionId ++ []).map (entry json)) =
            (l.messages r.sessionId ++ [r]).map (entry json) := zadd_entries hbefore (by simp)
        rw [List.append_nil] at hzadd
        simp [hid, hmessages, hzadd]
      · simp [hid, hmessages]
    · exact .inr ⟨_, if_neg (hsessions ▸ hr), if_neg hr⟩
  | updateUsage messageId usage =>
    cases hlookup : l.lookup messageId with
    | none =>
      have hnone : s.messageIndex messageId = none := hindex.of_none hlookup
      refine .inr ⟨.notFound messageId.display, ?_, if_neg (MessageLog.lookup_eq_none.mp hlookup)⟩
      simp [SessionStore.call, store, RedisState.updateUsage, hnone]
    | some r =>
      obtain ⟨hmem, rfl⟩ := MessageLog.lookup_eq_some hlookup
      have hsome : s.messageIndex r.id = some r.sessionId := hindex.of_some hlookup
      have hany : l.records.any (fun r' => r'.id == r.id) = true :=
        List.any_eq_true.mpr ⟨r, hmem, beq_self_eq_true _⟩
      refine .inl ⟨_, _, call_updateUsage hkept hmem hsome (hmessages r.sessionId) usage,
        if_pos hany, hkept.updateUsage (usageFree_before json) r.id usage, hsessions, ?_,
        hindex.updateUsage r.id usage⟩
      intro id
      rw [MessageLog.messages_updateUsage]
      by_cases hid : id = r.sessionId
      · rw [hid]
        exact Function.update_self _ _ _
      · rw [hkept.map_withUsage hmem usage hid]
        exact (Function.update_of_ne hid _ _).trans (hmessages id)

theorem listMessages_eq {s : RedisState json} {l : MessageLog} (hs : s.Represents json l)
    (sessionId : Uuid) : s.listMessages sessionId = .ok (l.messages sessionId) := by
  unfold listMessages
  rw [hs.messages]
  generalize l.messages sessionId = records
  induction records with
  | nil => rfl
  | cons r rest ih =>
    rw [List.map_cons, List.mapM_cons, parse_entry, ih]
    rfl

end RedisState

/-! ### The backends -/

/-- The record without the call and the name of a tool message. -/
def MessageRecord.withoutCall (r : MessageRecord) : MessageRecord :=
  { r with toolCallId := none, toolName := none }

/-- A table of SQL has no column for the call and the name of a tool message. -/
theorem SqlRow.faithful {dialect : SqlDialect} {json : SqlJson} (conflict : String)
    (order : OrderBy (@SqlRow.createdAt dialect json)) :
    (SqlRow.table conflict order).Faithful MessageRecord.withoutCall where
  id_encode _ := rfl
  sessionId_encode _ := rfl
  decode_encode m := by
    obtain ⟨id, sessionId, role, content, toolCalls, toolCallId, toolName, usage, createdAt,
      isCompaction, isSummary, compactionMeta⟩ := m
    cases usage <;> cases compactionMeta <;>
      simp [SqlRow.table, SqlRow.decode, SqlRow.encode, dialect.isSet_flag,
        MessageRecord.withoutCall, pure, Except.pure, bind, Except.bind]
  setUsage_encode _ _ := rfl
  createdAt_encode _ _ := rfl

/-- A document of MongoDB has no field for them either. -/
theorem MessageDoc.faithful (conflict : String) (order : OrderBy MessageDoc.createdAt) :
    (MessageDoc.table conflict order).Faithful MessageRecord.withoutCall where
  id_encode _ := rfl
  sessionId_encode _ := rfl
  decode_encode m := by
    simp [MessageDoc.table, MessageDoc.intoMessage, MessageDoc.fromMessage,
      MessageRecord.withoutCall]
  setUsage_encode _ _ := rfl
  createdAt_encode _ _ := rfl

namespace Backend

/-- The backend lists one record of a session before the other. -/
def Before : Backend → MessageRecord → MessageRecord → Prop
  | memory => MemoryState.Before
  | sql _ _ conflict order => (SqlRow.table conflict order).Before
  | mongodb conflict order => (MessageDoc.table conflict order).Before
  | redis json => RedisState.Before json

/-- What a record reads back as. -/
def readBack : Backend → MessageRecord → MessageRecord
  | memory | redis _ => id
  | sql _ _ _ _ | mongodb _ _ => MessageRecord.withoutCall

/-- The backend has a place for everything the record says. -/
def Keeps : Backend → MessageRecord → Prop
  | memory, _ | redis _, _ => True
  | sql _ _ _ _, r | mongodb _ _, r => r.toolCallId = none ∧ r.toolName = none

/-- The calls, made one after the other on an empty store, are orderly. -/
def Orderly (b : Backend) (calls : List StoreCall) : Prop :=
  MessageLog.store.Admitted (MessageLog.Orderly b.Before) MessageLog.store.new calls

/-- The backend answers the calls as the log does, and lists in every session what the log
holds. -/
def Agrees (b : Backend) (calls : List StoreCall) : Prop :=
  b.store.answers b.store.new calls = MessageLog.store.answers MessageLog.store.new calls ∧
    ∀ sessionId, b.store.listMessages (b.store.run b.store.new calls) sessionId =
      .ok ((MessageLog.after calls).messages sessionId)

theorem readBack_eq_iff (b : Backend) (r : MessageRecord) : b.readBack r = r ↔ b.Keeps r := by
  have hforget : r.withoutCall = r ↔ r.toolCallId = none ∧ r.toolName = none := by
    constructor
    · intro h
      exact ⟨congrArg MessageRecord.toolCallId h.symm, congrArg MessageRecord.toolName h.symm⟩
    · rintro ⟨hid, hname⟩
      cases r
      cases hid
      cases hname
      rfl
  cases b with
  | memory => exact iff_of_true rfl trivial
  | redis json => exact iff_of_true rfl trivial
  | sql dialect json conflict order => exact hforget
  | mongodb conflict order => exact hforget

/-- A backend answers orderly calls as the log does, and lists the records of the log as they
read back. -/
theorem lists (b : Backend) {calls : List StoreCall} (h : b.Orderly calls) :
    b.store.answers b.store.new calls = MessageLog.store.answers MessageLog.store.new calls ∧
      ∀ sessionId, b.store.listMessages (b.store.run b.store.new calls) sessionId =
        .ok (((MessageLog.after calls).messages sessionId).map b.readBack) := by
  cases b with
  | memory =>
    have hnew : MemoryState.Represents ⟨[], fun _ => none, fun _ => none⟩ ⟨[], []⟩ :=
      ⟨MessageLog.kept_new, rfl, fun _ => rfl, fun _ => rfl⟩
    have ⟨hrun, hanswers⟩ := SessionStore.simulates MemoryState.store MessageLog.store
      MemoryState.Represents MemoryState.step calls hnew h
    refine ⟨hanswers, fun sessionId => ?_⟩
    rw [readBack, List.map_id]
    exact MemoryState.listMessages_eq hrun sessionId
  | redis json =>
    have hnew : RedisState.Represents json ⟨[], fun _ => [], fun _ => none⟩ ⟨[], []⟩ :=
      ⟨MessageLog.kept_new, rfl, fun _ => rfl, fun _ => rfl⟩
    have ⟨hrun, hanswers⟩ := SessionStore.simulates (RedisState.store json) MessageLog.store
      (RedisState.Represents json) RedisState.step calls hnew h
    refine ⟨hanswers, fun sessionId => ?_⟩
    rw [readBack, List.map_id]
    exact RedisState.listMessages_eq hrun sessionId
  | sql dialect json conflict order =>
    have hnew : (SqlRow.table conflict order).Represents ⟨[], []⟩ ⟨[], []⟩ :=
      ⟨MessageLog.kept_new, rfl, rfl⟩
    have hfaithful := SqlRow.faithful conflict order
    have ⟨hrun, hanswers⟩ := SessionStore.simulates (Table.store _) MessageLog.store
      (Table.Represents _) hfaithful.step calls hnew h
    exact ⟨hanswers, hfaithful.listMessages hrun⟩
  | mongodb conflict order =>
    have hnew : (MessageDoc.table conflict order).Represents ⟨[], []⟩ ⟨[], []⟩ :=
      ⟨MessageLog.kept_new, rfl, rfl⟩
    have hfaithful := MessageDoc.faithful conflict order
    have ⟨hrun, hanswers⟩ := SessionStore.simulates (Table.store _) MessageLog.store
      (Table.Represents _) hfaithful.step calls hnew h
    exact ⟨hanswers, hfaithful.listMessages hrun⟩

/-- **After orderly calls a backend agrees with the log exactly when it has a place for all that
the appended records say**: always in memory and in Redis, and in SQL and MongoDB when no
record names a tool call. -/
theorem agrees_iff (b : Backend) {calls : List StoreCall} (h : b.Orderly calls) :
    b.Agrees calls ↔ ∀ r ∈ (MessageLog.after calls).records, b.Keeps r := by
  have ⟨hanswers, hlists⟩ := b.lists h
  constructor
  · intro ⟨_, hagrees⟩ r hr
    have hmem : r ∈ (MessageLog.after calls).messages r.sessionId :=
      List.mem_filter.mpr ⟨hr, beq_self_eq_true _⟩
    have hsame := Except.ok.inj ((hlists r.sessionId).symm.trans (hagrees r.sessionId))
    have heach := List.map_inj_left.mp (hsame.trans (List.map_id _).symm)
    exact (b.readBack_eq_iff r).mp (heach r hmem)
  · intro hkeeps
    refine ⟨hanswers, fun sessionId => ?_⟩
    rw [hlists sessionId]
    have hsame : ((MessageLog.after calls).messages sessionId).map b.readBack =
        ((MessageLog.after calls).messages sessionId).map id :=
      List.map_congr_left fun r hr =>
        (b.readBack_eq_iff r).mpr (hkeeps r (List.mem_of_mem_filter hr))
    rw [hsame, List.map_id]

/-! ### A tool turn on PostgreSQL -/

/-- Columns that hold values instead of texts. -/
def plainJson : SqlJson := ⟨.identity _, .identity _, .identity _, .identity _⟩

/-- One row was created no later than the other. -/
def NoLater (a b : SqlRow .postgres plainJson) : Prop := Nat.le a.createdAt b.createdAt

instance : DecidableRel NoLater := fun a b => Nat.decLe a.createdAt b.createdAt

instance : Std.Total NoLater := ⟨fun a b => Nat.le_total a.createdAt b.createdAt⟩

instance : IsTrans _ NoLater := ⟨fun _ _ _ => Nat.le_trans⟩

/-- PostgreSQL with rows sorted by insertion. -/
def postgres : Backend :=
  sql .postgres plainJson "duplicate key" {
    le := Nat.le
    sort := List.insertionSort NoLater
    perm := List.perm_insertionSort NoLater
    sorted := List.pairwise_insertionSort NoLater }

/-- One message in a new session. -/
def stored (message : Message) : List StoreCall :=
  [.createSession 7, .appendMessage (messageToRecord 1 0 7 message)]

theorem orderly_stored (message : Message) : postgres.Orderly (stored message) := by
  refine ⟨by simp [MessageLog.Orderly, MessageLog.store], ?_, trivial⟩
  intro r' hr'
  cases hr'

theorem after_stored (message : Message) :
    (MessageLog.after (stored message)).records = [messageToRecord 1 0 7 message] := by
  cases message <;> rfl

/-- The answer of a tool is listed without the call it answers, and replayed without it. -/
theorem postgres_forgets :
    postgres.Orderly (stored (.toolText "call_1" "search" "found")) ∧
    ¬ postgres.Agrees (stored (.toolText "call_1" "search" "found")) ∧
    ∃ r, postgres.store.listMessages
        (postgres.store.run postgres.store.new (stored (.toolText "call_1" "search" "found"))) 7 =
          .ok [r] ∧
      recordToMessage r = .toolText "" "" "found" := by
  have horderly := orderly_stored (.toolText "call_1" "search" "found")
  have hlisted := (postgres.lists horderly).2 7
  refine ⟨horderly, ?_, _, hlisted, rfl⟩
  intro ⟨_, hagrees⟩
  have hsame := Except.ok.inj (hlisted.symm.trans (hagrees 7))
  have hids := congrArg (List.map MessageRecord.toolCallId) hsame
  cases hids

/-- A question is listed as it was stored. -/
theorem postgres_keeps : postgres.Agrees (stored (.userText "ping")) := by
  apply (postgres.agrees_iff (orderly_stored (.userText "ping"))).mpr
  rw [after_stored]
  intro r hr
  obtain rfl := List.mem_singleton.mp hr
  exact ⟨rfl, rfl⟩

end Backend

end Behest
