import Mathlib.Data.List.Induction
import Behest.Compaction.Boundary
import Behest.Context.LatestPair
import Behest.Context.Pipeline
import Behest.Effect.Exchange

/-!
# Tool calls and their answers in a request

The history of a request is cut twice: at the record the latest compaction pair names, and at
the token budget. A well-paired history stays well paired exactly when neither cut stands
between a tool call and its answer.
-/

namespace Behest

open Effect

/-- The calls a message makes and the call it answers. -/
def Message.exchanges : Message → List (Exchange String)
  | .assistant _ calls => calls.map fun call => .call call.id
  | .tool id _ _ => [.answer id]
  | .system _ | .user _ => []

/-- The calls and answers of some messages. -/
def exchanges (messages : List Message) : List (Exchange String) :=
  messages.flatMap Message.exchanges

/-- Every tool message follows an assistant message that makes its call. -/
def ToolsCalled (messages : List Message) : Prop :=
  ∀ before id name content after, messages = before ++ .tool id name content :: after →
    ∃ m ∈ before, ∃ call ∈ m.toolCalls, call.id = id

/-- Every call of an assistant message is answered, unless the message is the last one. -/
def CallsAnswered (messages : List Message) : Prop :=
  ∀ before content calls after, messages = before ++ .assistant content calls :: after →
    after ≠ [] → ∀ call ∈ calls, ∃ name content, .tool call.id name content ∈ after

@[simp] theorem exchanges_append (ms ms' : List Message) :
    exchanges (ms ++ ms') = exchanges ms ++ exchanges ms' := by simp [exchanges]

@[simp] theorem exchanges_cons (m : Message) (ms : List Message) :
    exchanges (m :: ms) = m.exchanges ++ exchanges ms := by simp [exchanges]

@[simp] theorem exchanges_nil : exchanges [] = [] := rfl

theorem call_mem_exchanges {ms : List Message} {id : String} :
    .call id ∈ exchanges ms ↔ ∃ m ∈ ms, ∃ call ∈ m.toolCalls, call.id = id := by
  unfold exchanges
  rw [List.mem_flatMap]
  apply exists_congr
  intro m
  apply and_congr_right
  intro _
  cases m <;> simp [Message.exchanges, Message.toolCalls]

theorem answer_mem_exchanges {ms : List Message} {id : String} :
    .answer id ∈ exchanges ms ↔ ∃ name content, .tool id name content ∈ ms := by
  unfold exchanges
  rw [List.mem_flatMap]
  constructor
  · rintro ⟨m, hm, hid⟩
    cases m <;> simp [Message.exchanges] at hid
    subst hid
    exact ⟨_, _, hm⟩
  · rintro ⟨name, content, hm⟩
    exact ⟨_, hm, by simp [Message.exchanges]⟩

/-- An answer among the exchanges is a tool message among the messages. -/
theorem split_of_exchanges {ms : List Message} {first rest : List (Exchange String)} {id : String}
    (h : exchanges ms = first ++ .answer id :: rest) :
    ∃ before name content after, ms = before ++ .tool id name content :: after ∧
      exchanges before = first := by
  induction ms generalizing first with
  | nil => simp at h
  | cons m ms ih =>
    rw [exchanges_cons] at h
    cases m with
    | system content =>
      obtain ⟨before, name, content', after, rfl, rfl⟩ := ih h
      exact ⟨.system content :: before, name, content', after, rfl, rfl⟩
    | user content =>
      obtain ⟨before, name, content', after, rfl, rfl⟩ := ih h
      exact ⟨.user content :: before, name, content', after, rfl, rfl⟩
    | tool id' name content =>
      cases first with
      | nil =>
        obtain rfl : id' = id := by simpa [Message.exchanges] using (List.cons.inj h).1
        exact ⟨[], name, content, ms, rfl, rfl⟩
      | cons e first =>
        obtain ⟨rfl, hrest⟩ := List.cons.inj h
        obtain ⟨before, name', content', after, rfl, rfl⟩ := ih hrest
        exact ⟨.tool id' name content :: before, name', content', after, rfl, rfl⟩
    | assistant content calls =>
      rcases List.append_eq_append_iff.mp h with ⟨more, rfl, hrest⟩ | ⟨more, hcalls, hrest⟩
      · obtain ⟨before, name, content', after, rfl, rfl⟩ := ih hrest
        exact ⟨.assistant content calls :: before, name, content', after, rfl, by simp⟩
      · -- an answer is none of the calls
        cases more with
        | nil =>
          have hrest : exchanges ms = [] ++ .answer id :: rest := hrest.symm
          obtain ⟨before, name, content', after, rfl, hbefore⟩ := ih hrest
          refine ⟨.assistant content calls :: before, name, content', after, rfl, ?_⟩
          rw [exchanges_cons, hbefore, hcalls]
          simp
        | cons e more =>
          obtain ⟨rfl, -⟩ := List.cons.inj hrest
          have hmem : .answer id ∈ (Message.assistant content calls).exchanges := by
            rw [hcalls]
            simp
          simp [Message.exchanges] at hmem

theorem toolsCalled_iff {ms : List Message} :
    ToolsCalled ms ↔ Exchange.Called (exchanges ms) := by
  constructor
  · intro hcalled first id rest heq
    obtain ⟨before, name, content, after, rfl, rfl⟩ := split_of_exchanges heq
    exact call_mem_exchanges.mpr (hcalled before id name content after rfl)
  · rintro hcalled before id name content after rfl
    rw [← call_mem_exchanges]
    exact hcalled (exchanges before) id (exchanges after) (by simp [Message.exchanges])

theorem callsAnswered_of_exchanges {ms : List Message} (h : Exchange.Answered (exchanges ms)) :
    CallsAnswered ms := by
  rintro before content calls after rfl - call hcall
  obtain ⟨first, rest, rfl⟩ := List.append_of_mem hcall
  have hmem := h (exchanges before ++ first.map fun call => .call call.id) call.id
    (rest.map (fun call => .call call.id) ++ exchanges after) (by simp [Message.exchanges])
  rw [← answer_mem_exchanges]
  simpa using hmem

/-! ### The cut of the token budget -/

namespace Context

/-- The oldest record of the longest suffix that fits the budget; the last record is kept even
where it does not fit. -/
def budgetCut (records : List MessageRecord) (maxTokens : Nat) : Nat :=
  ((List.range records.length).find? fun k =>
    decide (estimateRecordsTokens (records.drop k) ≤ maxTokens)).getD (records.length - 1)

/-- The suffix from `n` fits or is a single record, and no longer one fits. -/
structure IsCut (records : List MessageRecord) (maxTokens n : Nat) : Prop where
  lt : n < records.length
  fits : estimateRecordsTokens (records.drop n) ≤ maxTokens ∨ n + 1 = records.length
  longest : ∀ k < n, maxTokens < estimateRecordsTokens (records.drop k)

theorem isCut_budgetCut {records : List MessageRecord} (hne : records ≠ []) (maxTokens : Nat) :
    IsCut records maxTokens (budgetCut records maxTokens) := by
  have hpos := List.length_pos_iff.mpr hne
  unfold budgetCut
  cases hfound : (List.range records.length).find? fun k =>
      decide (estimateRecordsTokens (records.drop k) ≤ maxTokens) with
  | some k =>
    rw [List.find?_range_eq_some] at hfound
    obtain ⟨hfits, hlt, hnone⟩ := hfound
    exact ⟨by simpa using hlt, .inl (by simpa using hfits), fun j hj => by simpa using hnone j hj⟩
  | none =>
    rw [List.find?_range_eq_none] at hfound
    constructor
    · simp only [Option.getD_none]
      omega
    · right
      simp only [Option.getD_none]
      omega
    · intro k hk
      simpa using hfound k (by simp only [Option.getD_none] at hk; omega)

theorem IsCut.eq {records : List MessageRecord} {maxTokens n m : Nat}
    (h : IsCut records maxTokens n) (h' : IsCut records maxTokens m) : n = m := by
  rcases Nat.lt_trichotomy n m with hlt | heq | hlt
  · have hover := h'.longest n hlt
    have := h'.lt
    rcases h.fits with hfits | hlast <;> omega
  · exact heq
  · have hover := h.longest m hlt
    have := h.lt
    rcases h'.fits with hfits | hlast <;> omega

private theorem trimFrom_isCut {maxTokens : Nat} (front kept : List MessageRecord) (hne : kept ≠ [])
    (hfits : estimateRecordsTokens kept ≤ maxTokens ∨ kept.length = 1) :
    ∃ n, trimFrom maxTokens (estimateRecordsTokens kept) kept front.reverse =
      (front ++ kept).drop n ∧ IsCut (front ++ kept) maxTokens n := by
  induction front using List.reverseRecOn generalizing kept with
  | nil =>
    have := List.length_pos_iff.mpr hne
    refine ⟨0, rfl, ⟨by simpa using this, ?_, by simp⟩⟩
    exact hfits.imp_right fun h => by simp [h]
  | append_singleton front rec ih =>
    rw [List.reverse_append, List.reverse_singleton, List.singleton_append, trimFrom]
    by_cases hover : maxTokens < estimateRecordsTokens kept + estimateRecordTokens rec
    · have hkept : kept.isEmpty = false := by simpa using hne
      have hlen := List.length_pos_iff.mpr hne
      rw [if_pos (by simp [hover, hkept])]
      refine ⟨(front ++ [rec]).length, by simp, ⟨by simp [hlen], ?_, ?_⟩⟩
      · rcases hfits with hfits | hone
        · exact .inl (by simpa using hfits)
        · exact .inr (by simp [hone])
      · intro k hk
        have hle : k ≤ front.length := by simp at hk; omega
        rw [List.append_assoc, List.drop_append_of_le_length hle]
        simp only [List.singleton_append, estimateRecordsTokens_append,
          estimateRecordsTokens_cons]
        omega
    · rw [if_neg (by simp [hover])]
      have hstep := ih (rec :: kept) (by simp) (.inl (by
        rw [estimateRecordsTokens_cons]
        omega))
      rw [estimateRecordsTokens_cons, Nat.add_comm] at hstep
      rwa [List.append_assoc, List.singleton_append]

/-- Trimming keeps the longest suffix that fits. -/
theorem trimByTokens_eq_drop (records : List MessageRecord) (maxTokens : Nat) :
    trimByTokens records maxTokens = records.drop (budgetCut records maxTokens) := by
  unfold trimByTokens
  by_cases hempty : records = []
  · simp [hempty]
  rw [if_neg (by simpa using hempty)]
  have hcut := isCut_budgetCut hempty maxTokens
  split
  · next hfits =>
    have hzero : IsCut records maxTokens 0 :=
      ⟨List.length_pos_iff.mpr hempty, .inl hfits, by simp⟩
    rw [hcut.eq hzero, List.drop_zero]
  · obtain ⟨front, last, rfl⟩ : ∃ front last, records = front ++ [last] :=
      ⟨_, _, (List.dropLast_append_getLast hempty).symm⟩
    rw [List.reverse_append, List.reverse_singleton, List.singleton_append, trimFrom]
    have hlast : estimateRecordsTokens [last] ≤ maxTokens ∨ [last].length = 1 := .inr rfl
    obtain ⟨n, heq, hn⟩ := trimFrom_isCut front [last] (by simp) hlast
    rw [hcut.eq hn, ← heq]
    simp

/-! ### The cut of the latest pair -/

/-- The calls and answers of some records. -/
def exchangesOf (records : List MessageRecord) : List (Exchange String) :=
  exchanges (records.map recordToMessage)

@[simp] theorem exchangesOf_append (records more : List MessageRecord) :
    exchangesOf (records ++ more) = exchangesOf records ++ exchangesOf more := by
  simp [exchangesOf]

/-- The records make no calls and answer none. -/
def Silent (records : List MessageRecord) : Prop :=
  ∀ r ∈ records, (recordToMessage r).exchanges = []

theorem Silent.exchangesOf_eq {records : List MessageRecord} (h : Silent records) :
    exchangesOf records = [] := by
  unfold exchangesOf exchanges
  rw [List.flatMap_eq_nil_iff]
  rintro m hm
  obtain ⟨r, hr, rfl⟩ := List.mem_map.mp hm
  exact h r hr

/-- Markers and summaries make no calls and answer none. -/
def QuietFlags (records : List MessageRecord) : Prop :=
  ∀ r ∈ records, r.isOrdinary = false → (recordToMessage r).exchanges = []

theorem exchangesOf_filter_ordinary {records : List MessageRecord} (h : QuietFlags records) :
    exchangesOf (records.filter MessageRecord.isOrdinary) = exchangesOf records := by
  induction records with
  | nil => rfl
  | cons r rest ih =>
    have hrest : QuietFlags rest := fun a ha => h a (List.mem_cons_of_mem r ha)
    have hcons : ∀ rs, exchangesOf (r :: rs) = (recordToMessage r).exchanges ++ exchangesOf rs :=
      fun rs => by simp [exchangesOf]
    by_cases hr : r.isOrdinary = true
    · rw [List.filter_cons_of_pos hr, hcons, hcons, ih hrest]
    · rw [List.filter_cons_of_neg hr, hcons, ih hrest, h r (by simp) (by simpa using hr)]
      rfl

/-- The marker, the summary and the boundary of the latest pair that names one. -/
def latestRetention (records : List MessageRecord) : Option (Nat × Nat × Uuid) :=
  (latestPair none records.zipIdx.reverse).bind fun (c, s) =>
    ((records[c]?.bind MessageRecord.compactionMeta).bind CompactionMeta.tailStartId).map
      fun tailStart => (c, s, tailStart)

/-- Where the retained part of a history begins: at the record the latest pair names, but not
past the pair. -/
def boundary (records : List MessageRecord) : Nat :=
  match latestRetention records with
  | some (c, _, tailStart) => min ((records.findIdx? fun r => r.id == tailStart).getD c) c
  | none => 0

/-- The retained part of a history. -/
def retained (records : List MessageRecord) : List MessageRecord :=
  match latestRetention records with
  | some (c, s, tailStart) =>
      retainedTail records tailStart c ++ records.drop (compactEnd records s)
  | none => records

/-- The filter puts at most a checkpoint before the retained part. -/
theorem applyCompactionFilter_eq (id : Uuid) (records : List MessageRecord) :
    ∃ checkpoints, checkpoints.length ≤ 1 ∧ Silent checkpoints ∧
      applyCompactionFilter id records = checkpoints ++ retained records := by
  unfold applyCompactionFilter retained latestRetention
  cases hpair : latestPair none records.zipIdx.reverse with
  | none => exact ⟨[], by simp, by simp [Silent], rfl⟩
  | some pair =>
    obtain ⟨c, s⟩ := pair
    obtain ⟨hc, hs⟩ := latestPair_lt records hpair
    simp only [filterAt, List.getElem?_eq_getElem hc, List.getElem?_eq_getElem hs,
      Option.bind_some]
    cases records[c].compactionMeta.bind CompactionMeta.tailStartId with
    | none => exact ⟨[], by simp, by simp [Silent], rfl⟩
    | some tailStart =>
      refine ⟨_, ?_, ?_, List.append_assoc _ _ _⟩
      · unfold checkpointOf
        split <;> simp
      · unfold checkpointOf
        split
        · simp [Silent, checkpoint, MessageRecord.new, recordToMessage, Message.exchanges]
        · simp [Silent]

theorem latestPair_of_latestRetention {records : List MessageRecord} {c s : Nat} {tailStart : Uuid}
    (h : latestRetention records = some (c, s, tailStart)) :
    latestPair none records.zipIdx.reverse = some (c, s) := by
  unfold latestRetention at h
  rw [Option.bind_eq_some_iff] at h
  obtain ⟨pair, hpair, hmap⟩ := h
  rw [Option.map_eq_some_iff] at hmap
  obtain ⟨_, _, heq⟩ := hmap
  simp only [Prod.mk.injEq] at heq
  rw [hpair, ← heq.1, ← heq.2.1]

/-- What lies before the boundary and what is retained make up all calls and answers. -/
theorem exchangesOf_split {records : List MessageRecord} (h : QuietFlags records) :
    exchangesOf records =
      exchangesOf (records.take (boundary records)) ++ exchangesOf (retained records) := by
  unfold boundary retained
  cases hlatest : latestRetention records with
  | none => simp [exchangesOf, exchanges]
  | some retention =>
    obtain ⟨c, s, tailStart⟩ := retention
    have hpair := latestPair_of_latestRetention hlatest
    obtain ⟨hc, hs⟩ := latestPair_lt records hpair
    obtain ⟨hcs, hflagged⟩ := (isLatest_of_latestPair hpair).isPair.flagged
    have hnext := isNextOrdinary_compactEnd hs
    have hend := hnext.lt
    simp only
    generalize hb : min ((records.findIdx? fun r => r.id == tailStart).getD c) c = b
    have htail : retainedTail records tailStart c =
        ((records.drop b).take (c - b)).filter MessageRecord.isOrdinary := by
      unfold retainedTail
      cases hfound : records.findIdx? fun r => r.id == tailStart with
      | none =>
        obtain rfl : c = b := by simpa [hfound] using hb
        simp
      | some t =>
        rw [hfound, Option.getD_some] at hb
        by_cases hle : t ≤ c
        · obtain rfl : t = b := by omega
          rfl
        · obtain rfl : c = b := by omega
          have hzero : c - t = 0 := by omega
          simp [hzero]
    -- the records from the marker to the end of the compaction are silent
    have hsilent : Silent ((records.drop c).take (compactEnd records s - c)) := by
      intro r hr
      have hmem := List.mem_of_mem_drop (List.mem_of_mem_take hr)
      apply h r hmem
      obtain ⟨i, hi⟩ := List.mem_iff_getElem?.mp hr
      rw [List.getElem?_take] at hi
      split at hi
      · rw [List.getElem?_drop] at hi
        by_cases hle : c + i ≤ s
        · exact hflagged (c + i) r (by omega) hle hi
        · exact hnext.between (c + i) r (by omega) (by omega) hi
      · cases hi
    have hmiddle : exchangesOf (records.drop c) =
        exchangesOf (records.drop (compactEnd records s)) := by
      have hsplit := List.take_append_drop (compactEnd records s - c) (records.drop c)
      rw [List.drop_drop, Nat.add_sub_cancel' (by omega)] at hsplit
      rw [← hsplit, exchangesOf_append, hsilent.exchangesOf_eq, List.nil_append]
    have hfront : exchangesOf (records.drop b) =
        exchangesOf ((records.drop b).take (c - b)) ++ exchangesOf (records.drop c) := by
      have hsplit := List.take_append_drop (c - b) (records.drop b)
      rw [List.drop_drop, Nat.add_sub_cancel' (by omega)] at hsplit
      rw [← exchangesOf_append, hsplit]
    have hquiet : QuietFlags ((records.drop b).take (c - b)) :=
      fun r hr => h r (List.mem_of_mem_drop (List.mem_of_mem_take hr))
    rw [htail, exchangesOf_append, exchangesOf_filter_ordinary hquiet, ← hmiddle, ← hfront,
      ← exchangesOf_append, List.take_append_drop]

/-! ### The two cuts together -/

/-- A checkpoint before the retained part is trimmed first, or fits with it. -/
theorem exchangesOf_trim {checkpoints : List MessageRecord} (hlen : checkpoints.length ≤ 1)
    (hsilent : Silent checkpoints) (records : List MessageRecord) (maxTokens : Nat) :
    exchangesOf (trimByTokens (checkpoints ++ records) maxTokens) =
      exchangesOf (records.drop (budgetCut records maxTokens)) := by
  rw [trimByTokens_eq_drop]
  rcases checkpoints with _ | ⟨checkpoint, _ | ⟨second, more⟩⟩
  · rfl
  · by_cases hempty : records = []
    · subst hempty
      have hdrop : Silent ([checkpoint].drop (budgetCut [checkpoint] maxTokens)) :=
        fun r hr => hsilent r (List.mem_of_mem_drop hr)
      rw [List.append_nil, hdrop.exchangesOf_eq, List.drop_nil]
      rfl
    · have hstart : [checkpoint] ++ records ≠ [] := by simp
      have hall := isCut_budgetCut hstart maxTokens
      have hcut := isCut_budgetCut hempty maxTokens
      by_cases hfits : estimateRecordsTokens ([checkpoint] ++ records) ≤ maxTokens
      · have hzero : IsCut ([checkpoint] ++ records) maxTokens 0 :=
          ⟨by simp, .inl hfits, by simp⟩
        rw [estimateRecordsTokens_append] at hfits
        have hzero' : IsCut records maxTokens 0 :=
          ⟨List.length_pos_iff.mpr hempty, .inl (by rw [List.drop_zero]; omega), by simp⟩
        rw [hall.eq hzero, hcut.eq hzero', List.drop_zero, List.drop_zero, exchangesOf_append,
          hsilent.exchangesOf_eq, List.nil_append]
      · have hsucc :
          IsCut ([checkpoint] ++ records) maxTokens (budgetCut records maxTokens + 1) := by
          refine ⟨by simpa using hcut.lt, by simpa using hcut.fits, ?_⟩
          intro k hk
          cases k with
          | zero => simpa using hfits
          | succ k => simpa using hcut.longest k (by omega)
        rw [hall.eq hsucc]
        rfl
  · simp at hlen

theorem exchanges_modify {f : Message → Message} (hf : ∀ m, (f m).exchanges = m.exchanges)
    (messages : List Message) (i : Nat) : exchanges (messages.modify i f) = exchanges messages := by
  induction messages generalizing i with
  | nil => simp
  | cons m rest ih => cases i <;> simp [hf, ih]

@[simp] theorem exchanges_markLastPart (ctrl : CacheControl) (m : Message) :
    (markLastPart ctrl m).exchanges = m.exchanges := by
  unfold markLastPart
  split
  · split
    · cases m <;> rfl
    · rfl
  · rfl

/-- Cache markers change no call and no answer. -/
theorem exchanges_applyMessageCacheBreakpoints (config : PromptCacheConfig)
    (messages : List Message) :
    exchanges (applyMessageCacheBreakpoints config messages) = exchanges messages := by
  have hsystem : exchanges (markSystemEnd config messages) = exchanges messages := by
    unfold markSystemEnd
    split
    · apply exchanges_modify
      intro m
      split
      · exact exchanges_markLastPart _ m
      · rfl
    · rfl
  unfold applyMessageCacheBreakpoints markTail
  split
  · split
    · rw [exchanges_modify (exchanges_markLastPart _), hsystem]
    · exact hsystem
  · exact hsystem

/-- An adapter that contributes text only. -/
def ContextAdapter.Plain (adapter : ContextAdapter) : Prop :=
  ∀ w input messages, adapter.produce w input = .ok messages → exchanges messages = []

theorem exchanges_factoryBuild {w : World} {input : ContextInput} {adapters : List ContextAdapter}
    (hplain : ∀ adapter ∈ adapters, adapter.Plain) {messages : List Message}
    (h : factoryBuild w input adapters = .ok messages) : exchanges messages = [] := by
  induction adapters generalizing messages with
  | nil =>
    obtain rfl := Except.ok.inj h
    rfl
  | cons adapter rest ih =>
    rw [factoryBuild] at h
    cases hproduce : adapter.produce w input with
    | error e => simp [hproduce] at h
    | ok produced =>
      simp only [hproduce] at h
      cases hrest : factoryBuild w input rest with
      | error e => simp [hrest, Except.map] at h
      | ok more =>
        rw [hrest] at h
        obtain rfl := Except.ok.inj h
        rw [exchanges_append, hplain adapter (by simp) w input produced hproduce,
          ih (fun a ha => hplain a (List.mem_cons_of_mem _ ha)) hrest, List.nil_append]

/-- A stored history in which every tool message follows its call, every call is answered, and
markers and summaries have no part in either. -/
structure WellPaired (records : List MessageRecord) : Prop where
  called : Exchange.Called (exchangesOf records)
  answered : Exchange.Answered (exchangesOf records)
  flags : QuietFlags records

namespace ContextPipeline

/-- Where the history starts for a pipeline: the boundary of the latest pair, if it looks for
one. -/
def start (pipeline : ContextPipeline) (records : List MessageRecord) : Nat :=
  if pipeline.enableCompactionFilter then boundary records else 0

/-- What a pipeline keeps of the history before it looks at the budget. -/
def visible (pipeline : ContextPipeline) (records : List MessageRecord) : List MessageRecord :=
  if pipeline.enableCompactionFilter then retained records else records

/-- No call made before the two cuts, the start and the budget's, is answered after them. -/
def Seamless (pipeline : ContextPipeline) (records : List MessageRecord) : Prop :=
  let visible := pipeline.visible records
  let cut := budgetCut visible pipeline.maxHistoryTokens
  ¬ Exchange.Straddled
    (exchangesOf (records.take (pipeline.start records)) ++ exchangesOf (visible.take cut))
    (exchangesOf (visible.drop cut))

theorem exchangesOf_history (pipeline : ContextPipeline) (id : Uuid)
    (records : List MessageRecord) :
    exchangesOf (pipeline.history id records) = exchangesOf ((pipeline.visible records).drop
      (budgetCut (pipeline.visible records) pipeline.maxHistoryTokens)) := by
  unfold history visible
  split
  · obtain ⟨checkpoints, hlen, hsilent, heq⟩ := applyCompactionFilter_eq id records
    rw [heq, exchangesOf_trim hlen hsilent]
  · rw [trimByTokens_eq_drop]

theorem exchangesOf_start_append (pipeline : ContextPipeline) {records : List MessageRecord}
    (h : QuietFlags records) : exchangesOf records =
      exchangesOf (records.take (pipeline.start records)) ++
        exchangesOf (pipeline.visible records) := by
  unfold start visible
  split
  · exact exchangesOf_split h
  · simp [exchangesOf, exchanges]

theorem exchanges_assemble (pipeline : ContextPipeline) (model : String) {fragments : List Message}
    (hfragments : exchanges fragments = []) (records : List MessageRecord)
    (userMessage : Option String) (tools : Option (List ToolSpec)) :
    exchanges (pipeline.assemble model fragments records userMessage tools).messages =
      exchangesOf records := by
  have huser : exchanges (userMessage.map Message.userText).toList = [] := by
    cases userMessage <;> rfl
  have hmessages : exchanges (fragments ++ records.map recordToMessage ++
      (userMessage.map Message.userText).toList) = exchangesOf records := by
    rw [exchanges_append, exchanges_append, hfragments, huser, List.append_nil, List.nil_append]
    rfl
  unfold assemble
  cases tools <;> split <;>
    simp only [exchanges_applyMessageCacheBreakpoints, hmessages]

/-- **In the request built from a well-paired history every call is answered, and every answer
follows its call exactly when neither the latest compaction pair nor the token budget cuts
between a call and its answer**. -/
theorem build_seamless_iff (host : Host) (pipeline : ContextPipeline)
    (hadapters : ∀ adapter ∈ pipeline.adapters, adapter.Plain) (sessionId : Uuid) (model : String)
    (userMessage : Option String) (tools : Option (List ToolSpec)) (w w' : World)
    (request : ChatRequest) (hpaired : WellPaired (w.messages sessionId))
    (hrun : pipeline.build host sessionId model userMessage tools w = .ok request w') :
    CallsAnswered request.messages ∧
      (ToolsCalled request.messages ↔ pipeline.Seamless (w.messages sessionId)) := by
  obtain ⟨fragments, id, hfactory, hrequest⟩ := build_ok hrun
  have hexchanges : exchanges request.messages = exchangesOf
      ((pipeline.visible (w.messages sessionId)).drop
        (budgetCut (pipeline.visible (w.messages sessionId)) pipeline.maxHistoryTokens)) := by
    rw [hrequest,
      exchanges_assemble pipeline model (exchanges_factoryBuild hadapters hfactory),
      exchangesOf_history]
  have hsplit := pipeline.exchangesOf_start_append hpaired.flags
  generalize hvisible : pipeline.visible (w.messages sessionId) = visible at hexchanges hsplit
  have hcut := List.take_append_drop (budgetCut visible pipeline.maxHistoryTokens) visible
  rw [← hcut, exchangesOf_append, ← List.append_assoc] at hsplit
  have hanswered : Exchange.Answered (exchanges request.messages) := by
    rw [hexchanges]
    have := hpaired.answered
    rw [hsplit] at this
    exact this.suffix
  refine ⟨callsAnswered_of_exchanges hanswered, ?_⟩
  rw [toolsCalled_iff, hexchanges]
  unfold Seamless
  rw [hvisible]
  apply Exchange.called_suffix_iff
  rw [← hsplit]
  exact hpaired.called

/-- A short conversation with one tool call. -/
def lookup : List MessageRecord :=
  [messageToRecord 1 0 7 (.userText "hi"),
    messageToRecord 2 1 7 (.assistant [] [⟨"a", "echo", .null⟩]),
    messageToRecord 3 2 7 (.toolText "a" "echo" "ok"),
    messageToRecord 4 3 7 (.assistantText "done")]

theorem wellPaired_lookup : WellPaired lookup :=
  ⟨Exchange.called_pair "a", Exchange.answered_pair "a", by
    intro r hr hflag
    have hordinary : ∀ r ∈ lookup, r.isOrdinary = true := by decide
    rw [hordinary r hr] at hflag
    cases hflag⟩

def opensWithAnswer (request : ChatRequest) : Bool :=
  match request.messages with
  | .tool _ _ _ :: _ => true
  | _ => false

/-- With a budget for the last two records, the request begins with the answer. -/
theorem lookup_cut :
    ∃ request w', build .benign { maxHistoryTokens := 25 } 7 "m" none none (.ofSession 7 lookup) =
        .ok request w' ∧ WellPaired ((World.ofSession 7 lookup).messages 7) ∧
      ¬ ToolsCalled request.messages := by
  have hcheck : okAnd (fun request _ => opensWithAnswer request)
      (build .benign { maxHistoryTokens := 25 } 7 "m" none none
        (.ofSession 7 lookup)) = true := by decide +kernel
  obtain ⟨request, w', hrun, hfirst⟩ := exists_of_okAnd hcheck
  refine ⟨request, w', hrun, wellPaired_lookup, ?_⟩
  intro hcalled
  unfold opensWithAnswer at hfirst
  split at hfirst
  · next id name content after heq =>
    obtain ⟨m, hm, -⟩ := hcalled [] id name content after heq
    cases hm
  · cases hfirst

/-- Within the default budget the request holds the call and the answer. -/
theorem lookup_whole :
    ∃ request w', build .benign .new 7 "m" none none (.ofSession 7 lookup) = .ok request w' ∧
      CallsAnswered request.messages ∧ ToolsCalled request.messages := by
  have hcheck : okAnd (fun _ _ => true) (build .benign .new 7 "m" none none
      (.ofSession 7 lookup)) = true := by decide +kernel
  obtain ⟨request, w', hrun, -⟩ := exists_of_okAnd hcheck
  refine ⟨request, w', hrun, ?_⟩
  obtain ⟨hanswered, hseamless⟩ := build_seamless_iff .benign .new (by simp [ContextPipeline.new])
    7 "m" none none (.ofSession 7 lookup) w' request wellPaired_lookup hrun
  refine ⟨hanswered, hseamless.mpr ?_⟩
  have hbefore : exchangesOf (lookup.take (start .new lookup)) ++ exchangesOf
      ((visible .new lookup).take (budgetCut (visible .new lookup) 64000)) = [] := by
    have hstart : start .new lookup = 0 := by decide +kernel
    have hcut : budgetCut (visible .new lookup) 64000 = 0 := by decide +kernel
    rw [hstart, hcut]
    rfl
  rintro ⟨id, first, rest, -, hmem, -⟩
  have hnone : Exchange.call id ∈ ([] : List (Exchange String)) := by
    rw [← hbefore]
    exact hmem
  cases hnone

end ContextPipeline

/-- What the runtime and the compaction service write is quiet in this sense. -/
theorem quietFlags_of_written {records : List MessageRecord} (h : Compaction.Written records) :
    QuietFlags records := by
  induction h with
  | start => simp [QuietFlags]
  | @message messages _ id hid hnil createdAt sessionId message ih =>
    intro r hr hflag
    rcases List.mem_append.mp hr with hr | hr
    · exact ih r hr hflag
    · rw [List.mem_singleton.mp hr, isOrdinary_messageToRecord] at hflag
      cases hflag
  | @pair messages _ hne markerId summaryId hmarker hsummary hdistinct hmarkerNil hsummaryNil
      markerTime summaryTime sessionId tailStartId text ih =>
    intro r hr hflag
    rcases List.mem_append.mp hr with hr | hr
    · exact ih r hr hflag
    · rcases List.mem_pair.mp hr with rfl | rfl <;> rfl

end Context

end Behest
