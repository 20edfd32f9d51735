import Mathlib.Algebra.BigOperators.Group.List.Basic
import Mathlib.Data.List.Forall2
import Behest.Context.Pairing

/-!
# Cache markers on a request

The pipeline puts a marker on the end of the last system message, one on the conversation tail
and one on every tool. How many markers a request carries when none of its inputs has one, and
what becomes of the markers that are there already.
-/

namespace Behest

open Effect

/-- Source: `behest-adapter-anthropic/src/chat.rs:111`. -/
def maxCacheBreakpoints : Nat := 4

namespace Message

/-- How many parts of a message carry a marker. -/
def markers (m : Message) : Nat := m.content.countP fun part => part.cacheControl.isSome

@[simp] theorem content_withContent (m : Message) (content : List ContentPart) :
    (m.withContent content).content = content := by
  cases m <;> rfl

end Message

/-- A part is left as it is, or gets its first marker. -/
def ContentPart.MarkedAs (part marked : ContentPart) : Prop :=
  marked = part ∨ part.cacheControl = none ∧ ∃ ctrl, marked = part.setCacheControl ctrl

/-- Each part of a message is left as it is, or gets its first marker. -/
def Message.MarkedAs (m marked : Message) : Prop :=
  ∃ content, marked = m.withContent content ∧ List.Forall₂ ContentPart.MarkedAs m.content content

/-- A tool is left as it is, or gets its first marker. -/
def ToolSpec.MarkedAs (spec marked : ToolSpec) : Prop :=
  marked = spec ∨
    spec.cacheControl = none ∧ ∃ ctrl, marked = { spec with cacheControl := some ctrl }

/-- How many parts and tools of a request carry a marker. -/
def ChatRequest.markers (request : ChatRequest) : Nat :=
  (request.messages.map Message.markers).sum +
    request.tools.countP fun spec => spec.cacheControl.isSome

namespace Context

variable (config : PromptCacheConfig) (messages : List Message)

/-- The last system message, when it is long enough and has a part to mark. -/
def systemEnd : Option Nat :=
  (rposition Message.isSystem messages).filter fun i =>
    messages[i]?.any fun m => isSystemTokenCount m config.minSystemTokens && !m.content.isEmpty

/-- The last message that is not the user's, when the user's follow and it has a part to mark. -/
def tailEnd : Option Nat :=
  (rposition (fun m => !m.isUser) messages).filter fun i =>
    decide (2 ≤ messages.length) && decide (i < messages.length - 1) &&
      messages[i]?.any fun m => !m.content.isEmpty

/-- How many messages end a region. -/
def regionEnds : Nat :=
  match systemEnd config messages, tailEnd messages with
  | some i, some j => if i = j then 1 else 2
  | some _, none | none, some _ => 1
  | none, none => 0

variable {config messages}

theorem regionEnds_le : regionEnds config messages ≤ 2 := by
  unfold regionEnds
  split
  · split <;> omega
  all_goals omega

/-! ### One marker -/

theorem sum_map_modify {α : Type} {g : α → Nat} {f : α → α} {l : List α} {i : Nat} {a : α}
    (h : l[i]? = some a) : ((l.modify i f).map g).sum + g a = (l.map g).sum + g (f a) := by
  induction l generalizing i with
  | nil => cases h
  | cons b rest ih =>
    cases i with
    | zero =>
      obtain rfl := Option.some.inj h
      simp only [List.modify_zero_cons, List.map_cons, List.sum_cons]
      omega
    | succ i =>
      have hrest := ih h
      simp only [List.modify_succ_cons, List.map_cons, List.sum_cons]
      omega

theorem map_modify_eq {α β : Type} {g : α → β} {f : α → α} (h : ∀ a, g (f a) = g a) (l : List α)
    (i : Nat) : (l.modify i f).map g = l.map g := by
  induction l generalizing i with
  | nil => simp
  | cons b rest ih => cases i <;> simp [h, ih]

/-- Only which elements satisfy `p` matters for the last one. -/
theorem rposition_map {α : Type} (p : α → Bool) (l : List α) :
    rposition p l = rposition id (l.map p) := by
  unfold rposition
  rw [← List.map_reverse, List.findIdx?_map, List.length_map]
  rfl

theorem rposition_modify {α : Type} {p : α → Bool} {f : α → α} (h : ∀ a, p (f a) = p a)
    (l : List α) (i : Nat) : rposition p (l.modify i f) = rposition p l := by
  rw [rposition_map, map_modify_eq h, ← rposition_map]

/-- A marked message with no marker yet gets one, if it has parts. -/
theorem markers_markLastPart (ctrl : CacheControl) {m : Message} (h : m.markers = 0) :
    (markLastPart ctrl m).markers = if m.content.isEmpty then 0 else 1 := by
  rw [Message.markers, List.countP_eq_zero] at h
  unfold markLastPart
  cases hlast : m.content.getLast? with
  | none =>
    have hnil := List.getLast?_eq_none_iff.mp hlast
    simp [Message.markers, hnil]
  | some part =>
    have hsplit := List.dropLast_append_getLast? part hlast
    have hpart : part.cacheControl = none := by
      simpa using h part (List.mem_of_getLast? hlast)
    have hempty : m.content.isEmpty = false := by
      rw [← hsplit]
      simp
    have hfront : m.content.dropLast.countP (fun part => part.cacheControl.isSome) = 0 :=
      List.countP_eq_zero.mpr fun p hp => h p (List.dropLast_subset _ hp)
    have hmarked : (part.setCacheControl ctrl).cacheControl.isSome = true := by
      cases part <;> rfl
    dsimp only
    rw [hpart, hempty, Option.isNone_none, if_pos rfl, if_neg Bool.false_ne_true, Message.markers,
      Message.content_withContent, List.countP_append, hfront, List.countP_singleton, hmarked]
    rfl

/-- A message whose last part is marked is left alone. -/
theorem markLastPart_markLastPart (ctrl : CacheControl) (m : Message) :
    markLastPart ctrl (markLastPart ctrl m) = markLastPart ctrl m := by
  unfold markLastPart
  cases hlast : m.content.getLast? with
  | none => simp [hlast]
  | some part =>
    by_cases hpart : part.cacheControl.isNone = true
    · have hmarked : (part.setCacheControl ctrl).cacheControl.isNone = false := by
        cases part <;> rfl
      simp [hpart, hmarked]
    · simp [hpart, hlast]

/-! ### The markers of a request -/

@[simp] theorem isEmpty_markLastPart (ctrl : CacheControl) (m : Message) :
    (markLastPart ctrl m).content.isEmpty = m.content.isEmpty := by
  unfold markLastPart
  cases hlast : m.content.getLast? with
  | none => rfl
  | some part =>
    have hempty : m.content.isEmpty = false := by
      rw [← List.dropLast_append_getLast? part hlast]
      simp
    dsimp only
    split
    · rw [Message.content_withContent, hempty]
      simp
    · rfl

/-- A message without parts is left alone. -/
theorem markLastPart_eq_self (ctrl : CacheControl) {m : Message} (h : m.content.isEmpty = true) :
    markLastPart ctrl m = m := by
  unfold markLastPart
  rw [List.isEmpty_iff.mp h]
  rfl

theorem modify_eq_self {α : Type} {f : α → α} {l : List α} {i : Nat} {a : α} (ha : l[i]? = some a)
    (h : f a = a) : l.modify i f = l := by
  apply List.ext_getElem?
  intro j
  rw [List.getElem?_modify]
  by_cases hij : i = j
  · subst hij
    rw [ha]
    simp [h]
  · simp [hij]

variable (config) in
theorem markSystemEnd_eq : markSystemEnd config messages =
    match systemEnd config messages with
    | some i => messages.modify i (markLastPart ⟨.ephemeral, config.defaultTtl⟩)
    | none => messages := by
  unfold markSystemEnd systemEnd
  cases hlast : rposition Message.isSystem messages with
  | none => rfl
  | some i =>
    obtain ⟨m, hm, -⟩ := rposition_spec hlast
    rw [Option.filter_some, hm, Option.any_some]
    dsimp only
    by_cases hlong : isSystemTokenCount m config.minSystemTokens = true
    · by_cases hempty : m.content.isEmpty = true
      · rw [hempty, Bool.not_true, Bool.and_false, if_neg Bool.false_ne_true]
        apply modify_eq_self hm
        rw [if_pos hlong, markLastPart_eq_self _ hempty]
      · rw [if_pos (by simp [hlong, hempty])]
        apply List.ext_getElem?
        intro j
        rw [List.getElem?_modify, List.getElem?_modify]
        by_cases hij : i = j
        · subst hij
          rw [hm]
          simp [hlong]
        · simp [hij]
    · rw [if_neg (by simp [hlong])]
      apply modify_eq_self hm
      rw [if_neg hlong]

variable (config) in
theorem markTail_eq : markTail config messages =
    match tailEnd messages with
    | some i => messages.modify i (markLastPart ⟨.ephemeral, config.defaultTtl⟩)
    | none => messages := by
  unfold markTail tailEnd
  cases hlast : rposition (fun m => !m.isUser) messages with
  | none => rfl
  | some i =>
    obtain ⟨m, hm, -⟩ := rposition_spec hlast
    rw [Option.filter_some, hm, Option.any_some]
    dsimp only
    by_cases hbefore : (decide (2 ≤ messages.length) && decide (i < messages.length - 1)) = true
    · rw [hbefore, if_pos rfl, Bool.true_and]
      by_cases hempty : m.content.isEmpty = true
      · rw [hempty, Bool.not_true, if_neg Bool.false_ne_true]
        exact modify_eq_self hm (markLastPart_eq_self _ hempty)
      · rw [if_pos (by simpa using hempty)]
    · rw [Bool.not_eq_true] at hbefore
      rw [hbefore, Bool.false_and, if_neg Bool.false_ne_true, if_neg Bool.false_ne_true]

/-- A marker moves no end. -/
theorem tailEnd_modify (ctrl : CacheControl) (i : Nat) :
    tailEnd (messages.modify i (markLastPart ctrl)) = tailEnd messages := by
  have hlast : rposition (fun m => !m.isUser) (messages.modify i (markLastPart ctrl)) =
      rposition (fun m => !m.isUser) messages := rposition_modify (by simp) messages i
  unfold tailEnd
  rw [hlast, List.length_modify]
  congr 1
  funext j
  congr 1
  rw [List.getElem?_modify]
  cases messages[j]? with
  | none => rfl
  | some m => by_cases hij : i = j <;> simp [hij]

theorem of_systemEnd {i : Nat} (h : systemEnd config messages = some i) :
    ∃ m, messages[i]? = some m ∧ m.content.isEmpty = false := by
  have hkeep := (Option.filter_eq_some_iff.mp h).2
  cases hm : messages[i]? with
  | none => simp [hm] at hkeep
  | some m => exact ⟨m, rfl, by simpa [hm] using (And.right (by simpa [hm] using hkeep))⟩

theorem of_tailEnd {j : Nat} (h : tailEnd messages = some j) :
    ∃ m, messages[j]? = some m ∧ m.content.isEmpty = false := by
  have hkeep := (Option.filter_eq_some_iff.mp h).2
  cases hm : messages[j]? with
  | none => simp [hm] at hkeep
  | some m => exact ⟨m, rfl, by simpa [hm] using (And.right (by simpa [hm] using hkeep))⟩

/-- Unmarked messages get one marker for each message that ends a region. -/
theorem markers_applyMessageCacheBreakpoints (config : PromptCacheConfig)
    (h : ∀ m ∈ messages, m.markers = 0) :
    ((applyMessageCacheBreakpoints config messages).map Message.markers).sum =
      regionEnds config messages := by
  let mark := markLastPart ⟨.ephemeral, config.defaultTtl⟩
  have hsum : (messages.map Message.markers).sum = 0 := by
    apply List.sum_eq_zero
    intro n hn
    obtain ⟨m, hm, rfl⟩ := List.mem_map.mp hn
    exact h m hm
  -- one marked message that had no marker has one marker
  have hone : ∀ m, m ∈ messages → m.content.isEmpty = false → (mark m).markers = 1 := by
    intro m hm hempty
    rw [markers_markLastPart _ (h m hm), hempty]
    rfl
  have hstep : ∀ (l : List Message) i m, l[i]? = some m → m ∈ messages →
      m.content.isEmpty = false →
      ((l.modify i mark).map Message.markers).sum = (l.map Message.markers).sum + 1 := by
    intro l i m hm hmem hempty
    have hmodify := sum_map_modify (g := Message.markers) (f := mark) hm
    rw [h m hmem, hone m hmem hempty] at hmodify
    exact hmodify
  unfold applyMessageCacheBreakpoints regionEnds
  rw [markTail_eq, markSystemEnd_eq]
  cases hsystem : systemEnd config messages with
  | none =>
    cases htail : tailEnd messages with
    | none => exact hsum
    | some j =>
      obtain ⟨m, hm, hempty⟩ := of_tailEnd htail
      rw [hstep messages j m hm (List.mem_of_getElem? hm) hempty, hsum]
  | some i =>
    obtain ⟨m, hm, hempty⟩ := of_systemEnd hsystem
    have hfirst := hstep messages i m hm (List.mem_of_getElem? hm) hempty
    dsimp only
    rw [tailEnd_modify]
    cases htail : tailEnd messages with
    | none => rw [hfirst, hsum]
    | some j =>
      obtain ⟨m', hm', hempty'⟩ := of_tailEnd htail
      by_cases hij : i = j
      · -- the same message is not marked twice
        subst hij
        have htwice : (mark ∘ mark) = mark := funext fun m => markLastPart_markLastPart _ m
        dsimp only
        rw [if_pos rfl, List.modify_modify_eq, htwice, hfirst, hsum]
      · have hother : (messages.modify i mark)[j]? = some m' := by
          rw [List.getElem?_modify_ne _ _ hij, hm']
        dsimp only
        rw [if_neg hij, hstep _ j m' hother (List.mem_of_getElem? hm') hempty', hfirst, hsum]

/-! ### Markers that are there already -/

theorem markedAs_self (m : Message) : m.MarkedAs m :=
  ⟨m.content, by cases m <;> rfl, List.forall₂_same.mpr fun _ _ => .inl rfl⟩

theorem markedAs_trans {m m' m'' : Message} (h : m.MarkedAs m') (h' : m'.MarkedAs m'') :
    m.MarkedAs m'' := by
  obtain ⟨content, rfl, hparts⟩ := h
  obtain ⟨content', rfl, hparts'⟩ := h'
  rw [Message.content_withContent] at hparts'
  refine ⟨content', by cases m <;> rfl, ?_⟩
  generalize m.content = parts at hparts
  induction hparts generalizing content' with
  | nil => simpa using hparts'
  | @cons part marked parts content hpart _ ih =>
    cases hparts' with
    | @cons _ last _ content' hlast hrest =>
      refine .cons ?_ (ih content' hrest)
      rcases hpart with rfl | ⟨hnone, ctrl, rfl⟩
      · exact hlast
      · -- the first marker stays
        rcases hlast with rfl | ⟨hmarked, -⟩
        · exact .inr ⟨hnone, ctrl, rfl⟩
        · cases part <;> cases hmarked

theorem markedAs_markLastPart (ctrl : CacheControl) (m : Message) :
    m.MarkedAs (markLastPart ctrl m) := by
  unfold markLastPart
  split
  · next part hlast =>
    split
    · next hnone =>
      have hsplit := List.dropLast_append_getLast? part hlast
      refine ⟨m.content.dropLast ++ [part.setCacheControl ctrl], rfl, ?_⟩
      nth_rewrite 1 [← hsplit]
      apply List.rel_append (List.forall₂_same.mpr fun _ _ => .inl rfl)
      exact .cons (.inr ⟨by simpa using hnone, ctrl, rfl⟩) .nil
    · exact markedAs_self m
  · exact markedAs_self m

theorem forall₂_modify {ctrl : CacheControl} (l : List Message) (i : Nat) :
    List.Forall₂ Message.MarkedAs l (l.modify i (markLastPart ctrl)) := by
  induction l generalizing i with
  | nil => simp
  | cons m rest ih =>
    cases i with
    | zero =>
      rw [List.modify_zero_cons]
      exact .cons (markedAs_markLastPart ctrl m) (List.forall₂_same.mpr fun m _ => markedAs_self m)
    | succ i => exact .cons (markedAs_self m) (ih i)

/-- A part that is marked stays as it is, and no part is marked twice. -/
theorem markedAs_applyMessageCacheBreakpoints (config : PromptCacheConfig)
    (messages : List Message) :
    List.Forall₂ Message.MarkedAs messages (applyMessageCacheBreakpoints config messages) := by
  have hrefl : List.Forall₂ Message.MarkedAs messages messages :=
    List.forall₂_same.mpr fun m _ => markedAs_self m
  have hsystem : List.Forall₂ Message.MarkedAs messages (markSystemEnd config messages) := by
    rw [markSystemEnd_eq]
    split
    · exact forall₂_modify messages _
    · exact hrefl
  have htail : List.Forall₂ Message.MarkedAs (markSystemEnd config messages)
      (applyMessageCacheBreakpoints config messages) := by
    rw [applyMessageCacheBreakpoints, markTail_eq]
    split
    · exact forall₂_modify _ _
    · exact List.forall₂_same.mpr fun m _ => markedAs_self m
  generalize markSystemEnd config messages = marked at hsystem htail
  generalize applyMessageCacheBreakpoints config messages = final at htail
  clear hrefl
  induction hsystem generalizing final with
  | nil => simpa using htail
  | cons hm _ ih =>
    cases htail with
    | cons hm' hrest => exact .cons (markedAs_trans hm hm') (ih _ hrest)

theorem markedAs_applyToolCacheBreakpoints (config : PromptCacheConfig) (specs : List ToolSpec) :
    List.Forall₂ ToolSpec.MarkedAs specs (applyToolCacheBreakpoints config specs) := by
  unfold applyToolCacheBreakpoints
  rw [List.forall₂_map_right_iff, List.forall₂_same]
  intro spec _
  split
  · next hnone => exact .inr ⟨by simpa using hnone, _, rfl⟩
  · exact .inl rfl

/-- Every tool is marked. -/
theorem countP_applyToolCacheBreakpoints (config : PromptCacheConfig) (specs : List ToolSpec) :
    (applyToolCacheBreakpoints config specs).countP (fun spec => spec.cacheControl.isSome) =
      specs.length := by
  unfold applyToolCacheBreakpoints
  rw [List.countP_map, List.countP_eq_length]
  intro spec _
  cases hctrl : spec.cacheControl <;> simp [hctrl]

/-! ### What a request is made of -/

theorem estimateRecordsTokens_map {f : MessageRecord → MessageRecord}
    (hf : ∀ r, estimateRecordTokens (f r) = estimateRecordTokens r) (records : List MessageRecord) :
    estimateRecordsTokens (records.map f) = estimateRecordsTokens records := by
  induction records with
  | nil => rfl
  | cons r rest ih => simp [hf, ih]

/-- Where the budget cuts depends on the estimates only. -/
theorem trimByTokens_map {f : MessageRecord → MessageRecord}
    (hf : ∀ r, estimateRecordTokens (f r) = estimateRecordTokens r) (records : List MessageRecord)
    (maxTokens : Nat) :
    trimByTokens (records.map f) maxTokens = (trimByTokens records maxTokens).map f := by
  rw [trimByTokens_eq_drop, trimByTokens_eq_drop, List.map_drop]
  unfold budgetCut
  simp only [List.length_map, ← List.map_drop, estimateRecordsTokens_map hf]

/-- A record without its identifier. -/
def anonymous (record : MessageRecord) : MessageRecord := { record with id := Uuid.nil }

theorem map_anonymous_applyCompactionFilter (id id' : Uuid) (records : List MessageRecord) :
    (applyCompactionFilter id records).map anonymous =
      (applyCompactionFilter id' records).map anonymous := by
  unfold applyCompactionFilter
  split
  · rfl
  · unfold filterAt
    split
    · split
      · rfl
      · unfold checkpointOf
        split <;> simp [anonymous, checkpoint, MessageRecord.new]
    · rfl

namespace ContextPipeline

variable (pipeline : ContextPipeline)

/-- The identifier drawn for a checkpoint is not part of a message. -/
theorem messages_history (id id' : Uuid) (records : List MessageRecord) :
    (pipeline.history id records).map recordToMessage =
      (pipeline.history id' records).map recordToMessage := by
  have hforget : ∀ records : List MessageRecord,
      records.map recordToMessage = (records.map anonymous).map recordToMessage := by
    intro records
    rw [List.map_map]
    rfl
  have htrim : ∀ id, (pipeline.history id records).map anonymous = trimByTokens
      ((if pipeline.enableCompactionFilter then applyCompactionFilter id records else records).map
        anonymous) pipeline.maxHistoryTokens :=
    fun id => (trimByTokens_map (f := anonymous) (fun _ => rfl) _ _).symm
  rw [hforget, hforget (pipeline.history id' records), htrim, htrim]
  split
  · rw [map_anonymous_applyCompactionFilter id id']
  · rfl

/-- The messages of a request before any marker is placed. -/
def composed (fragments : List Message) (records : List MessageRecord)
    (userMessage : Option String) : List Message :=
  fragments ++ (pipeline.history Uuid.nil records).map recordToMessage
    ++ (userMessage.map Message.userText).toList

/-- No adapter's message, no stored message and no tool has a marker. -/
structure Unmarked (fragments : List Message) (records : List MessageRecord)
    (tools : List ToolSpec) : Prop where
  fragments : ∀ m ∈ fragments, m.markers = 0
  records : ∀ r ∈ records, (recordToMessage r).markers = 0
  tools : ∀ spec ∈ tools, spec.cacheControl = none

variable {pipeline} in
theorem Unmarked.composed {fragments : List Message} {records : List MessageRecord}
    {tools : List ToolSpec} (h : Unmarked fragments records tools) (userMessage : Option String) :
    ∀ m ∈ pipeline.composed fragments records userMessage, m.markers = 0 := by
  intro m hm
  unfold ContextPipeline.composed at hm
  rw [List.mem_append, List.mem_append, List.mem_map] at hm
  rcases hm with (hm | ⟨r, hr, rfl⟩) | hm
  · exact h.fragments m hm
  · have hkept : r ∈ if pipeline.enableCompactionFilter then applyCompactionFilter Uuid.nil records
        else records := by
      unfold history at hr
      rw [trimByTokens_eq_drop] at hr
      exact List.mem_of_mem_drop hr
    split at hkept
    · rcases mem_applyCompactionFilter hkept with ⟨marker, summary, text, rfl⟩ | hr
      · rfl
      · exact h.records r hr
    · exact h.records r hkept
  · cases userMessage with
    | none => cases hm
    | some text =>
      obtain rfl := List.mem_singleton.mp hm
      rfl

/-- What is promised of the markers of a request: none is added to what has one, and unmarked
inputs get three at most, which a provider allows. -/
structure Allowance (fragments : List Message) (records : List MessageRecord)
    (userMessage : Option String) (tools : List ToolSpec) (request : ChatRequest) : Prop where
  onMessages :
    List.Forall₂ Message.MarkedAs (pipeline.composed fragments records userMessage) request.messages
  onTools : List.Forall₂ ToolSpec.MarkedAs tools request.tools
  three : Unmarked fragments records tools → request.markers ≤ 3
  provider : Unmarked fragments records tools → request.markers ≤ maxCacheBreakpoints

/-- A request is the composed messages and the tools, with the markers of the strategy. -/
theorem assemble_history (id : Uuid) (model : String) (fragments : List Message)
    (records : List MessageRecord) (userMessage : Option String) (tools : Option (List ToolSpec)) :
    pipeline.assemble model fragments (pipeline.history id records) userMessage tools =
      let messages := pipeline.composed fragments records userMessage
      let specs := tools.getD []
      if pipeline.marksCache then
        ⟨model, applyMessageCacheBreakpoints pipeline.cacheStrategy messages,
          applyToolCacheBreakpoints pipeline.cacheStrategy specs, .auto⟩
      else ⟨model, messages, specs, .auto⟩ := by
  unfold assemble composed
  rw [pipeline.messages_history id Uuid.nil]
  cases tools <;> cases pipeline.marksCache <;> rfl

/-- The messages of a request are the composed ones, up to markers. -/
theorem markedAs_assemble (id : Uuid) (model : String) (fragments : List Message)
    (records : List MessageRecord) (userMessage : Option String) (tools : Option (List ToolSpec)) :
    List.Forall₂ Message.MarkedAs (pipeline.composed fragments records userMessage)
      (pipeline.assemble model fragments (pipeline.history id records) userMessage
        tools).messages := by
  rw [assemble_history]
  dsimp only
  split
  · exact markedAs_applyMessageCacheBreakpoints _ _
  · exact List.forall₂_same.mpr fun m _ => markedAs_self m

/-- The markers of a request from unmarked inputs. -/
theorem markers_assemble {fragments : List Message} {records : List MessageRecord}
    {tools : Option (List ToolSpec)} (h : Unmarked fragments records (tools.getD [])) (id : Uuid)
    (model : String) (userMessage : Option String) :
    (pipeline.assemble model fragments (pipeline.history id records) userMessage tools).markers =
      if pipeline.marksCache then
        regionEnds pipeline.cacheStrategy (pipeline.composed fragments records userMessage) +
          (tools.getD []).length
      else 0 := by
  have hmessages : ∀ m ∈ pipeline.composed fragments records userMessage, m.markers = 0 :=
    h.composed userMessage
  rw [assemble_history]
  cases pipeline.marksCache with
  | true =>
    simp only [if_true, ChatRequest.markers]
    rw [markers_applyMessageCacheBreakpoints _ hmessages, countP_applyToolCacheBreakpoints]
  | false =>
    have hsum :
        ((pipeline.composed fragments records userMessage).map Message.markers).sum = 0 := by
      apply List.sum_eq_zero
      intro n hn
      obtain ⟨m, hm, rfl⟩ := List.mem_map.mp hn
      exact hmessages m hm
    have hcount : (tools.getD []).countP (fun spec => spec.cacheControl.isSome) = 0 := by
      rw [List.countP_eq_zero]
      intro spec hspec
      simp [h.tools spec hspec]
    simp [ChatRequest.markers, hsum, hcount]

/-- **A request has the markers its strategy promises exactly when the messages that end a
region and the tools are three at most: every tool is marked, not the last one only**. -/
theorem build_allowance_iff (host : Host) (pipeline : ContextPipeline) (sessionId : Uuid)
    (model : String) (userMessage : Option String) (tools : Option (List ToolSpec)) (w w' : World)
    (fragments : List Message) (request : ChatRequest)
    (hfragments : factoryBuild w ⟨userMessage, some (Uuid.display sessionId)⟩ pipeline.adapters =
      .ok fragments)
    (hrun : pipeline.build host sessionId model userMessage tools w = .ok request w') :
    pipeline.Allowance fragments (w.messages sessionId) userMessage (tools.getD []) request ↔
      (Unmarked fragments (w.messages sessionId) (tools.getD []) → pipeline.marksCache = true →
        regionEnds pipeline.cacheStrategy
          (pipeline.composed fragments (w.messages sessionId) userMessage) +
            (tools.getD []).length ≤ 3) := by
  obtain ⟨fragments', id, hfactory, rfl⟩ := build_ok hrun
  obtain rfl : fragments = fragments' := Except.ok.inj (hfragments.symm.trans hfactory)
  generalize w.messages sessionId = records
  constructor
  · intro hallowance hunmarked hmarks
    have hthree := hallowance.three hunmarked
    rwa [markers_assemble pipeline hunmarked, if_pos hmarks] at hthree
  · intro hfew
    have hthree : Unmarked fragments records (tools.getD []) →
        (pipeline.assemble model fragments (pipeline.history id records) userMessage
          tools).markers ≤ 3 := by
      intro hunmarked
      rw [markers_assemble pipeline hunmarked]
      split
      · next hmarks => exact hfew hunmarked hmarks
      · omega
    refine ⟨pipeline.markedAs_assemble .., ?_, hthree,
      fun hunmarked => Nat.le_succ_of_le (hthree hunmarked)⟩
    rw [assemble_history]
    dsimp only
    split
    · exact markedAs_applyToolCacheBreakpoints _ _
    · exact List.forall₂_same.mpr fun _ _ => .inl rfl

/-- A tool without a marker. -/
def echoSpec : ToolSpec := ⟨"echo", "", .null, none⟩

/-- One tool and a short conversation are within the allowance. -/
theorem one_tool_allowed :
    ∃ request w', build .benign .new 7 "m" (some "next") (some [echoSpec]) (.ofSession 7 lookup) =
        .ok request w' ∧ request.markers ≤ 3 := by
  have hcheck : okAnd (fun _ _ => true) (build .benign .new 7 "m" (some "next") (some [echoSpec])
      (.ofSession 7 lookup)) = true := by decide +kernel
  obtain ⟨request, w', hrun, -⟩ := exists_of_okAnd hcheck
  refine ⟨request, w', hrun, ?_⟩
  have hunmarked : Unmarked [] ((World.ofSession 7 lookup).messages 7) [echoSpec] :=
    ⟨by simp, by decide +kernel, by simp [echoSpec]⟩
  have hends : regionEnds ContextPipeline.new.cacheStrategy
      (composed .new [] ((World.ofSession 7 lookup).messages 7) (some "next")) ≤ 2 := regionEnds_le
  have hallowance := (build_allowance_iff .benign .new 7 "m" (some "next") (some [echoSpec])
    (.ofSession 7 lookup) w' [] request rfl hrun).mpr fun _ _ => by
      simp only [Option.getD_some, List.length_singleton]
      omega
  exact hallowance.three hunmarked

/-- Five tools alone exceed what a provider allows. -/
theorem five_tools_exceed :
    ∃ request w', build .benign .new 7 "m" (some "hi") (some (List.replicate 5 echoSpec))
        (.ofSession 7 []) = .ok request w' ∧
      Unmarked [] ((World.ofSession 7 []).messages 7) (List.replicate 5 echoSpec) ∧
      ¬ Allowance .new [] ((World.ofSession 7 []).messages 7) (some "hi")
        (List.replicate 5 echoSpec) request := by
  have hcheck : okAnd (fun request _ => request.markers == 5) (build .benign .new 7 "m"
      (some "hi") (some (List.replicate 5 echoSpec)) (.ofSession 7 [])) = true := by
    decide +kernel
  obtain ⟨request, w', hrun, hfive⟩ := exists_of_okAnd hcheck
  have hunmarked : Unmarked [] ((World.ofSession 7 []).messages 7) (List.replicate 5 echoSpec) :=
    ⟨by simp, by decide +kernel, by simp [echoSpec]⟩
  refine ⟨request, w', hrun, hunmarked, ?_⟩
  intro hallowance
  have hthree := hallowance.three hunmarked
  rw [beq_iff_eq] at hfive
  omega

end ContextPipeline

end Context

end Behest
