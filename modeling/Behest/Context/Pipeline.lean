import Behest.Context.Filter
import Behest.Runtime.Calls

/-!
# The context pipeline

`behest-runtime/src/context.rs` over `behest-context/src/factory.rs`: a chat request is the
output of the adapters, the filtered and trimmed history of the session and the current
user message, with cache markers placed on some of it.
-/

namespace Behest.Context

open Effect

/-- Source: `behest-context/src/factory.rs:20–28`. -/
structure ContextInput where
  userMessage : Option String
  sessionId : Option String

/-- Source: `factory.rs:136–144`. -/
structure ContextAdapter where
  name : String
  produce : World → ContextInput → Except ContextError (List Message)

/-- The messages of all adapters, in registration order. Source: `factory.rs:276–292`. -/
def factoryBuild (w : World) (input : ContextInput) :
    List ContextAdapter → Except ContextError (List Message)
  | [] => .ok []
  | adapter :: rest =>
      match adapter.produce w input with
      | .error e => .error (.adapterFailed adapter.name e.display)
      | .ok messages => (factoryBuild w input rest).map (messages ++ ·)

/-! ### Cache markers -/

/-- Index of the last element that satisfies `p`. -/
def rposition {α : Type} (p : α → Bool) (l : List α) : Option Nat :=
  (l.reverse.findIdx? p).map fun i => l.length - 1 - i

/-- Mark the last part that has no marker yet. -/
def markLastPart (ctrl : CacheControl) (message : Message) : Message :=
  match message.content.getLast? with
  | some part =>
      if part.cacheControl.isNone then
        message.withContent (message.content.dropLast ++ [part.setCacheControl ctrl])
      else message
  | none => message

/-- Source: `context.rs:281–286`. -/
def isSystemTokenCount (message : Message) (minTokens : Nat) : Bool :=
  message.isSystem && decide (minTokens ≤ estimateMessageTokens message)

/-- The marker at the end of the last long enough system message.
Source: `context.rs:306–319`. -/
def markSystemEnd (config : PromptCacheConfig) (messages : List Message) : List Message :=
  match rposition Message.isSystem messages with
  | some i => messages.modify i fun m =>
      if isSystemTokenCount m config.minSystemTokens then
        markLastPart ⟨.ephemeral, config.defaultTtl⟩ m
      else m
  | none => messages

/-- The marker on the last message before the trailing user turn.
Source: `context.rs:321–332`. -/
def markTail (config : PromptCacheConfig) (messages : List Message) : List Message :=
  match rposition (fun m => !m.isUser) messages with
  | some i =>
      if 2 ≤ messages.length && i < messages.length - 1 then
        messages.modify i (markLastPart ⟨.ephemeral, config.defaultTtl⟩)
      else messages
  | none => messages

/-- Source: `context.rs:296–333`. -/
def applyMessageCacheBreakpoints (config : PromptCacheConfig) (messages : List Message) :
    List Message :=
  markTail config (markSystemEnd config messages)

/-- Source: `context.rs:336–346`. -/
def applyToolCacheBreakpoints (config : PromptCacheConfig) (specs : List ToolSpec) :
    List ToolSpec :=
  specs.map fun spec =>
    if spec.cacheControl.isNone then
      { spec with cacheControl := some ⟨.ephemeral, config.defaultTtl⟩ }
    else spec

/-! ### The pipeline -/

/-- `build` does not read `maxHistoryMessages`. Source: `context.rs:30–36`. -/
structure ContextPipeline where
  adapters : List ContextAdapter := []
  maxHistoryMessages : Nat := 50
  maxHistoryTokens : Nat := 64000
  enableCompactionFilter : Bool := true
  cacheStrategy : PromptCacheConfig := {}

namespace ContextPipeline

/-- Source: `context.rs:41–49`. -/
def new : ContextPipeline := {}

/-- Both kinds of automatic markers are on. -/
def marksCache (pipeline : ContextPipeline) : Bool :=
  pipeline.cacheStrategy.enabled && pipeline.cacheStrategy.autoBreakpoints

/-- The records of the history that go into a request; `id` is drawn for a checkpoint. -/
def history (pipeline : ContextPipeline) (id : Uuid) (records : List MessageRecord) :
    List MessageRecord :=
  trimByTokens
    (if pipeline.enableCompactionFilter then applyCompactionFilter id records else records)
    pipeline.maxHistoryTokens

/-- The request for given adapter output and history. -/
def assemble (pipeline : ContextPipeline) (model : String) (fragments : List Message)
    (records : List MessageRecord) (userMessage : Option String) (tools : Option (List ToolSpec)) :
    ChatRequest :=
  let messages := fragments ++ records.map recordToMessage
    ++ (userMessage.map Message.userText).toList
  let messages :=
    if pipeline.marksCache then applyMessageCacheBreakpoints pipeline.cacheStrategy messages
    else messages
  match tools with
  | some specs =>
      let specs :=
        if pipeline.marksCache then applyToolCacheBreakpoints pipeline.cacheStrategy specs
        else specs
      ⟨model, messages, specs, .auto⟩
  | none => ⟨model, messages, [], .auto⟩

/-- Source: `context.rs:67–70`. -/
def withMaxHistory (pipeline : ContextPipeline) (max : Nat) : ContextPipeline :=
  { pipeline with maxHistoryMessages := max }

/-- Source: `context.rs:137–199`. -/
def build (host : Host) (pipeline : ContextPipeline) (sessionId : Uuid) (model : String)
    (userMessage : Option String) (tools : Option (List ToolSpec)) : M ChatRequest := do
  let input : ContextInput := ⟨userMessage, some (Uuid.display sessionId)⟩
  match factoryBuild (← get) input pipeline.adapters with
  | .error e => fail (.context (.adapterFailed "pipeline" e.display))
  | .ok fragments =>
      let records ← host.listMessages sessionId
      let id ← host.newId
      return pipeline.assemble model fragments (pipeline.history id records) userMessage tools

/-- A request is assembled from the adapters' output and the stored history; only the
identifier of a checkpoint is drawn. -/
theorem build_ok {host : Host} {pipeline : ContextPipeline} {sessionId : Uuid} {model : String}
    {userMessage : Option String} {tools : Option (List ToolSpec)} {w w' : World}
    {request : ChatRequest}
    (hrun : pipeline.build host sessionId model userMessage tools w = .ok request w') :
    ∃ fragments id,
      factoryBuild w ⟨userMessage, some (Uuid.display sessionId)⟩ pipeline.adapters =
        .ok fragments ∧
      request = pipeline.assemble model fragments (pipeline.history id (w.messages sessionId))
        userMessage tools := by
  have hbuild : wp (pipeline.build host sessionId model userMessage tools)
      (fun request _ => ∃ fragments id,
        factoryBuild w ⟨userMessage, some (Uuid.display sessionId)⟩ pipeline.adapters =
          .ok fragments ∧
        request = pipeline.assemble model fragments (pipeline.history id (w.messages sessionId))
          userMessage tools) (Fails fun _ _ => True) w := by
    unfold build
    simp only [wp_bind, wp_get]
    cases hfactory : factoryBuild w ⟨userMessage, some (Uuid.display sessionId)⟩
        pipeline.adapters with
    | error e => trivial
    | ok fragments =>
      simp only [wp_bind, Host.listMessages]
      apply wp_onSession (fun _ => trivial)
      intro _
      rw [wp_get]
      apply wp_newId
      intro id
      rw [World.messages_apply _ _ _ (by simp), wp_pure]
      exact ⟨fragments, id, rfl, rfl⟩
  exact wp_ok hbuild hrun

end ContextPipeline

/-! ### Markers leave user messages alone -/

theorem rposition_spec {α : Type} {p : α → Bool} {l : List α} {i : Nat}
    (h : rposition p l = some i) : ∃ a, l[i]? = some a ∧ p a = true := by
  unfold rposition at h
  rw [Option.map_eq_some_iff] at h
  obtain ⟨j, hj, rfl⟩ := h
  obtain ⟨hlt, hp, -⟩ := List.findIdx?_eq_some_iff_getElem.mp hj
  rw [List.getElem_reverse] at hp
  rw [List.length_reverse] at hlt
  exact ⟨_, List.getElem?_eq_getElem (by omega), hp⟩

/-- Changing one element that `p` rejects into another one leaves the count alone. -/
theorem countP_modify {α : Type} {p : α → Bool} {f : α → α} {l : List α} {i : Nat} {a : α}
    (ha : l[i]? = some a) (hp : p a = false) (hf : p (f a) = false) :
    (l.modify i f).countP p = l.countP p := by
  induction l generalizing i with
  | nil => simp at ha
  | cons b rest ih =>
    cases i with
    | zero =>
      obtain rfl : b = a := by simpa using ha
      simp [hp, hf]
    | succ i =>
      rw [List.modify_succ_cons, List.countP_cons, List.countP_cons, ih (by simpa using ha)]

@[simp] theorem isUser_markLastPart (ctrl : CacheControl) (m : Message) :
    (markLastPart ctrl m).isUser = m.isUser := by
  unfold markLastPart
  split
  · split
    · cases m <;> rfl
    · rfl
  · rfl

variable {p : Message → Bool} (hp : ∀ m, p m = true → m.isUser = true)
include hp

private theorem reject_of_not_user {m : Message} (h : m.isUser = false) : p m = false := by
  by_contra hne
  rw [hp m (by simpa using hne)] at h
  cases h

theorem countP_markSystemEnd (config : PromptCacheConfig) (messages : List Message) :
    (markSystemEnd config messages).countP p = messages.countP p := by
  unfold markSystemEnd
  split
  · next i hi =>
    obtain ⟨m, hm, hsys⟩ := rposition_spec hi
    have huser : m.isUser = false := by cases m <;> first | rfl | cases hsys
    apply countP_modify hm (reject_of_not_user hp huser)
    split
    · exact reject_of_not_user hp (by simpa using huser)
    · exact reject_of_not_user hp huser
  · rfl

theorem countP_markTail (config : PromptCacheConfig) (messages : List Message) :
    (markTail config messages).countP p = messages.countP p := by
  unfold markTail
  split
  · next i hi =>
    obtain ⟨m, hm, hnot⟩ := rposition_spec hi
    have huser : m.isUser = false := by simpa using hnot
    split
    · exact countP_modify hm (reject_of_not_user hp huser)
        (reject_of_not_user hp (by simpa using huser))
    · rfl
  · rfl

/-- No user message is changed by the markers. -/
theorem countP_applyMessageCacheBreakpoints (config : PromptCacheConfig)
    (messages : List Message) :
    (applyMessageCacheBreakpoints config messages).countP p = messages.countP p := by
  rw [applyMessageCacheBreakpoints, countP_markTail hp, countP_markSystemEnd hp]

/-- A request holds the user messages of its parts. -/
theorem countP_assemble (pipeline : ContextPipeline) (model : String) (fragments : List Message)
    (records : List MessageRecord) (userMessage : Option String) (tools : Option (List ToolSpec)) :
    (pipeline.assemble model fragments records userMessage tools).messages.countP p =
      fragments.countP p + (records.map recordToMessage).countP p
        + (userMessage.map Message.userText).toList.countP p := by
  have hmarked : ∀ messages : List Message,
      (if pipeline.marksCache then applyMessageCacheBreakpoints pipeline.cacheStrategy messages
        else messages).countP p = messages.countP p := by
    intro messages
    split
    · exact countP_applyMessageCacheBreakpoints hp _ _
    · rfl
  unfold ContextPipeline.assemble
  cases tools <;> simp only [hmarked, List.countP_append]

end Behest.Context
