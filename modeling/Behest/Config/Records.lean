import Behest.Config.Placeholder
import Behest.Json.Layered

/-!
# Configuration records

The sections of an `AgentConfig` with their defaults, and how each of them is written and read
(`behest/src/config/`). The features `openai`, `anthropic`, `rag` and `queue` are compiled in.
-/

namespace Behest

/-- Source: `config/runtime.rs:31–67`. -/
structure RuntimePolicyConfig where
  maxIterations : UInt64 := 10
  maxTokens : Option UInt64 := none
  maxToolConcurrency : UInt64 := 4
  toolTimeoutSecs : UInt64 := 30
  providerTimeoutSecs : UInt64 := 60
  continueOnToolFailure : Bool := true
  retryOnProviderError : Bool := true
  maxRetries : UInt64 := 2

/-- Source: `config/runtime.rs:10–29`. -/
structure RuntimeConfig where
  policy : RuntimePolicyConfig := {}
  maxHistoryMessages : UInt64 := 50
  eventChannelCapacity : UInt64 := 256
  snapshotDir : Option String := none

/-- Source: `config/provider.rs:11–21`. -/
inductive ProviderType where
  | openAi
  | anthropic
deriving DecidableEq

/-- Source: `config/provider.rs:29–72`. -/
structure ProviderConfig where
  providerType : Option ProviderType := none
  baseUrl : String
  model : Option String := none
  models : List String := []
  compactionModel : Option String := none
  apiKey : Option String := none
  organization : Option String := none
  timeoutSecs : UInt64 := 60
  connectTimeoutSecs : UInt64 := 10
  maxRetries : UInt64 := 2

/-- Source: `config/store.rs:6–20`. -/
inductive StoreBackend where
  | memory
  | redis
  | sql
  | mongo
  | surreal
deriving DecidableEq

/-- Source: `config/store.rs:27–75`. -/
structure StoreConfig where
  sessionBackend : StoreBackend := .memory
  executionBackend : StoreBackend := .memory
  runBackend : StoreBackend := .memory
  embeddingBackend : StoreBackend := .memory
  artifactBackend : StoreBackend := .memory
  redisUrl : Option String := none
  sqlUrl : Option String := none
  mongoUrl : Option String := none
  surrealUrl : Option String := none
  qdrantUrl : Option String := none
  qdrantCollection : String := ""
  qdrantDimensions : UInt64 := 1536

/-- Source: `config/rag.rs:11–32`. -/
structure RagConfig where
  providerId : String
  model : String
  limit : UInt64 := 5
  template : String :=
    "Use the following retrieved context to inform your response:\n\n\x7bcontext\x7d"
  metadataField : String := "text"

/-- Source: `config/queue.rs:6–14`. -/
inductive QueueBackend where
  | nats
  | redisStreams
deriving DecidableEq

/-- Source: `config/queue.rs:20–40`. -/
structure QueueConfig where
  backend : QueueBackend
  natsUrl : Option String := none
  natsSubject : String := "behest.events"
  redisUrl : Option String := none
  redisStreamKey : String := "behest:events"

/-- Source: `config/component.rs:60–88`. -/
structure ComponentConfig where
  name : String
  kind : String
  dependsOn : List String := []
  required : Bool := false
  config : Value := .null
  tags : List String := []

/-- Source: `config/mod.rs:63–90`. -/
structure AgentConfig where
  runtime : RuntimeConfig := {}
  providers : Dict ProviderConfig := .empty
  stores : StoreConfig := {}
  rag : Option RagConfig := none
  queue : Option QueueConfig := none
  components : List ComponentConfig := []

/-- How a configuration is written and read, by the substitution of its placeholders. -/
abbrev ConfigSection (env : String → Option String) (α : Type) := Section (substituteString env) α

variable (env : String → Option String)

def RuntimePolicyConfig.equiv :
    UInt64 × Option UInt64 × UInt64 × UInt64 × UInt64 × Bool × Bool × UInt64 × Unit ≃
      RuntimePolicyConfig where
  toFun := fun (a, b, c, d, e, f, g, h, ()) => ⟨a, b, c, d, e, f, g, h⟩
  invFun r := (r.maxIterations, r.maxTokens, r.maxToolConcurrency, r.toolTimeoutSecs,
    r.providerTimeoutSecs, r.continueOnToolFailure, r.retryOnProviderError, r.maxRetries, ())
  left_inv _ := rfl
  right_inv _ := rfl

def RuntimePolicyConfig.layout : ConfigSection env RuntimePolicyConfig :=
  .record (.setting "max_iterations" (some 10) .u64 <|
    .setting "max_tokens" (some none) (.nullable .u64 nofun) <|
    .setting "max_tool_concurrency" (some 4) .u64 <|
    .setting "tool_timeout_secs" (some 30) .u64 <|
    .setting "provider_timeout_secs" (some 60) .u64 <|
    .setting "continue_on_tool_failure" (some true) .bool <|
    .setting "retry_on_provider_error" (some true) .bool <|
    .setting "max_retries" (some 2) .u64 .done) equiv

theorem RuntimePolicyConfig.rigid : (layout env).layers.Rigid := by
  refine Layered.record_rigid ?_ _
  repeat apply Settings.setting_rigid
  exact Layered.Fields.done_rigid

def RuntimeConfig.equiv :
    RuntimePolicyConfig × UInt64 × UInt64 × Option String × Unit ≃ RuntimeConfig where
  toFun := fun (a, b, c, d, ()) => ⟨a, b, c, d⟩
  invFun r := (r.policy, r.maxHistoryMessages, r.eventChannelCapacity, r.snapshotDir, ())
  left_inv _ := rfl
  right_inv _ := rfl

def RuntimeConfig.layout : ConfigSection env RuntimeConfig :=
  .record (.nested "policy" (some {}) (RuntimePolicyConfig.layout env)
      ((RuntimePolicyConfig.rigid env).total _) <|
    .setting "max_history_messages" (some 50) .u64 <|
    .setting "event_channel_capacity" (some 256) .u64 <|
    .setting "snapshot_dir" (some none) (.nullable .string nofun) .done) equiv

theorem RuntimeConfig.rigid : (layout env).layers.Rigid := by
  refine Layered.record_rigid (Settings.nested_rigid (RuntimePolicyConfig.rigid env) ?_) _
  repeat apply Settings.setting_rigid
  exact Layered.Fields.done_rigid

namespace ProviderType

def name : ProviderType → String
  | openAi => "openai"
  | anthropic => "anthropic"

def ofName : String → Option ProviderType
  | "openai" => some openAi
  | "anthropic" => some anthropic
  | _ => none

def codec : Codec (substituteString env) ProviderType :=
  .variant name ofName (fun a => by cases a <;> rfl) fun a =>
    substituteString_of_no_dollar env (by cases a <;> decide)

end ProviderType

def ProviderConfig.equiv :
    Option ProviderType × String × Option String × List String × Option String × Option String ×
      Option String × UInt64 × UInt64 × UInt64 × Unit ≃ ProviderConfig where
  toFun := fun (a, b, c, d, e, f, g, h, i, j, ()) => ⟨a, b, c, d, e, f, g, h, i, j⟩
  invFun r := (r.providerType, r.baseUrl, r.model, r.models, r.compactionModel, r.apiKey,
    r.organization, r.timeoutSecs, r.connectTimeoutSecs, r.maxRetries, ())
  left_inv _ := rfl
  right_inv _ := rfl

def ProviderConfig.layout : ConfigSection env ProviderConfig :=
  .record (.setting "provider_type" (some none) (.nullable (ProviderType.codec env) nofun) <|
    .setting "base_url" none .string <|
    .setting "model" (some none) (.nullable .string nofun) <|
    .setting "models" (some []) (.list .string) <|
    .setting "compaction_model" (some none) (.nullable .string nofun) <|
    .setting "api_key" (some none) (.nullable .string nofun) <|
    .setting "organization" (some none) (.nullable .string nofun) <|
    .setting "timeout_secs" (some 60) .u64 <|
    .setting "connect_timeout_secs" (some 10) .u64 <|
    .setting "max_retries" (some 2) .u64 .done) equiv

namespace StoreBackend

def name : StoreBackend → String
  | memory => "memory"
  | redis => "redis"
  | sql => "sql"
  | mongo => "mongo"
  | surreal => "surreal"

def ofName : String → Option StoreBackend
  | "memory" => some memory
  | "redis" => some redis
  | "sql" => some sql
  | "mongo" => some mongo
  | "surreal" => some surreal
  | _ => none

def codec : Codec (substituteString env) StoreBackend :=
  .variant name ofName (fun a => by cases a <;> rfl) fun a =>
    substituteString_of_no_dollar env (by cases a <;> decide)

end StoreBackend

def StoreConfig.equiv :
    StoreBackend × StoreBackend × StoreBackend × StoreBackend × StoreBackend × Option String ×
      Option String × Option String × Option String × Option String × String × UInt64 × Unit ≃
      StoreConfig where
  toFun := fun (a, b, c, d, e, f, g, h, i, j, k, l, ()) => ⟨a, b, c, d, e, f, g, h, i, j, k, l⟩
  invFun r := (r.sessionBackend, r.executionBackend, r.runBackend, r.embeddingBackend,
    r.artifactBackend, r.redisUrl, r.sqlUrl, r.mongoUrl, r.surrealUrl, r.qdrantUrl,
    r.qdrantCollection, r.qdrantDimensions, ())
  left_inv _ := rfl
  right_inv _ := rfl

def StoreConfig.layout : ConfigSection env StoreConfig :=
  .record (.setting "session_backend" (some .memory) (StoreBackend.codec env) <|
    .setting "execution_backend" (some .memory) (StoreBackend.codec env) <|
    .setting "run_backend" (some .memory) (StoreBackend.codec env) <|
    .setting "embedding_backend" (some .memory) (StoreBackend.codec env) <|
    .setting "artifact_backend" (some .memory) (StoreBackend.codec env) <|
    .setting "redis_url" (some none) (.nullable .string nofun) <|
    .setting "sql_url" (some none) (.nullable .string nofun) <|
    .setting "mongo_url" (some none) (.nullable .string nofun) <|
    .setting "surreal_url" (some none) (.nullable .string nofun) <|
    .setting "qdrant_url" (some none) (.nullable .string nofun) <|
    .setting "qdrant_collection" (some "") .string <|
    .setting "qdrant_dimensions" (some 1536) .u64 .done) equiv

theorem StoreConfig.rigid : (layout env).layers.Rigid := by
  refine Layered.record_rigid ?_ _
  repeat apply Settings.setting_rigid
  exact Layered.Fields.done_rigid

def RagConfig.equiv : String × String × UInt64 × String × String × Unit ≃ RagConfig where
  toFun := fun (a, b, c, d, e, ()) => ⟨a, b, c, d, e⟩
  invFun r := (r.providerId, r.model, r.limit, r.template, r.metadataField, ())
  left_inv _ := rfl
  right_inv _ := rfl

def RagConfig.layout : ConfigSection env RagConfig :=
  .record (.setting "provider_id" none .string <|
    .setting "model" none .string <|
    .setting "limit" (some 5) .u64 <|
    .setting "template"
      (some "Use the following retrieved context to inform your response:\n\n\x7bcontext\x7d")
      .string <|
    .setting "metadata_field" (some "text") .string .done) equiv

namespace QueueBackend

def name : QueueBackend → String
  | nats => "nats"
  | redisStreams => "redis_streams"

/-- `redis` is another name of `redis_streams`. -/
def ofName : String → Option QueueBackend
  | "nats" => some nats
  | "redis_streams" | "redis" => some redisStreams
  | _ => none

def codec : Codec (substituteString env) QueueBackend :=
  .variant name ofName (fun a => by cases a <;> rfl) fun a =>
    substituteString_of_no_dollar env (by cases a <;> decide)

end QueueBackend

def QueueConfig.equiv :
    QueueBackend × Option String × String × Option String × String × Unit ≃ QueueConfig where
  toFun := fun (a, b, c, d, e, ()) => ⟨a, b, c, d, e⟩
  invFun r := (r.backend, r.natsUrl, r.natsSubject, r.redisUrl, r.redisStreamKey, ())
  left_inv _ := rfl
  right_inv _ := rfl

def QueueConfig.layout : ConfigSection env QueueConfig :=
  .record (.setting "backend" none (QueueBackend.codec env) <|
    .setting "nats_url" (some none) (.nullable .string nofun) <|
    .setting "nats_subject" (some "behest.events") .string <|
    .setting "redis_url" (some none) (.nullable .string nofun) <|
    .setting "redis_stream_key" (some "behest:events") .string .done) equiv

def ComponentConfig.equiv :
    String × String × List String × Bool × Value × List String × Unit ≃ ComponentConfig where
  toFun := fun (a, b, c, d, e, f, ()) => ⟨a, b, c, d, e, f⟩
  invFun r := (r.name, r.kind, r.dependsOn, r.required, r.config, r.tags, ())
  left_inv _ := rfl
  right_inv _ := rfl

/-- Components stand in an array, which is a single setting. -/
def ComponentConfig.codec : Codec (substituteString env) ComponentConfig :=
  .record (.field "name" none .string <|
    .field "kind" none .string <|
    .field "depends_on" (some []) (.list .string) <|
    .field "required" (some false) .bool <|
    .field "config" (some .null) .any <|
    .field "tags" (some []) (.list .string) .done) equiv

def AgentConfig.equiv :
    RuntimeConfig × Dict ProviderConfig × StoreConfig × Option RagConfig × Option QueueConfig ×
      List ComponentConfig × Unit ≃ AgentConfig where
  toFun := fun (a, b, c, d, e, f, ()) => ⟨a, b, c, d, e, f⟩
  invFun r := (r.runtime, r.providers, r.stores, r.rag, r.queue, r.components, ())
  left_inv _ := rfl
  right_inv _ := rfl

def AgentConfig.layout : ConfigSection env AgentConfig :=
  .record (.nested "runtime" (some {}) (RuntimeConfig.layout env)
      ((RuntimeConfig.rigid env).total _) <|
    .nested "providers" (some .empty) (ProviderConfig.layout env).dict
      (ProviderConfig.layout env).dict_total <|
    .nested "stores" (some {}) (StoreConfig.layout env) ((StoreConfig.rigid env).total _) <|
    .nested "rag" (some none) (RagConfig.layout env).nullable
      ((RagConfig.layout env).nullable_total _) <|
    .nested "queue" (some none) (QueueConfig.layout env).nullable
      ((QueueConfig.layout env).nullable_total _) <|
    .setting "components" (some []) (.list (ComponentConfig.codec env)) .done) equiv

/-! ### What becomes of a configuration when its placeholders are replaced -/

variable {env}

@[simp] theorem RuntimePolicyConfig.resolve_layout (c : RuntimePolicyConfig) :
    (layout env).codec.resolve c = c := by
  obtain ⟨_, maxTokens, _, _, _, _, _, _⟩ := c
  cases maxTokens <;> rfl

theorem RuntimeConfig.resolve_layout (c : RuntimeConfig) : (layout env).codec.resolve c =
    { c with snapshotDir := c.snapshotDir.map (substituteString env) } := by
  have hpolicy : (RuntimePolicyConfig.layout env).codec.resolve c.policy = c.policy :=
    RuntimePolicyConfig.resolve_layout c.policy
  exact congrArg (fun policy => RuntimeConfig.mk policy c.maxHistoryMessages
    c.eventChannelCapacity (c.snapshotDir.map (substituteString env))) hpolicy

theorem StoreConfig.resolve_layout (c : StoreConfig) : (layout env).codec.resolve c =
    { c with
      redisUrl := c.redisUrl.map (substituteString env)
      sqlUrl := c.sqlUrl.map (substituteString env)
      mongoUrl := c.mongoUrl.map (substituteString env)
      surrealUrl := c.surrealUrl.map (substituteString env)
      qdrantUrl := c.qdrantUrl.map (substituteString env)
      qdrantCollection := substituteString env c.qdrantCollection } := rfl

/-- The configuration with its placeholders replaced. -/
def AgentConfig.resolve (env : String → Option String) (c : AgentConfig) : AgentConfig :=
  (layout env).codec.resolve c

theorem AgentConfig.runtime_resolve (c : AgentConfig) : (c.resolve env).runtime =
    { c.runtime with snapshotDir := c.runtime.snapshotDir.map (substituteString env) } :=
  RuntimeConfig.resolve_layout c.runtime

theorem AgentConfig.stores_resolve (c : AgentConfig) :
    (c.resolve env).stores = (StoreConfig.layout env).codec.resolve c.stores := rfl

theorem AgentConfig.rag_resolve (c : AgentConfig) :
    (c.resolve env).rag = c.rag.map (RagConfig.layout env).codec.resolve := rfl

end Behest
