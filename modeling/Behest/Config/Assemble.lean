import Behest.Component.Registry
import Behest.Config.Builder
import Behest.Runtime.Policy

/-!
# Runtimes from configurations

`build_runtime` and `build_managed` (`behest/src/config/mod.rs:343–960`): providers, stores and
the context pipeline are built from a configuration and put together. A store is described by
its backend and by what it is connected to.
-/

namespace Behest.Assembly

/-- The features of a build that a store or a queue may need. -/
structure Features where
  redis : Bool := false
  nats : Bool := false
  sqlxPostgres : Bool := false
  sqlxMysql : Bool := false
  sqlxSqlite : Bool := false
  mongodb : Bool := false

/-- Source: `behest-provider/src/config.rs:17–33`. -/
structure ProviderHttpConfig where
  id : String
  baseUrl : String
  apiKey : Option String
  organization : Option String
  timeout : Duration
  connectTimeout : Duration
  maxRetries : Nat

/-- What lies outside: clients, connections and the factories of components fail with a text. -/
structure Outside where
  client : ProviderType → ProviderHttpConfig → Option String
  redis : String → Option String
  postgres : String → Option String
  mysql : String → Option String
  sqlite : String → Option String
  mongo : String → Option String
  natsPublisher : (url subject : String) → Option String
  redisPublisher : (url streamKey : String) → Option String
  factories : String → Option (Value → Except String Hooks)

/-- An adapter, with the configuration of its client. -/
structure Adapter where
  type : ProviderType
  http : ProviderHttpConfig

/-- Source: `behest-provider/src/registry.rs:13–17`. -/
structure Providers where
  chat : Dict Adapter := .empty
  embeddings : Dict Adapter := .empty

/-- A store that was built. -/
structure Store where
  backend : StoreBackend
  url : Option String := none
deriving DecidableEq

/-- Source: `behest/src/rag/`. -/
structure RagContextAdapter where
  provider : Adapter
  store : Store
  model : String
  limit : Nat
  template : String
  metadataField : String

/-- Source: `behest-runtime/src/context.rs:25–49`. -/
structure ContextPipeline where
  adapters : List RagContextAdapter := []
  maxHistoryMessages : Nat := 50

/-- A publisher that was connected. -/
structure EventPublisher where
  backend : QueueBackend
  url : String
  target : String

/-- The policy with the limits that only a configuration sets. Source:
`behest-runtime/src/policy.rs:237–296`. -/
structure Policy extends RuntimePolicy where
  maxToolConcurrency : Nat := 4
  providerTimeout : Duration := .ofSecs 60
  retryOnProviderError : Bool := true
  maxRetries : Nat := 2

/-- The facade: its providers, and its stores under `default`. -/
structure Extensions where
  providers : Providers
  sessionStore : Store
  executionStore : Store
  runStore : Store

/-- The stores of a runtime, and the facade it also keeps. Source:
`behest-runtime/src/store.rs:200–260`. -/
structure RuntimeStore where
  sessions : Store
  executions : Store
  runs : Store
  embeddings : Option Store
  artifacts : Option Store
  extensions : Extensions

/-- Source: `store.rs:247–260`. -/
def RuntimeStore.fromExtensions (exts : Extensions) : RuntimeStore where
  sessions := ⟨.memory, none⟩
  executions := ⟨.memory, none⟩
  runs := ⟨.memory, none⟩
  embeddings := none
  artifacts := none
  extensions := exts

/-- Source: `behest-runtime/src/agent.rs:38–58`. -/
structure AgentRuntime where
  providers : Providers
  context : ContextPipeline
  store : RuntimeStore
  policy : Policy
  snapshotDir : Option String
  eventChannelCapacity : Nat
  eventPublisher : Option EventPublisher

/-- Source: `agent.rs:72–103`. -/
def AgentRuntime.new (exts : Extensions) (policy : Policy) : AgentRuntime where
  providers := exts.providers
  context := {}
  store := .fromExtensions exts
  policy := policy
  snapshotDir := none
  eventChannelCapacity := 256
  eventPublisher := none

/-- Source: `behest-runtime/src/managed.rs:82–86`. -/
structure ManagedRuntime (σ : HashOrder) where
  runtime : AgentRuntime
  registry : ComponentRegistry σ

/-- Source: `config/runtime.rs:94–105`. -/
def policyOf (config : RuntimePolicyConfig) : Policy where
  maxIterations := config.maxIterations.toNat
  toolTimeout := .ofSecs config.toolTimeoutSecs.toNat
  providerTimeout := .ofSecs config.providerTimeoutSecs.toNat
  continueOnToolFailure := config.continueOnToolFailure
  retryOnProviderError := config.retryOnProviderError
  maxRetries := config.maxRetries.toNat
  maxOutputRecoveryAttempts := 3

/-- Source: `config/provider.rs:119–130`. -/
def resolveApiKey (env : String → Option String) (config : ProviderConfig) : Option String :=
  config.apiKey.bind fun key =>
    match key.toList with
    | 'e' :: 'n' :: 'v' :: ':' :: name => env (String.ofList name)
    | _ => some key

/-- Source: `config/provider.rs:133–144`. -/
def toHttpConfig (env : String → Option String) (config : ProviderConfig) (id : String) :
    ProviderHttpConfig where
  id := id
  baseUrl := config.baseUrl
  apiKey := resolveApiKey env config
  organization := config.organization
  timeout := .ofSecs config.timeoutSecs.toNat
  connectTimeout := .ofSecs config.connectTimeoutSecs.toNat
  maxRetries := config.maxRetries.toNat

/-- A failure outside becomes an error whose text ends with its own. -/
def attempt (message : String) (failure : Option String) : Except ConfigError Unit :=
  match failure with
  | none => .ok ()
  | some e => .error (.config (message ++ e))

/-- A setting that is needed. -/
def require (setting : Option String) (message : String) : Except ConfigError String :=
  match setting with
  | some s => .ok s
  | none => .error (.config message)

variable (env : String → Option String) (features : Features) (outside : Outside)

/-- Source: `config/mod.rs:367–416`. -/
def registerProvider (registry : Providers) (entry : String × ProviderConfig) :
    Except ConfigError Providers := do
  let (id, config) := entry
  let http := toHttpConfig env config id
  match config.providerType with
  | some .openAi =>
      attempt ("failed to create OpenAI chat adapter for '" ++ id ++ "': ")
        (outside.client .openAi http)
      attempt ("failed to create OpenAI embedding adapter for '" ++ id ++ "': ")
        (outside.client .openAi http)
      return {
        chat := registry.chat.insert (id, ⟨.openAi, http⟩)
        embeddings := registry.embeddings.insert (id, ⟨.openAi, http⟩) }
  | some .anthropic =>
      attempt ("failed to create Anthropic chat adapter for '" ++ id ++ "': ")
        (outside.client .anthropic http)
      return { registry with chat := registry.chat.insert (id, ⟨.anthropic, http⟩) }
  | none => return registry

/-- A pool of the one SQL database that the build has, named in the texts of errors by `store`.
Source: `config/mod.rs:759–806`, `836–872`. -/
def connectSql (store : String) (config : StoreConfig) : Except ConfigError Store := do
  let required := "sql_url is required for SQL " ++ store ++ " store"
  if features.sqlxPostgres then
    let url ← require config.sqlUrl required
    attempt "failed to connect to PostgreSQL: " (outside.postgres url)
    return ⟨.sql, some url⟩
  else if features.sqlxMysql then
    let url ← require config.sqlUrl required
    attempt "failed to connect to MySQL: " (outside.mysql url)
    return ⟨.sql, some url⟩
  else if features.sqlxSqlite then
    let url ← require config.sqlUrl required
    attempt "failed to connect to SQLite: " (outside.sqlite url)
    return ⟨.sql, some url⟩
  else throw (.config ("SQL " ++ store ++ " store requires a sqlx-* feature"))

/-- Source: `config/mod.rs:740–826`. -/
def buildSessionStore (config : StoreConfig) : Except ConfigError Store :=
  match config.sessionBackend with
  | .memory => return ⟨.memory, none⟩
  | .redis => do
      if features.redis then
        let url ← require config.redisUrl "redis_url is required for Redis session store"
        attempt "failed to create Redis session store: " (outside.redis url)
        return ⟨.redis, some url⟩
      else throw (.config "Redis session store requires the 'redis' feature")
  | .sql => connectSql features outside "session" config
  | .mongo => do
      if features.mongodb then
        let url ← require config.mongoUrl "mongo_url is required for MongoDB session store"
        attempt "failed to create MongoDB session store: " (outside.mongo url)
        return ⟨.mongo, some url⟩
      else throw (.config "MongoDB session store requires the 'mongodb' feature")
  | .surreal => throw (.config "SurrealDB session store is not supported by this build")

/-- Source: `config/mod.rs:828–887`. -/
def buildExecutionStore (config : StoreConfig) : Except ConfigError Store :=
  match config.executionBackend with
  | .memory => return ⟨.memory, none⟩
  | .redis => throw (.config "Redis execution store is not supported")
  | .sql => connectSql features outside "execution" config
  | .mongo => throw (.config "MongoDB execution store is not supported")
  | .surreal => throw (.config "SurrealDB execution store is not supported")

/-- `format!("{:?}")` of a backend. -/
def debugName : StoreBackend → String
  | .memory => "Memory"
  | .redis => "Redis"
  | .sql => "Sql"
  | .mongo => "Mongo"
  | .surreal => "Surreal"

/-- Source: `config/mod.rs:889–922`. -/
def buildEmbeddingStore (config : StoreConfig) : Except ConfigError Store :=
  match config.embeddingBackend with
  | .memory => return ⟨.memory, none⟩
  | .sql => do
      if features.sqlxPostgres then
        let url ← require config.sqlUrl "sql_url is required for SQL embedding store"
        attempt "failed to connect to PostgreSQL: " (outside.postgres url)
        return ⟨.sql, some url⟩
      else
        throw (.config
          "SQL embedding store requires the 'sqlx-postgres' feature (pgvector)")
  | .redis | .mongo | .surreal =>
      throw (.config ("embedding store backend '" ++ debugName config.embeddingBackend ++
        "' is not supported via auto-config"))

/-- Source: `config/mod.rs:924–972`. -/
def buildEventPublisher (config : QueueConfig) : Except ConfigError EventPublisher := do
  match config.backend with
  | .nats =>
      if features.nats then
        let url ← require config.natsUrl "NATS URL is required for NATS queue backend"
        attempt "failed to connect NATS publisher: "
          (outside.natsPublisher url config.natsSubject)
        return ⟨.nats, url, config.natsSubject⟩
      else
        throw (.config "NATS queue backend selected but 'nats' feature is not enabled")
  | .redisStreams =>
      if features.redis then
        let url ← require config.redisUrl
          "Redis URL is required for Redis Streams queue backend"
        attempt "failed to connect Redis Streams publisher: "
          (outside.redisPublisher url config.redisStreamKey)
        return ⟨.redisStreams, url, config.redisStreamKey⟩
      else
        throw (.config
          "Redis Streams queue backend selected but 'redis' feature is not enabled")

/-- The RAG adapter of a pipeline. `missing` ends the text of the error about its provider.
Source: `config/mod.rs:452–477`. -/
def registerRag (providers : Providers) (stores : StoreConfig) (missing : String)
    (context : ContextPipeline) : Option RagConfig → Except ConfigError ContextPipeline
  | none => return context
  | some rag => do
      let provider ← match providers.embeddings.value rag.providerId with
        | some provider => pure provider
        | none => throw (.config ("RAG embedding provider '" ++ rag.providerId ++
            "' not found in registry" ++ missing))
      let store ← buildEmbeddingStore features outside stores
      return { context with adapters := context.adapters ++
        [⟨provider, store, rag.model, rag.limit.toNat, rag.template, rag.metadataField⟩] }

/-- Source: `config/mod.rs:482–488`. -/
def publishTo (runtime : AgentRuntime) : Option QueueConfig → Except ConfigError AgentRuntime
  | none => return runtime
  | some queue => do
      let publisher ← buildEventPublisher features outside queue
      return { runtime with eventPublisher := some publisher }

/-- The facade of the providers and stores of a configuration. Source:
`config/mod.rs:362–445`. -/
def extensionsOf (config : AgentConfig) : Except ConfigError Extensions := do
  let providers ← config.providers.records.foldlM (registerProvider env outside) {}
  let sessions ← buildSessionStore features outside config.stores
  let executions ← buildExecutionStore features outside config.stores
  return ⟨providers, sessions, executions, ⟨.memory, none⟩⟩

/-- Source: `config/mod.rs:358–492`. -/
def buildRuntime (builder : AgentConfig) : Except ConfigError AgentRuntime := do
  let config ← builder.build env
  let policy := policyOf config.runtime.policy
  let exts ← extensionsOf env features outside config
  -- The pipeline is built, and then no longer used.
  let _context ← registerRag features outside exts.providers config.stores
    "; register an embedding-capable provider first"
    { maxHistoryMessages := config.runtime.maxHistoryMessages.toNat } config.rag
  publishTo features outside (.new exts policy) config.queue

/-- A failure of the registry becomes an error with a text of its own. -/
def orFail {σ : HashOrder} {β : Type} (message : String) (ran : Operated σ β) :
    Except ConfigError (ComponentRegistry σ) :=
  match ran.result with
  | .ok _ => .ok ran.registry
  | .error e => .error (.caused message e)

/-- A component is made by the factory of its kind and registered; without one it is skipped.
Source: `config/mod.rs:632–662`. -/
def registerComponent {σ : HashOrder} (registry : ComponentRegistry σ)
    (component : ComponentConfig) : Except ConfigError (ComponentRegistry σ) :=
  match outside.factories component.kind with
  | none => .ok registry
  | some factory =>
      match factory component.config with
      | .error e => .error (.config ("factory for '" ++ component.kind ++ "' failed: " ++ e))
      | .ok hooks =>
          orFail "component registration failed: "
            (registry.registerFactory ⟨component.name, component.dependsOn, component.config⟩
              ⟨fun _ => .ok hooks⟩)

/-- Source: `config/mod.rs:626–675`. -/
def registerComponents {σ : HashOrder} (components : List ComponentConfig) :
    Except ConfigError (ComponentRegistry σ) := do
  if components.isEmpty then return .new
  let registry ← components.foldlM (registerComponent outside) .new
  let registry ← orFail "component init failed: " registry.initAll
  orFail "component start failed: " registry.startAll

/-- Source: `config/mod.rs:518–689`. -/
def buildManaged (σ : HashOrder) (builder : AgentConfig) :
    Except ConfigError (ManagedRuntime σ) := do
  let config ← builder.build env
  let policy := policyOf config.runtime.policy
  let exts ← extensionsOf env features outside config
  let _context ← registerRag features outside exts.providers config.stores ""
    { maxHistoryMessages := config.runtime.maxHistoryMessages.toNat } config.rag
  let registry ← registerComponents outside config.components
  let runtime ← publishTo features outside (.new exts policy) config.queue
  return ⟨runtime, registry⟩

/-! ### What of a configuration is honoured -/

/-- The store that a configuration names. -/
def configured (config : StoreConfig) : StoreBackend → Store
  | .memory => ⟨.memory, none⟩
  | .redis => ⟨.redis, config.redisUrl⟩
  | .sql => ⟨.sql, config.sqlUrl⟩
  | .mongo => ⟨.mongo, config.mongoUrl⟩
  | .surreal => ⟨.surreal, config.surrealUrl⟩

namespace Features

def sql : Bool := features.sqlxPostgres || features.sqlxMysql || features.sqlxSqlite

/-- The session stores that a build has. -/
def hasSessionStore : StoreBackend → Bool
  | .memory => true
  | .redis => features.redis
  | .sql => features.sql
  | .mongo => features.mongodb
  | .surreal => false

/-- The execution stores that a build has. -/
def hasExecutionStore : StoreBackend → Bool
  | .memory => true
  | .sql => features.sql
  | .redis | .mongo | .surreal => false

/-- The embedding stores that a build has. -/
def hasEmbeddingStore : StoreBackend → Bool
  | .memory => true
  | .sql => features.sqlxPostgres
  | .redis | .mongo | .surreal => false

/-- The event publishers that a build has. -/
def hasPublisher : QueueBackend → Bool
  | .nats => features.nats
  | .redisStreams => features.redis

end Features

/-- The policy has every limit of a configuration. -/
structure PolicyHonoured (config : RuntimePolicyConfig) (policy : Policy) : Prop where
  maxIterations : policy.maxIterations = config.maxIterations.toNat
  maxTokens : policy.maxTokens = config.maxTokens.map (·.toNat)
  maxToolConcurrency : policy.maxToolConcurrency = config.maxToolConcurrency.toNat
  toolTimeout : policy.toolTimeout = .ofSecs config.toolTimeoutSecs.toNat
  providerTimeout : policy.providerTimeout = .ofSecs config.providerTimeoutSecs.toNat
  continueOnToolFailure : policy.continueOnToolFailure = config.continueOnToolFailure
  retryOnProviderError : policy.retryOnProviderError = config.retryOnProviderError
  maxRetries : policy.maxRetries = config.maxRetries.toNat

/-- An adapter does what a configuration says of it. -/
structure RagHonoured (stores : StoreConfig) (rag : RagConfig) (adapter : RagContextAdapter) :
    Prop where
  provider : adapter.provider.http.id = rag.providerId
  store : adapter.store = configured stores stores.embeddingBackend
  model : adapter.model = rag.model
  limit : adapter.limit = rag.limit.toNat
  template : adapter.template = rag.template
  metadataField : adapter.metadataField = rag.metadataField

/-- A build has every backend that a configuration names. Run and artifact stores there are only
in memory. -/
structure Provided (config : AgentConfig) : Prop where
  session : features.hasSessionStore config.stores.sessionBackend
  execution : features.hasExecutionStore config.stores.executionBackend
  run : config.stores.runBackend = .memory
  embedding : features.hasEmbeddingStore config.stores.embeddingBackend
  artifact : config.stores.artifactBackend = .memory
  queue : ∀ queue, config.queue = some queue → features.hasPublisher queue.backend

/-- A runtime behaves as it was configured. -/
structure Honoured (config : AgentConfig) (runtime : AgentRuntime) : Prop where
  policy : PolicyHonoured config.runtime.policy runtime.policy
  history : runtime.context.maxHistoryMessages = config.runtime.maxHistoryMessages.toNat
  rag : List.Forall₂ (RagHonoured config.stores) config.rag.toList runtime.context.adapters
  sessions : runtime.store.sessions = configured config.stores config.stores.sessionBackend
  executions :
    runtime.store.executions = configured config.stores config.stores.executionBackend
  runs : runtime.store.runs = configured config.stores config.stores.runBackend
  snapshots : runtime.snapshotDir = config.runtime.snapshotDir
  capacity : runtime.eventChannelCapacity = config.runtime.eventChannelCapacity.toNat
  provided : Provided features config

/-- The settings that are dropped on the way have the values that a runtime has without them. -/
structure Plain (config : AgentConfig) : Prop where
  maxTokens : config.runtime.policy.maxTokens = none
  maxToolConcurrency : config.runtime.policy.maxToolConcurrency = 4
  history : config.runtime.maxHistoryMessages = 50
  rag : config.rag = none
  sessions : config.stores.sessionBackend = .memory
  executions : config.stores.executionBackend = .memory
  runs : config.stores.runBackend = .memory
  artifacts : config.stores.artifactBackend = .memory
  embeddings : features.hasEmbeddingStore config.stores.embeddingBackend
  snapshots : config.runtime.snapshotDir = none
  capacity : config.runtime.eventChannelCapacity = 256

/-- Replacing placeholders changes none of these settings. -/
theorem plain_resolve {builder : AgentConfig} :
    Plain features (builder.resolve env) ↔ Plain features builder := by
  have hruntime := (builder.runtime_resolve : (builder.resolve env).runtime = _)
  have hrag := (builder.rag_resolve : (builder.resolve env).rag = _)
  constructor
  all_goals
    intro h
    refine ⟨?_, ?_, ?_, ?_, h.sessions, h.executions, h.runs, h.artifacts, h.embeddings, ?_, ?_⟩
  · simpa [hruntime] using h.maxTokens
  · simpa [hruntime] using h.maxToolConcurrency
  · simpa [hruntime] using h.history
  · simpa [hrag] using h.rag
  · simpa [hruntime] using h.snapshots
  · simpa [hruntime] using h.capacity
  · simpa [hruntime] using h.maxTokens
  · simpa [hruntime] using h.maxToolConcurrency
  · simpa [hruntime] using h.history
  · simpa [hrag] using h.rag
  · simpa [hruntime] using h.snapshots
  · simpa [hruntime] using h.capacity

variable {env features outside}

private theorem bind_ok {ε α β : Type} {x : Except ε α} {f : α → Except ε β} {b : β}
    (h : x >>= f = .ok b) : ∃ a, x = .ok a ∧ f a = .ok b := by
  cases x with
  | error e => cases h
  | ok a => exact ⟨a, rfl, h⟩

/-- What is built from a configuration that is accepted. -/
structure Built (features : Features) (config : AgentConfig) (runtime : AgentRuntime) :
    Prop where
  policy : runtime.policy = policyOf config.runtime.policy
  context : runtime.context = {}
  sessions : runtime.store.sessions = ⟨.memory, none⟩
  executions : runtime.store.executions = ⟨.memory, none⟩
  runs : runtime.store.runs = ⟨.memory, none⟩
  snapshots : runtime.snapshotDir = none
  capacity : runtime.eventChannelCapacity = 256
  queue : ∀ queue, config.queue = some queue → features.hasPublisher queue.backend

theorem hasPublisher_of_built {queue : QueueConfig} {publisher : EventPublisher}
    (h : buildEventPublisher features outside queue = .ok publisher) :
    features.hasPublisher queue.backend := by
  unfold buildEventPublisher at h
  unfold Features.hasPublisher
  cases hbackend : queue.backend with
  | nats =>
    rw [hbackend] at h
    by_contra hnats
    simp only [hnats] at h
    cases h
  | redisStreams =>
    rw [hbackend] at h
    by_contra hredis
    simp only [hredis] at h
    cases h

/-- Nothing but the publisher is added to a new runtime. -/
theorem built_publishTo {config : AgentConfig} {exts : Extensions} {runtime : AgentRuntime}
    (h : publishTo features outside (.new exts (policyOf config.runtime.policy)) config.queue =
      .ok runtime) : Built features config runtime := by
  cases hqueue : config.queue with
  | none =>
    rw [hqueue] at h
    cases h
    exact ⟨rfl, rfl, rfl, rfl, rfl, rfl, rfl, by simp [hqueue]⟩
  | some queue =>
    rw [hqueue] at h
    obtain ⟨publisher, hpublisher, h⟩ := bind_ok h
    cases h
    refine ⟨rfl, rfl, rfl, rfl, rfl, rfl, rfl, fun q hq => ?_⟩
    rw [hqueue] at hq
    cases hq
    exact hasPublisher_of_built hpublisher

theorem built_buildRuntime {builder : AgentConfig} {runtime : AgentRuntime}
    (h : buildRuntime env features outside builder = .ok runtime) :
    Built features (builder.resolve env) runtime := by
  obtain ⟨config, hconfig, h⟩ := bind_ok h
  obtain ⟨exts, -, h⟩ := bind_ok h
  obtain ⟨-, -, h⟩ := bind_ok h
  rw [AgentConfig.eq_resolve_of_build hconfig] at h
  exact built_publishTo h

theorem built_buildManaged {σ : HashOrder} {builder : AgentConfig} {managed : ManagedRuntime σ}
    (h : buildManaged env features outside σ builder = .ok managed) :
    Built features (builder.resolve env) managed.runtime := by
  obtain ⟨config, hconfig, h⟩ := bind_ok h
  obtain ⟨exts, -, h⟩ := bind_ok h
  obtain ⟨-, -, h⟩ := bind_ok h
  obtain ⟨registry, -, h⟩ := bind_ok h
  obtain ⟨runtime, hruntime, h⟩ := bind_ok h
  cases h
  rw [AgentConfig.eq_resolve_of_build hconfig] at hruntime
  exact built_publishTo hruntime

/-- A store in memory is what is configured exactly when that is asked for. -/
theorem configured_eq_memory {config : StoreConfig} {backend : StoreBackend} :
    ⟨.memory, none⟩ = configured config backend ↔ backend = .memory := by
  cases backend <;> simp [configured]

theorem toNat_eq_iff {n : UInt64} {k : Nat} (h : k < 2 ^ 64) :
    k = n.toNat ↔ n = UInt64.ofNat k := by
  rw [← UInt64.toNat_inj, UInt64.toNat_ofNat_of_lt' h, eq_comm]

theorem Built.honoured_iff_plain {config : AgentConfig} {runtime : AgentRuntime}
    (h : Built features config runtime) :
    Honoured features config runtime ↔ Plain features config := by
  have hcontext := h.context
  constructor
  · intro hh
    have htokens := hh.policy.maxTokens
    have hconcurrency := hh.policy.maxToolConcurrency
    have hhistory := hh.history
    have hrag := hh.rag
    have hsessions := hh.sessions
    have hexecutions := hh.executions
    have hcapacity := hh.capacity
    rw [h.policy] at htokens hconcurrency
    rw [hcontext] at hhistory hrag
    rw [h.sessions, configured_eq_memory] at hsessions
    rw [h.executions, configured_eq_memory] at hexecutions
    rw [h.capacity, toNat_eq_iff (by decide)] at hcapacity
    refine ⟨?_, (toNat_eq_iff (by decide)).mp hconcurrency, (toNat_eq_iff (by decide)).mp hhistory,
      ?_, hsessions, hexecutions, hh.provided.run, hh.provided.artifact, hh.provided.embedding,
      ?_, hcapacity⟩
    · exact Option.map_eq_none_iff.mp htokens.symm
    · cases hnone : config.rag with
      | none => rfl
      | some rag =>
        rw [hnone] at hrag
        cases hrag
    · rw [← hh.snapshots, h.snapshots]
  · intro hp
    refine ⟨?_, ?_, ?_, ?_, ?_, ?_, ?_, ?_, ?_⟩
    · rw [h.policy]
      refine ⟨rfl, ?_, ?_, rfl, rfl, rfl, rfl, rfl⟩
      · rw [hp.maxTokens]
        rfl
      · rw [hp.maxToolConcurrency]
        rfl
    · rw [hcontext, hp.history]
      rfl
    · rw [hcontext, hp.rag]
      exact .nil
    · rw [h.sessions, hp.sessions]
      rfl
    · rw [h.executions, hp.executions]
      rfl
    · rw [h.runs, hp.runs]
      rfl
    · rw [h.snapshots, hp.snapshots]
    · rw [h.capacity, hp.capacity]
      rfl
    · exact ⟨by rw [hp.sessions]; rfl, by rw [hp.executions]; rfl, hp.runs, hp.embeddings,
        hp.artifacts, h.queue⟩

/-- A runtime that is built behaves as it was configured exactly when the settings that are
dropped on the way have their fixed values. -/
theorem honoured_iff {σ : HashOrder} {builder : AgentConfig} {runtime : AgentRuntime}
    (h : buildRuntime env features outside builder = .ok runtime ∨
      ∃ managed : ManagedRuntime σ,
        buildManaged env features outside σ builder = .ok managed ∧
          managed.runtime = runtime) :
    Honoured features (builder.resolve env) runtime ↔ Plain features builder := by
  rw [← plain_resolve env features]
  rcases h with h | ⟨managed, h, rfl⟩
  · exact (built_buildRuntime h).honoured_iff_plain
  · exact (built_buildManaged h).honoured_iff_plain

/-- Everything outside can be reached; there are no factories. -/
def reachable : Outside where
  client _ _ := none
  redis _ := none
  postgres _ := none
  mysql _ := none
  sqlite _ := none
  mongo _ := none
  natsPublisher _ _ := none
  redisPublisher _ _ := none
  factories _ := none

theorem default_honoured : ∃ runtime,
    buildRuntime (fun _ => none) {} reachable {} = .ok runtime ∧
      (Honoured {} (AgentConfig.resolve (fun _ => none) {}) runtime ↔ Plain {} {}) := by
  have h : buildRuntime (fun _ => none) {} reachable {} = .ok (.new
      ⟨{}, ⟨.memory, none⟩, ⟨.memory, none⟩, ⟨.memory, none⟩⟩ (policyOf {})) := by
    rw [buildRuntime, AgentConfig.build_eq]
    rfl
  exact ⟨_, h, honoured_iff (σ := .inserted) (.inl h)⟩

/-- A token limit is accepted and then dropped. -/
theorem tokenLimit_notHonoured : ∃ runtime,
    buildRuntime (fun _ => none) {} reachable
        { runtime := { policy := { maxTokens := some 1000 } } } = .ok runtime ∧
      ¬ Honoured {} (AgentConfig.resolve (fun _ => none)
        { runtime := { policy := { maxTokens := some 1000 } } }) runtime := by
  refine ⟨.new ⟨{}, ⟨.memory, none⟩, ⟨.memory, none⟩, ⟨.memory, none⟩⟩
    (policyOf { maxTokens := some 1000 }), ?_, fun h => ?_⟩
  · rw [buildRuntime, AgentConfig.build_eq]
    rfl
  · cases h.policy.maxTokens

end Behest.Assembly
