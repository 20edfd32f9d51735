import Behest.Component.Topology
import Behest.Config.Records

/-!
# The configuration builder

`AgentConfigBuilder` (`behest/src/config/mod.rs:100–350`). Every call is carried out at once on
the configuration built so far: a file or an environment is merged over it, a setter puts a
section in place.
-/

namespace Behest

/-- The crate's `Error::Config`, whose text may end with that of its cause. -/
inductive ConfigError where
  | config (message : String)
  | caused (message : String) (cause : RegistryError)
deriving DecidableEq

namespace AgentConfig

/-- Source: `config/mod.rs:127–180`. -/
def validate (config : AgentConfig) : Except ConfigError Unit := do
  let stores := config.stores
  let needsRedis := stores.sessionBackend = .redis ∨ stores.executionBackend = .redis ∨
    stores.runBackend = .redis ∨ stores.artifactBackend = .redis
  if needsRedis ∧ stores.redisUrl.isNone then
    throw (.config "redis_url is required when any store backend is Redis")
  if stores.embeddingBackend = .redis ∧ stores.redisUrl.isNone then
    throw (.config "redis_url is required when embedding backend is Redis")
  if let some rag := config.rag then
    if (config.providers.get rag.providerId).isNone then
      throw (.config ("RAG provider '" ++ rag.providerId ++
        "' is not configured in [providers]"))
  if let some queue := config.queue then
    match queue.backend with
    | .nats =>
        if queue.natsUrl.isNone then
          throw (.config "nats_url is required for NATS queue backend")
    | .redisStreams =>
        if queue.redisUrl.isNone then
          throw (.config "redis_url is required for Redis Streams queue backend")

variable (env : String → Option String) (config : AgentConfig)

/-- A value is merged over the configuration, and placeholders are replaced in all of it. -/
def withLayer (layer : Document) : Except ConfigError AgentConfig :=
  let base := (layout env).codec.write config
  match (layout env).codec.read (substituteJson env (base.merge layer.value)) with
  | some config => .ok config
  | none => .error (.config "failed to deserialize merged config")

/-- Source: `config/mod.rs:207–228`. -/
def withFile (load : String → Except ConfigError Document) (path : String) :
    Except ConfigError AgentConfig := load path >>= config.withLayer env

/-- Source: `config/mod.rs:230–251`. -/
def withEnv (load : String → Except ConfigError Document) (keyPrefix : String) :
    Except ConfigError AgentConfig := load keyPrefix >>= config.withLayer env

/-- Source: `config/mod.rs:253–258`. -/
def withRuntime (runtime : RuntimeConfig) : AgentConfig := { config with runtime }

/-- Source: `config/mod.rs:260–265`. -/
def withProvider (id : String) (provider : ProviderConfig) : AgentConfig :=
  { config with providers := config.providers.insert (id, provider) }

/-- Source: `config/mod.rs:267–272`. -/
def withStores (stores : StoreConfig) : AgentConfig := { config with stores }

/-- Source: `config/mod.rs:297–303`. -/
def withRag (rag : RagConfig) : AgentConfig := { config with rag := some rag }

/-- Source: `config/mod.rs:305–311`. -/
def withQueue (queue : QueueConfig) : AgentConfig := { config with queue := some queue }

/-- Source: `config/mod.rs:327–342`. -/
def build : Except ConfigError AgentConfig :=
  match (layout env).codec.read (substituteJson env ((layout env).codec.write config)) with
  | none => .error (.config "failed to deserialize config after placeholder substitution")
  | some config => config.validate.map fun _ => config

/-- A configuration is always read again. -/
theorem build_eq : config.build env =
    (config.resolve env).validate.map fun _ => config.resolve env := by
  unfold build substituteJson
  rw [(layout env).codec.mapStrings_write, (layout env).codec.read_write]
  rfl

variable {env}

/-- A configuration that is built is the one with its placeholders replaced. -/
theorem eq_resolve_of_build {builder config : AgentConfig} (h : builder.build env = .ok config) :
    config = builder.resolve env := by
  rw [build_eq] at h
  cases hvalid : (builder.resolve env).validate with
  | error e =>
    rw [hvalid] at h
    cases h
  | ok _ =>
    rw [hvalid] at h
    cases h
    rfl

end AgentConfig

end Behest
