import Behest.Config.Builder

/-!
# Layers of a configuration

What the calls on a builder leave at each path of the configuration, in any order, against the
priorities of the layers: manual settings over the environment, the environment over the file,
the file over what the builder starts from.
-/

namespace Behest

/-- A setter of a section. -/
inductive Override where
  | runtime (runtime : RuntimeConfig)
  | provider (id : String) (provider : ProviderConfig)
  | stores (stores : StoreConfig)
  | rag (rag : RagConfig)
  | queue (queue : QueueConfig)

namespace Override

/-- The section that is set. -/
def target : Override → List String
  | runtime _ => ["runtime"]
  | provider id _ => ["providers", id]
  | stores _ => ["stores"]
  | rag _ => ["rag"]
  | queue _ => ["queue"]

def perform (config : AgentConfig) : Override → AgentConfig
  | runtime r => config.withRuntime r
  | provider id p => config.withProvider id p
  | stores s => config.withStores s
  | rag r => config.withRag r
  | queue q => config.withQueue q

variable (env : String → Option String)

/-- What a setter says at a path. -/
def word : Override → List String → Said
  | runtime r, k :: q =>
      if k = "runtime" then .sets ((RuntimeConfig.layout env).layers.setting r q) else .silent
  | provider id c, k :: l :: q =>
      if k = "providers" ∧ l = id then .sets ((ProviderConfig.layout env).layers.setting c q)
      else .silent
  | stores s, k :: q =>
      if k = "stores" then .sets ((StoreConfig.layout env).layers.setting s q) else .silent
  | rag r, k :: q =>
      if k = "rag" then .sets ((RagConfig.layout env).layers.setting r q) else .silent
  | queue c, k :: q =>
      if k = "queue" then .sets ((QueueConfig.layout env).layers.setting c q) else .silent
  | _, _ => .silent

end Override

/-- A call on the builder, with the value that was loaded from a file or an environment. -/
inductive BuilderCall where
  | file (layer : Document)
  | env (layer : Document)
  | override (o : Override)

namespace BuilderCall

variable (env : String → Option String)

def perform (config : AgentConfig) : BuilderCall → Except ConfigError AgentConfig
  | file layer | .env layer => config.withLayer env layer
  | override o => .ok (o.perform config)

/-- The configuration that a builder produces after some calls. -/
def produce (config : AgentConfig) (calls : List BuilderCall) : Except ConfigError AgentConfig :=
  calls.foldlM (perform env) config >>= AgentConfig.build env

end BuilderCall

/-- What a configuration has at a path. -/
def AgentConfig.setting (env : String → Option String) (config : AgentConfig) (p : List String) :
    Option Value := (layout env).layers.setting config p

/-- A file, an environment and setters of different sections. -/
structure Layers where
  file : Option Document
  env : Option Document
  overrides : List Override
  distinct : (overrides.map Override.target).Nodup

namespace Layers

variable (env : String → Option String)

/-- A file or an environment over what is below it. Placeholders are replaced in both. -/
def laidOver (layer : Document) (p : List String) (below : Option Value) : Option Value :=
  ((AgentConfig.layout env).layers.word (layer.mapStrings (substituteString env)).value p).act
    (below.map (substituteJson env))

/-- The setter that decides a path. -/
def overrideWord (S : Layers) (p : List String) : Said :=
  ((S.overrides.map (Override.word env · p)).find? fun word => word ≠ .silent).getD .silent

/-- What has the highest priority at a path, when a builder starts from a configuration. -/
def priority (S : Layers) (config : AgentConfig) (p : List String) : Option Value :=
  let ofFile := (S.file.map (laidOver env · p)).getD id (config.setting env p)
  let ofEnv := (S.env.map (laidOver env · p)).getD id ofFile
  ((S.overrideWord env p).act ofEnv).map (substituteJson env)

end Layers

namespace BuilderCall

variable (env : String → Option String)

/-- What a call leaves at a path. -/
def leaves (p : List String) (before : Option Value) : BuilderCall → Option Value
  | file layer | .env layer => Layers.laidOver env layer p before
  | override o => (o.word env p).act before

/-- What some calls leave at a path, one after the other, when the configuration is built. The
last one that decides the path is what counts. -/
def outcome (config : AgentConfig) (calls : List BuilderCall) (p : List String) : Option Value :=
  (calls.foldl (leaves env p) (config.setting env p)).map (substituteJson env)

end BuilderCall

variable {env : String → Option String}

namespace Override

end Override

namespace AgentConfig

variable (config : AgentConfig)

theorem setting_resolve (p : List String) :
    (config.resolve env).setting env p = (config.setting env p).map (substituteJson env) :=
  (layout env).layers.setting_resolve config p

end AgentConfig

namespace BuilderCall

end BuilderCall

namespace Layers

/-- A file with one setting. -/
def historyFile : Document where
  value := .object [("runtime", .object [("max_history_messages", .number "123")])]
  unique := ⟨by decide, ⟨by decide, trivial, trivial⟩, trivial⟩

/-- The file, and the setter of the section that the setting is in. -/
def history : Layers where
  file := some historyFile
  env := none
  overrides := [.runtime { maxHistoryMessages := 99 }]
  distinct := by decide

end Layers

end Behest
