import Mathlib.Logic.Function.Iterate
import Behest.Config.Layers

/-!
# How often placeholders are replaced

Each file, each environment and `build` replace the placeholders in all that the builder has so
far. What was written before is therefore passed over again, together with the text that variables
and defaults have put there.
-/

namespace Behest

variable (env : String → Option String)

/-- What is written at a path, after one pass over it, and how many passes follow the first. -/
structure Passed where
  once : Option Value
  more : Nat

namespace Passed

/-- Written where `build` makes the first pass. -/
def written (setting : Option Value) : Passed := ⟨setting.map (substituteJson env), 0⟩

/-- What stands at the path when `build` is through. -/
def built (t : Passed) : Option Value := t.once.map (substituteJson env)^[t.more]

/-- A file or an environment, which makes a pass of its own over all that is there. -/
def layer (t : Passed) : Said → Passed
  | .silent => ⟨t.once, t.more + 1⟩
  | .fills dflt => if t.once.isSome then ⟨t.once, t.more + 1⟩ else written env dflt
  | .sets setting => ⟨setting, 1⟩

/-- A setter, which makes none. -/
def setter (t : Passed) : Said → Passed
  | .silent => t
  | .fills dflt => if t.once.isSome then t else written env dflt
  | .sets setting => written env setting

end Passed

namespace BuilderCall

/-- What a call writes at a path, and the pass it makes. -/
def passes (p : List String) (t : Passed) : BuilderCall → Passed
  | file layer | .env layer =>
      t.layer env ((AgentConfig.layout env).layers.word
        (layer.mapStrings (substituteString env)).value p)
  | override o => t.setter env (o.word env p)

/-- What the calls on a builder write at a path, and the passes over it. -/
def passed (config : AgentConfig) (calls : List BuilderCall) (p : List String) : Passed :=
  calls.foldl (passes env p) (.written env (config.setting env p))

end BuilderCall

variable {env}

namespace Passed

variable {t : Passed} {before : Option Value}
  (h : before.map (substituteJson env) = t.built env)

include h

end Passed

namespace BuilderCall

end BuilderCall

end Behest
