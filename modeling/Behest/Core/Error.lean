import Behest.Store.Record

/-!
# Errors

The error types of `behest-core/src/error.rs` and `behest-runtime/src/error.rs` with their
displayed texts. Lower-level sources are kept as the text they display.
-/

namespace Behest

/-- `8-4-4-4-12` rendering of an identifier. -/
def Uuid.display (id : Uuid) : String :=
  let digits := (List.range 32).map fun i => Value.hexDigit (id / 16 ^ (31 - i) % 16)
  let group (start len : Nat) := String.ofList ((digits.drop start).take len)
  group 0 8 ++ "-" ++ group 8 4 ++ "-" ++ group 12 4 ++ "-" ++ group 16 4 ++ "-" ++ group 20 12

/-- Source: `behest-core/src/error.rs:40–110`. -/
inductive ProviderError where
  | authentication (provider : String)
  | badRequest (provider message : String)
  | rateLimited (provider : String) (retryAfter : Option Nat)
  | timeout (provider : String)
  | overloaded (provider : String)
  | unsupported (provider feature : String)
  | transport (provider source : String)
  | decode (provider message : String)
  | provider (provider : String) (status : Option Nat) (message : String)
deriving DecidableEq

namespace ProviderError

def display : ProviderError → String
  | authentication p => "authentication failed for provider `" ++ p ++ "`"
  | badRequest p message => "provider `" ++ p ++ "` rejected request: " ++ message
  | rateLimited p _ => "provider `" ++ p ++ "` rate limited request"
  | timeout p => "provider `" ++ p ++ "` timed out"
  | overloaded p => "provider `" ++ p ++ "` is overloaded"
  | unsupported p feature => "provider `" ++ p ++ "` does not support feature `" ++ feature ++ "`"
  | transport p source => "transport error for provider `" ++ p ++ "`: " ++ source
  | decode p message => "failed to decode response from provider `" ++ p ++ "`: " ++ message
  | provider p _ message => "provider `" ++ p ++ "` returned error: " ++ message

/-- `str::contains`. -/
def containsText (message needle : String) : Bool :=
  message.toList.tails.any fun rest => needle.toList.isPrefixOf rest

/-- The messages that report a request longer than the model's context window.
Source: `behest-core/src/error.rs:136–150`. -/
def isContextOverflow : ProviderError → Bool
  | badRequest _ message | provider _ _ message =>
      containsText message "context_length_exceeded"
        || containsText message "maximum context length"
        || containsText message "too many tokens"
        || containsText message "reduce the length"
        || containsText message "token limit"
        || containsText message "prompt is too long"
        || containsText message "input length exceeds"
        || containsText message "context window"
  | _ => false

end ProviderError

/-- Source: `behest-core/src/error.rs:183–214`. -/
inductive ToolError where
  | notFound (name : String)
  | execution (name message : String)
  | invalidArguments (name message : String)
  | notImplemented (name : String)
deriving DecidableEq

/-- The tool that an error names. -/
def ToolError.name : ToolError → String
  | notFound name => name
  | execution name _ => name
  | invalidArguments name _ => name
  | notImplemented name => name

def ToolError.display : ToolError → String
  | notFound name => "tool `" ++ name ++ "` is not registered"
  | execution name message => "tool `" ++ name ++ "` failed: " ++ message
  | invalidArguments name message =>
      "tool `" ++ name ++ "` received invalid arguments: " ++ message
  | notImplemented name => "tool `" ++ name ++ "` is not implemented"

/-- Source: `behest-core/src/error.rs:220–242`. -/
inductive ContextError where
  | adapterFailed (adapter message : String)
  | invalidInput (message : String)
  | adapterNotFound (adapter : String)
deriving DecidableEq

def ContextError.display : ContextError → String
  | adapterFailed adapter message => "context adapter `" ++ adapter ++ "` failed: " ++ message
  | invalidInput message => "invalid context input: " ++ message
  | adapterNotFound adapter => "context adapter `" ++ adapter ++ "` is not registered"

/-- Source: `behest-core/src/error.rs:248–309`. -/
inductive StorageError where
  | notFound (id : String)
  | connectionFailed (backend message : String)
  | serializationFailed (message : String)
  | backendError (backend message : String)
  | migrationFailed (backend message : String)
  | dataCorruption (field message : String)
deriving DecidableEq

def StorageError.display : StorageError → String
  | notFound id => "storage entity not found: `" ++ id ++ "`"
  | connectionFailed backend message =>
      "storage connection failed (" ++ backend ++ "): " ++ message
  | serializationFailed message => "storage serialization failed: " ++ message
  | backendError backend message => "storage backend error (" ++ backend ++ "): " ++ message
  | migrationFailed backend message => "storage migration failed (" ++ backend ++ "): " ++ message
  | dataCorruption field message => "data corruption in `" ++ field ++ "`: " ++ message

/-- Source: `behest-runtime/src/error.rs:12–99`. -/
inductive RuntimeError where
  | providerNotFound (provider : String)
  | sessionNotFound (id : Uuid)
  | runNotFound (id : Uuid)
  | invalidRunState (expected actual : String)
  | iterationLimitExceeded (limit : Nat)
  | tokenBudgetExceeded (used limit : Nat)
  | contextOverflow (context estimated : Nat)
  | sessionBusy (id : Uuid)
  | toolTimeout (tool : String)
  | provider (e : ProviderError)
  | context (e : ContextError)
  | storage (e : StorageError)
  | tool (e : ToolError)
  | recoveryFailed (message : String)
  | doomLoopDetected (description : String)
  | inputRejected (inputId : Uuid) (reason : String)
  | inputAdmissionFailed (message : String)
deriving DecidableEq

def RuntimeError.display : RuntimeError → String
  | providerNotFound p => "provider not found: " ++ p
  | sessionNotFound id => "session not found: " ++ id.display
  | runNotFound id => "run not found: " ++ id.display
  | invalidRunState expected actual =>
      "invalid run state: expected " ++ expected ++ ", got " ++ actual
  | iterationLimitExceeded limit => "iteration limit exceeded: " ++ toString limit
  | tokenBudgetExceeded used limit =>
      "token budget exceeded: " ++ toString used ++ " > " ++ toString limit
  | contextOverflow window estimated =>
      "context length exceeded: model context " ++ toString window ++ ", estimated "
        ++ toString estimated
  | sessionBusy id => "session busy: " ++ id.display
  | toolTimeout t => "tool execution timeout: " ++ t
  | provider e => e.display
  | context e => e.display
  | storage e => e.display
  | tool e => e.display
  | recoveryFailed message => "recovery error: " ++ message
  | doomLoopDetected description => "doom loop detected: " ++ description
  | inputRejected inputId reason => "input rejected: " ++ inputId.display ++ " — " ++ reason
  | inputAdmissionFailed message => "input admission error: " ++ message

end Behest
