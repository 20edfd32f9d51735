import Mathlib.Data.Finmap
import Behest.Core.Error
import Behest.Effect.Crowd
import Behest.Tool.Output

/-!
# Session data

The session data stores of `behest-runtime/src/invocation.rs`: one map in memory, and one JSON
file for each session, read and written back whole under the lock of the session. The locks are
made when a session is first used.
-/

namespace Behest

/-! ### The text of a session identifier -/

theorem hexDigit_inj : ∀ a < 16, ∀ b < 16, Value.hexDigit a = Value.hexDigit b → a = b := by
  decide

/-- Hexadecimal digits determine what they can write. -/
theorem mod_eq_of_digits {a b : Nat} (n : Nat)
    (h : ∀ k < n, a / 16 ^ k % 16 = b / 16 ^ k % 16) : a % 16 ^ n = b % 16 ^ n := by
  induction n with
  | zero => simp [Nat.mod_one]
  | succ n ih =>
    rw [Nat.mod_pow_succ, Nat.mod_pow_succ, ih fun k hk => h k (Nat.lt_succ_of_lt hk),
      h n (Nat.lt_succ_self n)]

/-- The groups of an identifier put together again. -/
theorem append_groups {digits : List Char} (h : digits.length = 32) :
    digits.take 8 ++ ((digits.drop 8).take 4 ++ ((digits.drop 12).take 4 ++
      ((digits.drop 16).take 4 ++ (digits.drop 20).take 12))) = digits := by
  have hlast : (digits.drop 20).take 12 = digits.drop 20 := List.take_of_length_le (by simp [h])
  have hstep : ∀ n, (digits.drop n).take 4 ++ digits.drop (n + 4) = digits.drop n := by
    intro n
    rw [← List.drop_drop, List.take_append_drop]
  rw [hlast, hstep 16, hstep 12, hstep 8, List.take_append_drop]

/-- Identifiers of 128 bits are told apart by their texts. -/
theorem display_inj {a b : Uuid} (ha : a < 2 ^ 128) (hb : b < 2 ^ 128)
    (h : Uuid.display a = Uuid.display b) : a = b := by
  have hpow : (16 : Nat) ^ 32 = 2 ^ 128 := by decide
  have hdigits : (List.range 32).map (fun i => Value.hexDigit (a / 16 ^ (31 - i) % 16)) =
      (List.range 32).map (fun i => Value.hexDigit (b / 16 ^ (31 - i) % 16)) := by
    generalize hd : (List.range 32).map (fun i => Value.hexDigit (a / 16 ^ (31 - i) % 16)) = d
    generalize hd' : (List.range 32).map (fun i => Value.hexDigit (b / 16 ^ (31 - i) % 16)) = d'
    have hlen : d.length = 32 := by rw [← hd]; simp
    have hlen' : d'.length = 32 := by rw [← hd']; simp
    have hlist := congrArg String.toList h
    simp only [Uuid.display, hd, hd', String.toList_append, String.toList_ofList, List.drop_zero,
      List.append_assoc] at hlist
    obtain ⟨h₁, hlist⟩ := List.append_inj hlist (by simp [hlen, hlen'])
    obtain ⟨-, hlist⟩ := List.append_inj hlist rfl
    obtain ⟨h₂, hlist⟩ := List.append_inj hlist (by simp [hlen, hlen'])
    obtain ⟨-, hlist⟩ := List.append_inj hlist rfl
    obtain ⟨h₃, hlist⟩ := List.append_inj hlist (by simp [hlen, hlen'])
    obtain ⟨-, hlist⟩ := List.append_inj hlist rfl
    obtain ⟨h₄, hlist⟩ := List.append_inj hlist (by simp [hlen, hlen'])
    obtain ⟨-, h₅⟩ := List.append_inj hlist rfl
    rw [← append_groups hlen, ← append_groups hlen', h₁, h₂, h₃, h₄, h₅]
  have hmod := mod_eq_of_digits (a := a) (b := b) 32 fun k hk => by
    have hdigit := List.map_inj_left.mp hdigits (31 - k) (by rw [List.mem_range]; omega)
    rw [Nat.sub_sub_self (by omega)] at hdigit
    exact hexDigit_inj _ (Nat.mod_lt _ (by decide)) _ (Nat.mod_lt _ (by decide)) hdigit
  rwa [hpow, Nat.mod_eq_of_lt ha, Nat.mod_eq_of_lt hb] at hmod

namespace SessionData

open Effect

/-- A `Uuid` has 128 bits. -/
abbrev SessionId : Type := { id : Uuid // id < 2 ^ 128 }

/-- Source: `invocation.rs:213–229`. -/
inductive SessionDataError where
  | notFound (sessionId : SessionId) (key : String)
  | storage (message : String)
deriving DecidableEq

/-- A call of the trait. Source: `invocation.rs:241–271`. -/
inductive Operation where
  | set (sessionId : SessionId) (key : String) (value : Value)
  | get (sessionId : SessionId) (key : String)
  | delete (sessionId : SessionId) (key : String)

/-- The session a call is about. -/
def Operation.sessionId : Operation → SessionId
  | set sessionId _ _ | get sessionId _ | delete sessionId _ => sessionId

/-- What a call returns when it does not fail: `()`, or the value found. -/
inductive Answer where
  | done
  | found (value : Option Value)
deriving DecidableEq

abbrev Outcome : Type := Except SessionDataError Answer

/-! ### In memory -/

/-- Source: `invocation.rs:273–280`. -/
abbrev MemorySessionDataStore : Type := Finmap fun _ : SessionId × String => Value

namespace MemorySessionDataStore

/-- Source: `invocation.rs:289–294`. -/
def new : MemorySessionDataStore := ∅

/-- Each call holds the one lock of the map throughout. Source: `invocation.rs:306–337`. -/
def call (data : MemorySessionDataStore) : Operation → MemorySessionDataStore × Outcome
  | .set sessionId key value => (data.insert (sessionId, key) value, .ok .done)
  | .get sessionId key => (data, .ok (.found (data.lookup (sessionId, key))))
  | .delete sessionId key => (data.erase (sessionId, key), .ok .done)

end MemorySessionDataStore

/-! ### In files -/

/-- The map of one session. -/
abbrev SessionMap : Type := Finmap fun _ : String => Value

/-- The texts of maps that `serde_json` writes and reads; a hash map yields its entries in an
order that is drawn for each map. -/
structure MapFormat where
  Text : Type
  toStringPretty : Nat → SessionMap → Text
  fromStr : Text → Except String SessionMap
  roundTrip (order : Nat) (m : SessionMap) : fromStr (toStringPretty order m) = .ok m

variable {format : MapFormat}

/-- The files, the registry of the session locks with its own lock, and whether each of the
session locks made so far is held. Source: `invocation.rs:350–353`. -/
structure FileSessionDataStore (format : MapFormat) where
  registryHeld : Bool
  locks : SessionId → Option Nat
  mutexes : List Bool
  files : String → Option format.Text
  order : Nat

/-- Where a call stands; the lock is that of its session. -/
inductive Phase (format : MapFormat) where
  | lockRegistry
  | lookUp
  | unlockRegistry (lock : Nat)
  | lockSession (lock : Nat)
  | createDir (lock : Nat)
  | checkFile (lock : Nat)
  | readFile (lock : Nat)
  | parse (lock : Nat) (text : format.Text)
  | write (lock : Nat) (map : SessionMap)
  | unlock (lock : Nat) (outcome : Outcome)
  | returned (outcome : Outcome)

/-- A call under way. -/
structure FileCall (format : MapFormat) where
  operation : Operation
  phase : Phase format

namespace FileSessionDataStore

/-- Source: `invocation.rs:360–365`. -/
def new : FileSessionDataStore format := ⟨false, fun _ => none, [], fun _ => none, 0⟩

/-- Source: `invocation.rs:367–369`. -/
def sessionPath (baseDir : String) (sessionId : SessionId) : String :=
  ToolOutput.joinPath baseDir (Uuid.display sessionId.val ++ ".json")

/-- What a call does with the map it has read, or with the one of a session without a file.
Source: `invocation.rs:413–420, 450, 478–486`. -/
def afterRead (lock : Nat) (map : SessionMap) : Operation → Phase format
  | .set _ key value => .write lock (map.insert key value)
  | .get _ key => .unlock lock (.ok (.found (map.lookup key)))
  | .delete _ key => .write lock (map.erase key)

/-- What a call does when its session has no file. Source: `invocation.rs:409–411, 441–443,
469–471`. -/
def withoutFile (lock : Nat) : Operation → Phase format
  | .set _ key value => .write lock ((∅ : SessionMap).insert key value)
  | .get _ _ => .unlock lock (.ok (.found none))
  | .delete _ _ => .unlock lock (.ok .done)

/-- What `std::fs` says of a file that is not there. -/
def noSuchFile : String := "No such file or directory (os error 2)"

/-- The next step of a call; none while the lock it waits for is held.
Source: `invocation.rs:371–379, 389–494`. -/
def move (baseDir : String) (c : FileCall format) (s : FileSessionDataStore format) :
    Option (FileCall format × FileSessionDataStore format) :=
  let path := sessionPath baseDir c.operation.sessionId
  match c.phase with
  | .lockRegistry =>
      if s.registryHeld then none
      else some ({ c with phase := .lookUp }, { s with registryHeld := true })
  | .lookUp =>
      match s.locks c.operation.sessionId with
      | some lock => some ({ c with phase := .unlockRegistry lock }, s)
      | none =>
          let lock := s.mutexes.length
          some ({ c with phase := .unlockRegistry lock },
            { s with locks := Function.update s.locks c.operation.sessionId (some lock)
                     mutexes := s.mutexes ++ [false] })
  | .unlockRegistry lock =>
      some ({ c with phase := .lockSession lock }, { s with registryHeld := false })
  | .lockSession lock =>
      if s.mutexes.getD lock false then none
      else
        let locked := { s with mutexes := s.mutexes.set lock true }
        match c.operation with
        | .set _ _ _ => some ({ c with phase := .createDir lock }, locked)
        | .get _ _ | .delete _ _ => some ({ c with phase := .checkFile lock }, locked)
  | .createDir lock => some ({ c with phase := .checkFile lock }, s)
  | .checkFile lock =>
      if (s.files path).isSome then some ({ c with phase := .readFile lock }, s)
      else some ({ c with phase := withoutFile lock c.operation }, s)
  | .readFile lock =>
      match s.files path with
      | some text => some ({ c with phase := .parse lock text }, s)
      | none =>
          let error := SessionDataError.storage ("failed to read session file: " ++ noSuchFile)
          some ({ c with phase := .unlock lock (.error error) }, s)
  | .parse lock text =>
      match format.fromStr text with
      | .ok map => some ({ c with phase := afterRead lock map c.operation }, s)
      | .error e =>
          let error := SessionDataError.storage ("failed to parse session file: " ++ e)
          some ({ c with phase := .unlock lock (.error error) }, s)
  | .write lock map =>
      some ({ c with phase := .unlock lock (.ok .done) },
        { s with files := Function.update s.files path (some (format.toStringPretty s.order map))
                 order := s.order + 1 })
  | .unlock lock outcome =>
      some ({ c with phase := .returned outcome }, { s with mutexes := s.mutexes.set lock false })
  | .returned _ => none

/-- A call enters. -/
def start (operation : Operation) : FileCall format := ⟨operation, .lockRegistry⟩

/-- What a call has returned. -/
def answer (c : FileCall format) : Option Outcome :=
  match c.phase with
  | .returned outcome => some outcome
  | _ => none

end FileSessionDataStore

end SessionData

end Behest
