import Mathlib.Data.List.Basic
import Mathlib.Data.List.Flatten
import Mathlib.Data.List.Pairwise
import Mathlib.Order.Nat

/-!
# The creation quota

The sliding window of `behest-core/src/sub_engine.rs`. Instants are nanoseconds since the
origin of the monotonic clock and no instant lies before it. A record reads the clock twice:
for the eviction, and for the timestamp that it stores.
-/

namespace Behest

/-- Source: `behest-core/src/sub_engine.rs:65–69`. -/
structure QuotaWindow where
  maxCreations : UInt32
  window : Nat
  timestamps : List Nat

/-- A call of the quota with the instants that it reads. -/
inductive QuotaCall where
  | check (now : Nat)
  | activeCount (now : Nat)
  | record (now pushed : Nat)

/-- A record, with the instants that it reads and what it returns. -/
structure QuotaRecord where
  now : Nat
  pushed : Nat
  recorded : Bool
deriving DecidableEq

namespace QuotaCall

def times : QuotaCall → List Nat
  | check now | activeCount now => [now]
  | record now pushed => [now, pushed]

/-- The readings of a record. -/
def readings : QuotaCall → Option (Nat × Nat)
  | record now pushed => some (now, pushed)
  | _ => none

def isRecord (call : QuotaCall) : Bool := call.readings.isSome

end QuotaCall

namespace QuotaWindow

/-- Source: `behest-core/src/sub_engine.rs:87–93`. -/
def new (maxCreations : UInt32) (window : Nat) : QuotaWindow := ⟨maxCreations, window, []⟩

/-- `Instant::checked_sub`: there is no instant before the origin of the clock. -/
def checkedSub (now window : Nat) : Option Nat :=
  if window ≤ now then some (now - window) else none

/-- Source: `behest-core/src/sub_engine.rs:144–154`. -/
def evictExpired (q : QuotaWindow) (now : Nat) : QuotaWindow :=
  match checkedSub now q.window with
  | some cutoff => { q with timestamps := q.timestamps.filter fun t => decide (cutoff ≤ t) }
  | none => q

/-- The number of timestamps, as the 32-bit word that the source casts it to. -/
def count (q : QuotaWindow) : UInt32 := q.timestamps.length.toUInt32

/-- Source: `behest-core/src/sub_engine.rs:109–112`. -/
def activeCount (q : QuotaWindow) (now : Nat) : UInt32 × QuotaWindow :=
  let q := q.evictExpired now
  (q.count, q)

/-- Source: `behest-core/src/sub_engine.rs:117–121`. -/
def check (q : QuotaWindow) (now : Nat) : UInt32 × QuotaWindow :=
  let q := q.evictExpired now
  (if q.count ≤ q.maxCreations then q.maxCreations - q.count else 0, q)

/-- Source: `behest-core/src/sub_engine.rs:128–135`. -/
def record (q : QuotaWindow) (now pushed : Nat) : Bool × QuotaWindow :=
  let q := q.evictExpired now
  if q.count ≥ q.maxCreations then (false, q)
  else (true, { q with timestamps := q.timestamps ++ [pushed] })

/-- A sequence of calls: the records among them, and the quota after them. -/
def run : QuotaWindow → List QuotaCall → List QuotaRecord × QuotaWindow
  | q, [] => ([], q)
  | q, .check now :: rest => (q.check now).2.run rest
  | q, .activeCount now :: rest => (q.activeCount now).2.run rest
  | q, .record now pushed :: rest =>
      let (recorded, q) := q.record now pushed
      let (records, q) := q.run rest
      (⟨now, pushed, recorded⟩ :: records, q)

/-- The instant lies in the closed interval of the given length that ends at `e`. -/
def within (W e t : Nat) : Bool := decide (e ≤ t + W) && decide (t ≤ e)

/-! ### The law of a sliding window -/

/-- Records judged by all the successful ones before them, none of which is forgotten. -/
def judge (m W : Nat) (history : List Nat) : List (Nat × Nat) → List QuotaRecord
  | [] => []
  | (now, pushed) :: rest =>
      let recorded := decide (history.countP (within W now) < m)
      ⟨now, pushed, recorded⟩ ::
        judge m W (if recorded then history ++ [pushed] else history) rest

/-- The instants of the successful records. -/
def successes (records : List QuotaRecord) : List Nat :=
  (records.filter QuotaRecord.recorded).map QuotaRecord.pushed

theorem countP_successes (records : List QuotaRecord) (p : Nat → Bool) :
    (successes records).countP p = records.countP fun r => p r.pushed && r.recorded := by
  rw [successes, List.countP_map, List.countP_filter]
  rfl

theorem successes_cons (r : QuotaRecord) (records : List QuotaRecord) :
    successes (r :: records) =
      if r.recorded then r.pushed :: successes records else successes records := by
  unfold successes
  rw [List.filter_cons]
  split <;> rfl

theorem readings_judge (m W : Nat) (entries : List (Nat × Nat)) (history : List Nat) :
    (judge m W history entries).map (fun r => (r.now, r.pushed)) = entries := by
  induction entries generalizing history with
  | nil => rfl
  | cons entry rest ih => simp only [judge, List.map_cons, ih]

/-- A success is granted by the records before it. -/
theorem recorded_judge (m W : Nat) (entries : List (Nat × Nat)) (history : List Nat)
    {before after : List QuotaRecord} {r : QuotaRecord}
    (h : judge m W history entries = before ++ r :: after) :
    r.recorded = true ↔ (history ++ successes before).countP (within W r.now) < m := by
  induction entries generalizing history before with
  | nil => simp [judge] at h
  | cons entry rest ih =>
    obtain ⟨now, pushed⟩ := entry
    cases before with
    | nil =>
      obtain ⟨rfl, -⟩ := List.cons.inj h
      simp [successes]
    | cons first others =>
      obtain ⟨rfl, htail⟩ := List.cons.inj h
      rw [ih _ htail, successes_cons]
      dsimp only
      split
      · rw [List.append_assoc, List.singleton_append]
      · rfl

/-- No interval of the length of the window holds more than the limit. -/
def Spread (m W : Nat) (history : List Nat) : Prop :=
  ∀ e, history.countP (within W e) ≤ m

theorem spread_nil (m W : Nat) : Spread m W [] := fun _ => Nat.zero_le _

theorem spread_append {m W now pushed : Nat} {history : List Nat} (h : Spread m W history)
    (hroom : history.countP (within W now) < m) (hpast : ∀ t ∈ history, t ≤ now)
    (hle : now ≤ pushed) : Spread m W (history ++ [pushed]) := by
  intro e
  rw [List.countP_append, List.countP_singleton]
  split
  · next hin =>
    simp only [within, Bool.and_eq_true, decide_eq_true_eq] at hin
    -- What lies in the interval with the new instant lies in the window that the record saw.
    have hsub : history.countP (within W e) ≤ history.countP (within W now) := by
      apply List.countP_mono_left
      intro t ht
      have := hpast t ht
      simp only [within, Bool.and_eq_true, decide_eq_true_eq]
      omega
    omega
  · exact h e

theorem spread_judge {m W : Nat} (entries : List (Nat × Nat)) {history : List Nat}
    (h : Spread m W history)
    (hpast : ∀ t ∈ history, ∀ entry ∈ entries, t ≤ entry.1)
    (hentry : ∀ entry ∈ entries, entry.1 ≤ entry.2)
    (horder : entries.Pairwise fun a b => a.2 ≤ b.1) :
    Spread m W (history ++ successes (judge m W history entries)) := by
  induction entries generalizing history with
  | nil => simpa [judge, successes] using h
  | cons entry rest ih =>
    obtain ⟨now, pushed⟩ := entry
    have hrest := List.pairwise_cons.mp horder
    have hnow : ∀ t ∈ history, t ≤ now := fun t ht => hpast t ht _ List.mem_cons_self
    have hle : now ≤ pushed := hentry _ List.mem_cons_self
    rw [judge, successes_cons]
    dsimp only
    split
    · next hgrant =>
      have hroom : history.countP (within W now) < m := by simpa using hgrant
      rw [List.append_cons]
      apply ih (spread_append h hroom hnow hle) _ (fun e he => hentry e (List.mem_cons_of_mem _ he))
        hrest.2
      intro t ht e he
      rcases List.mem_append.mp ht with hold | hnew
      · exact hpast t hold e (List.mem_cons_of_mem _ he)
      · rw [List.mem_singleton.mp hnew]
        exact hrest.1 e he
    · exact ih h (fun t ht e he => hpast t ht e (List.mem_cons_of_mem _ he))
        (fun e he => hentry e (List.mem_cons_of_mem _ he)) hrest.2

/-! ### The window of the source keeps the law -/

theorem timestamps_evictExpired (q : QuotaWindow) (now : Nat) :
    (q.evictExpired now).timestamps = q.timestamps.filter fun t => decide (now ≤ t + q.window) := by
  unfold evictExpired checkedSub
  by_cases hwin : q.window ≤ now
  · simp only [if_pos hwin, Nat.sub_le_iff_le_add]
  · rw [if_neg hwin]
    refine (List.filter_eq_self.mpr fun t _ => ?_).symm
    exact decide_eq_true (by omega)

@[simp] theorem maxCreations_evictExpired (q : QuotaWindow) (now : Nat) :
    (q.evictExpired now).maxCreations = q.maxCreations := by
  unfold evictExpired
  split <;> rfl

@[simp] theorem window_evictExpired (q : QuotaWindow) (now : Nat) :
    (q.evictExpired now).window = q.window := by
  unfold evictExpired
  split <;> rfl

/-- At the last instant read, the timestamps are what the window still sees of all successful
records. -/
structure Tracks (q : QuotaWindow) (history : List Nat) (last : Nat) : Prop where
  sees : ∀ now, last ≤ now →
    q.timestamps.countP (within q.window now) = history.countP (within q.window now)
  past : ∀ t ∈ q.timestamps, t ≤ last
  bounded : q.timestamps.length ≤ q.maxCreations.toNat

theorem tracks_new (m : UInt32) (W : Nat) : Tracks (new m W) [] 0 :=
  ⟨fun _ _ => rfl, by simp [new], by simp [new]⟩

variable {q : QuotaWindow} {history : List Nat} {last now pushed : Nat}

theorem Tracks.evict (h : Tracks q history last) (hle : last ≤ now) :
    Tracks (q.evictExpired now) history now := by
  refine ⟨fun later hlater => ?_, fun t ht => ?_, ?_⟩
  · rw [timestamps_evictExpired, window_evictExpired, List.countP_filter, ← h.sees later (by omega)]
    -- What a later window sees has not been evicted.
    refine List.countP_congr fun t _ => ?_
    simp only [within, Bool.and_eq_true, decide_eq_true_eq]
    omega
  · rw [timestamps_evictExpired] at ht
    exact (h.past t (List.mem_filter.mp ht).1).trans hle
  · rw [timestamps_evictExpired, maxCreations_evictExpired]
    exact (List.length_filter_le _ _).trans h.bounded

/-- After the eviction the timestamps are counted by the window. -/
theorem Tracks.length_evict (h : Tracks q history last) (hle : last ≤ now) :
    (q.evictExpired now).timestamps.length = history.countP (within q.window now) := by
  rw [timestamps_evictExpired, ← List.countP_eq_length_filter, ← h.sees now hle]
  refine List.countP_congr fun t ht => ?_
  have := h.past t ht
  simp only [within, Bool.and_eq_true, decide_eq_true_eq]
  omega

/-- The 32-bit word holds the number of timestamps. -/
theorem Tracks.toNat_count (h : Tracks q history last) : q.count.toNat = q.timestamps.length := by
  have hlt : q.timestamps.length < 2 ^ 32 := h.bounded.trans_lt q.maxCreations.toNat_lt
  exact UInt32.toNat_ofNat_of_lt' hlt

theorem Tracks.record (h : Tracks q history last) (hle : last ≤ now) (hpush : now ≤ pushed) :
    q.record now pushed =
        (decide (history.countP (within q.window now) < q.maxCreations.toNat),
          (q.record now pushed).2) ∧
      (q.record now pushed).2.maxCreations = q.maxCreations ∧
      (q.record now pushed).2.window = q.window ∧
      Tracks (q.record now pushed).2
        (if history.countP (within q.window now) < q.maxCreations.toNat then history ++ [pushed]
          else history) pushed := by
  have hev := h.evict hle
  have hlen := h.length_evict hle
  have hcount : (q.evictExpired now).count ≥ (q.evictExpired now).maxCreations ↔
      ¬ history.countP (within q.window now) < q.maxCreations.toNat := by
    rw [ge_iff_le, UInt32.le_iff_toNat_le, hev.toNat_count, hlen, maxCreations_evictExpired,
      Nat.not_lt]
  unfold QuotaWindow.record
  dsimp only
  by_cases hfull : (q.evictExpired now).count ≥ (q.evictExpired now).maxCreations
  · rw [if_pos hfull, if_neg (hcount.mp hfull)]
    refine ⟨by simp [hcount.mp hfull], maxCreations_evictExpired q now, window_evictExpired q now,
      ?_⟩
    exact ⟨fun later hlater => hev.sees later (hpush.trans hlater),
      fun t ht => (hev.past t ht).trans hpush, hev.bounded⟩
  · have hroom := not_not.mp (mt hcount.mpr hfull)
    rw [if_neg hfull, if_pos hroom]
    refine ⟨by simp [hroom], maxCreations_evictExpired q now, window_evictExpired q now, ?_⟩
    refine ⟨fun later hlater => ?_, fun t ht => ?_, ?_⟩
    · rw [List.countP_append, List.countP_append, hev.sees later (hpush.trans hlater)]
    · rcases List.mem_append.mp ht with hold | hnew
      · exact (hev.past t hold).trans hpush
      · exact (List.mem_singleton.mp hnew).le
    · dsimp only
      rw [List.length_append, List.length_singleton, hlen, maxCreations_evictExpired]
      exact hroom

theorem run_eq_judge (calls : List QuotaCall) (h : Tracks q history last)
    (hlast : ∀ t ∈ calls.flatMap QuotaCall.times, last ≤ t)
    (horder : (calls.flatMap QuotaCall.times).Pairwise (· ≤ ·)) :
    (q.run calls).1 =
      judge q.maxCreations.toNat q.window history (calls.filterMap QuotaCall.readings) := by
  induction calls generalizing q history last with
  | nil => rfl
  | cons call rest ih =>
    rw [List.flatMap_cons] at hlast horder
    obtain ⟨hcall, hrest, hcross⟩ := List.pairwise_append.mp horder
    cases call with
    | check now | activeCount now =>
      have hstep := h.evict (hlast now (by simp [QuotaCall.times]))
      have := ih hstep (fun t ht => hcross now (by simp [QuotaCall.times]) t ht) hrest
      rw [maxCreations_evictExpired, window_evictExpired] at this
      exact this
    | record now pushed =>
      have hpush : now ≤ pushed := by simpa [QuotaCall.times] using hcall
      obtain ⟨hreply, hmax, hwin, hstep⟩ := h.record (hlast now (by simp [QuotaCall.times])) hpush
      have hnext := ih hstep (fun t ht => hcross pushed (by simp [QuotaCall.times]) t ht) hrest
      rw [hmax, hwin] at hnext
      rw [run, hreply]
      simp only [List.filterMap_cons, QuotaCall.readings, judge, hnext, decide_eq_true_eq]

theorem entries_of_times (calls : List QuotaCall)
    (horder : (calls.flatMap QuotaCall.times).Pairwise (· ≤ ·)) :
    (∀ entry ∈ calls.filterMap QuotaCall.readings, entry.1 ≤ entry.2) ∧
      (calls.filterMap QuotaCall.readings).Pairwise fun a b => a.2 ≤ b.1 := by
  have htime : ∀ (calls : List QuotaCall), ∀ entry ∈ calls.filterMap QuotaCall.readings,
      entry.1 ∈ calls.flatMap QuotaCall.times := by
    intro calls entry hentry
    obtain ⟨call, hcall, hread⟩ := List.mem_filterMap.mp hentry
    refine List.mem_flatMap.mpr ⟨call, hcall, ?_⟩
    cases call with
    | check now | activeCount now => cases hread
    | record now pushed =>
      obtain rfl := Option.some.inj hread
      exact List.mem_cons_self
  induction calls with
  | nil => simp
  | cons call rest ih =>
    rw [List.flatMap_cons] at horder
    obtain ⟨hcall, hrest, hcross⟩ := List.pairwise_append.mp horder
    have hi := ih hrest
    cases call with
    | check now | activeCount now => exact hi
    | record now pushed =>
      refine ⟨fun entry hentry => ?_, List.pairwise_cons.mpr ⟨fun entry hentry => ?_, hi.2⟩⟩
      · rcases List.mem_cons.mp hentry with rfl | hlater
        · simpa [QuotaCall.times] using hcall
        · exact hi.1 entry hlater
      · exact hcross pushed (by simp [QuotaCall.times]) _ (htime rest entry hentry)

theorem run_new (m : UInt32) (W : Nat) (calls : List QuotaCall)
    (horder : (calls.flatMap QuotaCall.times).Pairwise (· ≤ ·)) :
    ((new m W).run calls).1 = judge m.toNat W [] (calls.filterMap QuotaCall.readings) :=
  run_eq_judge calls (tracks_new m W) (fun t _ => Nat.zero_le t) horder

/-- The quota is a sliding window. Every record is answered; no closed interval of the length of
the window holds more than `m` successes; a record succeeds exactly when fewer than `m` of the
records before it succeeded in the window that ends when it is made; and the other calls change
the outcome of no record. -/
theorem records_slide (m : UInt32) (W : Nat) (calls : List QuotaCall)
    (horder : (calls.flatMap QuotaCall.times).Pairwise (· ≤ ·)) :
    (((new m W).run calls).1.map fun r => (r.now, r.pushed)) =
        calls.filterMap QuotaCall.readings ∧
      (∀ e, (((new m W).run calls).1.countP fun r => within W e r.pushed && r.recorded) ≤ m.toNat) ∧
      (∀ before r after, ((new m W).run calls).1 = before ++ r :: after →
        (r.recorded = true ↔
          (before.countP fun s => within W r.now s.pushed && s.recorded) < m.toNat)) ∧
      ((new m W).run (calls.filter QuotaCall.isRecord)).1 = ((new m W).run calls).1 := by
  rw [run_new m W calls horder]
  obtain ⟨hentry, hcross⟩ := entries_of_times calls horder
  refine ⟨readings_judge _ _ _ _, fun e => ?_, fun before r after hsplit => ?_, ?_⟩
  · rw [← countP_successes]
    simpa using spread_judge _ (spread_nil m.toNat W) (by simp) hentry hcross e
  · rw [recorded_judge _ _ _ _ hsplit, List.nil_append, countP_successes]
  · have hsub : ((calls.filter QuotaCall.isRecord).flatMap QuotaCall.times).Sublist
        (calls.flatMap QuotaCall.times) := List.filter_sublist.flatMap _
    rw [run_new m W _ (horder.sublist hsub), List.filterMap_filter]
    congr 1
    refine List.filterMap_congr fun call _ => ?_
    unfold QuotaCall.isRecord
    cases call.readings <;> rfl

theorem records_slide_one :
    ((new 1 5).run [.record 0 1, .check 4, .record 6 6, .activeCount 7, .record 7 8]).1 =
        [⟨0, 1, true⟩, ⟨6, 6, false⟩, ⟨7, 8, true⟩] ∧
      ((new 1 5).run
          ([.record 0 1, .check 4, .record 6 6, .activeCount 7, .record 7 8].filter
            QuotaCall.isRecord)).1 =
        ((new 1 5).run [.record 0 1, .check 4, .record 6 6, .activeCount 7, .record 7 8]).1 :=
  ⟨by decide, (records_slide 1 5 _ (by decide)).2.2.2⟩

end QuotaWindow

end Behest
