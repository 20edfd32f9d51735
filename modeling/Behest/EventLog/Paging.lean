import Mathlib.Data.List.Induction

/-!
# Reading an ordered log in pages

A log whose entries carry strictly increasing positions, the page that follows a position, and
the reader who asks for page after page, each from the last position seen, until a page is
empty. Whatever the size of the pages, the reader gets the log.
-/

namespace Paging

variable {α : Type} (seq : α → Nat)

/-- The entry comes after the position; without a position every entry does. -/
def isAfter (after : Option Nat) (a : α) : Bool :=
  match after with
  | none => true
  | some n => decide (n < seq a)

/-- The first entries after a position, at most so many. -/
def page (log : List α) (after : Option Nat) (limit : Nat) : List α :=
  (log.filter (isAfter seq after)).take limit

/-- The positions strictly increase. -/
def Ordered (log : List α) : Prop := log.Pairwise fun a b => seq a < seq b

/-- What the reader has when a page is empty; `none` when that takes more calls than so many. -/
def readPages (fetch : Option Nat → List α) : Nat → Option Nat → Option (List α)
  | 0, _ => none
  | calls + 1, after =>
      match (fetch after).getLast? with
      | none => some []
      | some last => (readPages fetch calls (some (seq last))).map (fetch after ++ ·)

variable {seq} {log : List α} {after : Option Nat}

theorem isAfter_trans {a b : α} (ha : isAfter seq after a = true)
    (hb : isAfter seq (some (seq a)) b = true) : isAfter seq after b = true := by
  cases after with
  | none => rfl
  | some n =>
    simp only [isAfter, decide_eq_true_eq] at *
    omega

/-- What follows an entry is what follows its position. -/
theorem filter_isAfter_split {done rest : List α} {a : α} (h : Ordered seq (done ++ a :: rest)) :
    (done ++ a :: rest).filter (isAfter seq (some (seq a))) = rest := by
  obtain ⟨-, htail, hbefore⟩ := List.pairwise_append.mp h
  have hdone : done.filter (isAfter seq (some (seq a))) = [] := by
    rw [List.filter_eq_nil_iff]
    intro b hb
    have hlt := hbefore b hb a List.mem_cons_self
    simp only [isAfter, decide_eq_true_eq]
    omega
  have hrest : rest.filter (isAfter seq (some (seq a))) = rest := by
    rw [List.filter_eq_self]
    intro b hb
    exact decide_eq_true (List.rel_of_pairwise_cons htail hb)
  have hself : ¬ isAfter seq (some (seq a)) a = true := by simp [isAfter]
  rw [List.filter_append, hdone, List.filter_cons, if_neg hself, hrest, List.nil_append]

/-- Behind an entry that comes after a position, the position may be forgotten. -/
theorem filter_isAfter_of_isAfter {a : α} (ha : isAfter seq after a = true) :
    log.filter (isAfter seq (some (seq a))) =
      (log.filter (isAfter seq after)).filter (isAfter seq (some (seq a))) := by
  rw [List.filter_filter]
  apply List.filter_congr
  intro b _
  cases hb : isAfter seq (some (seq a)) b with
  | false => rfl
  | true => rw [isAfter_trans ha hb, Bool.true_and]

theorem Ordered.filter (h : Ordered seq log) (p : α → Bool) : Ordered seq (log.filter p) :=
  h.sublist List.filter_sublist

/-- The next page starts where the last one ended. -/
theorem filter_isAfter_last (h : Ordered seq log) {limit : Nat} {last : α}
    (hlast : (page seq log after limit).getLast? = some last) :
    log.filter (isAfter seq (some (seq last))) =
      (log.filter (isAfter seq after)).drop limit := by
  obtain ⟨done, hpage⟩ := List.getLast?_eq_some_iff.mp hlast
  have hmem : last ∈ log.filter (isAfter seq after) :=
    List.mem_of_mem_take (i := limit) (by rw [← page, hpage]; simp)
  have hsplit : log.filter (isAfter seq after) =
      done ++ last :: (log.filter (isAfter seq after)).drop limit := by
    conv_lhs => rw [← List.take_append_drop limit (log.filter (isAfter seq after))]
    rw [← page, hpage, List.append_assoc, List.singleton_append]
  have hordered := h.filter (isAfter seq after)
  rw [filter_isAfter_of_isAfter (List.mem_filter.mp hmem).2]
  rw [hsplit] at hordered
  conv_lhs => rw [hsplit]
  exact filter_isAfter_split hordered

/-- **The reader gets exactly what follows the position, in order**, whatever the limit. -/
theorem readPages_page (h : Ordered seq log) {limit : Nat} (hlimit : 0 < limit) (calls : Nat)
    (hcalls : (log.filter (isAfter seq after)).length < calls) :
    readPages seq (fun after => page seq log after limit) calls after =
      some (log.filter (isAfter seq after)) := by
  induction calls generalizing after with
  | zero => omega
  | succ calls ih =>
    unfold readPages
    cases hlast : (page seq log after limit).getLast? with
    | none =>
      have hempty : (log.filter (isAfter seq after)).take limit = [] :=
        List.getLast?_eq_none_iff.mp hlast
      rcases List.take_eq_nil_iff.mp hempty with hzero | hnil
      · omega
      · rw [hnil]
    | some last =>
      have hnext := filter_isAfter_last h hlast
      have hlength : 0 < (log.filter (isAfter seq after)).length := by
        apply List.length_pos_of_mem (a := last)
        exact List.mem_of_mem_take (List.mem_of_getLast? hlast)
      have hfewer : (log.filter (isAfter seq (some (seq last)))).length < calls := by
        rw [hnext, List.length_drop]
        omega
      dsimp only
      rw [ih hfewer, hnext, Option.map_some, page, List.take_append_drop]

/-- From the start it gets the log. -/
theorem readPages_start (h : Ordered seq log) {limit : Nat} (hlimit : 0 < limit) (calls : Nat)
    (hcalls : log.length < calls) :
    readPages seq (fun after => page seq log after limit) calls none = some log := by
  have hall : log.filter (isAfter seq none) = log := List.filter_eq_self.mpr fun _ _ => rfl
  rw [readPages_page h hlimit calls (by rw [hall]; exact hcalls), hall]

/-! ### Cutting the page before the position is looked at -/

variable (seq) in
/-- The entries after a position among the first ones. -/
def latePage (log : List α) (after : Option Nat) (limit : Nat) : List α :=
  (log.take limit).filter (isAfter seq after)

variable (seq) in
/-- The positions count the entries, from one. -/
def Dense (log : List α) : Prop := ∀ i (h : i < log.length), seq log[i] = i + 1

theorem Dense.ordered (h : Dense seq log) : Ordered seq log := by
  unfold Ordered
  rw [List.pairwise_iff_getElem]
  intro i j hi hj hij
  rw [h i hi, h j hj]
  omega

theorem Dense.take (h : Dense seq log) (n : Nat) : Dense seq (log.take n) := by
  intro i hi
  rw [List.getElem_take]
  apply h

theorem Dense.snoc (h : Dense seq log) {a : α} (ha : seq a = log.length + 1) :
    Dense seq (log ++ [a]) := by
  intro i hi
  by_cases hlt : i < log.length
  · rw [List.getElem_append_left hlt]
    exact h i hlt
  · have hi' : i = log.length := by
      rw [List.length_append, List.length_singleton] at hi
      omega
    subst hi'
    rw [List.getElem_append_right (Nat.le_refl _)]
    simpa using ha

/-- What comes after a position is what is left when so many entries are dropped. -/
theorem Dense.filter_isAfter (h : Dense seq log) (n : Nat) :
    log.filter (isAfter seq (some n)) = log.drop n := by
  induction log using List.reverseRecOn with
  | nil => simp
  | append_singleton log a ih =>
    have hlog : Dense seq log := by simpa using h.take log.length
    have ha : seq a = log.length + 1 := by
      have hlast := h log.length (by simp)
      simpa using hlast
    rw [List.filter_append, ih hlog]
    by_cases hn : n ≤ log.length
    · have hafter : isAfter seq (some n) a = true := by
        simp only [isAfter, decide_eq_true_eq]
        omega
      rw [List.filter_cons, if_pos hafter, List.filter_nil, List.drop_append_of_le_length hn]
    · have hbefore : ¬ isAfter seq (some n) a = true := by
        simp only [isAfter, decide_eq_true_eq]
        omega
      rw [List.filter_cons, if_neg hbefore, List.filter_nil,
        List.drop_eq_nil_of_le (by omega), List.drop_eq_nil_of_le (by simp; omega)]
      rfl

/-- **The two pages are the same if and only if nothing is cut off, or nothing is left**. -/
theorem Dense.latePage_eq_page_iff (h : Dense seq log) (limit : Nat) :
    latePage seq log after limit = page seq log after limit ↔
      ∀ n, after = some n → n = 0 ∨ limit = 0 ∨ log.length ≤ n ∨ log.length ≤ limit := by
  cases after with
  | none =>
    have hall : ∀ l : List α, l.filter (isAfter seq none) = l := fun l =>
      List.filter_eq_self.mpr fun _ _ => rfl
    simp [latePage, page, hall]
  | some n =>
    rw [latePage, page, (h.take limit).filter_isAfter n, h.filter_isAfter n]
    constructor
    · rintro heq _ ⟨⟩
      have hlength := congrArg List.length heq
      simp only [List.length_drop, List.length_take] at hlength
      omega
    · intro hcase
      rcases hcase n rfl with hn | hlimit | hlength | hlength
      · simp [hn]
      · simp [hlimit]
      · rw [List.drop_eq_nil_of_le hlength, List.drop_eq_nil_of_le (by simp; omega), List.take_nil]
      · rw [List.take_of_length_le hlength, List.take_of_length_le (by simp; omega)]

/-- The reader of late pages gets the first page and no more. -/
theorem Dense.readPages_latePage (h : Dense seq log) (limit calls : Nat)
    (hcalls : log.length < calls) :
    readPages seq (fun after => latePage seq log after limit) calls none =
      some (log.take limit) := by
  have hfirst : latePage seq log none limit = log.take limit :=
    List.filter_eq_self.mpr fun _ _ => rfl
  obtain ⟨calls, rfl⟩ : ∃ n, calls = n + 1 := ⟨calls - 1, by omega⟩
  unfold readPages
  rw [hfirst]
  cases hlast : (log.take limit).getLast? with
  | none => rw [List.getLast?_eq_none_iff.mp hlast]
  | some last =>
    have hpos : 0 < log.length :=
      List.length_pos_of_mem (List.mem_of_mem_take (List.mem_of_getLast? hlast))
    have hseq : seq last = (log.take limit).length := by
      rw [List.getLast?_eq_getElem?] at hlast
      obtain ⟨hi, rfl⟩ := List.getElem?_eq_some_iff.mp hlast
      rw [h.take limit _ hi]
      omega
    obtain ⟨calls, rfl⟩ : ∃ n, calls = n + 1 := ⟨calls - 1, by omega⟩
    have hsecond : latePage seq log (some (seq last)) limit = [] := by
      rw [latePage, (h.take limit).filter_isAfter, hseq, List.drop_length]
    simp [readPages, hsecond]

/-! ### A page and what arrives since -/

/-- The position that is read from, zero when there is none, counts what is skipped. -/
theorem Dense.filter_isAfter_getD (h : Dense seq log) (after : Option Nat) :
    log.filter (isAfter seq after) = log.drop (after.getD 0) := by
  cases after with
  | none => exact List.filter_eq_self.mpr fun _ _ => rfl
  | some n => exact h.filter_isAfter n

/-- Entries dropped before the position do not matter. -/
theorem Dense.filter_isAfter_drop (h : Dense seq log) {p : Nat} (hp : p ≤ after.getD 0) :
    (log.drop p).filter (isAfter seq after) = log.drop (after.getD 0) := by
  cases after with
  | none =>
    obtain rfl : p = 0 := Nat.le_zero.mp hp
    exact h.filter_isAfter_getD none
  | some n =>
    rw [← h.filter_isAfter p, List.filter_filter, ← h.filter_isAfter_getD]
    apply List.filter_congr
    intro a _
    cases ha : isAfter seq (some n) a with
    | false => rfl
    | true =>
      simp only [isAfter, decide_eq_true_eq, Option.getD_some, Bool.true_and] at *
      omega

variable (seq) in
/-- The last position seen: that of the last entry, or the one that was read from. -/
def lastSeen (after : Option Nat) (entries : List α) : Option Nat :=
  (entries.getLast?.map seq).or after

/-- **A page of what a log held, and what it holds from an earlier entry on, cut at the last
position seen, make up what follows the position**. -/
theorem Dense.page_append_rest (h : Dense seq log) {p m : Nat} (hp : p ≤ m) (hm : m ≤ log.length)
    (after : Option Nat) :
    (log.take m).filter (isAfter seq after) ++
        (log.drop p).filter
          (isAfter seq (lastSeen seq after ((log.take m).filter (isAfter seq after)))) =
      log.filter (isAfter seq after) := by
  rw [(h.take m).filter_isAfter_getD, h.filter_isAfter_getD]
  by_cases hk : after.getD 0 < m
  · have hlast : lastSeen seq after ((log.take m).drop (after.getD 0)) = some m := by
      have hlast : m - 1 < log.length := by omega
      have hget : ((log.take m).drop (after.getD 0)).getLast? = some log[m - 1] := by
        have hindex : after.getD 0 + (min m log.length - after.getD 0 - 1) = m - 1 := by omega
        rw [List.getLast?_eq_getElem?, List.length_drop, List.length_take, List.getElem?_drop,
          hindex, List.getElem?_take_of_lt (by omega), List.getElem?_eq_getElem (by omega)]
      rw [lastSeen, hget, Option.map_some, h (m - 1) (by omega), Option.some_or]
      congr 1
      omega
    rw [hlast, h.filter_isAfter_drop (by simpa using hp), Option.getD_some]
    conv_rhs => rw [← List.take_append_drop m log]
    rw [List.drop_append_of_le_length (by rw [List.length_take]; omega)]
  · have hnil : (log.take m).drop (after.getD 0) = [] := by
      apply List.drop_eq_nil_of_le
      rw [List.length_take]
      omega
    rw [hnil, List.nil_append, lastSeen, List.getLast?_nil, Option.map_none, Option.none_or]
    exact h.filter_isAfter_drop (by omega)

end Paging
