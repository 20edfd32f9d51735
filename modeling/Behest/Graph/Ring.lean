import Mathlib.Data.List.Perm.Subperm
import Mathlib.Logic.Relation

/-!
# Rings in every order

A list is a ring of a relation when each entry is related to the next, and the last one to the
first. The lists of given entries are rings in every order, forwards or backwards, exactly when
all entries are related to each other, but for pairs along one triangle.
-/

namespace Graph

variable {α : Type} {r : α → α → Prop} {l : List α} {a b c d : α}

/-- Each entry is related to the next, and the last one to the first. -/
def Ring (r : α → α → Prop) (l : List α) : Prop :=
  l ≠ [] ∧ ∀ i a b, l[i]? = some a → l[(i + 1) % l.length]? = some b → r a b

/-- A ring, read in one of the two directions. -/
def RingInOrder (r : α → α → Prop) (l : List α) : Prop := Ring r l ∨ Ring (flip r) l

/-- A pair of the triangle. -/
def Along (a b c : α) (x y : α) : Prop := x = a ∧ y = b ∨ x = b ∧ y = c ∨ x = c ∧ y = a

theorem Along.rotate {x y : α} (h : Along a b c x y) : Along b c a x y := by
  unfold Along at h ⊢
  tauto

/-- All entries are related to all others, but for pairs along one triangle. -/
def NearlyComplete (r : α → α → Prop) (on : α → Prop) : Prop :=
  (∀ x y, on x → on y → x ≠ y → r x y) ∨
    ∃ a b c, (on a ∧ on b ∧ on c) ∧ [a, b, c].Nodup ∧
      ∀ x y, on x → on y → x ≠ y → r x y ∨ Along a b c x y

/-! ### Neighbours -/

/-- The position after the last is the first. -/
theorem next_cases {i n : Nat} (h : i < n) :
    i + 1 = n ∧ (i + 1) % n = 0 ∨ i + 1 < n ∧ (i + 1) % n = i + 1 := by
  rcases Nat.lt_or_eq_of_le (Nat.succ_le_of_lt h) with h | h
  · exact .inr ⟨h, Nat.mod_eq_of_lt h⟩
  · exact .inl ⟨h, by rw [← h]; exact Nat.mod_self _⟩

/-- An entry and the one that comes next. -/
def Next (l : List α) (a b : α) : Prop :=
  ∃ i, l[i]? = some a ∧ l[(i + 1) % l.length]? = some b

theorem ring_iff_next : Ring r l ↔ l ≠ [] ∧ ∀ a b, Next l a b → r a b :=
  and_congr_right fun _ =>
    ⟨fun h a b ⟨i, ha, hb⟩ => h i a b ha hb, fun h i a b ha hb => h a b ⟨i, ha, hb⟩⟩

theorem Next.mem (h : Next l a b) : a ∈ l ∧ b ∈ l :=
  have ⟨_, ha, hb⟩ := h
  ⟨List.mem_of_getElem? ha, List.mem_of_getElem? hb⟩

theorem lt_of_getElem? {i : Nat} (h : l[i]? = some a) : i < l.length :=
  (List.getElem?_eq_some_iff.mp h).1

theorem eq_of_getElem? (hnodup : l.Nodup) {i j : Nat} (hi : l[i]? = some a)
    (hj : l[j]? = some a) : i = j :=
  (List.getElem?_inj (lt_of_getElem? hi) hnodup).mp (hi.trans hj.symm)

section Neighbours

variable (hnodup : l.Nodup)
include hnodup

theorem Next.right_unique (h : Next l a b) (h' : Next l a c) : b = c := by
  obtain ⟨i, ha, hb⟩ := h
  obtain ⟨j, ha', hc⟩ := h'
  obtain rfl := eq_of_getElem? hnodup ha ha'
  exact Option.some.inj (hb.symm.trans hc)

theorem Next.left_unique (h : Next l a c) (h' : Next l b c) : a = b := by
  obtain ⟨i, ha, hc⟩ := h
  obtain ⟨j, hb, hc'⟩ := h'
  have hij := eq_of_getElem? hnodup hc hc'
  have hi := next_cases (lt_of_getElem? ha)
  have hj := next_cases (lt_of_getElem? hb)
  obtain rfl : i = j := by omega
  exact Option.some.inj (ha.symm.trans hb)

/-- Two entries come after each other only where there are no others. -/
theorem Next.length_le (h : Next l a b) (h' : Next l b a) : l.length ≤ 2 := by
  obtain ⟨i, ha, hb⟩ := h
  obtain ⟨j, hb', ha'⟩ := h'
  have hij := eq_of_getElem? hnodup hb hb'
  have hji := eq_of_getElem? hnodup ha' ha
  have hi := next_cases (lt_of_getElem? ha)
  have hj := next_cases (lt_of_getElem? hb')
  omega

theorem Next.ne (h : Next l a b) (hlength : 1 < l.length) : a ≠ b := by
  rintro rfl
  obtain ⟨i, ha, ha'⟩ := h
  have hi := eq_of_getElem? hnodup ha ha'
  have hnext := next_cases (lt_of_getElem? ha)
  omega

end Neighbours

/-! ### The entries of a ring -/

/-- Along a ring, an entry is related to those that come after it. -/
theorem Ring.transGen (h : Ring r l) {i k : Nat} (ha : l[i]? = some a)
    (hb : l[(i + (k + 1)) % l.length]? = some b) : Relation.TransGen r a b := by
  induction k generalizing b with
  | zero => exact .single (h.2 i a b ha hb)
  | succ k ih =>
    have hlt : (i + (k + 1)) % l.length < l.length :=
      Nat.mod_lt _ (List.length_pos_iff.mpr h.1)
    have hnext : ((i + (k + 1)) % l.length + 1) % l.length = (i + (k + 1 + 1)) % l.length := by
      rw [Nat.mod_add_mod, Nat.add_assoc]
    exact (ih (List.getElem?_eq_getElem hlt)).tail
      (h.2 _ _ b (List.getElem?_eq_getElem hlt) (hnext ▸ hb))

/-- Around a ring, every entry is related to itself. -/
theorem Ring.transGen_self (h : Ring r l) (ha : a ∈ l) : Relation.TransGen r a a := by
  obtain ⟨i, hi⟩ := List.getElem?_of_mem ha
  have hlt := lt_of_getElem? hi
  refine h.transGen hi (k := l.length - 1) ?_
  rwa [Nat.sub_add_cancel (Nat.zero_lt_of_lt hlt), Nat.add_mod_right, Nat.mod_eq_of_lt hlt]

theorem RingInOrder.transGen_self (h : RingInOrder r l) (ha : a ∈ l) :
    Relation.TransGen r a a := by
  rcases h with h | h
  · exact h.transGen_self ha
  · exact Relation.transGen_swap.mp (h.transGen_self ha)

/-! ### Every order -/

/-- All entries are related: a ring. -/
theorem ring_of_complete (hnodup : l.Nodup) (hlength : 1 < l.length)
    (h : ∀ x y, x ∈ l → y ∈ l → x ≠ y → r x y) : Ring r l := by
  refine ring_iff_next.mpr ⟨List.ne_nil_of_length_pos (Nat.zero_lt_of_lt hlength), ?_⟩
  exact fun x y hnext => h x y hnext.mem.1 hnext.mem.2 (hnext.ne hnodup hlength)

theorem three_le_length (hdistinct : [a, b, c].Nodup) (ha : a ∈ l) (hb : b ∈ l) (hc : c ∈ l) :
    3 ≤ l.length := by
  have hsub : [a, b, c] ⊆ l := by simp [ha, hb, hc]
  exact (hdistinct.subperm hsub).length_le

/-- Where a pair of the triangle comes next to each other, no other one comes in reverse. -/
theorem ring_flip_of_next (hnodup : l.Nodup) (hdistinct : [a, b, c].Nodup) (hc : c ∈ l)
    (h : ∀ x y, x ∈ l → y ∈ l → x ≠ y → r x y ∨ Along a b c x y) (hnext : Next l a b) :
    Ring (flip r) l := by
  have hlength := three_le_length hdistinct hnext.mem.1 hnext.mem.2 hc
  refine ring_iff_next.mpr ⟨List.ne_nil_of_length_pos (by omega), fun x y hxy => ?_⟩
  have hne : x ≠ y := hxy.ne hnodup (by omega)
  obtain hrel | ⟨rfl, rfl⟩ | ⟨rfl, rfl⟩ | ⟨rfl, rfl⟩ := h y x hxy.mem.2 hxy.mem.1 hne.symm
  · exact hrel
  · have hle := hxy.length_le hnodup hnext
    omega
  · have hsame := hxy.left_unique hnodup hnext
    simp [hsame] at hdistinct
  · have hsame := hxy.right_unique hnodup hnext
    simp [hsame] at hdistinct

/-- Nearly complete entries are a ring in one of the directions. -/
theorem NearlyComplete.ringInOrder (h : NearlyComplete r (· ∈ l)) (hnodup : l.Nodup)
    (hlength : 1 < l.length) : RingInOrder r l := by
  obtain h | ⟨a, b, c, ⟨ha, hb, hc⟩, hdistinct, h⟩ := h
  · exact .inl (ring_of_complete hnodup hlength h)
  by_cases hring : Ring r l
  · exact .inl hring
  · obtain ⟨x, y, hxy, hnot⟩ : ∃ x y, Next l x y ∧ ¬ r x y := by
      by_contra hall
      push Not at hall
      exact hring (ring_iff_next.mpr ⟨List.ne_nil_of_length_pos (Nat.zero_lt_of_lt hlength), hall⟩)
    -- turned around, the triangle starts with the missing pair
    have hdistinct' : [b, c, a].Nodup :=
      (List.perm_append_singleton a [b, c]).nodup_iff.mpr hdistinct
    have hdistinct'' : [c, a, b].Nodup :=
      (List.perm_append_singleton b [c, a]).nodup_iff.mpr hdistinct'
    have h' := fun x y hx hy hne => (h x y hx hy hne).imp_right Along.rotate
    have h'' := fun x y hx hy hne => (h' x y hx hy hne).imp_right Along.rotate
    have hne : x ≠ y := hxy.ne hnodup hlength
    obtain ⟨rfl, rfl⟩ | ⟨rfl, rfl⟩ | ⟨rfl, rfl⟩ :=
      (h x y hxy.mem.1 hxy.mem.2 hne).resolve_left hnot
    · exact .inr (ring_flip_of_next hnodup hdistinct hc h hxy)
    · exact .inr (ring_flip_of_next hnodup hdistinct' ha h' hxy)
    · exact .inr (ring_flip_of_next hnodup hdistinct'' hb h'' hxy)

/-- Some entries can come first. -/
theorem exists_front {front : List α} (hfront : front.Nodup) (hsub : front ⊆ l) :
    ∃ rest, (front ++ rest).Perm l := by
  obtain ⟨front', hperm, hsublist⟩ := hfront.subperm hsub
  obtain ⟨rest, hrest⟩ := hsublist.exists_perm_append
  exact ⟨rest, ((hperm.symm.append_right rest).trans hrest.symm)⟩

/-- Two entries that are not related, in this order. -/
structure Missing (r : α → α → Prop) (l : List α) (a b : α) : Prop where
  left : a ∈ l
  right : b ∈ l
  ne : a ≠ b
  not : ¬ r a b

theorem next_append (before after : List α) (a b : α) : Next (before ++ a :: b :: after) a b := by
  refine ⟨before.length, by simp, ?_⟩
  rw [Nat.mod_eq_of_lt (by simp)]
  simp

section Every

variable (h : ∀ l', l'.Perm l → RingInOrder r l')
include h

/-- No order has a missing pair next to each other, and another one the other way round. -/
theorem Missing.not_next (hab : Missing r l a b) (hcd : Missing r l c d) {l' : List α}
    (hperm : l'.Perm l) (hnext : Next l' a b) : ¬ Next l' d c := by
  intro hreverse
  rcases h l' hperm with hring | hring
  · exact hab.not ((ring_iff_next.mp hring).2 a b hnext)
  · exact hcd.not ((ring_iff_next.mp hring).2 d c hreverse)

/-- Beside the entries of a missing pair there is another one. -/
theorem Missing.exists_third (hnodup : l.Nodup) (hab : Missing r l a b) :
    ∃ c ∈ l, [a, b, c].Nodup := by
  have hfront : [a, b].Nodup := by simpa using hab.ne
  have hsub : [a, b] ⊆ l := by simp [hab.left, hab.right]
  obtain ⟨rest, hperm⟩ := exists_front hfront hsub
  cases rest with
  | nil =>
    have hreverse : Next [a, b] b a := ⟨1, rfl, by simp⟩
    exact absurd hreverse (Missing.not_next h hab hab hperm (next_append [] [] a b))
  | cons c rest =>
    have hall : ([a, b, c] ++ rest).Nodup := hperm.nodup_iff.mpr hnodup
    exact ⟨c, hperm.mem_iff.mp (by simp), (List.nodup_append.mp hall).1⟩

/-- Two missing pairs are the same, or one starts where the other ends. -/
theorem Missing.meet (hab : Missing r l a b) (hcd : Missing r l c d) :
    c = a ∧ d = b ∨ c = b ∧ d ≠ a ∨ d = a ∧ c ≠ b := by
  -- No order has the first pair next to each other and the second one in reverse.
  have hapart (front : List α) (hfront : front.Nodup) (hsub : front ⊆ l)
      (hnext : ∀ rest, Next (front ++ rest) a b ∧ Next (front ++ rest) d c) : False := by
    obtain ⟨rest, hperm⟩ := exists_front hfront hsub
    exact Missing.not_next h hab hcd hperm (hnext rest).1 (hnext rest).2
  have ha := hab.left
  have hb := hab.right
  have hc := hcd.left
  have hd := hcd.right
  have hab' := hab.ne
  have hcd' := hcd.ne
  by_cases hca : c = a
  · subst hca
    by_cases hdb : d = b
    · exact .inl ⟨rfl, hdb⟩
    · exact (hapart [d, c, b] (by simp [hdb, hcd'.symm, hab']) (by simp [ha, hb, hd]) fun rest =>
        ⟨next_append [d] rest c b, next_append [] (b :: rest) d c⟩).elim
  by_cases hcb : c = b
  · subst hcb
    by_cases hda : d = a
    · subst hda
      exact (hapart [d, c] (by simp [hab']) (by simp [ha, hb]) fun rest =>
        ⟨next_append [] rest d c, next_append [] rest d c⟩).elim
    · exact .inr (.inl ⟨rfl, hda⟩)
  by_cases hda : d = a
  · exact .inr (.inr ⟨hda, hcb⟩)
  by_cases hdb : d = b
  · subst hdb
    exact (hapart [a, d, c] (by simp [hab', Ne.symm hca, hcd'.symm]) (by simp [ha, hb, hc])
      fun rest => ⟨next_append [] (c :: rest) a d, next_append [a] rest d c⟩).elim
  · refine (hapart [a, b, d, c] ?_ (by simp [ha, hb, hc, hd]) fun rest =>
      ⟨next_append [] (d :: c :: rest) a b, next_append [a, b] rest d c⟩).elim
    simp [hab', Ne.symm hda, Ne.symm hca, Ne.symm hdb, Ne.symm hcb, hcd'.symm]

/-- Where a missing pair starts at the end of another one, they are two pairs of a triangle, and
all that are missing are its pairs. -/
theorem Missing.along (hab : Missing r l a b) (hbd : Missing r l b d) (hda : d ≠ a) {x y : α}
    (hxy : Missing r l x y) : Along a b d x y := by
  obtain h₁ | ⟨rfl, hya⟩ | ⟨rfl, hxb⟩ := Missing.meet h hab hxy
  · exact .inl h₁
  · obtain h₂ | ⟨rfl, -⟩ | ⟨rfl, -⟩ := Missing.meet h hbd hxy
    · exact .inr (.inl h₂)
    · exact absurd rfl hbd.ne
    · exact absurd rfl hxy.ne
  · obtain ⟨rfl, -⟩ | ⟨rfl, -⟩ | ⟨rfl, -⟩ := Missing.meet h hbd hxy
    · exact absurd rfl hxb
    · exact .inr (.inr ⟨rfl, rfl⟩)
    · exact absurd rfl hab.ne

/-- A ring in every order is nearly complete. -/
theorem nearlyComplete_of_every (hnodup : l.Nodup) : NearlyComplete r (· ∈ l) := by
  by_cases hcomplete : ∀ x y, x ∈ l → y ∈ l → x ≠ y → r x y
  · exact .inl hcomplete
  push Not at hcomplete
  obtain ⟨a, b, ha, hb, hne, hnot⟩ := hcomplete
  have hab : Missing r l a b := ⟨ha, hb, hne, hnot⟩
  have htriangle {a b c : α} (hmem : a ∈ l ∧ b ∈ l ∧ c ∈ l) (hdistinct : [a, b, c].Nodup)
      (hall : ∀ x y, Missing r l x y → Along a b c x y) : NearlyComplete r (· ∈ l) := by
    refine .inr ⟨a, b, c, hmem, hdistinct, fun x y hx hy hne => ?_⟩
    by_cases hrel : r x y
    · exact .inl hrel
    · exact .inr (hall x y ⟨hx, hy, hne, hrel⟩)
  by_cases honly : ∀ x y, Missing r l x y → x = a ∧ y = b
  · obtain ⟨c, hc, hdistinct⟩ := Missing.exists_third h hnodup hab
    exact htriangle ⟨ha, hb, hc⟩ hdistinct fun x y hxy => .inl (honly x y hxy)
  push Not at honly
  obtain ⟨c, d, hcd, hother⟩ := honly
  obtain ⟨rfl, rfl⟩ | ⟨rfl, hda⟩ | ⟨rfl, hcb⟩ := Missing.meet h hab hcd
  · exact absurd rfl (hother rfl)
  · have hdistinct : [a, c, d].Nodup := by simp [hab.ne, hda.symm, hcd.ne]
    exact htriangle ⟨ha, hb, hcd.right⟩ hdistinct fun x y => Missing.along h hab hcd hda
  · have hdistinct : [c, d, b].Nodup := by simp [hcd.ne, hcb, hab.ne]
    exact htriangle ⟨hcd.left, ha, hb⟩ hdistinct fun x y => Missing.along h hcd hab hcb.symm

end Every

/-- **A ring in every order.** Entries without repetitions, a single one of which is related to
itself, are a ring in every order exactly when they are nearly complete. -/
theorem forall_perm_ringInOrder_iff (hnodup : l.Nodup) (hne : l ≠ [])
    (hself : ∀ a, l = [a] → r a a) :
    (∀ l', l'.Perm l → RingInOrder r l') ↔ NearlyComplete r (· ∈ l) := by
  constructor
  · exact fun h => nearlyComplete_of_every h hnodup
  · intro h l' hperm
    rcases Nat.lt_or_ge 1 l.length with hlength | hlength
    · have h' : NearlyComplete r (· ∈ l') := by
        simpa only [hperm.mem_iff] using h
      exact h'.ringInOrder (hperm.nodup_iff.mpr hnodup) (hperm.length_eq ▸ hlength)
    · obtain ⟨a, rfl⟩ : ∃ a, l = [a] := by
        refine List.length_eq_one_iff.mp (Nat.le_antisymm hlength ?_)
        exact List.length_pos_iff.mpr hne
      rw [List.perm_singleton.mp hperm]
      refine .inl ⟨List.cons_ne_nil _ _, fun i x y hx hy => ?_⟩
      rw [List.mem_singleton.mp (List.mem_of_getElem? hx),
        List.mem_singleton.mp (List.mem_of_getElem? hy)]
      exact hself a rfl

end Graph
