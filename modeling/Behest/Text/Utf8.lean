import Mathlib.Data.List.Basic

/-!
# UTF-8 decoding with replacements

Bytes are decoded one by one; a sequence that breaks off is replaced as far as it was well
formed. What becomes of a text whose encoding is decoded in pieces: a character that is cut by
the border of a piece turns into replacement characters, and everything else stays.
-/

namespace Text

/-- U+FFFD. -/
def replacement : Char := Char.ofNat 0xFFFD

/-- A character under way: the number of bytes it still needs, its bits so far, and the range
of its next byte. -/
structure Pending where
  needed : Nat
  bits : Nat
  lower : Nat
  upper : Nat

/-- A byte between two characters. -/
def firstByte (b : Nat) : List Char × Option Pending :=
  if b < 0x80 then ([Char.ofNat b], none)
  else if 0xC2 ≤ b ∧ b ≤ 0xDF then ([], some ⟨1, b - 0xC0, 0x80, 0xBF⟩)
  else if 0xE0 ≤ b ∧ b ≤ 0xEF then
    -- no overlong forms, and no surrogates
    ([], some ⟨2, b - 0xE0, if b = 0xE0 then 0xA0 else 0x80, if b = 0xED then 0x9F else 0xBF⟩)
  else if 0xF0 ≤ b ∧ b ≤ 0xF4 then
    ([], some ⟨3, b - 0xF0, if b = 0xF0 then 0x90 else 0x80, if b = 0xF4 then 0x8F else 0xBF⟩)
  else ([replacement], none)

/-- One byte: the characters it completes, and the character that is under way then. -/
def nextByte : Option Pending → Nat → List Char × Option Pending
  | none, b => firstByte b
  | some p, b =>
      if p.lower ≤ b ∧ b ≤ p.upper then
        let bits := p.bits * 64 + (b - 0x80)
        if p.needed = 1 then ([Char.ofNat bits], none)
        else ([], some ⟨p.needed - 1, bits, 0x80, 0xBF⟩)
      else (replacement :: (firstByte b).1, (firstByte b).2)

/-- Decode bytes behind a character under way. -/
def decodeFrom : Option Pending → List UInt8 → List Char
  | none, [] => []
  | some _, [] => [replacement]
  | p, b :: rest => (nextByte p b.toNat).1 ++ decodeFrom (nextByte p b.toNat).2 rest

/-- Decode bytes that need not be well formed. -/
def decodeLossy (bytes : List UInt8) : List Char := decodeFrom none bytes

/-- The encoding of a text. -/
def encode (text : List Char) : List UInt8 := text.flatMap String.utf8EncodeChar

/-- A byte that continues a character. -/
def IsContinuation (b : UInt8) : Prop := 0x80 ≤ b.toNat ∧ b.toNat ≤ 0xBF

@[simp] theorem encode_nil : encode [] = [] := rfl

@[simp] theorem encode_cons (c : Char) (text : List Char) :
    encode (c :: text) = String.utf8EncodeChar c ++ encode text := rfl

theorem decodeFrom_cons (p : Option Pending) (b : UInt8) (rest : List UInt8) :
    decodeFrom p (b :: rest) =
      (nextByte p b.toNat).1 ++ decodeFrom (nextByte p b.toNat).2 rest := by
  cases p <;> rfl

/-- A continuation that no character waits for is replaced. -/
theorem decodeLossy_continuation {b : UInt8} (h : IsContinuation b) (rest : List UInt8) :
    decodeLossy (b :: rest) = replacement :: decodeLossy rest := by
  obtain ⟨hlower, hupper⟩ := h
  have hfirst : nextByte none b.toNat = ([replacement], none) := by
    rw [nextByte, firstByte, if_neg (by omega), if_neg (by omega), if_neg (by omega),
      if_neg (by omega)]
  rw [decodeLossy, decodeFrom_cons, hfirst]
  rfl

theorem decodeLossy_continuations {bytes : List UInt8} (h : ∀ b ∈ bytes, IsContinuation b)
    (rest : List UInt8) :
    decodeLossy (bytes ++ rest) = List.replicate bytes.length replacement ++ decodeLossy rest := by
  induction bytes with
  | nil => rfl
  | cons b bytes ih =>
    rw [List.cons_append, decodeLossy_continuation (h b List.mem_cons_self),
      ih fun b' hb' => h b' (List.mem_cons_of_mem _ hb')]
    rfl

/-! ### Whole characters and cut ones -/

/-- Bytes that complete a character, and nothing before the last of them. -/
def Completes (c : Char) : Option Pending → List UInt8 → Prop
  | _, [] => False
  | p, [b] => nextByte p b.toNat = ([c], none)
  | p, b :: rest => ∃ q, nextByte p b.toNat = ([], some q) ∧ Completes c (some q) rest

/-- The byte that carries six bits. -/
theorem toNat_six (n : Nat) : (UInt8.ofNat (n % 64 + 128)).toNat = n % 64 + 128 :=
  UInt8.toNat_ofNat_of_lt' (show n % 64 + 128 < 256 by omega)

theorem isContinuation_six (n : Nat) : IsContinuation (UInt8.ofNat (n % 64 + 128)) := by
  rw [IsContinuation, toNat_six]
  omega

theorem nextByte_more {needed bits lower upper n : Nat}
    (h : lower ≤ n % 64 + 128 ∧ n % 64 + 128 ≤ upper) :
    nextByte (some ⟨needed + 2, bits, lower, upper⟩) (UInt8.ofNat (n % 64 + 128)).toNat =
      ([], some ⟨needed + 1, bits * 64 + n % 64, 0x80, 0xBF⟩) := by
  rw [toNat_six, nextByte, if_pos h, Nat.add_sub_cancel]
  exact if_neg (by simp)

theorem nextByte_last {bits lower upper n : Nat} (h : lower ≤ n % 64 + 128 ∧ n % 64 + 128 ≤ upper) :
    nextByte (some ⟨1, bits, lower, upper⟩) (UInt8.ofNat (n % 64 + 128)).toNat =
      ([Char.ofNat (bits * 64 + n % 64)], none) := by
  rw [toNat_six, nextByte, if_pos h, Nat.add_sub_cancel]
  exact if_pos rfl

/-- The bytes of a character complete it, and all but the first continue one. -/
theorem completes_utf8EncodeChar (c : Char) :
    Completes c none (String.utf8EncodeChar c) ∧
      ∀ b ∈ (String.utf8EncodeChar c).tail, IsContinuation b := by
  have hvalid : c.val.toNat < 0xD800 ∨ 0xDFFF < c.val.toNat ∧ c.val.toNat < 0x110000 := c.valid
  have hc : Char.ofNat c.val.toNat = c := Char.ofNat_toNat c
  have hbyte {n : Nat} (h : n < 256) : (UInt8.ofNat n).toNat = n := UInt8.toNat_ofNat_of_lt' h
  unfold String.utf8EncodeChar
  generalize c.val.toNat = v at hvalid hc
  subst hc
  simp only
  split
  · next h1 =>
    refine ⟨?_, nofun⟩
    rw [Completes, hbyte (by omega), nextByte, firstByte, if_pos (by omega)]
  · split
    · next h1 h2 =>
      have hfirst : nextByte none (UInt8.ofNat (v / 64 % 32 + 192)).toNat =
          ([], some ⟨1, v / 64 % 32 + 192 - 0xC0, 0x80, 0xBF⟩) := by
        rw [hbyte (by omega), nextByte, firstByte, if_neg (by omega), if_pos (by omega)]
      refine ⟨⟨_, hfirst, ?_⟩, List.forall_mem_cons.mpr ⟨isContinuation_six v, nofun⟩⟩
      rw [Completes, nextByte_last (by omega)]
      congr 3
      omega
    · split
      · next h1 h2 h3 =>
        have hfirst : nextByte none (UInt8.ofNat (v / 4096 % 16 + 224)).toNat =
            ([], some ⟨2, v / 4096 % 16 + 224 - 0xE0,
              if v / 4096 % 16 + 224 = 0xE0 then 0xA0 else 0x80,
              if v / 4096 % 16 + 224 = 0xED then 0x9F else 0xBF⟩) := by
          rw [hbyte (by omega), nextByte, firstByte, if_neg (by omega), if_neg (by omega),
            if_pos (by omega)]
        refine ⟨⟨_, hfirst, _, nextByte_more ⟨by split <;> omega, by split <;> omega⟩, ?_⟩,
          List.forall_mem_cons.mpr ⟨isContinuation_six (v / 64),
            List.forall_mem_cons.mpr ⟨isContinuation_six v, nofun⟩⟩⟩
        rw [Completes, nextByte_last (by omega)]
        congr 3
        omega
      · next h1 h2 h3 =>
        have hfirst : nextByte none (UInt8.ofNat (v / 262144 % 8 + 240)).toNat =
            ([], some ⟨3, v / 262144 % 8 + 240 - 0xF0,
              if v / 262144 % 8 + 240 = 0xF0 then 0x90 else 0x80,
              if v / 262144 % 8 + 240 = 0xF4 then 0x8F else 0xBF⟩) := by
          rw [hbyte (by omega), nextByte, firstByte, if_neg (by omega), if_neg (by omega),
            if_neg (by omega), if_pos (by omega)]
        refine ⟨⟨_, hfirst, _, nextByte_more ⟨by split <;> omega, by split <;> omega⟩, _,
            nextByte_more ⟨by omega, by omega⟩, ?_⟩,
          List.forall_mem_cons.mpr ⟨isContinuation_six (v / 4096),
            List.forall_mem_cons.mpr ⟨isContinuation_six (v / 64),
              List.forall_mem_cons.mpr ⟨isContinuation_six v, nofun⟩⟩⟩⟩
        rw [Completes, nextByte_last (by omega)]
        congr 3
        omega

/-- A whole character is decoded. -/
theorem decodeFrom_of_completes {c : Char} {p : Option Pending} {bytes : List UInt8}
    (h : Completes c p bytes) (rest : List UInt8) :
    decodeFrom p (bytes ++ rest) = c :: decodeLossy rest := by
  induction bytes generalizing p with
  | nil => exact h.elim
  | cons b more ih =>
    rw [List.cons_append, decodeFrom_cons]
    cases more with
    | nil =>
      rw [show nextByte p b.toNat = ([c], none) from h]
      rfl
    | cons b' more =>
      obtain ⟨q, hnext, hmore⟩ := h
      rw [hnext]
      exact ih hmore

/-- A character that breaks off is replaced. -/
theorem decodeFrom_of_cut {c : Char} {p : Option Pending} {bytes rest : List UInt8}
    (h : Completes c p (bytes ++ rest)) (hrest : rest ≠ []) (hbytes : bytes ≠ []) :
    decodeFrom p bytes = [replacement] := by
  induction bytes generalizing p with
  | nil => exact absurd rfl hbytes
  | cons b more ih =>
    obtain ⟨b', more', hmore'⟩ := List.exists_cons_of_ne_nil
      (show more ++ rest ≠ [] from fun hnil => hrest (List.append_eq_nil_iff.mp hnil).2)
    rw [List.cons_append, hmore'] at h
    obtain ⟨q, hnext, hcompletes⟩ := h
    rw [decodeFrom_cons, hnext]
    cases more with
    | nil => rfl
    | cons d more => exact ih (hmore' ▸ hcompletes) (by simp)

@[simp] theorem decodeLossy_utf8EncodeChar (c : Char) (rest : List UInt8) :
    decodeLossy (String.utf8EncodeChar c ++ rest) = c :: decodeLossy rest :=
  decodeFrom_of_completes (completes_utf8EncodeChar c).1 rest

theorem decodeLossy_encode_append (text : List Char) (rest : List UInt8) :
    decodeLossy (encode text ++ rest) = text ++ decodeLossy rest := by
  induction text with
  | nil => rfl
  | cons c text ih =>
    rw [encode_cons, List.append_assoc, decodeLossy_utf8EncodeChar, ih, List.cons_append]

/-- An encoded text is decoded. -/
theorem decodeLossy_encode (text : List Char) : decodeLossy (encode text) = text := by
  have h := decodeLossy_encode_append text []
  rwa [List.append_nil, show decodeLossy [] = [] from rfl, List.append_nil] at h

/-! ### Texts in pieces -/

/-- The second text is the first one with some characters, none of them ASCII, replaced. -/
inductive Blurred : List Char → List Char → Prop
  | nil : Blurred [] []
  | keep {s s' : List Char} (c : Char) (h : Blurred s s') : Blurred (c :: s) (c :: s')
  | lose {s s' : List Char} (c : Char) (n : Nat) (hc : 0x80 ≤ c.toNat) (h : Blurred s s') :
      Blurred (c :: s) (List.replicate (n + 1) replacement ++ s')

theorem Blurred.keepAll {s s' : List Char} (h : Blurred s s') (text : List Char) :
    Blurred (text ++ s) (text ++ s') := by
  induction text with
  | nil => exact h
  | cons c text ih => exact .keep c ih

theorem two_le_of_cut {c : Char} {x y : List UInt8} (h : String.utf8EncodeChar c = x ++ y)
    (hx : x ≠ []) (hy : y ≠ []) : 0x80 ≤ c.toNat := by
  by_contra hlt
  have hone : String.utf8EncodeChar c = [UInt8.ofNat c.toNat] := by
    unfold String.utf8EncodeChar
    exact if_pos (show c.val.toNat ≤ 0x7f from Nat.le_of_lt_succ (Nat.not_le.mp hlt))
  have hlen := congrArg List.length (hone.symm.trans h)
  have hx' := List.length_pos_iff.mpr hx
  have hy' := List.length_pos_iff.mpr hy
  simp only [List.length_append, List.length_singleton] at hlen
  omega

/-- A prefix of an encoded text ends between two characters or within one. -/
theorem encode_eq_append {text : List Char} {x y : List UInt8} (h : encode text = x ++ y) :
    (∃ s t, text = s ++ t ∧ x = encode s ∧ y = encode t) ∨
      ∃ s c t u v, text = s ++ c :: t ∧ u ≠ [] ∧ v ≠ [] ∧ String.utf8EncodeChar c = u ++ v ∧
        x = encode s ++ u ∧ y = v ++ encode t := by
  induction text generalizing x with
  | nil =>
    obtain ⟨rfl, rfl⟩ := List.append_eq_nil_iff.mp h.symm
    exact .inl ⟨[], [], rfl, rfl, rfl⟩
  | cons c text ih =>
    rw [encode_cons] at h
    rcases List.append_eq_append_iff.mp h with ⟨x', rfl, htext⟩ | ⟨v, hc, rfl⟩
    · rcases ih htext with ⟨s, t, rfl, rfl, rfl⟩ | ⟨s, d, t, u, v, rfl, hu, hv, hd, rfl, rfl⟩
      · exact .inl ⟨c :: s, t, rfl, rfl, rfl⟩
      · exact .inr ⟨c :: s, d, t, u, v, rfl, hu, hv, hd, (List.append_assoc ..).symm, rfl⟩
    · by_cases hx : x = []
      · subst hx
        exact .inl ⟨[], c :: text, rfl, rfl, by rw [encode_cons, hc, List.nil_append]⟩
      · by_cases hv : v = []
        · subst hv
          refine .inl ⟨[c], text, rfl, ?_, rfl⟩
          rw [encode_cons, hc, List.append_nil, encode_nil, List.append_nil]
        · exact .inr ⟨[], c, text, x, v, rfl, hx, hv, hc, rfl, rfl⟩

/-- Pieces that start behind some bytes of a character that was cut. -/
theorem blurred_pieces (pieces : List (List UInt8)) {cut : List UInt8} {text : List Char}
    (h : pieces.flatten = cut ++ encode text) (hcut : ∀ b ∈ cut, IsContinuation b) :
    ∃ s, pieces.flatMap decodeLossy = List.replicate cut.length replacement ++ s ∧
      Blurred text s := by
  induction pieces generalizing cut text with
  | nil =>
    obtain ⟨rfl, htext⟩ := List.append_eq_nil_iff.mp h.symm
    cases text with
    | nil => exact ⟨[], rfl, .nil⟩
    | cons c text =>
      have hnil := (List.append_eq_nil_iff.mp htext).1
      have hcompletes := (completes_utf8EncodeChar c).1
      rw [hnil] at hcompletes
      exact hcompletes.elim
  | cons piece pieces ih =>
    rw [List.flatten_cons] at h
    rw [List.flatMap_cons]
    rcases List.append_eq_append_iff.mp h with ⟨cut', rfl, hrest⟩ | ⟨x, rfl, htext⟩
    · -- the piece lies within the rest of the character
      have hpiece : ∀ b ∈ piece, IsContinuation b := fun b hb => hcut b (List.mem_append_left _ hb)
      obtain ⟨s, hs, hblurred⟩ := ih hrest fun b hb => hcut b (List.mem_append_right _ hb)
      refine ⟨s, ?_, hblurred⟩
      have hdecode := decodeLossy_continuations hpiece []
      rw [List.append_nil, show decodeLossy [] = [] from rfl, List.append_nil] at hdecode
      rw [hdecode, hs, List.length_append, ← List.replicate_append_replicate, List.append_assoc]
    · rw [decodeLossy_continuations hcut]
      rcases encode_eq_append htext with ⟨s, t, rfl, rfl, hy⟩ |
        ⟨s, c, t, u, v, rfl, hu, hv, hc, rfl, hy⟩
      · obtain ⟨s', hs', hblurred⟩ := ih (show pieces.flatten = [] ++ encode t from hy) nofun
        refine ⟨s ++ s', ?_, hblurred.keepAll s⟩
        rw [decodeLossy_encode, hs', List.append_assoc]
        rfl
      · obtain ⟨hcompletes, hcontinues⟩ := completes_utf8EncodeChar c
        have hv' : ∀ b ∈ v, IsContinuation b := fun b hb => by
          obtain ⟨a, u', rfl⟩ := List.exists_cons_of_ne_nil hu
          exact hcontinues b (by rw [hc]; exact List.mem_append_right _ hb)
        obtain ⟨s', hs', hblurred⟩ := ih hy hv'
        refine ⟨s ++ (List.replicate (v.length + 1) replacement ++ s'), ?_,
          (Blurred.lose c v.length (two_le_of_cut hc hu hv) hblurred).keepAll s⟩
        rw [decodeLossy_encode_append, decodeLossy, decodeFrom_of_cut (hc ▸ hcompletes) hv hu, hs',
          List.replicate_succ]
        simp [List.append_assoc]

/-- A text that is decoded in pieces. -/
theorem blurred_of_flatten {pieces : List (List UInt8)} {text : List Char}
    (h : pieces.flatten = encode text) : Blurred text (pieces.flatMap decodeLossy) := by
  obtain ⟨s, hs, hblurred⟩ :=
    blurred_pieces pieces (show pieces.flatten = [] ++ encode text from h) nofun
  rwa [hs]

/-- A character of one byte. -/
abbrev IsAscii (c : Char) : Prop := c.toNat < 0x80

instance (d : List Char) : Decidable (∀ c ∈ d, IsAscii c) := List.decidableBAll _ d

theorem not_isAscii_replacement : ¬ IsAscii replacement := by decide

theorem Blurred.of_cons_left {a : Char} (ha : IsAscii a) {s s' : List Char}
    (h : Blurred (a :: s) s') : ∃ t, s' = a :: t ∧ Blurred s t := by
  cases h with
  | keep _ h => exact ⟨_, rfl, h⟩
  | lose _ n hc h => exact absurd ha (Nat.not_lt.mpr hc)

theorem Blurred.of_cons_right {a : Char} (ha : IsAscii a) {s s' : List Char}
    (h : Blurred s (a :: s')) : ∃ t, s = a :: t ∧ Blurred t s' := by
  generalize hs : a :: s' = r at h
  cases h with
  | nil => cases hs
  | keep c h =>
    cases hs
    exact ⟨_, rfl, h⟩
  | lose c n hc h =>
    rw [List.replicate_succ, List.cons_append] at hs
    obtain ⟨rfl, -⟩ := List.cons.inj hs
    exact absurd ha not_isAscii_replacement

/-- What starts a text stays when it is ASCII. -/
theorem Blurred.of_append_left {d : List Char} (hd : ∀ c ∈ d, IsAscii c) {s s' : List Char}
    (h : Blurred (d ++ s) s') : ∃ t, s' = d ++ t ∧ Blurred s t := by
  induction d generalizing s' with
  | nil => exact ⟨s', rfl, h⟩
  | cons a d ih =>
    obtain ⟨t, rfl, ht⟩ := Blurred.of_cons_left (hd a List.mem_cons_self) h
    obtain ⟨u, rfl, hu⟩ := ih (fun c hc => hd c (List.mem_cons_of_mem _ hc)) ht
    exact ⟨u, rfl, hu⟩

theorem Blurred.of_append_right {d : List Char} (hd : ∀ c ∈ d, IsAscii c) {s s' : List Char}
    (h : Blurred s (d ++ s')) : ∃ t, s = d ++ t ∧ Blurred t s' := by
  induction d generalizing s with
  | nil => exact ⟨s, rfl, h⟩
  | cons a d ih =>
    obtain ⟨t, rfl, ht⟩ := Blurred.of_cons_right (hd a List.mem_cons_self) h
    obtain ⟨u, rfl, hu⟩ := ih (fun c hc => hd c (List.mem_cons_of_mem _ hc)) ht
    exact ⟨u, rfl, hu⟩

theorem isPrefixOf_blurred {d s s' : List Char} (hd : ∀ c ∈ d, IsAscii c) (h : Blurred s s') :
    d.isPrefixOf s = d.isPrefixOf s' := by
  rw [Bool.eq_iff_iff, List.isPrefixOf_iff_prefix, List.isPrefixOf_iff_prefix]
  constructor
  · rintro ⟨u, rfl⟩
    obtain ⟨t, rfl, -⟩ := h.of_append_left hd
    exact List.prefix_append _ _
  · rintro ⟨u, rfl⟩
    obtain ⟨t, rfl, -⟩ := h.of_append_right hd
    exact List.prefix_append _ _

end Text
