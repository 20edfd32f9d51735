import Mathlib.Data.List.Infix
import Behest.Core.Error
import Behest.Text.Find
import Behest.Text.Utf8

/-!
# Server-sent events

The event-stream parser of the provider adapters (`behest-adapter-anthropic/src/sse.rs`, and the
same in `behest-adapter-openai/src/sse.rs`). A poll takes at most one block from the buffer, and
treats a block without data like a block that is not complete yet: it goes on to the next chunk.
-/

namespace Behest

open Text

/-- Source: `sse.rs:17–24`. -/
structure SseEvent where
  event : Option String
  data : String
deriving DecidableEq

namespace Sse

/-! ### Blocks -/

/-- `char::is_whitespace`. -/
def isWhitespace (c : Char) : Bool :=
  let n := c.toNat
  (9 ≤ n && n ≤ 13) || n == 0x20 || n == 0x85 || n == 0xA0 || n == 0x1680 ||
    (0x2000 ≤ n && n ≤ 0x200A) || n == 0x2028 || n == 0x2029 || n == 0x202F || n == 0x205F ||
    n == 0x3000

def trimStart (s : List Char) : List Char := s.dropWhile isWhitespace

def trim (s : List Char) : List Char := ((trimStart s).reverse.dropWhile isWhitespace).reverse

/-- The line without the carriage return at its end. -/
def stripReturn (line : List Char) : List Char :=
  if line.getLast? = some '\r' then line.dropLast else line

/-- `str::lines`, behind the start of a line. -/
def linesFrom (line : List Char) : List Char → List (List Char)
  | [] => if line.isEmpty then [] else [line]
  | c :: rest =>
      if c = '\n' then stripReturn line :: linesFrom [] rest else linesFrom (line ++ [c]) rest

def stripPrefix (start line : List Char) : Option (List Char) :=
  if start.isPrefixOf line then some (line.drop start.length) else none

def eventField : List Char := ['e', 'v', 'e', 'n', 't', ':']

def dataField : List Char := ['d', 'a', 't', 'a', ':']

/-- One line of a block: the event name and the data lines so far. Source: `sse.rs:138–142`. -/
def blockLine (acc : Option String × List (List Char)) (line : List Char) :
    Option String × List (List Char) :=
  match stripPrefix eventField line with
  | some value => (some (String.ofList (trim value)), acc.2)
  | none =>
      match stripPrefix dataField line with
      | some value => (acc.1, acc.2 ++ [trimStart value])
      | none => acc

/-- Source: `sse.rs:133–153`. -/
def parseEventBlock (block : List Char) : Option SseEvent :=
  let acc := (linesFrom [] block).foldl blockLine (none, [])
  if acc.2.isEmpty then none
  else some ⟨acc.1, String.ofList (List.intercalate ['\n'] acc.2)⟩

/-- The length of the delimiter at the start of a text. Source: `sse.rs:102–118`. -/
def delimiter (s : List Char) : Option Nat :=
  if ['\n', '\n'].isPrefixOf s then some 2
  else if ['\r', '\n', '\r', '\n'].isPrefixOf s then some 4
  else if ['\r', '\r'].isPrefixOf s then some 2
  else none

/-- The end of the first block. Source: `sse.rs:99–122`. -/
def findEventBoundary : List Char → Option Nat
  | [] => none
  | c :: rest =>
      match delimiter (c :: rest) with
      | some n => some n
      | none => (findEventBoundary rest).map (· + 1)

/-- The event of the first block, if the buffer holds a block and the block has data, and the
buffer without the block. Source: `sse.rs:88–93`. -/
def extractEvent (buffer : List Char) : Option SseEvent × List Char :=
  match findEventBoundary buffer with
  | none => (none, buffer)
  | some n => (parseEventBlock (buffer.take n), buffer.drop n)

end Sse

open Sse

/-- What is left of the input, chunk by chunk, and the buffer. Source: `sse.rs:34–38`. -/
structure SseStream where
  inner : List (Except String (List UInt8))
  buffer : List Char
  provider : String

namespace SseStream

/-- Source: `sse.rs:42–48`. -/
def new (inner : List (Except String (List UInt8))) (provider : String) : SseStream :=
  ⟨inner, [], provider⟩

/-- The loop of a poll, up to its result; a pending input is left out.
Source: `sse.rs:57–85`. -/
def poll (provider : String) :
    List (Except String (List UInt8)) → List Char →
      Option (Except ProviderError SseEvent) × SseStream
  | [], buffer =>
      match extractEvent buffer with
      | (some e, buffer) => (some (.ok e), ⟨[], buffer, provider⟩)
      | (none, buffer) =>
          match extractEvent buffer with
          | (some e, buffer) => (some (.ok e), ⟨[], buffer, provider⟩)
          | (none, buffer) => (none, ⟨[], buffer, provider⟩)
  | item :: rest, buffer =>
      match extractEvent buffer with
      | (some e, buffer) => (some (.ok e), ⟨item :: rest, buffer, provider⟩)
      | (none, buffer) =>
          match item with
          | .ok chunk => poll provider rest (buffer ++ decodeLossy chunk)
          | .error source => (some (.error (.transport provider source)), ⟨rest, buffer, provider⟩)

def pollNext (s : SseStream) : Option (Except ProviderError SseEvent) × SseStream :=
  poll s.provider s.inner s.buffer

end SseStream

namespace Sse

theorem delimiter_eq_some {s : List Char} {n : Nat} (h : delimiter s = some n) :
    ∃ d u, s = d ++ u ∧ d.length = n ∧
      (d = ['\n', '\n'] ∨ d = ['\r', '\n', '\r', '\n'] ∨ d = ['\r', '\r']) := by
  rw [delimiter] at h
  split at h
  · next hd =>
    obtain ⟨u, rfl⟩ := List.isPrefixOf_iff_prefix.mp hd
    exact ⟨_, u, rfl, Option.some.inj h, .inl rfl⟩
  · split at h
    · next hd =>
      obtain ⟨u, rfl⟩ := List.isPrefixOf_iff_prefix.mp hd
      exact ⟨_, u, rfl, Option.some.inj h, .inr (.inl rfl)⟩
    · split at h
      · next hd =>
        obtain ⟨u, rfl⟩ := List.isPrefixOf_iff_prefix.mp hd
        exact ⟨_, u, rfl, Option.some.inj h, .inr (.inr rfl)⟩
      · cases h

theorem delimiter_append_left {d : List Char}
    (h : d = ['\n', '\n'] ∨ d = ['\r', '\n', '\r', '\n'] ∨ d = ['\r', '\r']) (u : List Char) :
    delimiter (d ++ u) = some d.length := by
  rcases h with rfl | rfl | rfl <;> rfl

/-- The first block ends with a delimiter at the start of the text, or behind its first
character. -/
theorem findEventBoundary_cons_eq_some {c : Char} {rest : List Char} {n : Nat}
    (h : findEventBoundary (c :: rest) = some n) :
    (∃ d u, c :: rest = d ++ u ∧ d.length = n ∧
      (d = ['\n', '\n'] ∨ d = ['\r', '\n', '\r', '\n'] ∨ d = ['\r', '\r'])) ∨
    (delimiter (c :: rest) = none ∧ ∃ m, findEventBoundary rest = some m ∧ n = m + 1) := by
  rw [findEventBoundary] at h
  split at h
  · next m hm =>
    cases h
    exact .inl (delimiter_eq_some hm)
  · next hnone =>
    obtain ⟨m, hm, rfl⟩ := Option.map_eq_some_iff.mp h
    exact .inr ⟨hnone, m, hm, rfl⟩

theorem findEventBoundary_bounds {s : List Char} {n : Nat} (h : findEventBoundary s = some n) :
    0 < n ∧ n ≤ s.length := by
  induction s generalizing n with
  | nil => cases h
  | cons c rest ih =>
    rcases findEventBoundary_cons_eq_some h with ⟨d, u, hs, rfl, hd⟩ | ⟨-, m, hm, rfl⟩
    · rw [hs, List.length_append]
      refine ⟨?_, Nat.le_add_right ..⟩
      rcases hd with rfl | rfl | rfl <;> exact Nat.succ_pos _
    · exact ⟨Nat.succ_pos _, Nat.succ_le_succ (ih hm).2⟩

/-- The complete blocks of a text, and what follows them. -/
def blocks (s : List Char) : List (List Char) × List Char :=
  match _h : findEventBoundary s with
  | none => ([], s)
  | some n => (s.take n :: (blocks (s.drop n)).1, (blocks (s.drop n)).2)
termination_by s.length
decreasing_by all_goals
  have hbounds := findEventBoundary_bounds _h
  rw [List.length_drop]
  omega

theorem blocks_of_none {s : List Char} (h : findEventBoundary s = none) : blocks s = ([], s) := by
  rw [blocks]
  split
  · rfl
  · next n hn => cases h.symm.trans hn

theorem blocks_of_some {s : List Char} {n : Nat} (h : findEventBoundary s = some n) :
    blocks s = (s.take n :: (blocks (s.drop n)).1, (blocks (s.drop n)).2) := by
  rw [blocks]
  split
  · next hn => cases h.symm.trans hn
  · next m hm =>
    cases h.symm.trans hm
    rfl

/-- Behind the first character of a delimiter that is cut off, no block ends. -/
theorem findEventBoundary_of_cut {d : List Char}
    (hd : d = ['\n', '\n'] ∨ d = ['\r', '\n', '\r', '\n'] ∨ d = ['\r', '\r']) {c : Char}
    {rest v : List Char} (h : d = (c :: rest) ++ v) : findEventBoundary rest = none := by
  have hmem : rest ∈ d.tail.inits := (List.mem_inits _ _).mpr ⟨v, by rw [h]; rfl⟩
  have hnone : ∀ r ∈ d.tail.inits, findEventBoundary r = none := by
    rcases hd with rfl | rfl | rfl <;> decide
  exact hnone rest hmem

/-- Text behind a delimiter does not move it. -/
theorem findEventBoundary_append {s : List Char} {n : Nat} (h : findEventBoundary s = some n)
    (t : List Char) : findEventBoundary (s ++ t) = some n := by
  induction s generalizing n with
  | nil => cases h
  | cons c rest ih =>
    rw [List.cons_append, findEventBoundary]
    rcases findEventBoundary_cons_eq_some h with ⟨d, u, hs, rfl, hd⟩ | ⟨hnone, m, hm, rfl⟩
    · rw [← List.cons_append, hs, List.append_assoc, delimiter_append_left hd]
    · have hnone' : delimiter (c :: (rest ++ t)) = none := by
        by_contra hsome
        obtain ⟨k, hk⟩ := Option.ne_none_iff_exists'.mp hsome
        obtain ⟨d, u, hs, -, hd⟩ := delimiter_eq_some hk
        rw [← List.cons_append] at hs
        rcases List.append_eq_append_iff.mp hs with ⟨v, hv, -⟩ | ⟨v, hv, -⟩
        · cases (findEventBoundary_of_cut hd hv).symm.trans hm
        · rw [hv, delimiter_append_left hd] at hnone
          cases hnone
      rw [hnone', ih hm]
      rfl

/-- The blocks of a text that arrives in two parts. -/
theorem blocks_append (s t : List Char) :
    blocks (s ++ t) = ((blocks s).1 ++ (blocks ((blocks s).2 ++ t)).1,
      (blocks ((blocks s).2 ++ t)).2) := by
  induction s using blocks.induct with
  | case1 s h => rw [blocks_of_none h, List.nil_append]
  | case2 s n h ih =>
    have hle := (findEventBoundary_bounds h).2
    rw [blocks_of_some (findEventBoundary_append h t), blocks_of_some h,
      List.take_append_of_le_length hle, List.drop_append_of_le_length hle, ih,
      List.cons_append]

/-! ### What the polls fetch -/

/-- The events fetched until a block without data, and the blocks behind it. -/
def pass : List (List Char) → List SseEvent × List (List Char)
  | [] => ([], [])
  | b :: rest =>
      match parseEventBlock b with
      | some e => (e :: (pass rest).1, (pass rest).2)
      | none => ([], rest)

/-- The events fetched at the end of the input: a poll gets past one block without data, but
the stream ends at one that the poll does not start with. -/
def ending (first : Bool) : List (List Char) → List SseEvent
  | [] => []
  | b :: rest =>
      match parseEventBlock b with
      | some e => e :: ending true rest
      | none => if first then ending false rest else []

/-- The events fetched from a queue of blocks, and the blocks that each chunk completes. -/
def fetched : List (List Char) → List (List (List Char)) → List SseEvent
  | queue, [] => ending true queue
  | queue, arrival :: rest => (pass queue).1 ++ fetched ((pass queue).2 ++ arrival) rest

/-- The blocks that each of some texts completes. -/
def arrivals : List Char → List (List Char) → List (List (List Char))
  | _, [] => []
  | partialBlock, text :: rest =>
      (blocks (partialBlock ++ text)).1 :: arrivals (blocks (partialBlock ++ text)).2 rest

theorem flatten_arrivals (buffer : List Char) (texts : List (List Char)) :
    (blocks buffer).1 ++ (arrivals (blocks buffer).2 texts).flatten =
      (blocks (buffer ++ texts.flatten)).1 := by
  induction texts generalizing buffer with
  | nil => simp [arrivals]
  | cons text rest ih =>
    rw [arrivals, List.flatten_cons, List.flatten_cons, ih, blocks_append buffer,
      List.append_assoc]

/-! ### The polls of a stream -/

theorem length_extractEvent (buffer : List Char) :
    (extractEvent buffer).2.length + (if (extractEvent buffer).1.isSome then 1 else 0) ≤
      buffer.length := by
  rw [extractEvent]
  split
  · exact Nat.le_refl _
  · next n h =>
    have hbounds := findEventBoundary_bounds h
    simp only [List.length_drop]
    split <;> omega

end Sse

namespace SseStream

/-- What is left to read. -/
def itemSize : Except String (List UInt8) → Nat
  | .ok chunk => (decodeLossy chunk).length + 1
  | .error _ => 1

def size (s : SseStream) : Nat := s.buffer.length + (s.inner.map itemSize).sum

/-- A poll that has a result has read something. -/
theorem size_poll (provider : String) (inner : List (Except String (List UInt8)))
    (buffer : List Char) {r : Except ProviderError SseEvent} {s : SseStream}
    (h : poll provider inner buffer = (some r, s)) :
    s.size < buffer.length + (inner.map itemSize).sum := by
  induction inner generalizing buffer with
  | nil =>
    have hlen := length_extractEvent buffer
    rw [poll] at h
    split at h
    · next e buffer' hextract =>
      rw [hextract] at hlen
      cases h
      exact hlen
    · next buffer' hextract =>
      have hlen' := length_extractEvent buffer'
      rw [hextract] at hlen
      split at h
      · next e buffer'' hextract' =>
        rw [hextract'] at hlen'
        cases h
        exact Nat.lt_of_lt_of_le hlen' hlen
      · cases h
  | cons item rest ih =>
    have hlen := length_extractEvent buffer
    rw [poll] at h
    rw [List.map_cons, List.sum_cons]
    split at h
    · next e buffer' hextract =>
      rw [hextract] at hlen
      cases h
      simp only [size, List.map_cons, List.sum_cons]
      simp only [Option.isSome_some, if_true] at hlen
      omega
    · next buffer' hextract =>
      rw [hextract] at hlen
      simp only [Option.isSome_none, Bool.false_eq_true, if_false, Nat.add_zero] at hlen
      cases item with
      | ok chunk =>
        have hrest := ih _ h
        rw [List.length_append] at hrest
        simp only [itemSize]
        omega
      | error source =>
        cases h
        simp only [size, itemSize]
        omega

/-- The results of the polls until the stream ends. -/
def events (s : SseStream) : List (Except ProviderError SseEvent) :=
  match _h : s.pollNext with
  | (none, _) => []
  | (some r, s') => r :: s'.events
termination_by s.size
decreasing_by exact size_poll s.provider s.inner s.buffer _h

theorem events_of_some {s s' : SseStream} {r : Except ProviderError SseEvent}
    (h : s.pollNext = (some r, s')) : s.events = r :: s'.events := by
  rw [events]
  split
  · next hn => cases h.symm.trans hn
  · next hm =>
    cases h.symm.trans hm
    rfl

theorem events_of_none {s s' : SseStream} (h : s.pollNext = (none, s')) : s.events = [] := by
  rw [events]
  split
  · rfl
  · next hm => cases h.symm.trans hm

/-- The stream of some chunks, without errors of the transport. -/
abbrev ofChunks (chunks : List (List UInt8)) (buffer : List Char) (provider : String) : SseStream :=
  ⟨chunks.map .ok, buffer, provider⟩

variable {chunks : List (List UInt8)} {buffer rest : List Char} {provider : String}

theorem events_of_event {e : SseEvent} (h : extractEvent buffer = (some e, rest)) :
    (ofChunks chunks buffer provider).events =
      .ok e :: (ofChunks chunks rest provider).events := by
  refine events_of_some ?_
  cases chunks <;> simp [pollNext, poll, h]

/-- Without an event in the first block, the next chunk is read. -/
theorem events_of_chunk {chunk : List UInt8} (h : extractEvent buffer = (none, rest)) :
    (ofChunks (chunk :: chunks) buffer provider).events =
      (ofChunks chunks (rest ++ decodeLossy chunk) provider).events := by
  have hpoll : (ofChunks (chunk :: chunks) buffer provider).pollNext =
      (ofChunks chunks (rest ++ decodeLossy chunk) provider).pollNext := by
    simp only [pollNext, List.map_cons]
    rw [poll, h]
  cases hresult : (ofChunks chunks (rest ++ decodeLossy chunk) provider).pollNext with
  | mk r s =>
    cases r with
    | none => rw [events_of_none hresult, events_of_none (hpoll.trans hresult)]
    | some r => rw [events_of_some hresult, events_of_some (hpoll.trans hresult)]

/-- At the end of the input the block behind is tried, once. -/
theorem events_of_end (h : extractEvent buffer = (none, rest)) :
    (ofChunks [] buffer provider).events =
      match extractEvent rest with
      | (some e, rest) => .ok e :: (ofChunks [] rest provider).events
      | (none, _) => [] := by
  split
  · next e rest' h' => exact events_of_some (by simp [pollNext, poll, h, h'])
  · next rest' h' =>
    have hend : (ofChunks [] buffer provider).pollNext = (none, ⟨[], rest', provider⟩) := by
      simp [pollNext, poll, h, h']
    exact events_of_none hend

end SseStream

namespace Sse

theorem extractEvent_of_none {buffer : List Char} (h : findEventBoundary buffer = none) :
    extractEvent buffer = (none, buffer) := by
  rw [extractEvent, h]

theorem extractEvent_of_some {buffer : List Char} {n : Nat}
    (h : findEventBoundary buffer = some n) :
    extractEvent buffer = (parseEventBlock (buffer.take n), buffer.drop n) := by
  rw [extractEvent, h]

/-- After the last chunk. -/
theorem events_ofChunks_nil (buffer : List Char) (provider : String) :
    (SseStream.ofChunks [] buffer provider).events =
      (ending true (blocks buffer).1).map .ok := by
  induction hlen : buffer.length using Nat.strong_induction_on generalizing buffer with
  | h len ih =>
    subst hlen
    cases hboundary : findEventBoundary buffer with
    | none =>
      have hextract := extractEvent_of_none hboundary
      rw [SseStream.events_of_end hextract, hextract, blocks_of_none hboundary]
      rfl
    | some n =>
      have hextract := extractEvent_of_some hboundary
      have hbounds := findEventBoundary_bounds hboundary
      have hdrop := List.length_drop (i := n) (l := buffer)
      rw [blocks_of_some hboundary, ending]
      cases hparse : parseEventBlock (buffer.take n) with
      | some e =>
        rw [hparse] at hextract
        rw [SseStream.events_of_event hextract, ih _ (by omega) _ rfl]
        rfl
      | none =>
        rw [hparse] at hextract
        rw [SseStream.events_of_end hextract]
        cases hnext : findEventBoundary (buffer.drop n) with
        | none =>
          rw [extractEvent_of_none hnext, blocks_of_none hnext]
          rfl
        | some m =>
          have hbounds' := findEventBoundary_bounds hnext
          rw [extractEvent_of_some hnext, blocks_of_some hnext]
          simp only [if_true, ending]
          cases hparse' : parseEventBlock ((buffer.drop n).take m) with
          | some e =>
            have hdrop' := List.length_drop (i := m) (l := buffer.drop n)
            simp only
            rw [ih _ (by omega) _ rfl]
            rfl
          | none => rfl

/-- The events of a stream are those fetched from the blocks that its chunks complete. -/
theorem events_ofChunks (chunks : List (List UInt8)) (buffer : List Char) (provider : String) :
    (SseStream.ofChunks chunks buffer provider).events =
      (fetched (blocks buffer).1
        (arrivals (blocks buffer).2 (chunks.map decodeLossy))).map .ok := by
  induction chunks generalizing buffer with
  | nil => exact events_ofChunks_nil buffer provider
  | cons chunk chunks ih =>
    rw [List.map_cons, arrivals, fetched]
    induction buffer using blocks.induct with
    | case1 buffer hboundary =>
      rw [SseStream.events_of_chunk (extractEvent_of_none hboundary), ih, blocks_of_none hboundary]
      rfl
    | case2 buffer n hboundary hrest =>
      have hextract := extractEvent_of_some hboundary
      rw [blocks_of_some hboundary, pass]
      cases hparse : parseEventBlock (buffer.take n) with
      | some e =>
        rw [hparse] at hextract
        rw [SseStream.events_of_event hextract, hrest]
        rfl
      | none =>
        rw [hparse] at hextract
        rw [SseStream.events_of_chunk hextract, ih, blocks_append (buffer.drop n)]
        rfl

/-! ### When everything is fetched -/

def hasData (block : List Char) : Bool := (parseEventBlock block).isSome

/-- The events of some blocks. -/
def eventsOf (queue : List (List Char)) : List SseEvent := queue.filterMap parseEventBlock

/-- The blocks left when a chunk is needed, by whether they have data: one without data is
passed. -/
def advance : List Bool → List Bool
  | [] => []
  | true :: rest => advance rest
  | false :: rest => rest

/-- At the end of the input no event is left behind a block without data that ends the stream. -/
def drains (first : Bool) : List Bool → Bool
  | [] => true
  | true :: rest => drains true rest
  | false :: rest => if first then drains false rest else !rest.any id

/-- The blocks without data do not hold up an event until the end: each chunk lets one of them
pass, and so does the end of the input, once after each event. -/
def settles : List Bool → List (List Bool) → Bool
  | queue, [] => drains true queue
  | queue, arrival :: rest => settles (advance queue ++ arrival) rest

theorem eventsOf_cons_some {b : List Char} {e : SseEvent} (h : parseEventBlock b = some e)
    (queue : List (List Char)) : eventsOf (b :: queue) = e :: eventsOf queue :=
  List.filterMap_cons_some h

theorem eventsOf_cons_none {b : List Char} (h : parseEventBlock b = none)
    (queue : List (List Char)) : eventsOf (b :: queue) = eventsOf queue :=
  List.filterMap_cons_none h

theorem eventsOf_eq_nil_iff (queue : List (List Char)) :
    eventsOf queue = [] ↔ (queue.map hasData).any id = false := by
  simp [eventsOf, hasData, List.filterMap_eq_nil_iff]

/-- A pass fetches a prefix of the events, and leaves the blocks behind a block without data. -/
theorem pass_spec (queue : List (List Char)) :
    (pass queue).1 ++ eventsOf (pass queue).2 = eventsOf queue ∧
      (pass queue).2.map hasData = advance (queue.map hasData) := by
  induction queue with
  | nil => exact ⟨rfl, rfl⟩
  | cons b rest ih =>
    rw [pass, List.map_cons]
    cases hparse : parseEventBlock b with
    | some e =>
      rw [eventsOf_cons_some hparse, hasData, hparse]
      exact ⟨congrArg (e :: ·) ih.1, ih.2⟩
    | none =>
      rw [eventsOf_cons_none hparse, hasData, hparse]
      exact ⟨rfl, rfl⟩

theorem ending_spec (first : Bool) (queue : List (List Char)) :
    ending first queue <+: eventsOf queue ∧
      (ending first queue = eventsOf queue ↔ drains first (queue.map hasData) = true) := by
  induction queue generalizing first with
  | nil => exact ⟨List.prefix_refl _, iff_of_true rfl rfl⟩
  | cons b rest ih =>
    rw [ending, List.map_cons]
    cases hparse : parseEventBlock b with
    | some e =>
      rw [eventsOf_cons_some hparse, hasData, hparse]
      refine ⟨(List.prefix_cons_inj e).mpr (ih true).1, ?_⟩
      rw [List.cons.injEq, and_iff_right rfl]
      exact (ih true).2
    | none =>
      rw [eventsOf_cons_none hparse, hasData, hparse]
      cases first with
      | true => exact ih false
      | false =>
        refine ⟨List.nil_prefix, ?_⟩
        change [] = eventsOf rest ↔ (!(rest.map hasData).any id) = true
        rw [Bool.not_eq_true', ← eventsOf_eq_nil_iff]
        exact eq_comm

/-- What is fetched is a prefix of the events, and all of them when the blocks settle. -/
theorem fetched_spec (queue : List (List Char)) (arrivals : List (List (List Char))) :
    fetched queue arrivals <+: eventsOf (queue ++ arrivals.flatten) ∧
      (fetched queue arrivals = eventsOf (queue ++ arrivals.flatten) ↔
        settles (queue.map hasData) (arrivals.map (List.map hasData)) = true) := by
  induction arrivals generalizing queue with
  | nil =>
    rw [List.flatten_nil, List.append_nil]
    exact ending_spec true queue
  | cons arrival rest ih =>
    obtain ⟨hpass, hadvance⟩ := pass_spec queue
    obtain ⟨hstart, hsettles⟩ := ih ((pass queue).2 ++ arrival)
    have hevents : eventsOf (queue ++ (arrival :: rest).flatten) =
        (pass queue).1 ++ eventsOf ((pass queue).2 ++ arrival ++ rest.flatten) := by
      rw [List.flatten_cons, eventsOf, List.filterMap_append, ← eventsOf, ← hpass,
        List.append_assoc, ← List.append_assoc, List.append_assoc, eventsOf,
        ← List.filterMap_append, List.append_assoc]
      rfl
    rw [hevents, fetched, List.map_cons, settles, ← hadvance, ← List.map_append]
    exact ⟨(List.prefix_append_right_inj _).mpr hstart,
      List.append_right_inj _ |>.trans hsettles⟩

/-! ### Data lines -/

/-- A line with data starts the text, or comes after a break. -/
def dataLine (isBreak : Char → Bool) : Bool → List Char → Bool
  | _, [] => false
  | start, c :: rest =>
      (start && dataField.isPrefixOf (c :: rest)) || dataLine isBreak (isBreak c) rest

/-- The breaks that `str::lines` knows. -/
def isNewline (c : Char) : Bool := c == '\n'

/-- The breaks of an event stream. -/
def isLineBreak (c : Char) : Bool := c == '\n' || c == '\r'

/-- The block has a data line. -/
def hasDataLine (block : List Char) : Bool := dataLine isLineBreak true block

theorem dataLine_true (isBreak : Char → Bool) (s : List Char) :
    dataLine isBreak true s = (dataField.isPrefixOf s || dataLine isBreak false s) := by
  cases s with
  | nil => rfl
  | cons c rest => simp [dataLine]

theorem dataLine_mono {isBreak isBreak' : Char → Bool}
    (h : ∀ c, isBreak c = true → isBreak' c = true)
    {start start' : Bool} (hstart : start = true → start' = true) (s : List Char)
    (hs : dataLine isBreak start s = true) : dataLine isBreak' start' s = true := by
  induction s generalizing start start' with
  | nil => cases hs
  | cons c rest ih =>
    simp only [dataLine, Bool.or_eq_true, Bool.and_eq_true] at hs ⊢
    exact hs.imp (fun hc => ⟨hstart hc.1, hc.2⟩) (ih (h c))

theorem isPrefixOf_stripReturn (line : List Char) :
    dataField.isPrefixOf (stripReturn line) = dataField.isPrefixOf line := by
  rw [stripReturn]
  split
  · next h =>
    obtain ⟨front, rfl⟩ := List.getLast?_eq_some_iff.mp h
    rw [List.dropLast_concat]
    exact (isPrefixOf_append_cons (by decide)).symm
  · rfl

theorem any_linesFrom (line s : List Char) :
    (linesFrom line s).any dataField.isPrefixOf =
      (dataField.isPrefixOf (line ++ s) || dataLine isNewline false s) := by
  induction s generalizing line with
  | nil =>
    rw [linesFrom, List.append_nil]
    cases line <;> simp [dataLine, dataField]
  | cons c rest ih =>
    rw [linesFrom]
    split
    · next hc =>
      subst hc
      rw [List.any_cons, ih, List.nil_append, isPrefixOf_stripReturn,
        isPrefixOf_append_cons (by decide)]
      change _ = (_ || dataLine isNewline true rest)
      rw [dataLine_true]
    · next hc =>
      rw [ih, List.append_assoc, List.singleton_append]
      have hbreak : isNewline c = false := beq_eq_false_iff_ne.mpr hc
      rw [dataLine, Bool.false_and, Bool.false_or, hbreak]

/-- A block has data when one of its lines has the data field. -/
theorem isEmpty_foldl_blockLine (lines : List (List Char))
    (acc : Option String × List (List Char)) :
    (lines.foldl blockLine acc).2.isEmpty = (acc.2.isEmpty && !lines.any dataField.isPrefixOf) := by
  induction lines generalizing acc with
  | nil => simp
  | cons line rest ih =>
    rw [List.foldl_cons, ih, List.any_cons, blockLine, stripPrefix, stripPrefix]
    by_cases hevent : eventField.isPrefixOf line = true
    · obtain ⟨u, rfl⟩ := List.isPrefixOf_iff_prefix.mp hevent
      have hdata : dataField.isPrefixOf (eventField ++ u) = false := rfl
      simp [hevent, hdata]
    · by_cases hdata : dataField.isPrefixOf line = true
      · simp [hevent, hdata]
      · simp [hevent, hdata]

theorem hasData_eq (block : List Char) : hasData block = dataLine isNewline true block := by
  have hany := any_linesFrom [] block
  rw [List.nil_append, ← dataLine_true] at hany
  rw [hasData, parseEventBlock, ← hany]
  have hempty := isEmpty_foldl_blockLine (linesFrom [] block) (none, [])
  rw [List.isEmpty_nil, Bool.true_and] at hempty
  rw [hempty]
  cases (linesFrom [] block).any dataField.isPrefixOf <;> rfl

theorem hasDataLine_of_hasData {block : List Char} (h : hasData block = true) :
    hasDataLine block = true := by
  rw [hasData_eq] at h
  exact dataLine_mono (fun c hc => by simp_all [isNewline, isLineBreak]) id block h

/-- Every block with a data line has its event, in order. -/
theorem map_parseEventBlock_iff (queue : List (List Char)) (events : List SseEvent) :
    (queue.filter hasDataLine).map parseEventBlock = events.map some ↔
      events = eventsOf queue ∧ ∀ b ∈ queue, hasDataLine b = true → hasData b = true := by
  induction queue generalizing events with
  | nil => simp [eventsOf]
  | cons b rest ih =>
    rw [List.forall_mem_cons]
    cases hparse : parseEventBlock b with
    | some e =>
      have hdata : hasData b = true := by rw [hasData, hparse]; rfl
      rw [List.filter_cons_of_pos (hasDataLine_of_hasData hdata), List.map_cons, hparse,
        eventsOf_cons_some hparse]
      cases events with
      | nil => simp
      | cons e' events =>
        rw [List.map_cons, List.cons.injEq, List.cons.injEq, ih events]
        constructor
        · rintro ⟨he, hevents, hrest⟩
          exact ⟨⟨(Option.some.inj he).symm, hevents⟩, fun _ => hdata, hrest⟩
        · rintro ⟨⟨rfl, hevents⟩, -, hrest⟩
          exact ⟨rfl, hevents, hrest⟩
    | none =>
      have hdata : hasData b = false := by rw [hasData, hparse]; rfl
      rw [eventsOf_cons_none hparse, hdata]
      by_cases hline : hasDataLine b = true
      · rw [List.filter_cons_of_pos hline, List.map_cons, hparse]
        constructor
        · intro h
          cases events <;> cases h
        · exact fun h => absurd (h.2.1 hline) Bool.false_ne_true
      · rw [List.filter_cons_of_neg hline, ih events]
        exact and_congr_right fun _ => (and_iff_right fun h => absurd h hline).symm

/-! ### Characters that are cut -/

theorem delimiter_blurred {s s' : List Char} (h : Blurred s s') : delimiter s = delimiter s' := by
  rw [delimiter, delimiter, isPrefixOf_blurred (by decide) h, isPrefixOf_blurred (by decide) h,
    isPrefixOf_blurred (by decide) h]

theorem dataLine_replacements (start : Bool) (n : Nat) (s : List Char) :
    dataLine isNewline start (List.replicate (n + 1) replacement ++ s) =
      dataLine isNewline false s := by
  induction n generalizing start with
  | zero =>
    rw [List.replicate_one, List.singleton_append, dataLine]
    have hstart : dataField.isPrefixOf (replacement :: s) = false := rfl
    rw [hstart, Bool.and_false, Bool.false_or]
    rfl
  | succ n ih =>
    rw [List.replicate_succ, List.cons_append, dataLine, ih]
    have hstart : dataField.isPrefixOf
        (replacement :: (List.replicate (n + 1) replacement ++ s)) = false := rfl
    rw [hstart, Bool.and_false, Bool.false_or]

theorem dataLine_blurred {s s' : List Char} (h : Blurred s s') (start : Bool) :
    dataLine isNewline start s = dataLine isNewline start s' := by
  induction h generalizing start with
  | nil => rfl
  | keep c h ih =>
    rw [dataLine, dataLine, ih, isPrefixOf_blurred (by decide) (Blurred.keep c h)]
  | lose c n hc h ih =>
    rw [dataLine_replacements, ← ih, dataLine]
    have hbreak : isNewline c = false := beq_eq_false_iff_ne.mpr fun h => by
      subst h
      exact absurd hc (by decide)
    have hstart : ∀ t, dataField.isPrefixOf (c :: t) = false := fun t => by
      have hne : ('d' == c) = false := beq_eq_false_iff_ne.mpr fun h => by
        subst h
        exact absurd hc (by decide)
      rw [dataField, List.isPrefixOf_cons_cons, hne, Bool.false_and]
    rw [hbreak, hstart, Bool.and_false, Bool.false_or]

theorem findEventBoundary_replacements (n : Nat) (s : List Char) :
    findEventBoundary (List.replicate n replacement ++ s) = (findEventBoundary s).map (· + n) := by
  induction n with
  | zero => simp
  | succ n ih =>
    rw [List.replicate_succ, List.cons_append, findEventBoundary, ih]
    have hnone : delimiter (replacement :: (List.replicate n replacement ++ s)) = none := rfl
    rw [hnone]
    simp only [Option.map_map]
    rfl

/-- Blocks end at the same places, and their parts correspond. -/
theorem findEventBoundary_blurred {s s' : List Char} (h : Blurred s s') :
    (findEventBoundary s = none ∧ findEventBoundary s' = none) ∨
      ∃ n n', findEventBoundary s = some n ∧ findEventBoundary s' = some n' ∧
        Blurred (s.take n) (s'.take n') ∧ Blurred (s.drop n) (s'.drop n') := by
  induction h with
  | nil => exact .inl ⟨rfl, rfl⟩
  | @keep s s' c h ih =>
    have hdelimiter := delimiter_blurred (Blurred.keep c h)
    rw [findEventBoundary, findEventBoundary, ← hdelimiter]
    cases hd : delimiter (c :: s) with
    | some n =>
      obtain ⟨d, u, hs, rfl, hcases⟩ := delimiter_eq_some hd
      have hascii : ∀ a ∈ d, IsAscii a := by rcases hcases with rfl | rfl | rfl <;> decide
      obtain ⟨u', hs', hu⟩ := Blurred.of_append_left hascii (hs ▸ Blurred.keep c h)
      refine .inr ⟨_, _, rfl, rfl, ?_, ?_⟩
      · rw [hs, hs', List.take_left, List.take_left]
        exact List.append_nil d ▸ Blurred.nil.keepAll d
      · rwa [hs, hs', List.drop_left, List.drop_left]
    | none =>
      rcases ih with ⟨hnone, hnone'⟩ | ⟨n, n', hsome, hsome', htake, hdrop⟩
      · exact .inl ⟨by rw [hnone]; rfl, by rw [hnone']; rfl⟩
      · exact .inr ⟨n + 1, n' + 1, by rw [hsome]; rfl, by rw [hsome']; rfl, .keep c htake, hdrop⟩
  | @lose s s' c n hc h ih =>
    have hnone : delimiter (c :: s) = none := by
      rw [delimiter_blurred (Blurred.lose c 0 hc h)]
      rfl
    rw [findEventBoundary_replacements, findEventBoundary, hnone]
    rcases ih with ⟨hnone, hnone'⟩ | ⟨m, m', hsome, hsome', htake, hdrop⟩
    · exact .inl ⟨by rw [hnone]; rfl, by rw [hnone']; rfl⟩
    · refine .inr ⟨m + 1, m' + (n + 1), by rw [hsome]; rfl, by rw [hsome']; rfl, ?_, ?_⟩
      · have hreplaced : (List.replicate (n + 1) replacement ++ s').take (m' + (n + 1)) =
            List.replicate (n + 1) replacement ++ s'.take m' := by
          rw [List.take_append, List.length_replicate, Nat.add_sub_cancel,
            List.take_of_length_le (by simp)]
        rw [hreplaced, List.take_succ_cons]
        exact .lose c n hc htake
      · have hreplaced : (List.replicate (n + 1) replacement ++ s').drop (m' + (n + 1)) =
            s'.drop m' := by
          rw [List.drop_append, List.length_replicate, Nat.add_sub_cancel,
            List.drop_of_length_le (by simp), List.nil_append]
        rw [hreplaced, List.drop_succ_cons]
        exact hdrop

/-- Cut characters do not change which blocks there are, nor which of them have data. -/
theorem map_hasData_blurred {s s' : List Char} (h : Blurred s s') :
    (blocks s).1.map hasData = (blocks s').1.map hasData := by
  induction s using blocks.induct generalizing s' with
  | case1 s hnone =>
    rcases findEventBoundary_blurred h with ⟨-, hnone'⟩ | ⟨n, n', hsome, -⟩
    · rw [blocks_of_none hnone, blocks_of_none hnone']
    · cases hnone.symm.trans hsome
  | case2 s n hsome ih =>
    rcases findEventBoundary_blurred h with ⟨hnone, -⟩ | ⟨m, n', hsome', hboundary, htake, hdrop⟩
    · cases hnone.symm.trans hsome
    · obtain rfl := Option.some.inj (hsome.symm.trans hsome')
      rw [blocks_of_some hsome, blocks_of_some hboundary, List.map_cons, List.map_cons, ih hdrop,
        hasData_eq, hasData_eq, dataLine_blurred htake]

theorem length_eventsOf (queue : List (List Char)) :
    (eventsOf queue).length = (queue.map hasData).countP id := by
  rw [eventsOf, List.length_filterMap_eq_countP, List.countP_map]
  rfl

/-! ### Chunks -/

/-- Chunks that the stream reads like the whole text: where they cut a character it is not seen
in an event, and no event is held up by blocks without data until the end of the input. -/
structure Harmless (text : List Char) (chunks : List (List UInt8)) : Prop where
  decoded : eventsOf (blocks (chunks.flatMap decodeLossy)).1 = eventsOf (blocks text).1
  settled : settles [] ((arrivals [] (chunks.map decodeLossy)).map (List.map hasData)) = true

/-- A stream has the events of a text exactly when its chunks are harmless. -/
theorem events_new_iff {text : List Char} {chunks : List (List UInt8)}
    (h : chunks.flatten = encode text) (provider : String) :
    (SseStream.ofChunks chunks [] provider).events = (eventsOf (blocks text).1).map .ok ↔
      Harmless text chunks := by
  have hnil : blocks [] = ([], []) := blocks_of_none rfl
  have hflatten := flatten_arrivals [] (chunks.map decodeLossy)
  rw [hnil, List.nil_append, List.nil_append, ← List.flatMap_def] at hflatten
  obtain ⟨hstart, hsettles⟩ := fetched_spec [] (arrivals [] (chunks.map decodeLossy))
  rw [List.nil_append, hflatten] at hstart hsettles
  rw [events_ofChunks, hnil, (List.map_injective_iff.mpr fun _ _ => Except.ok.inj).eq_iff]
  constructor
  · intro hfetched
    -- cut characters leave the number of events, so that none is missing
    have hlength : (eventsOf (blocks text).1).length =
        (eventsOf (blocks (chunks.flatMap decodeLossy)).1).length := by
      rw [length_eventsOf, length_eventsOf, map_hasData_blurred (blurred_of_flatten h)]
    have hall := hstart.eq_of_length (hfetched ▸ hlength)
    exact ⟨hall.symm.trans hfetched, hsettles.mp hall⟩
  · exact fun hharmless => (hsettles.mpr hharmless.settled).trans hharmless.decoded

/-- The events do not depend on the chunks, and are those of the blocks with a data line. -/
def ChunkingInvariant (provider : String) (text : List Char) (chunks chunks' : List (List UInt8)) :
    Prop :=
  (SseStream.new (chunks.map .ok) provider).events =
      (SseStream.new (chunks'.map .ok) provider).events ∧
    ∃ events : List SseEvent, (SseStream.new (chunks.map .ok) provider).events = events.map .ok ∧
      ((blocks text).1.filter hasDataLine).map parseEventBlock = events.map some

/-- Two ways of splitting a text are read alike, with one event for each block that has a data
line, exactly when both are harmless and the parser sees the data lines. -/
theorem chunkingInvariant_iff (provider : String) (text : List Char)
    (chunks chunks' : List (List UInt8)) (h : chunks.flatten = encode text)
    (h' : chunks'.flatten = encode text) :
    ChunkingInvariant provider text chunks chunks' ↔
      Harmless text chunks ∧ Harmless text chunks' ∧
        ∀ block ∈ (blocks text).1, hasDataLine block = true → hasData block = true := by
  rw [← events_new_iff h provider, ← events_new_iff h' provider]
  constructor
  · rintro ⟨hsame, events, hevents, hblocks⟩
    obtain ⟨rfl, hdata⟩ := (map_parseEventBlock_iff _ _).mp hblocks
    exact ⟨hevents, hsame ▸ hevents, hdata⟩
  · rintro ⟨hevents, hevents', hdata⟩
    exact ⟨hevents.trans hevents'.symm, _, hevents, (map_parseEventBlock_iff _ _).mpr ⟨rfl, hdata⟩⟩

/-- A comment, and an event behind it. -/
def commented : List Char := ":a\n\ndata: x\n\n".toList

theorem commented_chunkingInvariant :
    ChunkingInvariant "anthropic" commented [encode commented]
      [(encode commented).take 5, (encode commented).drop 5] :=
  (chunkingInvariant_iff "anthropic" commented _ _ (by decide +kernel) (by decide +kernel)).mpr
    ⟨⟨by decide +kernel, by decide +kernel⟩, ⟨by decide +kernel, by decide +kernel⟩,
      by decide +kernel⟩

/-- With two comments in front, an event is lost or not. -/
def commentedTwice : List Char := ":a\n\n:b\n\ndata: x\n\n".toList

/-- A character of two bytes, at 6 and 7. -/
def accented : List Char := "data: é\n\n".toList

/-- The data line stands behind a lone carriage return. -/
def returned : List Char := ":a\rdata: x\r\r".toList

theorem chunking_matters :
    ¬ ChunkingInvariant "anthropic" commentedTwice [encode commentedTwice]
        [(encode commentedTwice).take 4, (encode commentedTwice).drop 4] ∧
      ¬ ChunkingInvariant "anthropic" accented [encode accented]
        [(encode accented).take 7, (encode accented).drop 7] ∧
      ¬ ChunkingInvariant "anthropic" returned [encode returned] [encode returned] := by
  refine ⟨fun h => ?_, fun h => ?_, fun h => ?_⟩
  · exact absurd (congrArg List.length h.1) (by decide +kernel)
  · exact absurd h.1 (by decide +kernel)
  · obtain ⟨-, events, hevents, hblocks⟩ := h
    have hlength := congrArg List.length hevents
    have hcount := congrArg List.length hblocks
    rw [List.length_map] at hlength
    rw [List.length_map, List.length_map, ← hlength] at hcount
    exact absurd hcount (by decide +kernel)

end Sse

end Behest
