import MmrService.NetBuffer

/-!
The network buffer is a queue of bytes.

Room is made by moving the bytes to the beginning, or by making the vector larger; both leave
the bytes between the indices what they are. The new size is a `uint32_t`, and a string is
taken to have fewer than `2 ^ 32` characters.
-/

namespace MmrService.NetBuffer

namespace Buffer

variable {b b' : Buffer} {q data : List UInt8} {len : ℕ}

/-- What can be read. -/
def unread (b : Buffer) : List UInt8 :=
  Bytes.slice b.m_buffer b.m_readIndex (b.m_writeIndex - b.m_readIndex)

/-- The indices are in order and in the vector, and `q` is what can be read. -/
structure Good (b : Buffer) (q : List UInt8) : Prop where
  read_le : b.m_readIndex ≤ b.m_writeIndex
  write_le : b.m_writeIndex ≤ b.m_buffer.length
  size_lt : b.m_buffer.length < 2 ^ 32
  content : b.unread = q

/-- There is room for `len` bytes, or the vector can be made large enough. -/
def Fits (b : Buffer) (len : ℕ) : Prop :=
  len ≤ b.m_buffer.length - b.m_writeIndex + b.m_readIndex ∨ b.m_writeIndex + len < 2 ^ 32

lemma good_new : new.Good [] where
  read_le := le_rfl
  write_le := Nat.zero_le _
  size_lt := by
    rw [new, List.length_replicate]
    decide
  content := rfl

lemma Good.length (h : b.Good q) : q.length = b.m_writeIndex - b.m_readIndex := by
  have hr := h.read_le
  have hw := h.write_le
  rw [← h.content, unread, Bytes.length_slice (by omega)]

/-- All of it is loaded. -/
lemma Good.load (h : b.Good q) : b.load b.m_readIndex q.length = some q := by
  have hr := h.read_le
  have hw := h.write_le
  rw [Buffer.load, if_pos (by rw [h.length]; omega), h.length]
  exact congrArg some h.content

lemma Good.readAbleSize (h : b.Good q) : b.readAbleSize = q.length := by
  have hw := h.write_le
  have hs := h.size_lt
  rw [Buffer.readAbleSize, Word.sub_of_le h.read_le (by omega), h.length]

lemma Good.tailIdleSize (h : b.Good q) :
    b.tailIdleSize = b.m_buffer.length - b.m_writeIndex :=
  Word.sub_of_le h.write_le h.size_lt

/-! ### Writing -/

/-- Room is made without changing what can be read. -/
lemma Good.ensureWriteSpace (h : b.Good q) (hfits : b.Fits len) :
    ∃ b', b.ensureWriteSpace len = some b' ∧ b'.Good q ∧
      b'.m_writeIndex + len ≤ b'.m_buffer.length := by
  have hlen := h.length
  have ⟨hr, hw, hs, hq⟩ := h
  rw [Buffer.ensureWriteSpace, h.tailIdleSize, h.readAbleSize, handIdleSize,
    Word.add_of_lt (by omega)]
  split_ifs with htail hboth
  · exact ⟨b, rfl, h, by omega⟩
  · -- the bytes are moved to the beginning
    have hstore : b.store 0 q = some { b with m_buffer := Bytes.patch b.m_buffer 0 q } :=
      if_pos (by omega)
    have hpatch : (Bytes.patch b.m_buffer 0 q).length = b.m_buffer.length :=
      Bytes.length_patch (by omega)
    refine ⟨⟨Bytes.patch b.m_buffer 0 q, 0, q.length⟩, ?_, ?_, ?_⟩
    · change (b.load b.m_readIndex q.length).bind _ = _
      rw [h.load, Option.bind_some]
      change (b.store 0 q).bind _ = _
      rw [hstore]
      rfl
    · refine ⟨Nat.zero_le _, ?_, hpatch.trans_lt hs, Bytes.slice_patch_self ?_ rfl⟩
      · exact (show q.length ≤ b.m_buffer.length by omega).trans hpatch.ge
      · change 0 + q.length ≤ b.m_buffer.length
        omega
    · change q.length + len ≤ (Bytes.patch b.m_buffer 0 q).length
      omega
  · -- the vector is made larger
    have hgrow : b.m_writeIndex + len < 2 ^ 32 := hfits.resolve_left (by omega)
    rw [Word.add_of_lt hgrow]
    have hsize : (b.resize (b.m_writeIndex + len)).m_buffer.length = b.m_writeIndex + len := by
      rw [resize, List.length_append, List.length_take, List.length_replicate]
      omega
    refine ⟨_, rfl, ⟨hr, by rw [hsize]; exact Nat.le_add_right _ _, by omega, ?_⟩, hsize.ge⟩
    rw [← hq, unread, unread]
    simp only [resize]
    rw [List.take_of_length_le (by omega)]
    exact Bytes.slice_append_left _ (by omega)

/-- What is written is behind what can be read. -/
lemma Good.writeAndPush (h : b.Good q) (hfits : b.Fits data.length) :
    ∃ b', b.WriteAndPush data data.length = some b' ∧ b'.Good (q ++ data) := by
  obtain ⟨b₁, hensure, h₁, hroom⟩ := h.ensureWriteSpace hfits
  obtain ⟨hr, hw, hs, hq⟩ := h₁
  have hpatch : (Bytes.patch b₁.m_buffer b₁.m_writeIndex data).length = b₁.m_buffer.length :=
    Bytes.length_patch hroom
  have hstore : b₁.store b₁.m_writeIndex data =
      some { b₁ with m_buffer := Bytes.patch b₁.m_buffer b₁.m_writeIndex data } := if_pos hroom
  have hmove : moveWriteOffset { b₁ with m_buffer := Bytes.patch b₁.m_buffer b₁.m_writeIndex data }
      data.length = some ⟨Bytes.patch b₁.m_buffer b₁.m_writeIndex data, b₁.m_readIndex,
        b₁.m_writeIndex + data.length⟩ := by
    rw [moveWriteOffset, Buffer.tailIdleSize]
    simp only [hpatch]
    rw [Word.sub_of_le hw hs, if_pos (by omega), Word.add_of_lt (by omega)]
  refine ⟨⟨Bytes.patch b₁.m_buffer b₁.m_writeIndex data, b₁.m_readIndex,
    b₁.m_writeIndex + data.length⟩, ?_, ⟨?_, ?_, ?_, ?_⟩⟩
  · rw [WriteAndPush, Write, hensure, Option.bind_eq_bind, Option.bind_some, List.take_length,
      hstore, Option.bind_some, hmove]
  · exact hr.trans (Nat.le_add_right _ _)
  · exact hroom.trans hpatch.ge
  · exact hpatch.trans_lt hs
  · simp only [unread] at hq ⊢
    rw [show b₁.m_writeIndex + data.length - b₁.m_readIndex =
        b₁.m_writeIndex - b₁.m_readIndex + data.length by omega, Bytes.slice_add,
      Bytes.slice_patch_before hroom (by omega), hq,
      show b₁.m_readIndex + (b₁.m_writeIndex - b₁.m_readIndex) = b₁.m_writeIndex by omega,
      Bytes.slice_patch_self hroom rfl]

/-- The bytes of another buffer. -/
lemma Good.writeBufferAndPush {other : Buffer} {q' : List UInt8} (h : b.Good q)
    (h' : other.Good q') (hfits : b.Fits q'.length) :
    ∃ b', b.writeBufferAndPush other = some b' ∧ b'.Good (q ++ q') := by
  rw [Buffer.writeBufferAndPush, h'.readAbleSize, h'.load, Option.bind_eq_bind, Option.bind_some]
  exact h.writeAndPush hfits

lemma Good.writeStringAndPush (h : b.Good q) (hlt : data.length < 2 ^ 32)
    (hfits : b.Fits data.length) :
    ∃ b', b.WriteStringAndPush data = some b' ∧ b'.Good (q ++ data) := by
  rw [WriteStringAndPush, Nat.mod_eq_of_lt hlt]
  exact h.writeAndPush hfits

/-! ### Reading -/

/-- The read index moves behind what is read. -/
lemma Good.moveReadOffset (h : b.Good q) (hlen : len ≤ q.length) :
    ∃ b', b.moveReadOffset len = some b' ∧ b'.Good (q.drop len) := by
  have ⟨hr, hw, hs, hq⟩ := h
  have hql := h.length
  rw [Buffer.moveReadOffset, h.readAbleSize, if_pos hlen, Word.add_of_lt (by omega)]
  refine ⟨_, rfl, ⟨?_, hw, hs, ?_⟩⟩
  · simp only
    omega
  · rw [← hq, unread, unread, Bytes.slice, Bytes.slice, List.drop_take, List.drop_drop]
    congr 1
    simp only
    omega

lemma Good.read (h : b.Good q) (hlen : len ≤ q.length) : b.Read len = some (q.take len) := by
  have ⟨hr, hw, hs, hq⟩ := h
  have hql := h.length
  rw [Read, h.readAbleSize, if_pos hlen, Buffer.load, if_pos (by omega), ← hq, unread,
    Bytes.slice, Bytes.slice, List.take_take, Nat.min_eq_left (by omega)]

lemma Good.readAndPop (h : b.Good q) (hlen : len ≤ q.length) :
    ∃ b', b.readAndPop len = some (q.take len, b') ∧ b'.Good (q.drop len) := by
  obtain ⟨b', hmove, h'⟩ := h.moveReadOffset hlen
  refine ⟨b', ?_, h'⟩
  rw [Buffer.readAndPop, h.read hlen, Option.bind_eq_bind, Option.bind_some, hmove]
  rfl

lemma Good.readAsString (h : b.Good q) (hlen : len ≤ q.length) :
    b.readAsString len = some (q.take len) := by
  rw [Buffer.readAsString, h.readAbleSize, if_pos hlen, h.read hlen]

lemma Good.readAsStringAndPop (h : b.Good q) (hlen : len ≤ q.length) :
    ∃ b', b.ReadAsStringAndPop len = some (q.take len, b') ∧ b'.Good (q.drop len) := by
  obtain ⟨b', hmove, h'⟩ := h.moveReadOffset hlen
  refine ⟨b', ?_, h'⟩
  rw [ReadAsStringAndPop, h.readAbleSize, if_pos hlen, h.readAsString hlen, Option.bind_eq_bind,
    Option.bind_some, hmove]
  rfl

/-! ### Lines -/

/-- The shortest beginning that ends in a newline, or nothing. -/
def line (q : List UInt8) : List UInt8 :=
  if q.contains newline then q.takeWhile (· ≠ newline) ++ [newline] else []

lemma line_of_notMem {q : List UInt8} (h : newline ∉ q) : line q = [] :=
  if_neg (by simpa using h)

lemma line_append {l : List UInt8} (h : newline ∉ l) (rest : List UInt8) :
    line (l ++ newline :: rest) = l ++ [newline] := by
  have hall : ∀ c ∈ l, decide (c ≠ newline) = true := fun c hc =>
    decide_eq_true fun he => h (he ▸ hc)
  rw [line, if_pos (by simp), List.takeWhile_append_of_pos hall,
    List.takeWhile_cons_of_neg (by simp), List.append_nil]

lemma Good.findCRLF (h : b.Good q) : b.FindCRLF = some (q.idxOf? newline) := by
  rw [FindCRLF, h.readAbleSize, h.load, Option.map_some]

lemma Good.getLine (h : b.Good q) : b.getLine = some (line q) := by
  rw [Buffer.getLine, h.findCRLF, Option.bind_eq_bind, Option.bind_some]
  by_cases hmem : newline ∈ q
  · obtain ⟨l, rest, rfl, hl⟩ := List.eq_append_cons_of_mem hmem
    have hlen := h.length
    have hlt := h.size_lt
    have hw := h.write_le
    rw [List.length_append, List.length_cons] at hlen
    rw [Bytes.idxOf?_append_cons hl, line_append hl]
    change b.readAsString (Word.add 32 l.length 1) = _
    rw [Word.add_of_lt (by omega), h.readAsString (by simp), List.take_length_add_append]
    rfl
  · rw [List.idxOf?_eq_none_iff.mpr hmem, line_of_notMem hmem]
    rfl

lemma line_initial (q : List UInt8) : line q <+: q := by
  by_cases hmem : newline ∈ q
  · obtain ⟨l, rest, rfl, hl⟩ := List.eq_append_cons_of_mem hmem
    rw [line_append hl]
    exact ⟨rest, by simp⟩
  · rw [line_of_notMem hmem]
    exact List.nil_prefix

lemma Good.getLineAndPop (h : b.Good q) :
    ∃ b', b.getLineAndPop = some (line q, b') ∧ b'.Good (q.drop (line q).length) := by
  obtain ⟨b', hmove, h'⟩ := h.moveReadOffset (line_initial q).length_le
  refine ⟨b', ?_, h'⟩
  rw [Buffer.getLineAndPop, h.getLine, Option.bind_eq_bind, Option.bind_some, hmove]
  rfl

lemma Good.clear (h : b.Good q) : b.Clear.Good [] where
  read_le := le_rfl
  write_le := Nat.zero_le _
  size_lt := h.size_lt
  content := rfl

/-- Nothing to be read as a line changes nothing. -/
lemma Good.getLineAndPop_none (h : b.Good q) (hq : newline ∉ q) :
    b.getLineAndPop = some ([], b) := by
  have hr := h.read_le
  have hw := h.write_le
  have hs := h.size_lt
  have hmove : b.moveReadOffset ([] : List UInt8).length = some b := by
    rw [List.length_nil, Buffer.moveReadOffset, if_pos (Nat.zero_le _), Word.add_of_lt (by omega)]
    rfl
  rw [Buffer.getLineAndPop, h.getLine, line_of_notMem hq, Option.bind_eq_bind, Option.bind_some,
    hmove]
  rfl

end Buffer

/-! ### Runs -/

open Buffer Fifo

/-- The assertion on the length of a read. -/
def Asserted (s : State) : Call → Prop
  | .readAndPop i len => len ≤ (s.buffers i).readAbleSize
  | .ReadAsStringAndPop i len => len ≤ (s.buffers i).readAbleSize
  | _ => True

/-- A string has fewer than `2 ^ 32` characters, and a vector that has to grow does not get to
that size. -/
def Room (s : State) : Call → Prop
  | .WriteAndPush i data _ => (s.buffers i).Fits data.length
  | .WriteStringAndPush i data => data.length < 2 ^ 32 ∧ (s.buffers i).Fits data.length
  | .writeBufferAndPush i j _ => (s.buffers i).Fits (s.buffers j).readAbleSize
  | _ => True

/-- Each buffer is good, and is the queue of its log. -/
def Queues (s : State) : Prop := ∀ i, ∃ q, (s.buffers i).Good q ∧ (s.logs i).Holds q

lemma queues_start : Queues start := fun _ => ⟨[], good_new, Log.holds_empty⟩

variable {s t : State} {i : ℕ} {q : List UInt8}

lemma Queues.update (h : Queues s) {b : Buffer} {l : Log UInt8} (hb : b.Good q) (hl : l.Holds q) :
    Queues ⟨Function.update s.buffers i b, Function.update s.logs i l⟩ := by
  intro j
  by_cases hj : j = i
  · subst hj
    simp only [Function.update_self]
    exact ⟨q, hb, hl⟩
  · simp only [Function.update_of_ne hj]
    exact h j

/-- **One call** with its assertion and with room has a result, and keeps the queues. -/
lemma step_queues (h : Queues s) (c : Call) (hassert : Asserted s c) (hroom : Room s c) :
    ∃ t, s.step c = some t ∧ Queues t := by
  cases c with
  | WriteAndPush i data _ =>
    obtain ⟨q, hb, hl⟩ := h i
    obtain ⟨b', hwrite, hb'⟩ := hb.writeAndPush hroom
    exact ⟨s.wrote i data b', by rw [State.step, hwrite, Option.map_some],
      h.update hb' (hl.push data)⟩
  | WriteStringAndPush i data =>
    obtain ⟨q, hb, hl⟩ := h i
    obtain ⟨b', hwrite, hb'⟩ := hb.writeStringAndPush hroom.1 hroom.2
    exact ⟨s.wrote i data b', by rw [State.step, hwrite, Option.map_some],
      h.update hb' (hl.push data)⟩
  | writeBufferAndPush i j _ =>
    obtain ⟨q, hb, hl⟩ := h i
    obtain ⟨q', hb₁, hl₁⟩ := h j
    have hfits : (s.buffers i).Fits q'.length := hb₁.readAbleSize ▸ hroom
    obtain ⟨b', hwrite, hb'⟩ := hb.writeBufferAndPush hb₁ hfits
    exact ⟨s.wrote i q' b', by rw [State.step, hwrite, Option.map_some, hl₁.pending],
      h.update hb' (hl.push q')⟩
  | readAndPop i len =>
    obtain ⟨q, hb, hl⟩ := h i
    obtain ⟨b', hread, hb'⟩ := hb.readAndPop (hassert.trans hb.readAbleSize.le)
    exact ⟨s.read i _, by rw [State.step, hread, Option.map_some], h.update hb' (hl.pop len)⟩
  | ReadAsStringAndPop i len =>
    obtain ⟨q, hb, hl⟩ := h i
    obtain ⟨b', hread, hb'⟩ := hb.readAsStringAndPop (hassert.trans hb.readAbleSize.le)
    exact ⟨s.read i _, by rw [State.step, hread, Option.map_some], h.update hb' (hl.pop len)⟩
  | getLineAndPop i =>
    obtain ⟨q, hb, hl⟩ := h i
    obtain ⟨b', hread, hb'⟩ := hb.getLineAndPop
    have hline : q.take (line q).length = line q :=
      (List.prefix_iff_eq_take.mp (line_initial q)).symm
    have hpop := hl.pop (line q).length
    rw [hline] at hpop
    exact ⟨s.read i _, by rw [State.step, hread, Option.map_some], h.update hb' hpop⟩
  | Clear i =>
    obtain ⟨q, hb, hl⟩ := h i
    exact ⟨_, rfl, h.update hb.clear Log.holds_empty⟩

/-- **A run** whose calls have their assertions and room keeps the queues. -/
lemma exec_queues (calls : List Call) : ∀ {s : State}, Queues s →
    Transition.Always State.step (fun _ s c => Asserted s c ∧ Room s c) s calls →
    ∃ t, Transition.exec State.step s calls = some t ∧ Queues t := by
  induction calls with
  | nil => exact fun h _ => ⟨_, rfl, h⟩
  | cons c calls ih =>
    intro s h hall
    obtain ⟨⟨hassert, hroom⟩, hrest⟩ := hall.uncons
    obtain ⟨t, hstep, ht⟩ := step_queues h c hassert hroom
    rw [Transition.exec_cons, hstep, Option.bind_some]
    exact ih ht (hrest t hstep)

/-- What a buffer is to be: its indices are in order and in the vector, it holds what was
written since the last `Clear` and not read yet, and a line that is read is the shortest
beginning of that which ends in a newline. -/
structure FirstInFirstOut (b : Buffer) (log : Log UInt8) : Prop where
  indices : b.m_readIndex ≤ b.m_writeIndex ∧ b.m_writeIndex ≤ b.m_buffer.length
  order : log.pushed = log.popped ++ b.unread
  lines : ∃ str b', b.getLineAndPop = some (str, b') ∧
    (newline ∉ b.unread ∧ str = [] ∧ b' = b ∨
      ∃ l rest, b.unread = l ++ newline :: rest ∧ newline ∉ l ∧ str = l ++ [newline] ∧
        b'.unread = rest)

lemma Buffer.Good.firstInFirstOut {b : Buffer} {log : Log UInt8} (hb : b.Good q)
    (hl : log.Holds q) : FirstInFirstOut b log where
  indices := ⟨hb.read_le, hb.write_le⟩
  order := by
    rw [hb.content]
    exact hl
  lines := by
    rw [hb.content]
    by_cases hmem : newline ∈ q
    · obtain ⟨l, rest, rfl, hnot⟩ := List.eq_append_cons_of_mem hmem
      obtain ⟨b', hline, hb'⟩ := hb.getLineAndPop
      rw [line_append hnot] at hline hb'
      refine ⟨_, b', hline, .inr ⟨l, rest, rfl, hnot, rfl, ?_⟩⟩
      rw [hb'.content, List.length_append, List.drop_length_add_append]
      rfl
    · exact ⟨[], b, hb.getLineAndPop_none hmem, .inl ⟨hmem, rfl, rfl⟩⟩

/-- **The buffers are queues** in every run in which no string is too long and no vector grows
too large. -/
theorem buffers_firstInFirstOut {calls : List Call}
    (h : Transition.Always State.step (fun _ s c => Asserted s c ∧ Room s c) start calls) :
    ∃ t, Transition.exec State.step start calls = some t ∧
      ∀ i, FirstInFirstOut (t.buffers i) (t.logs i) := by
  obtain ⟨t, hexec, ht⟩ := exec_queues calls queues_start h
  refine ⟨t, hexec, fun i => ?_⟩
  obtain ⟨q, hb, hl⟩ := ht i
  exact hb.firstInFirstOut hl

/-- A line is written and read. -/
theorem line_firstInFirstOut : ∃ t, Transition.exec State.step start
      [.WriteAndPush 0 [97, 10] (by decide), .getLineAndPop 0] = some t ∧
    ∀ i, FirstInFirstOut (t.buffers i) (t.logs i) := by
  refine buffers_firstInFirstOut ?_
  intro h c r s he hs
  rcases h with _ | ⟨c₁, _ | ⟨c₂, h⟩⟩
  · obtain ⟨rfl, -⟩ := List.cons.inj he
    obtain rfl : start = s := Option.some.inj hs
    exact ⟨trivial, .inr (by decide)⟩
  · obtain ⟨-, he⟩ := List.cons.inj he
    obtain ⟨rfl, -⟩ := List.cons.inj he
    exact ⟨trivial, trivial⟩
  · simp at he

/-- A string of `2 ^ 32` characters is lost. -/
lemma string_lost {data : List UInt8} (hlen : data.length = 2 ^ 32) :
    ∃ t, Transition.exec State.step start [.WriteStringAndPush 0 data] = some t ∧
      ¬ FirstInFirstOut (t.buffers 0) (t.logs 0) := by
  have hnil : new.Fits ([] : List UInt8).length := .inr (by decide)
  obtain ⟨b', hwrite, hb'⟩ := good_new.writeAndPush hnil
  have hzero : data.length % 2 ^ 32 = 0 := by omega
  have hstring : new.WriteStringAndPush data = some b' := by
    rw [WriteStringAndPush, hzero]
    exact hwrite
  refine ⟨start.wrote 0 data b', ?_, fun h => ?_⟩
  · change (Option.map (start.wrote 0 data) (new.WriteStringAndPush data)).bind some = _
    rw [hstring]
    rfl
  · have horder : data = [] ++ b'.unread := h.order
    rw [hb'.content] at horder
    rw [horder] at hlen
    simp at hlen

/-- A string of `2 ^ 32` zeros. -/
theorem string_not_firstInFirstOut : ∃ t, Transition.exec State.step start
      [.WriteStringAndPush 0 (List.replicate (2 ^ 32) 0)] = some t ∧
    ¬ FirstInFirstOut (t.buffers 0) (t.logs 0) :=
  string_lost List.length_replicate

end MmrService.NetBuffer
