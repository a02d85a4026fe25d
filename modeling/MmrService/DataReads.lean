import MmrService.DataStream

/-!
`CDataStream::operator >>` on any buffer: what a call reads, and what it leaves when it throws.

`_buffer.at` looks at the first byte of a number only. The length of a string is taken from the
buffer; it is consumed before the string is resized to it, which may throw, and filled from
whatever is behind it.
-/

namespace MmrService.DataStream

open BufConvert Transition

/-- A call of `operator >>` returns a value, throws, or copies bytes from outside the buffer. -/
inductive Outcome (α : Type)
  | value (a : α) (s : CDataStream)
  | throws (s : CDataStream)
  | outside

namespace Outcome

variable {α β : Type}

def map (f : α → β) : Outcome α → Outcome β
  | value a s => value (f a) s
  | throws s => throws s
  | outside => outside

/-- What is left, unless bytes outside were copied. -/
def left : Outcome α → Option CDataStream
  | value _ s => some s
  | throws s => some s
  | outside => none

/-- From the state `s` on, the bytes consumed are inside the buffer, or the call has failed by an
exception with the read position as it was. -/
def Contained (s : CDataStream) : Outcome α → Prop
  | value _ t => s._read_pos ≤ t._read_pos ∧ t._read_pos ≤ s._buffer.length
  | throws t => t._read_pos = s._read_pos
  | outside => False

@[simp] lemma left_map (f : α → β) (o : Outcome α) : (o.map f).left = o.left := by
  cases o <;> rfl

@[simp] lemma contained_map {s : CDataStream} (f : α → β) (o : Outcome α) :
    (o.map f).Contained s ↔ o.Contained s := by
  cases o <;> rfl

end Outcome

namespace CDataStream

variable (m : Machine) (s : CDataStream)

/-- `ReadAlgorithm` for a number of `k` bytes. -/
def extractNumber (k : ℕ) : Outcome ℕ :=
  if s._buffer.length ≤ s._read_pos then .throws s
  else if s._read_pos + k ≤ s._buffer.length then
    .value (m.load (s.DoFlip (Bytes.slice s._buffer s._read_pos k)))
      { s with _read_pos := s._read_pos + k }
  else .outside

/-- `operator >> (std::string& str)`; `resizes` tells whether `str.resize` finds the memory. -/
def extractString (resizes : Bool) : Outcome (List UInt8) :=
  match s.extractNumber m 4 with
  | .value strLen s =>
    if resizes then
      if s._read_pos + strLen ≤ s._buffer.length then
        .value (Bytes.slice s._buffer s._read_pos strLen)
          { s with _read_pos := s._read_pos + strLen }
      else .outside
    else .throws s
  | .throws s => .throws s
  | .outside => .outside

/-- `operator >>`. -/
def extract (resizes : Bool) : Ty → Outcome Value
  | .integer T => (s.extractNumber m T.size).map fun n => .integer T (BitVec.ofNat _ n)
  | .float => (s.extractNumber m 4).map fun n => .float (BitVec.ofNat _ n)
  | .double => (s.extractNumber m 8).map fun n => .double (BitVec.ofNat _ n)
  | .enum T => (s.extractNumber m T.size).map fun n => .enum T (BitVec.ofNat _ n)
  | .string => (s.extractString m resizes).map .string

/-- The length a string at the read position has by the buffer. -/
def storedLength : ℕ := m.load (s.DoFlip (Bytes.slice s._buffer s._read_pos 4))

end CDataStream

/-- The bytes of a number, and of the length of a string. -/
def Ty.width : Ty → ℕ
  | .integer T => T.size
  | .float => 4
  | .double => 8
  | .enum T => T.size
  | .string => 4

/-- A call of `operator >>`, and whether a string can be resized in it. -/
structure Call where
  ty : Ty
  resizes : Bool

def stepRead (m : Machine) (s : CDataStream) (c : Call) : Option CDataStream :=
  (s.extract m c.resizes c.ty).left

/-- A call is contained. -/
def Contained (m : Machine) (s : CDataStream) (c : Call) : Prop :=
  (s.extract m c.resizes c.ty).Contained s

/-- The read position is at the end, or what is to be read is in the buffer as a whole; of a
string that is its length and its bytes, for which there must be memory as well. -/
def Readable (m : Machine) (s : CDataStream) (c : Call) : Prop :=
  s._buffer.length ≤ s._read_pos ∨
    (s._read_pos + c.ty.width ≤ s._buffer.length ∧
      (c.ty = .string → c.resizes = true ∧
        s._read_pos + 4 + s.storedLength m ≤ s._buffer.length))

instance (m : Machine) (s : CDataStream) (c : Call) : Decidable (Readable m s c) :=
  inferInstanceAs (Decidable (_ ∨ _))

variable {m : Machine} {s t : CDataStream}

namespace CDataStream

/-! ### One call -/

lemma contained_extractNumber_iff {k : ℕ} :
    (s.extractNumber m k).Contained s ↔
      s._buffer.length ≤ s._read_pos ∨ s._read_pos + k ≤ s._buffer.length := by
  unfold extractNumber
  split_ifs with hend hin
  · exact iff_of_true rfl (.inl hend)
  · exact iff_of_true ⟨Nat.le_add_right _ _, hin⟩ (.inr hin)
  · exact iff_of_false id (by omega)

lemma contained_extractString_iff {resizes : Bool} :
    (s.extractString m resizes).Contained s ↔
      s._buffer.length ≤ s._read_pos ∨
        (s._read_pos + 4 ≤ s._buffer.length ∧ resizes = true ∧
          s._read_pos + 4 + s.storedLength m ≤ s._buffer.length) := by
  by_cases hend : s._buffer.length ≤ s._read_pos
  · have hnum : s.extractNumber m 4 = .throws s := if_pos hend
    rw [extractString, hnum]
    exact iff_of_true rfl (.inl hend)
  by_cases hin : s._read_pos + 4 ≤ s._buffer.length
  · have hnum : s.extractNumber m 4 =
        .value (s.storedLength m) { s with _read_pos := s._read_pos + 4 } :=
      (if_neg hend).trans (if_pos hin)
    rw [extractString, hnum]
    dsimp only
    split_ifs with hmem hall
    · exact iff_of_true ⟨by dsimp only; omega, hall⟩ (.inr ⟨hin, hmem, hall⟩)
    · refine iff_of_false id ?_
      rintro (h | ⟨-, -, h⟩)
      · exact hend h
      · exact hall h
    · -- the length has been consumed when the exception comes
      refine iff_of_false (fun h => ?_) ?_
      · have heq : s._read_pos + 4 = s._read_pos := h
        omega
      · rintro (h | ⟨-, h, -⟩)
        · exact hend h
        · exact hmem h
  · have hnum : s.extractNumber m 4 = .outside := (if_neg hend).trans (if_neg hin)
    rw [extractString, hnum]
    refine iff_of_false id ?_
    rintro (h | ⟨h, -⟩)
    · exact hend h
    · exact hin h

end CDataStream

/-- One call is contained exactly if there is nothing or enough to be read. -/
lemma contained_iff_readable (c : Call) : Contained m s c ↔ Readable m s c := by
  obtain ⟨T, resizes⟩ := c
  unfold Contained Readable CDataStream.extract
  cases T with
  | string =>
    rw [Outcome.contained_map, CDataStream.contained_extractString_iff]
    simp [Ty.width]
  | integer T | float | double | enum T =>
    rw [Outcome.contained_map, CDataStream.contained_extractNumber_iff]
    simp [Ty.width]

/-! ### Runs -/

lemma left_extractNumber {k : ℕ} (hk : (s.extractNumber m k).left = some t)
    (hpos : s._read_pos ≤ s._buffer.length) :
    t._buffer = s._buffer ∧ t._read_pos ≤ s._buffer.length := by
  unfold CDataStream.extractNumber at hk
  split_ifs at hk with hend hin
  · obtain rfl := Option.some.inj hk
    exact ⟨rfl, hpos⟩
  · obtain rfl := Option.some.inj hk
    exact ⟨rfl, hin⟩
  · cases hk

/-- A call that leaves a stream leaves the buffer, and the read position in it. -/
lemma left_extract {c : Call} (h : stepRead m s c = some t)
    (hpos : s._read_pos ≤ s._buffer.length) :
    t._buffer = s._buffer ∧ t._read_pos ≤ t._buffer.length := by
  have hsame : t._buffer = s._buffer ∧ t._read_pos ≤ s._buffer.length := by
    obtain ⟨T, resizes⟩ := c
    unfold stepRead CDataStream.extract at h
    cases T with
    | string =>
      rw [Outcome.left_map] at h
      unfold CDataStream.extractString at h
      rcases ho : s.extractNumber m 4 with ⟨n, u⟩ | u | _
      · obtain ⟨hbuf, hu⟩ := left_extractNumber (by rw [ho]; rfl) hpos
        rw [ho] at h
        dsimp only at h
        split_ifs at h with hmem hall
        · obtain rfl := Option.some.inj h
          exact ⟨hbuf, hbuf ▸ hall⟩
        · cases h
        · obtain rfl := Option.some.inj h
          exact ⟨hbuf, hu⟩
      · rw [ho] at h
        obtain rfl := Option.some.inj h
        exact left_extractNumber (by rw [ho]; rfl) hpos
      · rw [ho] at h
        cases h
    | integer T | float | double | enum T =>
      rw [Outcome.left_map] at h
      exact left_extractNumber h hpos
  exact ⟨hsame.1, hsame.1 ▸ hsame.2⟩

/-- **Every read of a sequence stays in the buffer, or throws and leaves the read position,
exactly if at each one there is nothing left to be read or all that it reads.** As long as no
read goes outside, the read position is never behind the buffer, exceptions included. -/
theorem contained_run_iff (m : Machine) (buffer : List UInt8) (stream : emEndian)
    (cs : List Call) :
    (Always (stepRead m) (fun _ => Contained m) (.new m buffer stream) cs ↔
      Always (stepRead m) (fun _ => Readable m) (.new m buffer stream) cs) ∧
    ∀ s, exec (stepRead m) (.new m buffer stream) cs = some s →
      s._buffer = buffer ∧ s._read_pos ≤ buffer.length := by
  refine ⟨?_, fun s hs => ?_⟩
  · exact always_congr (I := fun _ _ => True) trivial (fun _ _ _ _ _ _ _ => trivial)
      (fun _ _ c _ => contained_iff_readable c) cs
  · have hinv : s._buffer = buffer ∧ s._read_pos ≤ s._buffer.length := by
      refine inv_of_always (P := fun _ _ _ => True)
        (I := fun _ s => s._buffer = buffer ∧ s._read_pos ≤ s._buffer.length)
        ⟨rfl, Nat.zero_le _⟩ ?_ (fun _ _ _ _ _ _ => trivial) hs
      intro _ t c u hi _ hu
      obtain ⟨hbuf, hpos⟩ := left_extract hu hi.2
      exact ⟨hbuf.trans hi.1, hpos⟩
    exact ⟨hinv.1, hinv.1 ▸ hinv.2⟩

/-- One byte, of which a number of four bytes is read: three bytes come from outside. And a
string of `2 ^ 32 - 1` bytes, for which there is no memory: its length has been consumed. -/
theorem truncated_not_contained :
    ¬ Always (stepRead linux64) (fun _ => Contained linux64) (.new linux64 [1] .LITTLE)
      [⟨.integer .uint32, true⟩] ∧
    ¬ Always (stepRead linux64) (fun _ => Contained linux64)
      (.new linux64 [255, 255, 255, 255] .LITTLE) [⟨.string, false⟩] := by
  constructor
  · intro h
    exact h [] _ [] _ rfl rfl
  · intro h
    have hcall : Contained linux64 (.new linux64 [255, 255, 255, 255] .LITTLE) ⟨.string, false⟩ :=
      h [] _ [] _ rfl rfl
    exact absurd ((contained_iff_readable _).mp hcall) (by decide +kernel)

end MmrService.DataStream
