import MmrService.Unpack

/-!
What a stream begins with under a setting, and that more of the stream does not change it.
-/

namespace MmrService.Unpack

open Framing

/-- Why no more packages are taken. -/
inductive End where
  | overLimit | endless

variable (setting : unpack_setting_t)

def lengthHead (s : List UInt8) : Head End :=
  if s.length < setting.body_offset then .incomplete
  else
    match field setting (s.drop setting.length_field_offset) with
    | .short => .incomplete
    | .tooBig => .stop .overLimit
    | .value package_len =>
      if package_len = 0 then .stop .endless
      else if setting.package_max_length < package_len then .stop .overLimit
      else if package_len ≤ s.length then .package package_len
      else .incomplete

def head (s : List UInt8) : Head End :=
  match setting.mode with
  | .UNPACK_BY_FIXED_LENGTH => fixedHead setting.fixed_length s
  | .UNPACK_BY_DELIMITER =>
    delimiterHead (setting.delimiter.take setting.delimiter_bytes) setting.package_max_length
      .overLimit s
  | .UNPACK_BY_LENGTH_FIELD => lengthHead setting s
  | .UNPACK_MODE_NONE => .incomplete

/-- The settings that packages are cut with. A package fits into an `int`, the bytes of the length
field are shifted by less than 32 places, and the buffer has room for the length field. -/
structure Sound : Prop where
  mode : setting.mode ≠ .UNPACK_MODE_NONE
  limit : 0 < setting.package_max_length ∧ setting.package_max_length < 2 ^ 31
  fixed : setting.mode = .UNPACK_BY_FIXED_LENGTH →
    0 < setting.fixed_length ∧ setting.fixed_length ≤ setting.package_max_length
  delimiter : setting.mode = .UNPACK_BY_DELIMITER →
    0 < setting.delimiter_bytes ∧ setting.delimiter_bytes ≤ setting.delimiter.length
  offset : setting.mode = .UNPACK_BY_LENGTH_FIELD → 0 < setting.length_field_bytes ∧
    setting.length_field_offset + setting.length_field_bytes ≤ setting.body_offset ∧
    setting.body_offset ≤ setting.package_max_length
  little : setting.length_field_coding = .ENCODE_BY_LITTEL_ENDIAN → setting.length_field_bytes ≤ 4
  varint : setting.mode = .UNPACK_BY_LENGTH_FIELD →
    setting.length_field_coding = .ENCODE_BY_VARINT →
    setting.length_field_offset + 10 ≤ min HLOOP_READ_BUFSIZE setting.package_max_length

/-! ### The length field -/

variable {setting} {lp s : List UInt8}

lemma varintLoop_append {turns bytes ret : ℕ} (h : (varintLoop turns bytes ret lp).2 ≠ 0)
    (t : List UInt8) : varintLoop turns bytes ret (lp ++ t) = varintLoop turns bytes ret lp := by
  induction turns generalizing bytes ret lp with
  | zero => rfl
  | succ turns ih =>
    cases lp with
    | nil => exact absurd rfl h
    | cons b p =>
      rw [List.cons_append, varintLoop, varintLoop]
      rw [varintLoop] at h
      by_cases hb : b &&& 0x80 = 0
      · rw [if_pos hb, if_pos hb]
      · rw [if_neg hb] at h
        rw [if_neg hb, if_neg hb, ih h]

/-- Only a field that goes on to the end of the bytes is short. -/
lemma length_lt_of_short {turns bytes ret : ℕ} (h : (varintLoop turns bytes ret lp).2 = 0) :
    lp.length < turns := by
  induction turns generalizing bytes ret lp with
  | zero => cases h
  | succ turns ih =>
    cases lp with
    | nil => exact Nat.succ_pos turns
    | cons b p =>
      rw [varintLoop] at h
      by_cases hb : b &&& 0x80 = 0
      · rw [if_pos hb] at h
        change (bytes : ℤ) + 1 = 0 at h
        omega
      · rw [if_neg hb] at h
        exact Nat.succ_lt_succ (ih h)

lemma field_append (hlen : setting.length_field_bytes ≤ lp.length)
    (h : field setting lp ≠ .short) (t : List UInt8) :
    field setting (lp ++ t) = field setting lp := by
  unfold field at h ⊢
  split
  next => rw [List.take_append_of_le_length hlen]
  next => rw [List.take_append_of_le_length hlen]
  next hc =>
    rw [hc] at h
    have hne : (varint_decode lp).2 ≠ 0 := fun h0 => h (if_pos h0)
    have happ : varint_decode (lp ++ t) = varint_decode lp := varintLoop_append hne t
    rw [happ]

lemma length_lt_of_field_short (h : field setting lp = .short) :
    setting.length_field_coding = .ENCODE_BY_VARINT ∧ lp.length < 10 := by
  unfold field at h
  split at h
  next => cases h
  next => cases h
  next hc =>
    refine ⟨hc, @length_lt_of_short _ 10 0 0 ?_⟩
    change (varint_decode lp).2 = 0
    by_contra hne
    dsimp only at h
    rw [if_neg hne] at h
    split at h <;> cases h

lemma stable_lengthHead
    (hoff : setting.length_field_offset + setting.length_field_bytes ≤ setting.body_offset) :
    Stable (lengthHead setting) where
  length {s n} h := by
    unfold lengthHead at h
    grind
  append {s} t h := by
    have hlen : ¬ s.length < setting.body_offset := fun hlt => h (if_pos hlt)
    have hf : field setting ((s ++ t).drop setting.length_field_offset) =
        field setting (s.drop setting.length_field_offset) := by
      rw [List.drop_append_of_le_length (by omega)]
      refine field_append (by rw [List.length_drop]; omega) (fun hs => h ?_) t
      rw [lengthHead, if_neg hlen, hs]
    rw [lengthHead, if_neg (by rw [List.length_append]; omega), hf]
    rw [lengthHead, if_neg hlen] at h ⊢
    split
    next => rfl
    next => rfl
    next n hn =>
      rw [hn] at h
      dsimp only at h
      grind

lemma stable_head (hs : Sound setting) : Stable (head setting) := by
  cases hm : setting.mode with
  | UNPACK_MODE_NONE => exact absurd hm hs.mode
  | UNPACK_BY_FIXED_LENGTH =>
    have he : head setting = fixedHead setting.fixed_length := by
      funext s
      rw [head, hm]
    rw [he]
    exact stable_fixedHead (hs.fixed hm).1
  | UNPACK_BY_DELIMITER =>
    have he : head setting = delimiterHead (setting.delimiter.take setting.delimiter_bytes)
        setting.package_max_length .overLimit := by
      funext s
      rw [head, hm]
    rw [he]
    refine stable_delimiterHead (fun h => ?_) _ _
    have hlen := congrArg List.length h
    have hd := hs.delimiter hm
    rw [List.length_take, List.length_nil] at hlen
    omega
  | UNPACK_BY_LENGTH_FIELD =>
    have he : head setting = lengthHead setting := by
      funext s
      rw [head, hm]
    rw [he]
    exact stable_lengthHead (hs.offset hm).2.1

end MmrService.Unpack
