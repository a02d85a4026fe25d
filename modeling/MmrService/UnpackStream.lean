import MmrService.UnpackRun

/-!
A stream is cut into the same packages in whatever pieces it comes, and messages that are packed as
the setting says are the packages.
-/

namespace MmrService.Unpack

open Framing

variable {setting : unpack_setting_t} {s : List UInt8}

lemma head_nil (hs : Sound setting) : head setting [] = .incomplete := by
  unfold head
  cases hm : setting.mode with
  | UNPACK_MODE_NONE => rfl
  | UNPACK_BY_FIXED_LENGTH => exact fixedHead_of_lt (hs.fixed hm).1
  | UNPACK_BY_DELIMITER =>
    have hd := hs.delimiter hm
    have hpos := hs.limit.1
    have hne : setting.delimiter.take setting.delimiter_bytes ≠ [] :=
      List.length_pos_iff.mp (by rw [List.length_take]; omega)
    have hnone : firstAt (setting.delimiter.take setting.delimiter_bytes)
        (([] : List UInt8).take setting.package_max_length) = none := by
      rw [List.take_nil, firstAt_eq_none hne]
      intro j hj
      have := add_length_le hne hj
      have := List.length_pos_iff.mpr hne
      rw [List.length_nil] at *
      omega
    exact (delimiterHead_none hnone).trans (if_neg (Nat.not_le.mpr hpos))
  | UNPACK_BY_LENGTH_FIELD =>
    have hoff := hs.offset hm
    exact if_pos (show 0 < setting.body_offset by omega)

/-- A connection that `hio_set_unpack` was called for has read nothing. -/
lemma exists_set_unpack (hs : Sound (completed setting)) (loop_readbuf : List UInt8) :
    ∃ io, hio_set_unpack (hio_ready loop_readbuf) setting = .ok io ∧
      Outcome (completed setting) [] (.ok io) := by
  generalize hc : completed setting = st at hs ⊢
  have hlimit := hs.limit
  set n := if st.mode = .UNPACK_BY_FIXED_LENGTH then st.fixed_length
    else min HLOOP_READ_BUFSIZE st.package_max_length with hn
  have hn0 : 0 < n ∧ n ≤ st.package_max_length := by
    rw [hn]
    split
    next hm => exact hs.fixed hm
    next => unfold HLOOP_READ_BUFSIZE; omega
  have hmod : n % 2 ^ 32 = n := Nat.mod_eq_of_lt (by omega)
  refine ⟨{ hio_ready loop_readbuf with
    readbuf := ⟨List.replicate n 0, 0, 0⟩
    alloced_readbuf := true
    unpack_setting := some st
    max_read_bufsize := st.package_max_length }, ?_, [], .rest ?_, .inr ⟨?_, ?_, head_nil hs, rfl⟩⟩
  · unfold hio_set_unpack
    dsimp only
    rw [hc, if_neg, if_neg, ← hn]
    · unfold hio_alloc_readbuf
      dsimp only
      rw [hmod, if_neg (by omega)]
      rfl
    · intro h
      exact h.2 (hs.offset h.1).2.1
    · intro h
      exact h.2 ⟨(hs.fixed h.1).1.ne', (hs.fixed h.1).2⟩
  · intro n h
    cases (head_nil hs).symm.trans h
  · refine ⟨rfl, rfl, rfl, rfl, rfl, rfl, Nat.zero_le _, fun hm => ⟨?_, rfl⟩, fun hm => ?_, ?_,
      .inl rfl⟩
    · exact List.length_replicate.trans (if_pos hm)
    · exact (List.length_replicate.trans (if_neg hm)).ge
    · exact List.length_replicate.le.trans hn0.2
  · exact List.length_replicate.symm ▸ hn0.1

lemma sound_default : Sound (completed unpack_setting_s) where
  mode := by decide
  limit := by decide
  fixed h := by cases h
  delimiter h := by cases h
  offset _ := by decide
  little h := by cases h
  varint _ h := by cases h

/-- A setting with a buffer of sixteen bytes. -/
def setting16 : unpack_setting_t := { unpack_setting_s with package_max_length := 16 }

lemma sound_setting16 : Sound (completed setting16) where
  mode := by decide
  limit := by decide
  fixed h := by cases h
  delimiter h := by cases h
  offset _ := by decide
  little h := by cases h
  varint _ h := by cases h

/-- `varint_encode` of a number that is not negative. -/
def varint_encode (value : ℕ) : List UInt8 :=
  if value / 128 = 0 then [UInt8.ofNat (value % 128)]
  else (UInt8.ofNat (value % 128) ||| 0x80) :: varint_encode (value / 128)
termination_by value
decreasing_by omega

lemma low_bits {x : ℕ} (hx : x < 128) : UInt8.ofNat x &&& 0x7F = UInt8.ofNat x ∧
    UInt8.ofNat x &&& 0x80 = 0 ∧ (UInt8.ofNat x ||| 0x80) &&& 0x7F = UInt8.ofNat x ∧
    (UInt8.ofNat x ||| 0x80) &&& 0x80 ≠ 0 := by
  have hall : ∀ x : Fin 128, UInt8.ofNat x &&& 0x7F = UInt8.ofNat x ∧
      UInt8.ofNat x &&& 0x80 = 0 ∧ (UInt8.ofNat x ||| 0x80) &&& 0x7F = UInt8.ofNat x ∧
      (UInt8.ofNat x ||| 0x80) &&& 0x80 ≠ 0 := by decide
  exact hall ⟨x, hx⟩

/-- Seven more bits are added above the others. -/
lemma or_shiftLeft {ret value bytes : ℕ} (hret : ret < 2 ^ (7 * bytes))
    (hall : ret + value * 2 ^ (7 * bytes) < 2 ^ 64) :
    (ret ||| (value % 128) <<< (7 * bytes)) % 2 ^ 64 = ret + value % 128 * 2 ^ (7 * bytes) := by
  have hor := Nat.two_pow_add_eq_or_of_lt hret (value % 128)
  have hle : value % 128 * 2 ^ (7 * bytes) ≤ value * 2 ^ (7 * bytes) :=
    Nat.mul_le_mul_right _ (Nat.mod_le _ _)
  rw [Nat.shiftLeft_eq, Nat.mul_comm, Nat.or_comm, ← hor, Nat.mod_eq_of_lt (by
    rw [Nat.mul_comm]
    omega), Nat.add_comm]

/-- Decoding takes up what encoding put down. -/
lemma varintLoop_encode {turns bytes ret value : ℕ} (t : List UInt8)
    (hturns : 0 < turns) (hret : ret < 2 ^ (7 * bytes)) (hvalue : value < 2 ^ (7 * turns))
    (hall : ret + value * 2 ^ (7 * bytes) < 2 ^ 64) :
    varintLoop turns bytes ret (varint_encode value ++ t) =
      (ret + value * 2 ^ (7 * bytes), ((bytes + (varint_encode value).length : ℕ) : ℤ)) := by
  induction turns generalizing bytes ret value with
  | zero => omega
  | succ turns ih =>
    have hmod : value % 128 < 128 := Nat.mod_lt _ (by decide)
    obtain ⟨hlow, hend, hlow', hmore⟩ := low_bits hmod
    have hnat : (UInt8.ofNat (value % 128)).toNat = value % 128 :=
      (UInt8.toNat_ofNat' ..).trans (Nat.mod_eq_of_lt (by omega))
    have hor := or_shiftLeft hret hall
    rw [varint_encode]
    by_cases h0 : value / 128 = 0
    · have hval : value % 128 = value := by omega
      rw [if_pos h0, List.cons_append, varintLoop, hlow, hnat, if_pos hend, hor, hval,
        List.length_singleton]
      rfl
    · rw [if_neg h0, List.cons_append, varintLoop, hlow', hnat, if_neg hmore, hor]
      have hpow : 2 ^ (7 * (bytes + 1)) = 128 * 2 ^ (7 * bytes) := by
        rw [Nat.mul_add, pow_add, Nat.mul_comm]
        rfl
      have hsplit : value % 128 * 2 ^ (7 * bytes) + value / 128 * (128 * 2 ^ (7 * bytes)) =
          value * 2 ^ (7 * bytes) := by
        rw [← Nat.mul_assoc, ← Nat.add_mul, Nat.mod_add_div']
      have hmore : 2 ^ (7 * (turns + 1)) = 128 * 2 ^ (7 * turns) := by
        rw [Nat.mul_add, pow_add, Nat.mul_comm]
        rfl
      have hturns' : 0 < turns := by
        rcases Nat.eq_zero_or_pos turns with rfl | hpos
        · change value < 128 at hvalue
          omega
        · exact hpos
      have hret' : ret + value % 128 * 2 ^ (7 * bytes) < 2 ^ (7 * (bytes + 1)) := by
        rw [hpow]
        have : value % 128 * 2 ^ (7 * bytes) ≤ 127 * 2 ^ (7 * bytes) :=
          Nat.mul_le_mul_right _ (by omega)
        omega
      rw [ih hturns' hret' (by omega) (by rw [hpow, Nat.add_assoc, hsplit]; exact hall), hpow,
        Nat.add_assoc, hsplit, List.length_cons]
      congr 2
      omega

lemma length_varint_encode {turns value : ℕ} (hturns : 0 < turns)
    (hvalue : value < 2 ^ (7 * turns)) : (varint_encode value).length ≤ turns := by
  induction turns generalizing value with
  | zero => omega
  | succ turns ih =>
    rw [varint_encode]
    by_cases h0 : value / 128 = 0
    · rw [if_pos h0]
      exact hturns
    · rw [if_neg h0, List.length_cons]
      have hpow : 2 ^ (7 * (turns + 1)) = 128 * 2 ^ (7 * turns) := by
        rw [Nat.mul_add, pow_add, Nat.mul_comm]
        rfl
      refine Nat.succ_le_succ (ih ?_ (by omega))
      rcases Nat.eq_zero_or_pos turns with rfl | hpos
      · change value < 128 at hvalue
        omega
      · exact hpos

lemma bodyLenLE_eq {lp : List UInt8} (hlen : lp.length ≤ 4) : bodyLenLE lp = Bytes.ofLE lp := by
  have hgen : ∀ (lp : List UInt8) (i acc : ℕ), i + lp.length ≤ 4 → acc < 2 ^ (i * 8) →
      (lp.zipIdx i).foldl (fun body_len b => body_len ||| (b.1.toNat <<< (b.2 * 8)) % 2 ^ 32) acc =
        acc + Bytes.ofLE lp * 2 ^ (i * 8) := by
    intro lp
    induction lp with
    | nil =>
      intro i acc _ _
      rw [List.zipIdx_nil, List.foldl_nil, Bytes.ofLE, Nat.zero_mul, Nat.add_zero]
    | cons b lp ih =>
      intro i acc hlen hacc
      rw [List.length_cons] at hlen
      have hb : b.toNat < 256 := b.toNat_lt
      have hpow : 2 ^ ((i + 1) * 8) = 256 * 2 ^ (i * 8) := by
        rw [Nat.add_mul, pow_add, Nat.mul_comm]
        rfl
      have hshift : (b.toNat <<< (i * 8)) % 2 ^ 32 = b.toNat * 2 ^ (i * 8) := by
        rw [Nat.shiftLeft_eq]
        refine Nat.mod_eq_of_lt ?_
        calc b.toNat * 2 ^ (i * 8) < 256 * 2 ^ (i * 8) :=
              Nat.mul_lt_mul_of_pos_right hb (Nat.two_pow_pos _)
          _ = 2 ^ ((i + 1) * 8) := hpow.symm
          _ ≤ 2 ^ 32 := Nat.pow_le_pow_right (by decide) (by omega)
      have hor : acc ||| b.toNat * 2 ^ (i * 8) = acc + b.toNat * 2 ^ (i * 8) := by
        rw [Nat.or_comm, Nat.mul_comm, ← Nat.two_pow_add_eq_or_of_lt hacc, Nat.add_comm]
      have hlt : acc + b.toNat * 2 ^ (i * 8) < 2 ^ ((i + 1) * 8) := by
        have : b.toNat * 2 ^ (i * 8) ≤ 255 * 2 ^ (i * 8) := Nat.mul_le_mul_right _ (by omega)
        omega
      rw [List.zipIdx_cons, List.foldl_cons, hshift, hor, ih (i + 1) _ (by omega) hlt, Bytes.ofLE,
        hpow]
      ring
  have h0 := hgen lp 0 0 (by omega) (by decide)
  rw [Nat.zero_mul, pow_zero, Nat.mul_one, Nat.zero_add] at h0
  exact h0

lemma bodyLenBE_reverse {lp : List UInt8} (hlen : lp.length ≤ 4) :
    bodyLenBE lp.reverse = Bytes.ofLE lp := by
  unfold bodyLenBE
  rw [List.foldl_reverse]
  induction lp with
  | nil => rfl
  | cons b lp ih =>
    rw [List.length_cons] at hlen
    have hb : b.toNat < 2 ^ 8 := b.toNat_lt
    have hlt : Bytes.ofLE lp < 256 ^ 3 :=
      (Bytes.ofLE_lt lp).trans_le (Nat.pow_le_pow_right (by decide) (by omega))
    rw [List.foldr_cons, ih (by omega), Nat.shiftLeft_eq, Nat.mul_comm,
      ← Nat.two_pow_add_eq_or_of_lt hb, Nat.mod_eq_of_lt (by omega), Bytes.ofLE, Nat.add_comm]

/-- The bytes of the length field for a body of `body_len` bytes. -/
def fieldOf (setting : unpack_setting_t) (body_len : ℕ) : List UInt8 :=
  match setting.length_field_coding with
  | .ENCODE_BY_BIG_ENDIAN => (Bytes.toLE setting.length_field_bytes body_len).reverse
  | .ENCODE_BY_LITTEL_ENDIAN => Bytes.toLE setting.length_field_bytes body_len
  | .ENCODE_BY_VARINT => varint_encode body_len

/-- The length field has room for the number. -/
def FieldFits (setting : unpack_setting_t) (body_len : ℕ) : Prop :=
  if setting.length_field_coding = .ENCODE_BY_VARINT then body_len < 2 ^ 32
  else setting.length_field_bytes ≤ 4 ∧ body_len < 256 ^ setting.length_field_bytes

/-- A message as a sender packs it. -/
def Packed (setting : unpack_setting_t) (p : List UInt8) : Prop :=
  match setting.mode with
  | .UNPACK_MODE_NONE => False
  | .UNPACK_BY_FIXED_LENGTH => p.length = setting.fixed_length
  | .UNPACK_BY_DELIMITER => p.length ≤ setting.package_max_length ∧
      ∃ text, p = text ++ setting.delimiter.take setting.delimiter_bytes ∧
        ∀ j < text.length, ¬ setting.delimiter.take setting.delimiter_bytes <+: p.drop j
  | .UNPACK_BY_LENGTH_FIELD => setting.body_offset ≤ p.length ∧
      p.length ≤ setting.package_max_length ∧
      ∃ front body_len rest, p = front ++ fieldOf setting body_len ++ rest ∧
        front.length = setting.length_field_offset ∧ FieldFits setting body_len ∧
        (setting.body_offset + (fieldOf setting body_len).length - setting.length_field_bytes +
          body_len + setting.length_adjustment : ℤ) = p.length

/-- The length of a package is computed without overflow. -/
lemma package_len_eq (hs : Sound setting) {head_len body_len n : ℕ}
    (hn : n ≤ setting.package_max_length)
    (hlen : (head_len + body_len + setting.length_adjustment : ℤ) = n) :
    package_len setting head_len body_len = n := by
  rw [package_len, hlen]
  exact Word.ofInt_natCast (by have := hs.limit.2; omega)

lemma field_fieldOf (hs : Sound setting) (hm : setting.mode = .UNPACK_BY_LENGTH_FIELD)
    {body_len n : ℕ} (hfits : FieldFits setting body_len) (hn : n ≤ setting.package_max_length)
    (hlen : (setting.body_offset + (fieldOf setting body_len).length -
      setting.length_field_bytes + body_len + setting.length_adjustment : ℤ) = n)
    (t : List UInt8) : field setting (fieldOf setting body_len ++ t) = .value n := by
  obtain ⟨hbytes, hoff, hbody⟩ := hs.offset hm
  have hlimit := hs.limit.2
  unfold FieldFits at hfits
  unfold field
  unfold fieldOf at hlen ⊢
  cases hc : setting.length_field_coding with
  | ENCODE_BY_BIG_ENDIAN =>
    rw [hc] at hlen hfits
    obtain ⟨hfour, hfits⟩ := hfits
    dsimp only at hlen ⊢
    rw [List.length_reverse, Bytes.length_toLE] at hlen
    rw [List.take_left' (by rw [List.length_reverse, Bytes.length_toLE]),
      bodyLenBE_reverse (by rw [Bytes.length_toLE]; exact hfour), Bytes.ofLE_toLE,
      Nat.mod_eq_of_lt hfits, package_len_eq hs hn (by omega)]
  | ENCODE_BY_LITTEL_ENDIAN =>
    rw [hc] at hlen hfits
    obtain ⟨hfour, hfits⟩ := hfits
    dsimp only at hlen ⊢
    rw [Bytes.length_toLE] at hlen
    rw [List.take_left' (Bytes.length_toLE _ _),
      bodyLenLE_eq (by rw [Bytes.length_toLE]; exact hfour), Bytes.ofLE_toLE,
      Nat.mod_eq_of_lt hfits, package_len_eq hs hn (by omega)]
  | ENCODE_BY_VARINT =>
    rw [hc] at hlen hfits
    rw [if_pos rfl] at hfits
    dsimp only at hlen ⊢
    have hdec : varint_decode (varint_encode body_len ++ t) =
        (body_len, ((varint_encode body_len).length : ℤ)) := by
      have hdec := @varintLoop_encode 10 0 0 _ t (by decide)
        (by decide) (hfits.trans (by decide)) (by omega)
      rw [Nat.mul_zero, pow_zero, Nat.mul_one, Nat.zero_add, Nat.zero_add] at hdec
      exact hdec
    have hpos : 0 < (varint_encode body_len).length := by
      rw [varint_encode]
      split <;> exact Nat.succ_pos _
    have hten := @length_varint_encode 10 _ (by decide) (hfits.trans (by decide))
    obtain ⟨k, hk⟩ : ∃ k : ℕ, (k : ℤ) = setting.body_offset + (varint_encode body_len).length -
        setting.length_field_bytes :=
      ⟨setting.body_offset + (varint_encode body_len).length - setting.length_field_bytes,
        by omega⟩
    rw [← hk] at hlen
    rw [hdec]
    dsimp only
    rw [if_neg (by omega), if_neg (by omega), ← hk, Word.ofInt_natCast (by omega),
      Nat.mod_eq_of_lt hfits, package_len_eq hs hn hlen]

/-- What a sender packs is a package, whatever it sends next. -/
lemma whole_packed (hs : Sound setting) {p : List UInt8} (hp : Packed setting p) :
    Whole (head setting) p := by
  intro t
  unfold Packed at hp
  unfold head
  cases hm : setting.mode with
  | UNPACK_MODE_NONE =>
    rw [hm] at hp
    exact hp.elim
  | UNPACK_BY_FIXED_LENGTH =>
    rw [hm] at hp
    dsimp only at hp ⊢
    rw [fixedHead_of_le (by rw [List.length_append]; omega), hp]
  | UNPACK_BY_DELIMITER =>
    rw [hm] at hp
    dsimp only at hp ⊢
    obtain ⟨hlimit, text, rfl, hnot⟩ := hp
    have hdel := hs.delimiter hm
    have hd : setting.delimiter.take setting.delimiter_bytes ≠ [] :=
      List.length_pos_iff.mp (by rw [List.length_take]; omega)
    exact whole_delimited hd hlimit hnot t
  | UNPACK_BY_LENGTH_FIELD =>
    rw [hm] at hp
    dsimp only at hp ⊢
    obtain ⟨hbody, hlimit, front, body_len, rest, rfl, hfront, hfits, hlen⟩ := hp
    obtain ⟨hbytes, hoff, -⟩ := hs.offset hm
    have hfield : field setting ((front ++ fieldOf setting body_len ++ rest ++ t).drop
        setting.length_field_offset) =
        .value (front ++ fieldOf setting body_len ++ rest).length := by
      rw [← hfront, List.append_assoc, List.append_assoc, List.drop_left]
      exact field_fieldOf hs hm hfits hlimit hlen (rest ++ t)
    have hle : (front ++ fieldOf setting body_len ++ rest).length ≤
        (front ++ fieldOf setting body_len ++ rest ++ t).length :=
      (List.sublist_append_left _ _).length_le
    unfold lengthHead
    rw [if_neg (by omega), hfield]
    dsimp only
    rw [if_neg (by omega), if_neg (by omega), if_pos hle]

/-- Of what has arrived of a stream of messages, those that are whole are handed over. -/
lemma received_messages (hs : Sound setting) {io : hio_t} (h : Outcome setting [] (.ok io))
    {messages : List (List UInt8)} (hpacked : ∀ p ∈ messages, Packed setting p)
    {pieces : List (List UInt8)} (hpieces : pieces.flatten <+: messages.flatten)
    (hfits : Fits io pieces) :
    ∃ io', run io pieces = .ok io' ∧ io'.packages <+: messages ∧ io'.closed = false ∧
      (pieces.flatten = messages.flatten → io'.packages = messages ∧ io'.contents = []) := by
  have hst := stable_head hs
  have hnil := head_nil hs
  have hcut : Frames (head setting) messages.flatten messages [] := by
    have hfr := frames_flatten (r := []) (fun p hp => whole_packed hs (hpacked p hp))
      (fun n hn => by cases hnil.symm.trans hn)
    rwa [List.append_nil] at hfr
  have hout := outcome_run hs h hfits
  rw [List.nil_append] at hout
  obtain ⟨t, ht⟩ := hpieces
  have hcut' := hcut
  rw [← ht] at hcut'
  cases hrun : run io pieces with
  | error e =>
    rw [hrun] at hout
    cases e with
    | endless =>
      obtain ⟨ps, r, hps, hstop⟩ := hout
      cases hnil.symm.trans (hps.stop_of_append hst hstop hcut')
    | assertion => exact hout.elim
    | kernel => exact hout.elim
  | ok io' =>
    rw [hrun] at hout
    obtain ⟨r, hps, ⟨-, hstop⟩ | ⟨hr, -, -, hcon⟩⟩ := hout
    · cases hnil.symm.trans (hps.stop_of_append hst hstop hcut')
    · refine ⟨io', rfl, hps.of_append hst hcut', hr.closed, fun hall => ?_⟩
      rw [hall] at hps
      obtain ⟨hall, hrest⟩ := hps.unique hcut
      exact ⟨hall, hcon.trans hrest⟩

end MmrService.Unpack
