import MmrService.Base64RoundTrip

/-!
Which inputs the two functions that allocate for base64 can take.

The encoder looks at the last byte of its input without asking whether there is one, and the
size of its buffer wraps around. The buffer of the decoder has room for whole groups and one
byte more: a second character behind the last whole group begins a byte behind that. The
result for a character that is none of base64 is taken for a length.
-/

namespace MmrService.Base64

/-! ### The encoder -/

lemma base64Encode_nil (outBuf : List UInt8) : base64Encode [] 0 outBuf = none := rfl

/-- The text fits into what is allocated for it, unless the size has wrapped around. -/
lemma length_encoded_le_iff {x : List UInt8} (hx : x ≠ []) (hlt : x.length < 2 ^ 32) :
    (encoded x).length ≤ Word.add 32 (BASE64_ENCODE_OUT_SIZE x.length) 1 ↔
      x.length ≤ 3 * 2 ^ 30 - 3 := by
  have hpos := List.length_pos_iff.mpr hx
  rw [length_encoded, BASE64_ENCODE_OUT_SIZE]
  by_cases hwrap : x.length + 2 < 2 ^ 32
  · rw [Word.add_of_lt hwrap]
    have hsize : (x.length + 2) / 3 * 4 % 2 ^ 32 + 1 < 2 ^ 32 := by omega
    rw [Word.add_of_lt hsize]
    omega
  · have hsize : Word.add 32 x.length 2 / 3 * 4 % 2 ^ 32 = 0 := by
      rw [Word.add, show (x.length + 2) % 2 ^ 32 = x.length + 2 - 2 ^ 32 by omega]
      omega
    rw [hsize, Word.add_of_lt (by omega)]
    omega

/-- **The encoder** stays in its input and in its buffer exactly for these lengths. -/
lemma inBase64Encode_isSome_iff {x : List UInt8} (hlt : x.length < 2 ^ 32) :
    (inBase64Encode x).isSome ↔ x ≠ [] ∧ x.length ≤ 3 * 2 ^ 30 - 3 := by
  by_cases hx : x = []
  · subst hx
    simp [inBase64Encode, base64Encode_nil]
  · rw [and_iff_right hx, ← length_encoded_le_iff hx hlt]
    have hbuf : Word.add 32 (BASE64_ENCODE_OUT_SIZE x.length) 1 < 2 ^ 32 := Nat.mod_lt _ (by omega)
    have hputs : (inBase64Encode x).isSome = (Out.puts (.written [] (List.replicate
        (Word.add 32 (BASE64_ENCODE_OUT_SIZE x.length) 1) 0)) (encoded x)).isSome := by
      simp only [inBase64Encode]
      rw [base64Encode_eq hx hlt, Option.map_eq_bind, Option.bind_eq_bind, Option.bind_assoc]
      change Option.isSome (Option.bind (Out.puts (.written [] _) _) _) = _
      cases Out.puts (.written [] (List.replicate
        (Word.add 32 (BASE64_ENCODE_OUT_SIZE x.length) 1) 0)) (encoded x) <;> rfl
    rw [hputs]
    by_cases hle : (encoded x).length ≤ Word.add 32 (BASE64_ENCODE_OUT_SIZE x.length) 1
    · rw [Out.puts_written (by rwa [List.length_replicate]) (by simpa using hle.trans_lt hbuf)]
      exact iff_of_true rfl hle
    · rw [Out.puts_full (by rw [List.length_replicate]; omega)
        (by simpa [Out.written] using hbuf)]
      exact iff_of_false Bool.false_ne_true hle

/-! ### The decoder -/

/-- The characters before the first padding. -/
def body (text : List UInt8) : List UInt8 := text.takeWhile (· ≠ BASE64_PAD)

/-- A text that the decoder can take: the characters before the padding are of base64, at most
one of them is behind the last whole group, and the size is an `int`. -/
def Decodable (text : List UInt8) : Prop :=
  (∀ ch ∈ body text, (digitOf ch).isSome) ∧
    (body text).length < text.length / 4 * 4 + 2 ∧ text.length / 4 * 3 < 2 ^ 31

section

variable {inp : List UInt8} {o : Out} {i c : ℕ}

/-- The index and the buffer at the character `i`. -/
def At (inp : List UInt8) (i : ℕ) (o : Out) : Prop :=
  o.j = i * 3 / 4 ∧ o.outBuf.length = inp.length / 4 * 3 + 1

lemma set_isSome {k : ℕ} (hk : k < o.outBuf.length) (ch : UInt8) :
    ∃ o', o.set k ch = some o' ∧ o'.j = o.j ∧ o'.outBuf.length = o.outBuf.length :=
  ⟨_, if_pos hk, rfl, List.length_set⟩

lemma addPut_isSome (hk : o.j < o.outBuf.length) (hlt : o.j + 1 < 2 ^ 32) (ch : UInt8) :
    ∃ o', o.addPut ch = some o' ∧ o'.j = o.j + 1 ∧ o'.outBuf.length = o.outBuf.length := by
  obtain ⟨o', h, hj, hlen⟩ := set_isSome hk (o.outBuf[o.j] + ch)
  refine ⟨{ o' with j := Word.add 32 o'.j 1 }, ?_, ?_, hlen⟩
  · rw [Out.addPut, List.getElem?_eq_getElem hk]
    change Option.map _ (o.set o.j (o.outBuf[o.j] + ch)) = _
    rw [h]
    rfl
  · rw [hj]
    exact Word.add_of_lt hlt

/-- The look ahead stays in the input. -/
lemma goesOn_isSome {k : ℕ} (hk : 0 < k) (hlt : inp.length < 2 ^ 32) (hlen : k ≤ inp.length) :
    ∃ more, goesOn inp inp.length i k = some more := by
  rw [goesOn]
  split
  · exact ⟨_, rfl⟩
  · rw [Word.sub_of_le hlen hlt, List.getElem?_eq_getElem (by omega)]
    exact ⟨_, rfl⟩

/-- **One step** in a whole group, or at the first character behind the last one. -/
lemma decodeDigit_at (hlt : inp.length < 2 ^ 32) (h : At inp i o)
    (hi : i ≤ inp.length / 4 * 4) : ∃ o', decodeDigit inp inp.length i c o = some o' ∧
      At inp (i + 1) o' := by
  obtain ⟨hj, hlen⟩ := h
  have hmod : i % 4 = 0 ∨ i % 4 = 1 ∨ i % 4 = 2 ∨ i % 4 = 3 := by omega
  rcases hmod with h | h | h | h
  · obtain ⟨o', hset, hj', hlen'⟩ := set_isSome (o := o) (k := o.j) (by omega)
      (UInt8.ofNat (c <<< 2 &&& 0xFF))
    exact ⟨o', by rw [decodeDigit_zero h, hset], by omega, by omega⟩
  · obtain ⟨o₁, hput, hj₁, hlen₁⟩ := addPut_isSome (o := o) (by omega) (by omega)
      (UInt8.ofNat (c >>> 4 &&& 0x3))
    obtain ⟨o₂, hset, hj₂, hlen₂⟩ := set_isSome (o := o₁) (k := o₁.j) (by omega)
      (UInt8.ofNat ((c &&& 0xF) <<< 4))
    obtain ⟨more, hmore⟩ := goesOn_isSome (i := i) (k := 2) (by omega) hlt (by omega)
    rw [decodeDigit_one h, hput, Option.bind_some, hmore, Option.bind_some]
    cases more
    · exact ⟨o₁, rfl, by omega, by omega⟩
    · exact ⟨o₂, hset, by omega, by omega⟩
  · obtain ⟨o₁, hput, hj₁, hlen₁⟩ := addPut_isSome (o := o) (by omega) (by omega)
      (UInt8.ofNat (c >>> 2 &&& 0xF))
    obtain ⟨o₂, hset, hj₂, hlen₂⟩ := set_isSome (o := o₁) (k := o₁.j) (by omega)
      (UInt8.ofNat ((c &&& 0x3) <<< 6))
    obtain ⟨more, hmore⟩ := goesOn_isSome (i := i) (k := 1) (by omega) hlt (by omega)
    rw [decodeDigit_two h, hput, Option.bind_some, hmore, Option.bind_some]
    cases more
    · exact ⟨o₁, rfl, by omega, by omega⟩
    · exact ⟨o₂, hset, by omega, by omega⟩
  · obtain ⟨o', hput, hj', hlen'⟩ := addPut_isSome (o := o) (by omega) (by omega) (UInt8.ofNat c)
    exact ⟨o', by rw [decodeDigit_three h, hput], by omega, by omega⟩

/-- The second character behind the last whole group begins a byte behind the buffer. -/
lemma decodeDigit_outside (hlt : inp.length < 2 ^ 32) (h : At inp i o)
    (hi : i = inp.length / 4 * 4 + 1) (hlen : i < inp.length)
    (hpad : ∀ k ≤ i, inp[k]? ≠ some BASE64_PAD) : decodeDigit inp inp.length i c o = none := by
  obtain ⟨hj, hout⟩ := h
  obtain ⟨o₁, hput, hj₁, hlen₁⟩ := addPut_isSome (o := o) (by omega) (by omega)
    (UInt8.ofNat (c >>> 4 &&& 0x3))
  have hmore : goesOn inp inp.length i 2 = some true := by
    rw [goesOn]
    by_cases htwo : inp.length = 2
    · rw [if_pos]
      rw [htwo]
      exact (show i < 2 by omega).trans (by decide)
    · rw [Word.sub_of_le (by omega) hlt, Word.sub_of_le (by omega) hlt, if_neg (by omega)]
      -- the character looked at is this one or the one before it
      have hne := hpad (inp.length - 2) (by omega)
      rw [List.getElem?_eq_getElem (by omega)] at hne ⊢
      exact congrArg some (decide_eq_true fun heq => hne (congrArg some heq))
  rw [decodeDigit_one (by omega), hput, Option.bind_some, hmore, Option.bind_some, if_pos rfl]
  exact if_neg (by omega)

lemma body_cons {ch : UInt8} (h : ch ≠ BASE64_PAD) (text : List UInt8) :
    body (ch :: text) = ch :: body text :=
  List.takeWhile_cons_of_pos (by simpa using h)

lemma body_pad (text : List UInt8) : body (BASE64_PAD :: text) = [] :=
  List.takeWhile_cons_of_neg (by simp)

/-- The rest of the text is read to its end. -/
lemma decodeLoop_returns (hlt : inp.length < 2 ^ 32) (n : ℕ) : ∀ (i : ℕ) (o : Out), At inp i o →
    i + n = inp.length → (∀ ch ∈ body (inp.drop i), (digitOf ch).isSome) →
    i + (body (inp.drop i)).length < inp.length / 4 * 4 + 2 →
    ∃ out j, decodeLoop inp inp.length n i o = some (out, j) ∧ j ≤ inp.length / 4 * 3 := by
  induction n with
  | zero =>
    intro i o h hn hbody hlen
    exact ⟨_, _, rfl, by rw [h.1]; omega⟩
  | succ n ih =>
    intro i o h hn hbody hlen
    have hi : i < inp.length := by omega
    have hch : inp[i]? = some inp[i] := List.getElem?_eq_getElem hi
    rw [List.drop_eq_getElem_cons hi] at hbody hlen
    by_cases hpad : inp[i] = BASE64_PAD
    · rw [hpad] at hch
      exact ⟨_, _, decodeLoop_pad hch, by rw [h.1]; omega⟩
    · rw [body_cons hpad] at hbody hlen
      rw [List.length_cons] at hlen
      obtain ⟨c, hc⟩ := Option.isSome_iff_exists.mp (hbody _ List.mem_cons_self)
      obtain ⟨o', hstep, h'⟩ := decodeDigit_at (c := c) hlt h (by omega)
      rw [decodeLoop_digit hch hpad hc, hstep, Option.bind_some]
      exact ih (i + 1) o' h' (by omega) (fun ch hch => hbody ch (List.mem_cons_of_mem _ hch))
        (by omega)

/-- Otherwise something is written outside, or a character is none of base64. -/
lemma decodeLoop_fails (hlt : inp.length < 2 ^ 32) (n : ℕ) : ∀ (i : ℕ) (o : Out), At inp i o →
    i + n = inp.length → i < inp.length / 4 * 4 + 2 →
    (∀ k < i, inp[k]? ≠ some BASE64_PAD) →
    ¬((∀ ch ∈ body (inp.drop i), (digitOf ch).isSome) ∧
      i + (body (inp.drop i)).length < inp.length / 4 * 4 + 2) →
    decodeLoop inp inp.length n i o = none ∨
      ∃ out, decodeLoop inp inp.length n i o = some (out, 2 ^ 32 - 1) := by
  induction n with
  | zero =>
    intro i o h hn hi hpads hfail
    refine absurd ⟨?_, ?_⟩ hfail
    all_goals rw [List.drop_of_length_le (by omega)]
    · simp [body]
    · simpa [body] using hi
  | succ n ih =>
    intro i o h hn hi hpads hfail
    have hi' : i < inp.length := by omega
    have hch : inp[i]? = some inp[i] := List.getElem?_eq_getElem hi'
    rw [List.drop_eq_getElem_cons hi'] at hfail
    by_cases hpad : inp[i] = BASE64_PAD
    · refine absurd ⟨?_, ?_⟩ hfail
      all_goals rw [hpad, body_pad]
      · simp
      · simpa using hi
    · have hpads' : ∀ k ≤ i, inp[k]? ≠ some BASE64_PAD := by
        intro k hk
        rcases hk.lt_or_eq with hk | rfl
        · exact hpads k hk
        · rw [hch]
          exact fun heq => hpad (Option.some.inj heq)
      rw [body_cons hpad] at hfail
      cases hc : digitOf inp[i] with
      | none =>
        refine .inr ⟨o.outBuf, ?_⟩
        rw [decodeLoop, hch, Option.bind_eq_bind, Option.bind_some, if_neg hpad, hc]
        rfl
      | some c =>
        rw [decodeLoop_digit hch hpad hc]
        by_cases hwhole : i ≤ inp.length / 4 * 4
        · obtain ⟨o', hstep, h'⟩ := decodeDigit_at (c := c) hlt h hwhole
          rw [hstep, Option.bind_some]
          refine ih (i + 1) o' h' (by omega) (by omega)
            (fun k hk => hpads' k (Nat.lt_succ_iff.mp hk)) fun hrest => hfail ⟨?_, ?_⟩
          · rintro ch (_ | ⟨_, hmem⟩)
            · rw [hc]
              rfl
            · exact hrest.1 ch hmem
          · rw [List.length_cons]
            omega
        · left
          rw [decodeDigit_outside hlt h (by omega) hi' hpads', Option.bind_none]

end

/-- **The decoder** returns a string exactly for these texts. -/
lemma inBase64Decode_returned_iff {text str : List UInt8} {len : ℕ} (hlt : text.length < 2 ^ 32)
    (hlen : lenOf str len = some text.length) (hstr : str.take text.length = text) :
    (∃ decoded, inBase64Decode str len = some (.returned decoded)) ↔ Decodable text := by
  rw [inBase64Decode, hlen, Option.bind_eq_bind, Option.bind_some, hstr, BASE64_DECODE_OUT_SIZE]
  by_cases hsize : text.length / 4 * 3 < 2 ^ 31
  · rw [Word.toInt_natCast (by omega), ← Nat.cast_succ, sized_natCast]
    change (∃ decoded, (base64Decode _ _ _).bind _ = _) ↔ _
    have hat : At text 0 ⟨List.replicate (text.length / 4 * 3 + 1) 0, 0⟩ :=
      ⟨rfl, List.length_replicate⟩
    by_cases hdec : (∀ ch ∈ body text, (digitOf ch).isSome) ∧
        (body text).length < text.length / 4 * 4 + 2
    · obtain ⟨out, j, hloop, hj⟩ := decodeLoop_returns hlt text.length 0 _ hat (Nat.zero_add _)
        hdec.1 (by simpa using hdec.2)
      rw [base64Decode, hloop, Option.bind_some]
      refine iff_of_true ⟨resize out j, ?_⟩ ⟨hdec.1, hdec.2, hsize⟩
      change some (resized out (Word.toInt 32 j)) = _
      rw [Word.toInt_natCast (by omega), resized_natCast]
    · have hfail := decodeLoop_fails hlt text.length 0 _ hat (Nat.zero_add _) (by omega)
        (by simp) (by simpa using hdec)
      refine iff_of_false ?_ fun h => hdec ⟨h.1, h.2.1⟩
      rintro ⟨decoded, h⟩
      rw [base64Decode] at h
      rcases hfail with hloop | ⟨out, hloop⟩
      · rw [hloop] at h
        cases h
      · rw [hloop] at h
        cases h
  · rw [Word.toInt_of_ge (by omega) (by omega), sized, if_pos (by push_cast; omega)]
    exact iff_of_false (by rintro ⟨decoded, ⟨⟩⟩) fun h => hsize h.2.2

/-- **Base64 in bounds**: encoding stays in its input and its buffer exactly for the lengths
from 1 to `3 * 2 ^ 30 - 3`, decoding does so and returns exactly for the decodable texts,
whether their length is given or found by the zero behind them, modulo `2 ^ 32`. -/
theorem base64_in_bounds_iff (x text rest : List UInt8) :
    (x.length < 2 ^ 32 → ((inBase64Encode x).isSome ↔ x ≠ [] ∧ x.length ≤ 3 * 2 ^ 30 - 3)) ∧
    (text.length < 2 ^ 32 → text ≠ [] →
      ((∃ decoded, inBase64Decode text text.length = some (.returned decoded)) ↔
        Decodable text)) ∧
    ((∀ ch ∈ text, ch ≠ 0) →
      ((∃ decoded, inBase64Decode (text ++ 0 :: rest) 0 = some (.returned decoded)) ↔
        Decodable (text.take (text.length % 2 ^ 32)))) := by
  refine ⟨inBase64Encode_isSome_iff, fun hlt hne => ?_, fun hz => ?_⟩
  · refine inBase64Decode_returned_iff hlt (if_neg ?_) (List.take_length ..)
    exact (List.length_pos_iff.mpr hne).ne'
  · have hle : text.length % 2 ^ 32 ≤ text.length := Nat.mod_le ..
    have hlen : (text.take (text.length % 2 ^ 32)).length = text.length % 2 ^ 32 :=
      List.length_take_of_le hle
    refine inBase64Decode_returned_iff ?_ ?_ ?_
    · rw [hlen]
      exact Nat.mod_lt _ (by omega)
    · rw [lenOf, if_pos rfl, strlen_append rest hz, hlen, Option.map_some]
    · rw [hlen, List.take_append_of_le_length hle]

/-- One byte, and its text. -/
theorem base64_in_bounds_byte : (inBase64Encode [77]).isSome ∧
    ∃ decoded, inBase64Decode [84, 81, 61, 61] 4 = some (.returned decoded) := by
  obtain ⟨hencode, hdecode, -⟩ := base64_in_bounds_iff [77] [84, 81, 61, 61] []
  refine ⟨(hencode (by decide)).2 ⟨by decide, by decide⟩,
    (hdecode (by decide) (by decide)).2 ⟨fun ch hch => ?_, by decide, by decide⟩⟩
  have hbody : body [84, 81, 61, 61] = [84, 81] := by decide
  rw [hbody, List.mem_pair] at hch
  rcases hch with rfl | rfl <;> decide

/-- The empty input is read, `QQ` is decoded to more than its buffer holds, and `*` throws. -/
theorem base64_out_of_bounds : inBase64Encode [] = none ∧ inBase64Decode [81, 81] 2 = none ∧
    inBase64Decode [42] 1 = some .threw := by
  decide

end MmrService.Base64
