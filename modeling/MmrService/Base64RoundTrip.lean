import MmrService.Base64
import MmrService.Lib.Bytes

/-!
The encoder writes the base64 text of its input, and the decoder reads it back.

The encoder goes from one end of the buffer to the other. The decoder assembles each byte in
two parts, the second of which it adds to the first; before the padding it leaves the byte
that it would begin alone.
-/

namespace MmrService.Base64

open Sextets

/-! ### Masks and tables -/

lemma and_3 (n : ℕ) : n &&& 0x3 = n % 4 := Nat.and_two_pow_sub_one_eq_mod n 2
lemma and_F (n : ℕ) : n &&& 0xF = n % 16 := Nat.and_two_pow_sub_one_eq_mod n 4
lemma and_3F (n : ℕ) : n &&& 0x3F = n % 64 := Nat.and_two_pow_sub_one_eq_mod n 6
lemma and_FF (n : ℕ) : n &&& 0xFF = n % 256 := Nat.and_two_pow_sub_one_eq_mod n 8

/-- The tables belong together. -/
lemma digitOf_charOf : ∀ n < 64, digitOf (charOf n) = some n ∧ charOf n ≠ BASE64_PAD := by
  decide

/-! ### Writing one character behind the other -/

namespace Out

/-- A buffer with `done` written. -/
def written (done tail : List UInt8) : Out := ⟨done ++ tail, done.length⟩

def puts (o : Out) (cs : List UInt8) : Option Out := cs.foldlM put o

lemma puts_cons (o : Out) (c : UInt8) (cs : List UInt8) :
    o.puts (c :: cs) = (o.put c).bind fun o => o.puts cs := rfl

lemma puts_append (o : Out) (cs cs' : List UInt8) :
    o.puts (cs ++ cs') = (o.puts cs).bind fun o => o.puts cs' := by
  simp only [puts, List.foldlM_append]
  rfl

variable {done tail : List UInt8}

lemma set_written (c t : UInt8) (tail : List UInt8) : (written done (t :: tail)).set
    (written done (t :: tail)).j c = some (written done (c :: tail)) := by
  rw [set, written, if_pos (by simp)]
  simp [written]

lemma put_written (c t : UInt8) (hlt : done.length + 1 < 2 ^ 32) :
    (written done (t :: tail)).put c = some (written (done ++ [c]) tail) := by
  have hset : (written done (t :: tail)).set (written done (t :: tail)).j c
      = some (written done (c :: tail)) := set_written c t tail
  rw [put, hset, Option.map_some]
  have hj : Word.add 32 (written done (c :: tail)).j 1 = (done ++ [c]).length := by
    rw [List.length_append, List.length_singleton]
    exact Word.add_of_lt hlt
  rw [hj]
  simp [written]

lemma put_full (c : UInt8) : (written done []).put c = none := by
  simp [put, set, written]

lemma addPut_written (c t : UInt8) (hlt : done.length + 1 < 2 ^ 32) :
    (written done (t :: tail)).addPut c = some (written (done ++ [t + c]) tail) := by
  have hold : (written done (t :: tail)).outBuf[(written done (t :: tail)).j]? = some t := by
    simp [written]
  rw [addPut, hold]
  exact put_written (t + c) t hlt

lemma puts_written {cs : List UInt8} (h : cs.length ≤ tail.length)
    (hlt : (done ++ cs).length < 2 ^ 32) :
    (written done tail).puts cs = some (written (done ++ cs) (tail.drop cs.length)) := by
  induction cs generalizing done tail with
  | nil => simp [puts]
  | cons c cs ih =>
    cases tail with
    | nil => simp at h
    | cons t tail =>
      simp only [List.length_append, List.length_cons] at h hlt
      rw [puts_cons, put_written c t (by omega), Option.bind_some,
        ih (by omega) (by simp only [List.length_append, List.length_singleton]; omega)]
      simp

/-- What does not fit into the buffer is written behind it. -/
lemma puts_full {cs : List UInt8} (h : tail.length < cs.length)
    (hlt : (written done tail).outBuf.length < 2 ^ 32) : (written done tail).puts cs = none := by
  induction cs generalizing done tail with
  | nil => simp at h
  | cons c cs ih =>
    cases tail with
    | nil => rw [puts_cons, put_full, Option.bind_none]
    | cons t tail =>
      simp only [written, List.length_append, List.length_cons] at h hlt
      rw [puts_cons, put_written c t (by omega), Option.bind_some,
        ih (by omega) (by simp only [written, List.length_append, List.length_singleton]; omega)]

end Out

/-! ### The encoder -/

/-- The base64 text of some bytes. -/
def encoded (x : List UInt8) : List UInt8 := encode charOf BASE64_PAD x

lemma length_encoded (x : List UInt8) : (encoded x).length = (x.length + 2) / 3 * 4 :=
  length_encode ..

lemma encoded_cons (a b c : UInt8) (x : List UInt8) : encoded (a :: b :: c :: x) =
    charOf (a.toNat / 4) :: charOf (a.toNat % 4 * 16 + b.toNat / 16) ::
      charOf (b.toNat % 16 * 4 + c.toNat / 64) :: charOf (c.toNat % 64) :: encoded x := by
  have hpad : padding (a :: b :: c :: x).length = padding x.length := by
    simp only [padding, List.length_cons]
    omega
  rw [encoded, encode, hpad]
  rfl

section

variable {pre : List UInt8} {a b c : UInt8} {x : List UInt8} {o : Out}

lemma encodeStep_first (hpre : pre.length % 3 = 0) :
    encodeStep (pre ++ a :: x) pre.length o = o.put (charOf (a.toNat / 4)) := by
  have ha := a.toNat_lt
  have hget : (pre ++ a :: x)[pre.length]? = some a := by simp
  rw [encodeStep, hget, Option.bind_eq_bind, Option.bind_some, hpre]
  simp only [and_3F, Nat.shiftRight_eq_div_pow]
  rw [Nat.mod_eq_of_lt (by omega)]

lemma encodeStep_second (hpre : pre.length % 3 = 0) :
    encodeStep (pre ++ a :: b :: x) (pre.length + 1) o =
      o.put (charOf (a.toNat % 4 * 16 + b.toNat / 16)) := by
  have hb := b.toNat_lt
  have hget : (pre ++ a :: b :: x)[pre.length + 1]? = some b := by
    rw [List.getElem?_append_right (by omega)]
    simp
  have hget' : (pre ++ a :: b :: x)[pre.length + 1 - 1]? = some a := by simp
  rw [encodeStep, hget, Option.bind_eq_bind, Option.bind_some,
    show (pre.length + 1) % 3 = 1 by omega, hget']
  simp only [Option.bind_some, and_3, and_F, Nat.shiftRight_eq_div_pow, Nat.shiftLeft_eq]
  rw [Nat.mod_eq_of_lt (show b.toNat / 2 ^ 4 < 16 by omega)]
  rfl

lemma encodeStep_third (hpre : pre.length % 3 = 0) :
    encodeStep (pre ++ a :: b :: c :: x) (pre.length + 2) o =
      o.puts [charOf (b.toNat % 16 * 4 + c.toNat / 64), charOf (c.toNat % 64)] := by
  have hc := c.toNat_lt
  have hget : (pre ++ a :: b :: c :: x)[pre.length + 2]? = some c := by
    rw [List.getElem?_append_right (by omega)]
    simp
  have hget' : (pre ++ a :: b :: c :: x)[pre.length + 2 - 1]? = some b := by
    rw [List.getElem?_append_right (by omega), show pre.length + 2 - 1 - pre.length = 1 by omega]
    rfl
  rw [encodeStep, hget, Option.bind_eq_bind, Option.bind_some,
    show (pre.length + 2) % 3 = 2 by omega, hget']
  simp only [Option.bind_eq_bind, Option.bind_some, and_3, and_F, and_3F,
    Nat.shiftRight_eq_div_pow, Nat.shiftLeft_eq]
  rw [Nat.mod_eq_of_lt (show c.toNat / 2 ^ 6 < 4 by omega), Out.puts_cons]
  congr 1
  funext o'
  rw [Out.puts_cons]
  cases o'.put (charOf (c.toNat % 64)) <;> rfl

end

/-- What is left of the input from `i` on, and the padding. -/
def encodeRest (inp : List UInt8) (n i : ℕ) (o : Out) : Option Out :=
  (encodeLoop inp n i o).bind (encodeTail inp (Word.sub 32 inp.length 1))

lemma encodeRest_one {pre : List UInt8} (a : UInt8) (o : Out) (hpre : pre.length % 3 = 0)
    (hlt : (pre ++ [a]).length < 2 ^ 32) :
    encodeRest (pre ++ [a]) 1 pre.length o = o.puts (encoded [a]) := by
  have hlen : (pre ++ [a]).length = pre.length + 1 := by simp
  rw [hlen] at hlt
  rw [encodeRest, hlen, Word.sub_of_le (by omega) hlt, Nat.add_sub_cancel]
  change ((encodeStep (pre ++ [a]) pre.length o).bind some).bind _ = _
  have hget : (pre ++ [a])[pre.length]? = some a := by simp
  rw [encodeStep_first hpre, Option.bind_fun_some]
  change _ = (o.put (charOf (a.toNat / 4))).bind fun o =>
    o.puts [charOf (a.toNat % 4 * 16), BASE64_PAD, BASE64_PAD]
  congr 1
  funext o'
  rw [encodeTail, if_pos hpre, hget]
  simp only [Option.bind_eq_bind, Option.bind_some, and_3, Nat.shiftLeft_eq, Out.puts_cons]
  congr 1
  funext o'
  congr 1
  funext o'
  cases o'.put BASE64_PAD <;> rfl

lemma encodeRest_two {pre : List UInt8} (a b : UInt8) (o : Out) (hpre : pre.length % 3 = 0)
    (hlt : (pre ++ [a, b]).length < 2 ^ 32) :
    encodeRest (pre ++ [a, b]) 2 pre.length o = o.puts (encoded [a, b]) := by
  have hlen : (pre ++ [a, b]).length = pre.length + 2 := by simp
  rw [hlen] at hlt
  rw [encodeRest, hlen, Word.sub_of_le (by omega) hlt,
    show pre.length + 2 - 1 = pre.length + 1 by omega]
  have hget : (pre ++ [a, b])[pre.length + 1]? = some b := by
    rw [List.getElem?_append_right (by omega)]
    simp
  change ((encodeStep (pre ++ [a, b]) pre.length o).bind fun o =>
    (encodeStep (pre ++ [a, b]) (pre.length + 1) o).bind some).bind _ = _
  rw [encodeStep_first hpre, Option.bind_assoc]
  change _ = (o.put (charOf (a.toNat / 4))).bind fun o =>
    o.puts [charOf (a.toNat % 4 * 16 + b.toNat / 16), charOf (b.toNat % 16 * 4), BASE64_PAD]
  congr 1
  funext o'
  rw [encodeStep_second hpre, Option.bind_fun_some, Out.puts_cons]
  congr 1
  funext o'
  rw [encodeTail, if_neg (by omega), if_pos (by omega), hget]
  simp only [Option.bind_eq_bind, Option.bind_some, and_F, Nat.shiftLeft_eq, Out.puts_cons]
  congr 1
  funext o'
  cases o'.put BASE64_PAD <;> rfl

/-- Three bytes are four characters. -/
lemma encodeLoop_three {pre : List UInt8} (a b c : UInt8) (x : List UInt8) (o : Out)
    (hpre : pre.length % 3 = 0) :
    encodeLoop (pre ++ a :: b :: c :: x) (x.length + 3) pre.length o =
      (o.puts [charOf (a.toNat / 4), charOf (a.toNat % 4 * 16 + b.toNat / 16),
        charOf (b.toNat % 16 * 4 + c.toNat / 64), charOf (c.toNat % 64)]).bind
        (encodeLoop (pre ++ a :: b :: c :: x) x.length (pre.length + 3)) := by
  change ((encodeStep _ pre.length o).bind fun o => (encodeStep _ (pre.length + 1) o).bind
    fun o => (encodeStep _ (pre.length + 2) o).bind _) = _
  rw [encodeStep_first hpre, Out.puts_cons, Option.bind_assoc]
  congr 1
  funext o'
  rw [encodeStep_second hpre, Out.puts_cons, Option.bind_assoc]
  congr 1
  funext o'
  rw [encodeStep_third hpre]

/-- From a multiple of three on. -/
lemma encodeRest_eq (x : List UInt8) : ∀ (pre : List UInt8) (o : Out), pre.length % 3 = 0 →
    0 < (pre ++ x).length → (pre ++ x).length < 2 ^ 32 →
    encodeRest (pre ++ x) x.length pre.length o = o.puts (encoded x) := by
  induction x using digits.induct with
  | case1 =>
    intro pre o hpre hpos hlt
    rw [List.append_nil] at hpos hlt
    rw [encodeRest, List.append_nil, Word.sub_of_le hpos hlt]
    change encodeTail pre (pre.length - 1) o = some o
    rw [encodeTail, if_neg (by omega), if_neg (by omega)]
  | case2 a => exact fun pre o hpre _ hlt => encodeRest_one a o hpre hlt
  | case3 a b => exact fun pre o hpre _ hlt => encodeRest_two a b o hpre hlt
  | case4 a b c x ih =>
    intro pre o hpre hpos hlt
    have hsplit : pre ++ a :: b :: c :: x = (pre ++ [a, b, c]) ++ x := by simp
    have hlen : (pre ++ [a, b, c]).length = pre.length + 3 := by simp
    rw [encodeRest, List.length_cons, List.length_cons, List.length_cons,
      encodeLoop_three a b c x o hpre, encoded_cons]
    change _ = o.puts ([_, _, _, _] ++ encoded x)
    rw [Out.puts_append, Option.bind_assoc]
    congr 1
    funext o'
    have hrest := ih (pre ++ [a, b, c]) o' (by omega) (by rw [← hsplit]; exact hpos)
      (by rw [← hsplit]; exact hlt)
    rw [← hsplit, hlen] at hrest
    exact hrest

/-- **The encoder** writes the text of its input from the beginning of the buffer on. -/
lemma base64Encode_eq {x : List UInt8} (hx : x ≠ []) (hlt : x.length < 2 ^ 32)
    (outBuf : List UInt8) : base64Encode x x.length outBuf =
      (Out.puts ⟨outBuf, 0⟩ (encoded x)).map fun o => (o.outBuf, o.j) := by
  have h := encodeRest_eq x [] ⟨outBuf, 0⟩ rfl (List.length_pos_iff.mpr hx) hlt
  rw [← h, base64Encode, encodeRest]
  simp only [Option.bind_eq_bind, Option.map_bind, List.nil_append, List.length_nil]
  refine congrArg _ (funext fun o => ?_)
  rw [Function.comp_apply, Option.map_eq_bind]
  rfl

/-! ### The decoder -/

section

variable {inp done tail : List UInt8} {inlen i c n : ℕ} {o : Out}

lemma decodeLoop_digit {ch : UInt8} (hch : inp[i]? = some ch) (hpad : ch ≠ BASE64_PAD)
    (hd : digitOf ch = some c) : decodeLoop inp inlen (n + 1) i o =
      (decodeDigit inp inlen i c o).bind (decodeLoop inp inlen n (i + 1)) := by
  rw [decodeLoop, hch, Option.bind_eq_bind, Option.bind_some, if_neg hpad, hd]
  rfl

lemma decodeLoop_pad (hch : inp[i]? = some BASE64_PAD) :
    decodeLoop inp inlen (n + 1) i o = some (o.outBuf, o.j) := by
  rw [decodeLoop, hch, Option.bind_eq_bind, Option.bind_some, if_pos rfl]
  rfl

lemma decodeDigit_zero (hi : i % 4 = 0) : decodeDigit inp inlen i c o =
    o.set o.j (UInt8.ofNat (c <<< 2 &&& 0xFF)) := by
  rw [decodeDigit, hi]
  rfl

lemma decodeDigit_one (hi : i % 4 = 1) : decodeDigit inp inlen i c o =
    (o.addPut (UInt8.ofNat (c >>> 4 &&& 0x3))).bind fun o => (goesOn inp inlen i 2).bind
      fun more => if more then o.set o.j (UInt8.ofNat ((c &&& 0xF) <<< 4)) else some o := by
  rw [decodeDigit, hi]
  rfl

lemma decodeDigit_two (hi : i % 4 = 2) : decodeDigit inp inlen i c o =
    (o.addPut (UInt8.ofNat (c >>> 2 &&& 0xF))).bind fun o => (goesOn inp inlen i 1).bind
      fun more => if more then o.set o.j (UInt8.ofNat ((c &&& 0x3) <<< 6)) else some o := by
  rw [decodeDigit, hi]
  rfl

lemma decodeDigit_three (hi : i % 4 = 3) :
    decodeDigit inp inlen i c o = o.addPut (UInt8.ofNat c) := by
  rw [decodeDigit, hi]
  rfl

lemma decodeDigit_first (hi : i % 4 = 0) (hc : c < 64) (t : UInt8) :
    decodeDigit inp inlen i c (.written done (t :: tail)) =
      some (.written done (UInt8.ofNat (c * 4) :: tail)) := by
  rw [decodeDigit_zero hi, and_FF, Nat.shiftLeft_eq]
  rw [Nat.mod_eq_of_lt (show c * 2 ^ 2 < 256 by omega)]
  exact Out.set_written _ t tail

lemma decodeDigit_second (hi : i % 4 = 1) (hc : c < 64) (hlt : done.length + 1 < 2 ^ 32) (t : UInt8)
    {more : Bool} (hmore : goesOn inp inlen i 2 = some more) :
    decodeDigit inp inlen i c (.written done (t :: tail)) =
      let o := Out.written (done ++ [t + UInt8.ofNat (c / 16)]) tail
      if more then o.set o.j (UInt8.ofNat (c % 16 * 16)) else some o := by
  rw [decodeDigit_one hi, hmore, and_3, and_F, Nat.shiftRight_eq_div_pow]
  simp only [Nat.shiftLeft_eq]
  rw [Nat.mod_eq_of_lt (show c / 2 ^ 4 < 4 by omega), Out.addPut_written _ t hlt]
  rfl

lemma decodeDigit_third (hi : i % 4 = 2) (hc : c < 64) (hlt : done.length + 1 < 2 ^ 32) (t : UInt8)
    {more : Bool} (hmore : goesOn inp inlen i 1 = some more) :
    decodeDigit inp inlen i c (.written done (t :: tail)) =
      let o := Out.written (done ++ [t + UInt8.ofNat (c / 4)]) tail
      if more then o.set o.j (UInt8.ofNat (c % 4 * 64)) else some o := by
  rw [decodeDigit_two hi, hmore, and_3, and_F, Nat.shiftRight_eq_div_pow]
  simp only [Nat.shiftLeft_eq]
  rw [Nat.mod_eq_of_lt (show c / 2 ^ 2 < 16 by omega), Out.addPut_written _ t hlt]
  rfl

lemma decodeDigit_fourth (hi : i % 4 = 3) (hlt : done.length + 1 < 2 ^ 32) (t : UInt8) :
    decodeDigit inp inlen i c (.written done (t :: tail)) =
      some (.written (done ++ [t + UInt8.ofNat c]) tail) := by
  rw [decodeDigit_three hi, Out.addPut_written _ t hlt]

/-- The places behind `i` are far enough from the end. -/
lemma goesOn_of_lt {k : ℕ} (hlt : inlen < 2 ^ 32) (hi : i + (k + 1) < inlen) :
    goesOn inp inlen i k = some true := by
  rw [goesOn, Word.sub_of_le (by omega) hlt, if_pos (by omega)]

/-- In the last group the next character decides. -/
lemma goesOn_last {k : ℕ} (hlt : inlen < 2 ^ 32) (hi : i + (k + 1) = inlen) {ch : UInt8}
    (hch : inp[i + 1]? = some ch) : goesOn inp inlen i k = some (decide (ch ≠ BASE64_PAD)) := by
  rw [goesOn, Word.sub_of_le (by omega) hlt, Word.sub_of_le (by omega) hlt, if_neg (by omega),
    show inlen - k = i + 1 by omega, hch]
  rfl

lemma goesOn_digit {k u : ℕ} (hlt : inlen < 2 ^ 32) (hi : i + (k + 1) ≤ inlen) (hu : u < 64)
    (hch : inp[i + 1]? = some (charOf u)) : goesOn inp inlen i k = some true := by
  rcases hi.eq_or_lt with heq | hlast
  · rw [goesOn_last hlt heq hch, decide_eq_true (digitOf_charOf u hu).2]
  · exact goesOn_of_lt hlt hlast

end

/-! ### Groups of characters -/

lemma getElem?_group (pre rest : List UInt8) (k : ℕ) :
    (pre ++ rest)[pre.length + k]? = rest[k]? := by
  rw [List.getElem?_append_right (by omega), Nat.add_sub_cancel_left]

section

variable {inp done tail : List UInt8} {inlen i n s t u v : ℕ}

lemma decodeLoop_charOf {o : Out} (hch : inp[i]? = some (charOf s)) (hs : s < 64) :
    decodeLoop inp inlen (n + 1) i o =
      (decodeDigit inp inlen i s o).bind (decodeLoop inp inlen n (i + 1)) :=
  decodeLoop_digit hch (digitOf_charOf s hs).2 (digitOf_charOf s hs).1

/-- Two digits are a byte. -/
lemma decodeLoop_two (hi : i % 4 = 0) (hs : s < 64) (ht : t < 64)
    (hlt : done.length + 1 < 2 ^ 32) (h0 : inp[i]? = some (charOf s))
    (h1 : inp[i + 1]? = some (charOf t)) {more : Bool}
    (hmore : goesOn inp inlen (i + 1) 2 = some more) (old : UInt8) :
    decodeLoop inp inlen (n + 2) i (.written done (old :: tail)) =
      let o := Out.written (done ++ [UInt8.ofNat (s * 4 + t / 16)]) tail
      (if more then o.set o.j (UInt8.ofNat (t % 16 * 16)) else some o).bind
        (decodeLoop inp inlen n (i + 2)) := by
  rw [decodeLoop_charOf h0 hs, decodeDigit_first hi hs, Option.bind_some,
    decodeLoop_charOf h1 ht, decodeDigit_second (by omega) ht hlt _ hmore, UInt8.ofNat_add]

/-- A third digit is the rest of the byte that is begun. -/
lemma decodeLoop_third (hi : i % 4 = 2) (hu : u < 64)
    (hlt : done.length + 1 < 2 ^ 32) (h2 : inp[i]? = some (charOf u)) {more : Bool}
    (hmore : goesOn inp inlen i 1 = some more) :
    decodeLoop inp inlen (n + 1) i (.written done (UInt8.ofNat (t * 16) :: tail)) =
      let o := Out.written (done ++ [UInt8.ofNat (t * 16 + u / 4)]) tail
      (if more then o.set o.j (UInt8.ofNat (u % 4 * 64)) else some o).bind
        (decodeLoop inp inlen n (i + 1)) := by
  rw [decodeLoop_charOf h2 hu, decodeDigit_third hi hu hlt _ hmore, UInt8.ofNat_add]

lemma decodeLoop_fourth (hi : i % 4 = 3) (hv : v < 64) (hlt : done.length + 1 < 2 ^ 32)
    (h3 : inp[i]? = some (charOf v)) :
    decodeLoop inp inlen (n + 1) i (.written done (UInt8.ofNat (u * 64) :: tail)) =
      decodeLoop inp inlen n (i + 1) (.written (done ++ [UInt8.ofNat (u * 64 + v)]) tail) := by
  rw [decodeLoop_charOf h3 hv, decodeDigit_fourth hi hlt, Option.bind_some, UInt8.ofNat_add]

/-- Four digits are three bytes. -/
lemma decodeLoop_four (hi : i % 4 = 0) (hs : s < 64) (ht : t < 64) (hu : u < 64) (hv : v < 64)
    (hlt : done.length + 3 < 2 ^ 32) (h0 : inp[i]? = some (charOf s))
    (h1 : inp[i + 1]? = some (charOf t)) (h2 : inp[i + 2]? = some (charOf u))
    (h3 : inp[i + 3]? = some (charOf v)) (hmore : goesOn inp inlen (i + 1) 2 = some true)
    (hmore' : goesOn inp inlen (i + 2) 1 = some true) (old old' old'' : UInt8) :
    decodeLoop inp inlen (n + 4) i (.written done (old :: old' :: old'' :: tail)) =
      decodeLoop inp inlen n (i + 4)
        (.written (done ++ bytes [s, t, u, v]) tail) := by
  rw [decodeLoop_two hi hs ht (by omega) h0 h1 hmore]
  simp only [if_true]
  rw [Out.set_written, Option.bind_some, decodeLoop_third (by omega) hu
    (by rw [List.length_append, List.length_singleton]; omega) h2 hmore']
  simp only [if_true]
  rw [Out.set_written, Option.bind_some, decodeLoop_fourth (by omega) hv
    (by simp only [List.length_append, List.length_singleton]; omega) h3]
  simp [bytes]

end

section

variable {pre done tail : List UInt8} {s t u : ℕ}

/-- Two digits and the padding are one byte. -/
lemma decodeLoop_twoDigits (hpre : pre.length % 4 = 0) (hs : s < 64) (ht : t < 64) :
    let inp := pre ++ ([s, t].map charOf ++ List.replicate 2 BASE64_PAD)
    inp.length < 2 ^ 32 → (done ++ bytes [s, t]).length < 2 ^ 32 →
    (bytes [s, t]).length ≤ tail.length →
    decodeLoop inp inp.length 4 pre.length (.written done tail) =
      some (done ++ bytes [s, t] ++ tail.drop 1, (done ++ bytes [s, t]).length) := by
  intro inp hlt hlt' htail
  obtain ⟨old, tail, rfl⟩ := List.exists_cons_of_length_pos htail
  have hget : ∀ k, inp[pre.length + k]? = _ := getElem?_group pre _
  have hinp : inp.length = pre.length + 4 := by simp [inp]
  have hlt1 : done.length + 1 < 2 ^ 32 := by simpa [bytes] using hlt'
  have hmore : goesOn inp inp.length (pre.length + 1) 2 = some false :=
    goesOn_last hlt (by omega) (hget 2)
  rw [show 4 = 2 + 2 from rfl, decodeLoop_two hpre hs ht hlt1 (hget 0) (hget 1) hmore]
  exact decodeLoop_pad (hget 2)

/-- Three digits and the padding are two bytes. -/
lemma decodeLoop_threeDigits (hpre : pre.length % 4 = 0) (hs : s < 64) (ht : t < 64)
    (hu : u < 64) :
    let inp := pre ++ ([s, t, u].map charOf ++ List.replicate 1 BASE64_PAD)
    inp.length < 2 ^ 32 → (done ++ bytes [s, t, u]).length < 2 ^ 32 →
    (bytes [s, t, u]).length ≤ tail.length →
    decodeLoop inp inp.length 4 pre.length (.written done tail) =
      some (done ++ bytes [s, t, u] ++ tail.drop 2, (done ++ bytes [s, t, u]).length) := by
  intro inp hlt hlt' htail
  change 2 ≤ tail.length at htail
  obtain ⟨old, tail, rfl⟩ := List.exists_cons_of_length_pos (show 0 < tail.length by omega)
  rw [List.length_cons] at htail
  obtain ⟨old', tail, rfl⟩ := List.exists_cons_of_length_pos (show 0 < tail.length by omega)
  have hget : ∀ k, inp[pre.length + k]? = _ := getElem?_group pre _
  have hinp : inp.length = pre.length + 4 := by simp [inp]
  have hlt1 : done.length + 2 < 2 ^ 32 := by simpa [bytes] using hlt'
  have hmore : goesOn inp inp.length (pre.length + 1) 2 = some true :=
    goesOn_digit hlt (by omega) hu (hget 2)
  have hmore' : goesOn inp inp.length (pre.length + 2) 1 = some false :=
    goesOn_last hlt (by omega) (hget 3)
  rw [show 4 = 2 + 2 from rfl, decodeLoop_two hpre hs ht (by omega) (hget 0) (hget 1) hmore]
  simp only [if_true]
  rw [Out.set_written, Option.bind_some, decodeLoop_third (by omega) hu
      (by rw [List.length_append, List.length_singleton]; omega) (hget 2) hmore']
  simp only [Bool.false_eq_true, if_false, Option.bind_some]
  rw [decodeLoop_pad (hget 3)]
  simp [bytes, Out.written]

end

/-- **The decoder** reads digits, followed by the padding that fills the last group up. -/
lemma decodeLoop_eq (ds : List ℕ) : ∀ (pre done tail : List UInt8) (p : ℕ),
    let inp := pre ++ (ds.map charOf ++ List.replicate p BASE64_PAD)
    pre.length % 4 = 0 → (∀ d ∈ ds, d < 64) → (ds.length + p) % 4 = 0 → p ≤ 2 →
    inp.length < 2 ^ 32 → (done ++ bytes ds).length < 2 ^ 32 → (bytes ds).length ≤ tail.length →
    decodeLoop inp inp.length (ds.length + p) pre.length (.written done tail) =
      some (done ++ bytes ds ++ tail.drop (bytes ds).length, (done ++ bytes ds).length) := by
  induction ds using bytes.induct with
  | case1 =>
    intro pre done tail p inp hpre hds hlen hp hlt hlt' htail
    obtain rfl : p = 0 := by
      rw [List.length_nil] at hlen
      omega
    simp [decodeLoop, Out.written, bytes]
  | case2 s =>
    intro pre done tail p inp hpre hds hlen hp hlt hlt' htail
    rw [List.length_singleton] at hlen
    omega
  | case3 s t =>
    intro pre done tail p inp hpre hds hlen hp hlt hlt' htail
    obtain rfl : p = 2 := by
      simp only [List.length_cons, List.length_nil] at hlen
      omega
    simp only [List.forall_mem_cons] at hds
    exact decodeLoop_twoDigits hpre hds.1 hds.2.1 hlt hlt' htail
  | case4 s t u =>
    intro pre done tail p inp hpre hds hlen hp hlt hlt' htail
    obtain rfl : p = 1 := by
      simp only [List.length_cons, List.length_nil] at hlen
      omega
    simp only [List.forall_mem_cons] at hds
    exact decodeLoop_threeDigits hpre hds.1 hds.2.1 hds.2.2.1 hlt hlt' htail
  | case5 s t u v ds ih =>
    intro pre done tail p inp hpre hds hlen hp hlt hlt' htail
    simp only [List.forall_mem_cons] at hds
    obtain ⟨hs, ht, hu, hv, hds⟩ := hds
    have hbytes : bytes (s :: t :: u :: v :: ds) = bytes [s, t, u, v] ++ bytes ds := rfl
    have hthree : (bytes [s, t, u, v]).length = 3 := rfl
    rw [hbytes, List.length_append, hthree] at htail
    rw [hbytes, ← List.append_assoc] at hlt'
    obtain ⟨old, tail, rfl⟩ := List.exists_cons_of_length_pos (show 0 < tail.length by omega)
    rw [List.length_cons] at htail
    obtain ⟨old', tail, rfl⟩ := List.exists_cons_of_length_pos (show 0 < tail.length by omega)
    rw [List.length_cons] at htail
    obtain ⟨old'', tail, rfl⟩ := List.exists_cons_of_length_pos (show 0 < tail.length by omega)
    rw [List.length_cons] at htail
    have hlt1 : done.length + 3 < 2 ^ 32 := by
      simp only [List.length_append, hthree] at hlt'
      omega
    have hget : ∀ k, inp[pre.length + k]? = _ := getElem?_group pre _
    have hinp : inp.length = pre.length + 4 + ds.length + p := by
      simp only [inp, List.length_append, List.length_map, List.length_cons, List.length_replicate]
      omega
    have hmore : goesOn inp inp.length (pre.length + 1) 2 = some true :=
      goesOn_digit hlt (by omega) hu (hget 2)
    have hmore' : goesOn inp inp.length (pre.length + 2) 1 = some true :=
      goesOn_digit hlt (by omega) hv (hget 3)
    have hfour : decodeLoop inp inp.length (ds.length + p + 4) pre.length
        (.written done (old :: old' :: old'' :: tail)) = _ :=
      decodeLoop_four hpre hs ht hu hv hlt1 (hget 0) (hget 1) (hget 2) (hget 3) hmore hmore'
        old old' old''
    have hsplit : inp = (pre ++ [s, t, u, v].map charOf) ++
      (ds.map charOf ++ List.replicate p BASE64_PAD) := by simp [inp]
    have hrest := ih (pre ++ [s, t, u, v].map charOf) (done ++ bytes [s, t, u, v]) tail p
      (by simp; omega) hds (by simp only [List.length_cons] at hlen; omega) hp
      (by rw [← hsplit]; exact hlt) hlt' (by omega)
    rw [← hsplit] at hrest
    have hdrop : (old :: old' :: old'' :: tail).drop (bytes (s :: t :: u :: v :: ds)).length =
        tail.drop (bytes ds).length := by
      rw [hbytes, List.length_append, hthree, Nat.add_comm]
      rfl
    rw [show (s :: t :: u :: v :: ds).length + p = ds.length + p + 4 by
      simp only [List.length_cons]; omega, hfour, hdrop, hbytes, ← List.append_assoc]
    rw [show pre.length + 4 = (pre ++ [s, t, u, v].map charOf).length by simp, hrest]

/-- The decoder reads what the encoder has written. -/
lemma base64Decode_encoded {x outBuf : List UInt8} (hlt : x.length < 3 * 2 ^ 29)
    (hout : x.length ≤ outBuf.length) : base64Decode (encoded x) (encoded x).length outBuf =
      some (x ++ outBuf.drop x.length, x.length) := by
  have hlen : (digits x).length + padding x.length = (encoded x).length := by
    rw [length_digits, length_encoded]
  have hlt' : (encoded x).length < 2 ^ 32 := by
    rw [length_encoded]
    omega
  have h := decodeLoop_eq (digits x) [] [] outBuf (padding x.length) rfl (digits_lt x)
    (by rw [length_digits]; omega) (by unfold padding; omega) hlt'
    (by rw [List.nil_append, bytes_digits]; omega) (by rwa [bytes_digits])
  rw [bytes_digits, hlen] at h
  exact h

/-! ### Strings -/

lemma encoded_size {n : ℕ} (hlt : n < 3 * 2 ^ 29) :
    BASE64_ENCODE_OUT_SIZE n = (n + 2) / 3 * 4 := by
  rw [BASE64_ENCODE_OUT_SIZE, Word.add_of_lt (by omega), Nat.mod_eq_of_lt (by omega)]

lemma base64Encode_encoded {x outBuf : List UInt8} (hx : x ≠ []) (hlt : x.length < 3 * 2 ^ 29)
    (hout : BASE64_ENCODE_OUT_SIZE x.length ≤ outBuf.length) :
    base64Encode x x.length outBuf = some (encoded x ++
      outBuf.drop (BASE64_ENCODE_OUT_SIZE x.length), BASE64_ENCODE_OUT_SIZE x.length) := by
  rw [encoded_size hlt, ← length_encoded] at hout ⊢
  rw [base64Encode_eq hx (by omega)]
  have hlt' : ([] ++ encoded x).length < 2 ^ 32 := by
    rw [List.nil_append, length_encoded]
    omega
  have h := Out.puts_written hout hlt'
  rw [show (⟨outBuf, 0⟩ : Out) = .written [] outBuf from rfl, h]
  rfl

lemma sized_natCast (n : ℕ) : sized n = some n := by
  rw [sized, if_neg (by omega), Int.toNat_natCast]

lemma resized_natCast (decoded_buf : List UInt8) (n : ℕ) :
    resized decoded_buf n = .returned (resize decoded_buf n) := by
  rw [resized, sized_natCast]

lemma resize_append (x rest : List UInt8) : resize (x ++ rest) x.length = x := by
  simp [resize]

lemma inBase64Encode_eq {x : List UInt8} (hx : x ≠ []) (hlt : x.length < 3 * 2 ^ 29) :
    inBase64Encode x = some (encoded x) := by
  have hsize : BASE64_ENCODE_OUT_SIZE x.length = (encoded x).length := by
    rw [encoded_size hlt, length_encoded]
  have hle : (encoded x).length + 1 < 2 ^ 32 := by
    rw [length_encoded]
    omega
  have hbuf : (List.replicate (Word.add 32 (BASE64_ENCODE_OUT_SIZE x.length) 1) (0 : UInt8)).length
      = (encoded x).length + 1 := by
    rw [hsize, Word.add_of_lt hle, List.length_replicate]
  simp only [inBase64Encode]
  rw [base64Encode_encoded hx hlt (by rw [hbuf, hsize]; omega)]
  change some (resize _ (BASE64_ENCODE_OUT_SIZE x.length)) = _
  rw [hsize, resize_append]

/-- There is no zero in a text. -/
lemma encoded_ne_zero (x : List UInt8) : ∀ ch ∈ encoded x, ch ≠ 0 := by
  intro ch hch
  rcases List.mem_append.mp hch with h | h
  · obtain ⟨d, hd, rfl⟩ := List.mem_map.mp h
    have hne : ∀ n < 64, charOf n ≠ 0 := by decide
    exact hne d (digits_lt x d hd)
  · rw [List.eq_of_mem_replicate h]
    decide

lemma strlen_append {text : List UInt8} (rest : List UInt8) (h : ∀ ch ∈ text, ch ≠ 0) :
    strlen (text ++ 0 :: rest) = some text.length := by
  rw [strlen, Bytes.idxOf?_append_cons fun hz => h 0 hz rfl]

lemma decoded_size {n : ℕ} (hlt : n < 3 * 2 ^ 29) :
    Word.toInt 32 (BASE64_DECODE_OUT_SIZE ((n + 2) / 3 * 4)) = ((n + 2) / 3 * 3 : ℕ) := by
  rw [BASE64_DECODE_OUT_SIZE, Nat.mul_div_cancel _ (by omega)]
  exact Word.toInt_natCast (by omega)

lemma inBase64Decode_eq {x str : List UInt8} {len : ℕ} (hlt : x.length < 3 * 2 ^ 29)
    (hlen : lenOf str len = some (encoded x).length)
    (hstr : str.take (encoded x).length = encoded x) :
    inBase64Decode str len = some (.returned x) := by
  have hsize : Word.toInt 32 (BASE64_DECODE_OUT_SIZE (encoded x).length) + 1 =
      ((x.length + 2) / 3 * 3 + 1 : ℕ) := by
    rw [length_encoded, decoded_size hlt, Nat.cast_succ]
  have hret : Word.toInt 32 x.length = x.length := Word.toInt_natCast (by omega)
  rw [inBase64Decode, hlen, Option.bind_eq_bind, Option.bind_some, hsize, sized_natCast, hstr]
  change (base64Decode _ _ _).bind _ = _
  rw [base64Decode_encoded hlt (by rw [List.length_replicate]; omega), Option.bind_some]
  change some (resized _ (Word.toInt 32 x.length)) = _
  rw [hret, resized_natCast, resize_append]

lemma lenOf_length {x : List UInt8} (hx : x ≠ []) (str : List UInt8) :
    lenOf str (encoded x).length = some (encoded x).length := by
  have hpos := List.length_pos_iff.mpr hx
  rw [lenOf, if_neg (by rw [length_encoded]; omega)]

lemma lenOf_strlen {x : List UInt8} (hlt : x.length < 3 * 2 ^ 29) (rest : List UInt8) :
    lenOf (encoded x ++ 0 :: rest) 0 = some (encoded x).length := by
  rw [lenOf, if_pos rfl, strlen_append rest (encoded_ne_zero x), Option.map_some,
    Nat.mod_eq_of_lt (by rw [length_encoded]; omega)]

/-- **The round trip**: the encoder writes a text of the announced size and nothing behind it,
the decoder reads the bytes back, and so do the functions that allocate for them, whether they
are given the length of the text or find it by the zero behind it. -/
theorem base64_round_trip {x : List UInt8} (hx : x ≠ []) (hlt : x.length < 3 * 2 ^ 29) :
    (encoded x).length = BASE64_ENCODE_OUT_SIZE x.length ∧
    (∀ outBuf : List UInt8, BASE64_ENCODE_OUT_SIZE x.length ≤ outBuf.length →
      base64Encode x x.length outBuf = some (encoded x ++
        outBuf.drop (BASE64_ENCODE_OUT_SIZE x.length), BASE64_ENCODE_OUT_SIZE x.length)) ∧
    (∀ outBuf : List UInt8, x.length ≤ outBuf.length →
      base64Decode (encoded x) (encoded x).length outBuf =
        some (x ++ outBuf.drop x.length, x.length)) ∧
    inBase64Encode x = some (encoded x) ∧
    inBase64Decode (encoded x) (encoded x).length = some (.returned x) ∧
    ∀ rest, inBase64Decode (encoded x ++ 0 :: rest) 0 = some (.returned x) :=
  ⟨by rw [encoded_size hlt, length_encoded], fun _ => base64Encode_encoded hx hlt,
    fun _ => base64Decode_encoded hlt, inBase64Encode_eq hx hlt,
    inBase64Decode_eq hlt (lenOf_length hx _) (List.take_length ..),
    fun rest => inBase64Decode_eq hlt (lenOf_strlen hlt rest) (List.take_left ..)⟩

/-- Two bytes, with one character of padding. -/
theorem base64_round_trip_pair : inBase64Encode [0x4D, 0xFF] = some [84, 102, 56, 61] ∧
    inBase64Decode [84, 102, 56, 61] 4 = some (.returned [0x4D, 0xFF]) :=
  have h := base64_round_trip (x := [0x4D, 0xFF]) (by decide) (by decide)
  ⟨h.2.2.2.1, h.2.2.2.2.1⟩

end MmrService.Base64
