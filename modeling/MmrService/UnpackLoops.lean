import MmrService.UnpackHeads

/-!
What the loops of `unpack.c` take out of the bytes of the buffer.
-/

namespace MmrService.Unpack

open Framing

variable {io : hio_t} {p remain fuel : ℕ} {w : Walk}

@[simp] lemma hio_read_cb_readbuf (buf len : ℕ) : (hio_read_cb io buf len).readbuf = io.readbuf :=
  rfl

@[simp] lemma hio_read_cb_packages (buf len : ℕ) : (hio_read_cb io buf len).packages =
    io.packages ++ [Bytes.slice io.readbuf.base buf len] := rfl

/-- The loop cut the `remain` bytes at `p`, and changed nothing but what `read_cb` changes. -/
structure Walked (head : List UInt8 → Head End) (io : hio_t) (p remain : ℕ) (w : Walk) :
    Prop where
  same : ∃ packages cnt, w.io = { io with packages := packages, small_readbytes_cnt := cnt } ∧
    (cnt = io.small_readbytes_cnt ∨ cnt = 0 ∨ READ_BUFSIZE_HIGH_WATER < io.readbuf.len)
  sum : w.p + w.remain = p + remain
  cut : ∃ qs, w.io.packages = io.packages ++ qs ∧
    Frames head (Bytes.slice io.readbuf.base p remain) qs
      (Bytes.slice io.readbuf.base w.p w.remain)

/-- The loop ends where the bytes begin with no package. -/
lemma walked_rest {head : List UInt8 → Head End}
    (h : ∀ n, head (Bytes.slice io.readbuf.base p remain) ≠ .package n) :
    Walked head io p remain ⟨io, p, remain⟩ :=
  ⟨⟨_, _, rfl, .inl rfl⟩, rfl, [], (List.append_nil _).symm, .rest h⟩

lemma walked_incomplete {head : List UInt8 → Head End}
    (h : head (Bytes.slice io.readbuf.base p remain) = .incomplete) :
    Walked head io p remain ⟨io, p, remain⟩ :=
  walked_rest fun n hn => by cases h.symm.trans hn

lemma walked_stop {head : List UInt8 → Head End} {e : End}
    (h : head (Bytes.slice io.readbuf.base p remain) = .stop e) :
    Walked head io p remain ⟨io, p, remain⟩ :=
  walked_rest fun n hn => by cases h.symm.trans hn

/-- The loop hands over a package and goes on behind it. -/
lemma Walked.next {head : List UInt8 → Head End} {n : ℕ}
    (hn : head (Bytes.slice io.readbuf.base p remain) = .package n) (hle : n ≤ remain)
    (hw : Walked head (hio_read_cb io p n) (p + n) (remain - n) w) :
    Walked head io p remain w := by
  obtain ⟨⟨packages, cnt, hsame, hcnt⟩, hsum, qs, hqs, hcut⟩ := hw
  refine ⟨⟨packages, cnt, hsame, ?_⟩, by omega, Bytes.slice io.readbuf.base p n :: qs, ?_, ?_⟩
  · change cnt = (if _ then _ else io.small_readbytes_cnt) ∨ cnt = 0 ∨
      READ_BUFSIZE_HIGH_WATER < io.readbuf.len at hcnt
    by_cases hbig : io.alloced_readbuf = true ∧ READ_BUFSIZE_HIGH_WATER < io.readbuf.len
    · exact .inr (.inr hbig.2)
    · rwa [if_neg hbig] at hcnt
  · rw [hqs, hio_read_cb_packages, List.append_assoc, List.singleton_append]
  · rw [hio_read_cb_readbuf, ← Bytes.drop_slice] at hcut
    rw [← Bytes.take_slice _ _ hle]
    exact .next hn hcut

/-! ### Packages of one length -/

lemma fixedLoop_spec {n : ℕ} (hn : 0 < n) (hlen : p + remain ≤ io.readbuf.base.length)
    (hfuel : remain < fuel) :
    ∃ w, fixedLoop n fuel io p remain = .ok w ∧ Walked (fixedHead n) io p remain w ∧
      w.remain < n ∧
      (io.readbuf.len = n → w.io.small_readbytes_cnt ≤ io.small_readbytes_cnt) := by
  induction fuel generalizing io p remain with
  | zero => omega
  | succ fuel ih =>
    have hs := Bytes.length_slice hlen
    rw [fixedLoop]
    by_cases hle : n ≤ remain
    · rw [if_pos hle]
      obtain ⟨w, hok, hw, hlt, hcnt⟩ := @ih (hio_read_cb io p n) (p + n)
        (remain - n) (by rw [hio_read_cb_readbuf]; omega) (by omega)
      refine ⟨w, hok, hw.next (fixedHead_of_le (by rw [hs]; exact hle)) hle, hlt, fun hn => ?_⟩
      refine (hcnt hn).trans ?_
      change (if _ then if n < io.readbuf.len / 2 then _ else 0 else _) ≤ _
      rw [if_neg (by omega : ¬ n < io.readbuf.len / 2)]
      split <;> omega
    · rw [if_neg hle]
      have hinc : (fixedHead n (Bytes.slice io.readbuf.base p remain) : Head End) = .incomplete :=
        fixedHead_of_lt (by omega)
      exact ⟨_, rfl, walked_incomplete hinc, Nat.not_le.mp hle, fun _ => le_rfl⟩

/-! ### Packages that end with a delimiter -/

/-- Nothing that begins before `p` is the delimiter, which is looked for from `sp` on. -/
lemma delimiterLoop_spec {d : List UInt8} {limit sp : ℕ} (hd : d ≠ []) (hsp : sp ≤ p)
    (hlen : p + remain ≤ io.readbuf.base.length) (hlimit : io.readbuf.base.length ≤ limit)
    (hnot : ∀ j < p - sp, ¬ d <+: (Bytes.slice io.readbuf.base sp (p + remain - sp)).drop j)
    (hfuel : remain < fuel) :
    ∃ w, delimiterLoop d fuel io sp p remain = .ok w ∧
      Walked (delimiterHead d limit .overLimit) io sp (p + remain - sp) w := by
  have hpos := List.length_pos_iff.mpr hd
  induction fuel generalizing io p sp remain with
  | zero => omega
  | succ fuel ih =>
    have hs := @Bytes.length_slice _ io.readbuf.base sp (p + remain - sp) (by omega)
    have htake : (Bytes.slice io.readbuf.base sp (p + remain - sp)).take limit =
        Bytes.slice io.readbuf.base sp (p + remain - sp) :=
      List.take_of_length_le (by omega)
    -- what stands at `p`
    have hat : (Bytes.slice io.readbuf.base sp (p + remain - sp)).drop (p - sp) =
        Bytes.slice io.readbuf.base p remain := by
      rw [Bytes.drop_slice, show sp + (p - sp) = p by omega,
        show p + remain - sp - (p - sp) = remain by omega]
    rw [delimiterLoop]
    by_cases hle : d.length ≤ remain
    · rw [if_pos hle]
      have hiff : d <+: Bytes.slice io.readbuf.base p remain ↔
          Bytes.slice io.readbuf.base p d.length = d := by
        rw [List.prefix_iff_eq_take, Bytes.take_slice _ _ hle, eq_comm]
      by_cases hm : Bytes.slice io.readbuf.base p d.length = d
      · rw [if_pos hm]
        obtain ⟨w, hok, hw⟩ := @ih (hio_read_cb io sp (p + d.length - sp))
          (p + d.length) (remain - d.length) (p + d.length) le_rfl
          (by rw [hio_read_cb_readbuf]; omega) hlimit (fun j hj => by omega) (by omega)
        have hfirst : firstAt d ((Bytes.slice io.readbuf.base sp (p + remain - sp)).take limit) =
            some (p - sp) := by
          rw [htake, firstAt_eq_some hd, hat]
          exact ⟨hiff.mpr hm, hnot⟩
        refine ⟨w, hok, Walked.next (n := p + d.length - sp) ?_ (by omega) ?_⟩
        · rw [delimiterHead_some hfirst, show p - sp + d.length = p + d.length - sp by omega]
        · rw [show sp + (p + d.length - sp) = p + d.length by omega,
            show p + remain - sp - (p + d.length - sp) =
              p + d.length + (remain - d.length) - (p + d.length) by omega]
          exact hw
      · rw [if_neg hm]
        have hsum : p + 1 + (remain - 1) - sp = p + remain - sp := by omega
        have hnot' : ∀ j < p + 1 - sp,
            ¬ d <+: (Bytes.slice io.readbuf.base sp (p + remain - sp)).drop j := by
          intro j hj
          rcases Nat.lt_or_ge j (p - sp) with hlt | hge
          · exact hnot j hlt
          · rw [show j = p - sp by omega, hat, hiff]
            exact hm
        obtain ⟨w, hok, hw⟩ := @ih io (p + 1) (remain - 1) sp
          (by omega) (by omega) hlimit (by rw [hsum]; exact hnot') (by omega)
        rw [hsum] at hw
        exact ⟨w, hok, hw⟩
    · rw [if_neg hle]
      have hnone : firstAt d ((Bytes.slice io.readbuf.base sp (p + remain - sp)).take limit) =
          none := by
        rw [htake, firstAt_eq_none hd]
        intro j hj
        rcases Nat.lt_or_ge j (p - sp) with hlt | hge
        · exact hnot j hlt hj
        · have := add_length_le hd hj
          omega
      refine ⟨_, rfl, walked_rest fun n hn => ?_⟩
      rw [delimiterHead_none hnone] at hn
      split at hn <;> cases hn

/-! ### Packages with a length field -/

variable {setting : unpack_setting_t} {plen : ℕ}

/-- A package of no bytes is handed over again and again. -/
lemma lengthLoop_endless (hoff : setting.body_offset ≤ remain)
    (hf : field setting (Bytes.slice io.readbuf.base (p + setting.length_field_offset)
      (remain - setting.length_field_offset)) = .value 0) :
    lengthLoop setting fuel io p remain plen = .error .endless := by
  induction fuel generalizing io plen with
  | zero => rfl
  | succ fuel ih =>
    rw [lengthLoop, if_pos hoff, hf]
    dsimp only
    rw [if_pos (Nat.zero_le remain)]
    exact @ih (hio_read_cb io p 0) _ hf

/-- Why the loop ended: the package is over the limit, or a part of it is still to come, for which
there is room in the buffer, or there is after it is made larger. -/
def Ends (setting : unpack_setting_t) (io : hio_t) (w : LengthWalk) : Prop :=
  match w.package_len with
  | none => lengthHead setting (Bytes.slice io.readbuf.base w.p w.remain) = .stop .overLimit
  | some n =>
    lengthHead setting (Bytes.slice io.readbuf.base w.p w.remain) = .stop .overLimit ∧
        setting.package_max_length < n ∧ w.remain ≠ 0 ∨
      lengthHead setting (Bytes.slice io.readbuf.base w.p w.remain) = .incomplete ∧
        n ≤ setting.package_max_length ∧ (w.remain < io.readbuf.base.length ∨ w.remain < n)

lemma lengthLoop_spec (hs : Sound setting) (hm : setting.mode = .UNPACK_BY_LENGTH_FIELD)
    (hlen : p + remain ≤ io.readbuf.base.length)
    (hlow : min HLOOP_READ_BUFSIZE setting.package_max_length ≤ io.readbuf.base.length)
    (hlimit : io.readbuf.base.length ≤ setting.package_max_length)
    (hplen : plen = setting.body_offset ∨
      plen ≤ io.readbuf.base.length ∧ remain < io.readbuf.base.length) (hfuel : remain < fuel) :
    (∃ w, lengthLoop setting fuel io p remain plen = .ok w ∧
      Walked (lengthHead setting) io p remain w.toWalk ∧ Ends setting io w) ∨
    lengthLoop setting fuel io p remain plen = .error .endless ∧
      ∃ qs r, Frames (lengthHead setting) (Bytes.slice io.readbuf.base p remain) qs r ∧
        lengthHead setting r = .stop .endless := by
  obtain ⟨hbytes, hoff, hbody⟩ := hs.offset hm
  induction fuel generalizing io p remain plen with
  | zero => omega
  | succ fuel ih =>
    have hlens := Bytes.length_slice hlen
    rw [lengthLoop]
    by_cases hle : setting.body_offset ≤ remain
    · rw [if_pos hle, ← Bytes.drop_slice]
      have hhead : lengthHead setting (Bytes.slice io.readbuf.base p remain) = _ :=
        if_neg (by omega)
      cases hf : field setting
          ((Bytes.slice io.readbuf.base p remain).drop setting.length_field_offset) with
      | short =>
        rw [hf] at hhead
        obtain ⟨hc, hshort⟩ := length_lt_of_field_short hf
        have hroom := hs.varint hm hc
        rw [List.length_drop, hlens] at hshort
        have hsmall : remain < io.readbuf.base.length ∨ remain < plen := by omega
        exact .inl ⟨_, rfl, walked_incomplete hhead, .inr ⟨hhead, by omega, hsmall⟩⟩
      | tooBig =>
        rw [hf] at hhead
        exact .inl ⟨_, rfl, walked_stop hhead, hhead⟩
      | value n =>
        rw [hf] at hhead
        dsimp only at hhead ⊢
        by_cases hn : n ≤ remain
        · rw [if_pos hn]
          rcases Nat.eq_zero_or_pos n with rfl | hpos
          · rw [if_pos rfl] at hhead
            refine .inr ⟨@lengthLoop_endless (hio_read_cb io p 0) _ _ _ _ _ hle ?_, [], _,
              .rest (fun m hm => by cases hhead.symm.trans hm), hhead⟩
            rw [← Bytes.drop_slice]
            exact hf
          · rw [if_neg (by omega), if_neg (by omega), if_pos (by omega)] at hhead
            obtain ⟨w, hok, hw, he⟩ | ⟨hok, qs, r, hfr, hr⟩ := @ih (hio_read_cb io p n)
              (p + n) (remain - n) n
              (by rw [hio_read_cb_readbuf]; omega) hlow hlimit
              (.inr ⟨by rw [hio_read_cb_readbuf]; omega, by rw [hio_read_cb_readbuf]; omega⟩)
              (by omega)
            · exact .inl ⟨w, hok, hw.next hhead hn, he⟩
            · rw [hio_read_cb_readbuf, ← Bytes.drop_slice] at hfr
              exact .inr ⟨hok, _, r, .next hhead hfr, hr⟩
        · rw [if_neg hn]
          rw [if_neg (by omega)] at hhead
          by_cases hover : setting.package_max_length < n
          · rw [if_pos hover] at hhead
            have hne : remain ≠ 0 := by omega
            exact .inl ⟨_, rfl, walked_stop hhead, .inl ⟨hhead, hover, hne⟩⟩
          · rw [if_neg hover, if_neg (by omega)] at hhead
            exact .inl ⟨_, rfl, walked_incomplete hhead,
              .inr ⟨hhead, Nat.not_lt.mp hover, .inr (Nat.not_le.mp hn)⟩⟩
    · rw [if_neg hle]
      have hhead : lengthHead setting (Bytes.slice io.readbuf.base p remain) = .incomplete :=
        if_pos (by omega)
      have hsmall : remain < io.readbuf.base.length ∨ remain < plen := by omega
      exact .inl ⟨_, rfl, walked_incomplete hhead, .inr ⟨hhead, by omega, hsmall⟩⟩

end MmrService.Unpack
