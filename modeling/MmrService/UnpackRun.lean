import MmrService.UnpackLoops

/-!
The packages do not depend on the pieces in which the stream comes.
-/

namespace MmrService.Unpack

open Framing

variable {setting : unpack_setting_t} {io : hio_t} {s bytes : List UInt8}

/-! ### The buffer -/

/-- What is in the buffer. -/
def hio_t.contents (io : hio_t) : List UInt8 := io.readbuf.base.take io.readbuf.tail

lemma hio_alloc_readbuf_of_le {n : ℕ} (halloc : io.alloced_readbuf = true)
    (hmax : io.max_read_bufsize < 2 ^ 31) (hn : n ≤ io.max_read_bufsize) :
    hio_alloc_readbuf io n =
      { io with
        readbuf := { io.readbuf with
          base := io.readbuf.base.take n ++ List.replicate (n - io.readbuf.base.length) 0 }
        small_readbytes_cnt := 0 } := by
  have hmod : n % 2 ^ 32 = n := Nat.mod_eq_of_lt (by omega)
  rw [hio_alloc_readbuf, hmod, if_neg (by omega), if_pos halloc, if_pos halloc]
  rw [halloc]
  rfl

lemma length_realloc (base : List UInt8) (n : ℕ) :
    (base.take n ++ List.replicate (n - base.length) 0).length = n := by
  rw [List.length_append, List.length_take, List.length_replicate]
  omega

lemma take_realloc {base : List UInt8} {n k : ℕ} (hk : k ≤ n) (hbase : k ≤ base.length) :
    (base.take n ++ List.replicate (n - base.length) 0).take k = base.take k := by
  rw [List.take_append_of_le_length (by rw [List.length_take]; omega), List.take_take,
    Nat.min_eq_left hk]

lemma length_keep {p remain : ℕ} (h : p + remain ≤ io.readbuf.base.length) :
    (keep io p remain).readbuf.base.length = io.readbuf.base.length := by
  change (if _ then _ else _ : List UInt8).length = _
  split
  · exact Bytes.length_patch (by rw [Bytes.length_slice h]; omega)
  · rfl

lemma contents_keep {p remain : ℕ} (h : p + remain ≤ io.readbuf.base.length) :
    (keep io p remain).contents = Bytes.slice io.readbuf.base p remain := by
  change (if _ then _ else _ : List UInt8).take remain = _
  split
  · exact Bytes.slice_patch_self (i := 0) (by omega) (Bytes.length_slice h)
  · rename_i hnot
    rcases Nat.eq_zero_or_pos remain with rfl | hpos
    · rw [List.take_zero, Bytes.slice, List.take_zero]
    · obtain rfl : p = 0 := by omega
      rfl

/-! ### What holds while a connection is open -/

structure Ready (setting : unpack_setting_t) (io : hio_t) : Prop where
  unpacks : io.unpack_setting = some setting
  closed : io.closed = false
  posted : io.close_posted = false
  alloced : io.alloced_readbuf = true
  max : io.max_read_bufsize = setting.package_max_length
  head : io.readbuf.head = 0
  tail : io.readbuf.tail ≤ io.readbuf.base.length
  fixed : setting.mode = .UNPACK_BY_FIXED_LENGTH →
    io.readbuf.base.length = setting.fixed_length ∧ io.small_readbytes_cnt = 0
  low : setting.mode ≠ .UNPACK_BY_FIXED_LENGTH →
    min HLOOP_READ_BUFSIZE setting.package_max_length ≤ io.readbuf.base.length
  limit : io.readbuf.base.length ≤ setting.package_max_length
  cnt : io.small_readbytes_cnt = 0 ∨ READ_BUFSIZE_HIGH_WATER < io.readbuf.base.length

/-- What becomes of the stream `s` in the buffer: packages are handed over, and the connection is
open with room in its buffer, or closed since a package is over the limit. -/
def Took (setting : unpack_setting_t) (s : List UInt8) (packages : List (List UInt8)) :
    Except Stop hio_t → Prop
  | .ok io => ∃ qs r, io.packages = packages ++ qs ∧ Frames (head setting) s qs r ∧
      (io.closed = true ∧ head setting r = .stop .overLimit ∨
        Ready setting io ∧ io.readbuf.tail < io.readbuf.base.length ∧
          head setting r = .incomplete ∧ io.contents = r)
  | .error .endless => ∃ qs r, Frames (head setting) s qs r ∧ head setting r = .stop .endless
  | .error .assertion => False
  | .error .kernel => False

/-- The buffer is made larger or smaller. -/
lemma Ready.alloc (hr : Ready setting io) (hs : Sound setting)
    (hm : setting.mode ≠ .UNPACK_BY_FIXED_LENGTH) {n : ℕ} (hn : n ≤ setting.package_max_length)
    (hlow : min HLOOP_READ_BUFSIZE setting.package_max_length ≤ n) (htail : io.readbuf.tail < n) :
    Ready setting (hio_alloc_readbuf io n) ∧
      (hio_alloc_readbuf io n).readbuf.tail < (hio_alloc_readbuf io n).readbuf.base.length ∧
      (hio_alloc_readbuf io n).contents = io.contents ∧
      (hio_alloc_readbuf io n).packages = io.packages := by
  rw [hio_alloc_readbuf_of_le hr.alloced (hr.max ▸ hs.limit.2) (hr.max ▸ hn)]
  have hlen := length_realloc io.readbuf.base n
  refine ⟨⟨hr.unpacks, hr.closed, hr.posted, hr.alloced, hr.max, hr.head, ?_, fun h => absurd h hm,
    fun _ => ?_, ?_, .inl rfl⟩, ?_, take_realloc htail.le hr.tail, rfl⟩
  all_goals dsimp only; omega

/-- A read ends with the connection as the packages left it, but for the buffer. -/
lemma autosize_same (io : hio_t) :
    (autosize io).packages = io.packages ∧ (autosize io).closed = io.closed := by
  have halloc : ∀ (io : hio_t) (n : ℕ), (hio_alloc_readbuf io n).packages = io.packages ∧
      (hio_alloc_readbuf io n).closed = io.closed := by
    intro io n
    unfold hio_alloc_readbuf
    split <;> exact ⟨rfl, rfl⟩
  have hmove : ∀ io : hio_t, (hio_memmove_readbuf io).packages = io.packages ∧
      (hio_memmove_readbuf io).closed = io.closed := by
    intro io
    unfold hio_memmove_readbuf
    split
    · exact ⟨rfl, rfl⟩
    · split <;> exact ⟨rfl, rfl⟩
  unfold autosize
  dsimp only
  generalize hio : (if io.readbuf.head = io.readbuf.tail then
    { io with readbuf := { io.readbuf with head := 0, tail := 0 } } else io) = io'
  have hsame : io'.packages = io.packages ∧ io'.closed = io.closed := by
    rw [← hio]
    split <;> exact ⟨rfl, rfl⟩
  rw [← hsame.1, ← hsame.2]
  split
  · split
    · exact halloc _ _
    · exact hmove _
  · split
    · exact halloc _ _
    · exact ⟨rfl, rfl⟩

/-- The read of an open connection leaves its buffer, or one of half the size. -/
lemma Ready.autosize (hr : Ready setting io) (htail : io.readbuf.tail < io.readbuf.base.length) :
    Unpack.autosize io = io ∨
      Unpack.autosize io = hio_alloc_readbuf io (io.readbuf.base.length / 2) ∧
        io.readbuf.tail < io.readbuf.base.length / 2 ∧ 3 ≤ io.small_readbytes_cnt := by
  have hempty : (if io.readbuf.head = io.readbuf.tail then
      { io with readbuf := { io.readbuf with head := 0, tail := 0 } } else io) = io := by
    split
    next heq =>
      have h0 : io.readbuf.tail = 0 := by rw [← heq, hr.head]
      calc { io with readbuf := { io.readbuf with head := 0, tail := 0 } }
          = { io with readbuf := { io.readbuf with
              head := io.readbuf.head, tail := io.readbuf.tail } } := by rw [hr.head, h0]
        _ = io := rfl
    next => rfl
  have hne : io.readbuf.tail ≠ io.readbuf.len := htail.ne
  unfold Unpack.autosize
  rw [hempty, if_neg hne]
  by_cases hshrink : io.readbuf.tail < io.readbuf.len / 2 ∧ 3 ≤ io.small_readbytes_cnt
  · rw [if_pos hshrink]
    exact .inr ⟨rfl, hshrink⟩
  · rw [if_neg hshrink]
    exact .inl rfl

lemma took_autosize (hs : Sound setting) {packages : List (List UInt8)} {x : Except Stop hio_t}
    (h : Took setting s packages x) : Took setting s packages (x.map autosize) := by
  cases x with
  | error e => exact h
  | ok io =>
    obtain ⟨qs, r, hqs, hcut, ⟨hclosed, hstop⟩ | ⟨hr, htail, hrest, hcon⟩⟩ := h
    · obtain ⟨hpackages, hcl⟩ := autosize_same io
      exact ⟨qs, r, hpackages.trans hqs, hcut, .inl ⟨hcl.trans hclosed, hstop⟩⟩
    · change Took setting s packages (.ok (autosize io))
      obtain hauto | ⟨hauto, hsmall, hcnt⟩ := hr.autosize htail
      · rw [hauto]
        exact ⟨qs, r, hqs, hcut, .inr ⟨hr, htail, hrest, hcon⟩⟩
      · rw [hauto]
        have hm : setting.mode ≠ .UNPACK_BY_FIXED_LENGTH := by
          intro hm
          have := (hr.fixed hm).2
          omega
        have hbig : READ_BUFSIZE_HIGH_WATER < io.readbuf.base.length := by
          have := hr.cnt
          omega
        have hlimit := hr.limit
        unfold READ_BUFSIZE_HIGH_WATER at hbig
        obtain ⟨hr', htail', hcon', hpackages⟩ := hr.alloc hs hm
          (n := io.readbuf.base.length / 2) (by omega) (by unfold HLOOP_READ_BUFSIZE; omega) hsmall
        exact ⟨qs, r, hpackages.trans hqs, hcut, .inr ⟨hr', htail', hrest, hcon'.trans hcon⟩⟩

/-! ### The packages of one read -/

variable {buf readbytes : ℕ}

/-- A loop keeps what holds of the connection, with the rest in the buffer. -/
lemma Ready.keep {p remain : ℕ} {w : Walk} {h : List UInt8 → Head End} (hr : Ready setting io)
    (hw : Walked h io p remain w) (hlen : p + remain ≤ io.readbuf.base.length)
    (hcnt : setting.mode = .UNPACK_BY_FIXED_LENGTH →
      w.io.small_readbytes_cnt ≤ io.small_readbytes_cnt) :
    Ready setting (keep w.io w.p w.remain) ∧
      (keep w.io w.p w.remain).readbuf.base.length = io.readbuf.base.length ∧
      (keep w.io w.p w.remain).contents = Bytes.slice io.readbuf.base w.p w.remain := by
  obtain ⟨⟨packages, cnt, hsame, hc⟩, hsum, -⟩ := hw
  have hbuf : w.io.readbuf = io.readbuf := by rw [hsame]
  have hlen' : w.p + w.remain ≤ w.io.readbuf.base.length := by
    rw [hbuf]
    omega
  have hk := length_keep hlen'
  have hcon := contents_keep hlen'
  rw [hbuf] at hk hcon
  refine ⟨⟨?_, ?_, ?_, ?_, ?_, rfl, ?_, fun hm => ⟨?_, ?_⟩, fun hm => ?_, ?_, ?_⟩, hk, hcon⟩
  · exact (by rw [hsame] : w.io.unpack_setting = io.unpack_setting).trans hr.unpacks
  · exact (by rw [hsame] : w.io.closed = io.closed).trans hr.closed
  · exact (by rw [hsame] : w.io.close_posted = io.close_posted).trans hr.posted
  · exact (by rw [hsame] : w.io.alloced_readbuf = io.alloced_readbuf).trans hr.alloced
  · exact (by rw [hsame] : w.io.max_read_bufsize = io.max_read_bufsize).trans hr.max
  · rw [hk]
    change w.remain ≤ io.readbuf.base.length
    omega
  · rw [hk]
    exact (hr.fixed hm).1
  · have h0 := (hr.fixed hm).2
    have hle := hcnt hm
    change w.io.small_readbytes_cnt = 0
    omega
  · rw [hk]
    exact hr.low hm
  · rw [hk]
    exact hr.limit
  · rw [hk]
    change w.io.small_readbytes_cnt = 0 ∨ _
    have hcw : w.io.small_readbytes_cnt = cnt := by rw [hsame]
    have := hr.cnt
    unfold fifo_buf_t.len at hc
    omega

/-- The bytes between the beginning of the buffer and `tail`. -/
lemma slice_contents (io : hio_t) : Bytes.slice io.readbuf.base 0 io.readbuf.tail = io.contents :=
  rfl

lemma took_fixed (hs : Sound setting) (hm : setting.mode = .UNPACK_BY_FIXED_LENGTH)
    (hr : Ready setting io) (hbuf : buf + readbytes = io.readbuf.tail) :
    Took setting io.contents io.packages (hio_unpack_by_fixed_length io setting buf readbytes) := by
  obtain ⟨hlen, -⟩ := hr.fixed hm
  have hpos := (hs.fixed hm).1
  have hhead : head setting = fixedHead setting.fixed_length := by
    funext s
    rw [head, hm]
  obtain ⟨w, hok, hw, hlt, hcnt⟩ := @fixedLoop_spec io 0 io.readbuf.tail
    (io.readbuf.tail + 1) _ hpos (by rw [Nat.zero_add]; exact hr.tail) (Nat.lt_succ_self _)
  obtain ⟨hready, hk, hcon⟩ := hr.keep hw (by rw [Nat.zero_add]; exact hr.tail)
    fun _ => hcnt hlen
  have hnot : ¬ io.readbuf.len < setting.fixed_length := by
    unfold fifo_buf_t.len
    omega
  rw [hio_unpack_by_fixed_length, if_neg hnot, hr.head, hbuf]
  dsimp only
  rw [Nat.sub_zero, hok]
  obtain ⟨qs, hqs, hcut⟩ := hw.cut
  have hsum := hw.sum
  have hwlen : (Bytes.slice io.readbuf.base w.p w.remain).length = w.remain :=
    Bytes.length_slice (by have := hr.tail; omega)
  refine ⟨qs, _, hqs, by rw [hhead]; exact hcut, .inr ⟨hready, ?_, ?_, hcon⟩⟩
  · rw [hk, hlen]
    exact hlt
  · rw [hhead]
    exact fixedHead_of_lt (by omega)

lemma over_limit_same (h : io.closed = false) :
    (over_limit io).packages = io.packages ∧ (over_limit io).closed = true := by
  unfold over_limit hio_close hio_free_readbuf
  dsimp only
  rw [h, if_neg Bool.false_ne_true]
  split <;> exact ⟨rfl, rfl⟩

lemma Ready.base_pos (hr : Ready setting io) (hs : Sound setting)
    (hm : setting.mode ≠ .UNPACK_BY_FIXED_LENGTH) : 0 < io.readbuf.base.length := by
  have hlow := hr.low hm
  have hpos := hs.limit.1
  unfold HLOOP_READ_BUFSIZE at hlow
  omega

section

variable {packages qs : List (List UInt8)} (hr : Ready setting io) (hs : Sound setting)
  (hm : setting.mode ≠ .UNPACK_BY_FIXED_LENGTH) (hqs : io.packages = packages ++ qs)
  (hcut : Frames (head setting) s qs io.contents)

include hr hs hm hqs hcut

lemma took_makeRoom (hend : head setting io.contents =
      if setting.package_max_length ≤ io.readbuf.tail then .stop .overLimit else .incomplete) :
    Took setting s packages (.ok (makeRoom io setting)) := by
  have hpos := hr.base_pos hs hm
  have hlow := hr.low hm
  have hlimit := hr.limit
  have htail := hr.tail
  have hlen : io.readbuf.len = io.readbuf.base.length := rfl
  unfold makeRoom
  by_cases hfull : io.readbuf.tail ≠ 0 ∧ io.readbuf.tail = io.readbuf.len
  · rw [if_pos hfull]
    by_cases hover : setting.package_max_length ≤ io.readbuf.len
    · rw [if_pos hover]
      rw [if_pos (by omega)] at hend
      obtain ⟨hpackages, hclosed⟩ := over_limit_same hr.closed
      exact ⟨qs, _, hpackages.trans hqs, hcut, .inl ⟨hclosed, hend⟩⟩
    · rw [if_neg hover]
      rw [if_neg (by omega)] at hend
      obtain ⟨hr', htail', hcon, hpackages⟩ := hr.alloc hs hm
        (n := min (io.readbuf.len * 2) setting.package_max_length)
        (by omega) (by omega) (by omega)
      exact ⟨qs, _, hpackages.trans hqs, hcut, .inr ⟨hr', htail', hend, hcon⟩⟩
  · rw [if_neg hfull]
    rw [if_neg (by omega)] at hend
    exact ⟨qs, _, hqs, hcut, .inr ⟨hr, by omega, hend, rfl⟩⟩

lemma took_makeRoomFor {n : ℕ} (hend : head setting io.contents = .stop .overLimit ∧
        setting.package_max_length < n ∧ io.readbuf.tail ≠ 0 ∨
      head setting io.contents = .incomplete ∧ n ≤ setting.package_max_length ∧
        (io.readbuf.tail < io.readbuf.base.length ∨ io.readbuf.tail < n)) :
    Took setting s packages (.ok (makeRoomFor io setting n)) := by
  have hpos := hr.base_pos hs hm
  have hlow := hr.low hm
  have hlimit := hr.limit
  have hlen : io.readbuf.len = io.readbuf.base.length := rfl
  unfold makeRoomFor
  obtain ⟨hstop, hover, hne⟩ | ⟨hinc, hle, hroom⟩ := hend
  · rw [if_pos ⟨hne, by omega⟩, if_pos hover]
    obtain ⟨hpackages, hclosed⟩ := over_limit_same hr.closed
    exact ⟨qs, _, hpackages.trans hqs, hcut, .inl ⟨hclosed, hstop⟩⟩
  · by_cases hgrow : io.readbuf.tail ≠ 0 ∧ io.readbuf.len < n
    · have hbig : n ≤ LIMIT n (io.readbuf.len * 2) setting.package_max_length ∧
          LIMIT n (io.readbuf.len * 2) setting.package_max_length ≤
            setting.package_max_length := by
        unfold LIMIT
        split
        · omega
        · split <;> omega
      rw [if_pos hgrow, if_neg (by omega)]
      obtain ⟨hr', htail', hcon, hpackages⟩ := hr.alloc hs hm hbig.2 (by omega) (by omega)
      exact ⟨qs, _, hpackages.trans hqs, hcut, .inr ⟨hr', htail', hinc, hcon⟩⟩
    · rw [if_neg hgrow]
      exact ⟨qs, _, hqs, hcut, .inr ⟨hr, by omega, hinc, rfl⟩⟩

end

/-- Nothing before `buf` but the beginning of a delimiter was there when it was searched. -/
lemma not_delimiter_before {d : List UInt8} {limit j : ℕ} (hd : d ≠ []) (hlen : s.length ≤ limit)
    (hrest : delimiterHead d limit End.overLimit (s.take buf) = .incomplete)
    (hbuf : buf ≤ s.length) (hj : j < buf + 1 - d.length) : ¬ d <+: s.drop j := by
  have htake : (s.take buf).take limit = s.take buf :=
    List.take_of_length_le (by rw [List.length_take]; omega)
  have hnone : firstAt d (s.take buf) = none := by
    cases hi : firstAt d (s.take buf) with
    | none => rfl
    | some i =>
      rw [← htake] at hi
      rw [delimiterHead_some hi] at hrest
      cases hrest
  intro hp
  rw [← List.take_append_drop buf s] at hp
  refine (firstAt_eq_none hd).mp hnone j ((prefix_drop_append ?_).mp hp)
  rw [List.length_take]
  omega

lemma took_delimiter (hs : Sound setting) (hm : setting.mode = .UNPACK_BY_DELIMITER)
    (hr : Ready setting io) (hbuf : buf + readbytes = io.readbuf.tail)
    (hrest : head setting (io.contents.take buf) = .incomplete) :
    Took setting io.contents io.packages (hio_unpack_by_delimiter io setting buf readbytes) := by
  obtain ⟨hbytes, hle⟩ := hs.delimiter hm
  have hfixed : setting.mode ≠ .UNPACK_BY_FIXED_LENGTH := fun h => by cases hm.symm.trans h
  have htail := hr.tail
  have hhead : head setting = delimiterHead (setting.delimiter.take setting.delimiter_bytes)
      setting.package_max_length .overLimit := by
    funext s
    rw [head, hm]
  have hdlen : (setting.delimiter.take setting.delimiter_bytes).length =
      setting.delimiter_bytes := by
    rw [List.length_take]
    omega
  have hd : setting.delimiter.take setting.delimiter_bytes ≠ [] :=
    List.length_pos_iff.mp (by omega)
  have hclen : io.contents.length = io.readbuf.tail := by
    rw [hio_t.contents, List.length_take]
    omega
  have hlimit := hr.limit
  rw [hio_unpack_by_delimiter, hr.head, hbuf, Nat.zero_max]
  have hsum : buf + 1 - setting.delimiter_bytes +
      (io.readbuf.tail - (buf + 1 - setting.delimiter_bytes)) - 0 = io.readbuf.tail := by omega
  obtain ⟨w, hok, hw⟩ := @delimiterLoop_spec io (buf + 1 - setting.delimiter_bytes)
    (io.readbuf.tail - (buf + 1 - setting.delimiter_bytes)) _ _ _ 0 hd (Nat.zero_le _)
    (by omega) hlimit
    (fun j hj => by
      rw [hsum, slice_contents]
      exact not_delimiter_before hd (by omega) (hhead ▸ hrest) (by omega) (by omega))
    (Nat.lt_succ_self _)
  rw [hsum] at hw
  rw [hok]
  obtain ⟨hready, hk, hcon⟩ := hr.keep hw (by omega) fun h => absurd h hfixed
  obtain ⟨qs, hqs, hcut⟩ := hw.cut
  have hwsum := hw.sum
  have hwlen : (Bytes.slice io.readbuf.base w.p w.remain).length = w.remain :=
    Bytes.length_slice (by omega)
  have hend := delimiterHead_of_not_package hcut.not_package
  rw [hwlen] at hend
  rw [← hhead, ← hcon] at hcut hend
  exact took_makeRoom hready hs hfixed hqs hcut hend

lemma took_length (hs : Sound setting) (hm : setting.mode = .UNPACK_BY_LENGTH_FIELD)
    (hr : Ready setting io) (hbuf : buf + readbytes = io.readbuf.tail) :
    Took setting io.contents io.packages
      (hio_unpack_by_length_field io setting buf readbytes) := by
  have hfixed : setting.mode ≠ .UNPACK_BY_FIXED_LENGTH := fun h => by cases hm.symm.trans h
  have htail := hr.tail
  have hhead : head setting = lengthHead setting := by
    funext s
    rw [head, hm]
  rw [hio_unpack_by_length_field, hr.head, hbuf]
  obtain ⟨w, hok, hw, he⟩ | ⟨hok, qs, r, hcut, hstop⟩ := @lengthLoop_spec io 0
    io.readbuf.tail (io.readbuf.tail + 1) _ _ hs hm (by omega) (hr.low hfixed)
    hr.limit (.inl rfl) (Nat.lt_succ_self _)
  · rw [Nat.sub_zero, hok]
    obtain ⟨hready, hk, hcon⟩ := hr.keep hw (by omega) fun h => absurd h hfixed
    obtain ⟨qs, hqs, hcut⟩ := hw.cut
    unfold Ends at he
    rw [← hhead, ← hcon] at hcut he
    dsimp only [Except.map]
    cases hp : w.package_len with
    | none =>
      rw [hp] at he
      have hclosed : w.io.closed = false := hready.closed
      obtain ⟨hpackages, hcl⟩ := over_limit_same hclosed
      exact ⟨qs, _, hpackages.trans hqs, hcut, .inl ⟨hcl, he⟩⟩
    | some n =>
      rw [hp] at he
      refine took_makeRoomFor hready hs hfixed hqs hcut ?_
      rw [hk]
      exact he
  · rw [Nat.sub_zero, hok]
    exact ⟨qs, r, hhead ▸ hcut, hhead ▸ hstop⟩

lemma took_unpack (hs : Sound setting) (hr : Ready setting io)
    (hbuf : buf + readbytes = io.readbuf.tail)
    (hrest : head setting (io.contents.take buf) = .incomplete) :
    Took setting io.contents io.packages (hio_unpack io setting buf readbytes) := by
  unfold hio_unpack
  cases hm : setting.mode with
  | UNPACK_MODE_NONE => exact absurd hm hs.mode
  | UNPACK_BY_FIXED_LENGTH => exact took_fixed hs hm hr hbuf
  | UNPACK_BY_DELIMITER => exact took_delimiter hs hm hr hbuf hrest
  | UNPACK_BY_LENGTH_FIELD => exact took_length hs hm hr hbuf

/-- The bytes that are read come behind those that were left. -/
lemma took_read (hs : Sound setting) (hr : Ready setting io)
    (hroom : io.readbuf.tail < io.readbuf.base.length)
    (hrest : head setting io.contents = .incomplete) {bytes : List UInt8}
    (hfits : fits io bytes = true) :
    Took setting (io.contents ++ bytes) io.packages (nio_read io bytes) := by
  have hlen : io.readbuf.len = io.readbuf.base.length := rfl
  rw [fits, hr.closed, Bool.false_or, Bool.and_eq_true, decide_eq_true_iff,
    decide_eq_true_iff] at hfits
  obtain ⟨hne, hle⟩ := hfits
  unfold nio_read
  rw [if_neg (by rw [hr.closed]; exact Bool.false_ne_true)]
  dsimp only
  rw [if_neg (by omega), if_neg (by omega), if_neg hne]
  have hfits : io.readbuf.tail + bytes.length ≤ io.readbuf.base.length := by
    omega
  obtain ⟨behind, hstored, hblen⟩ : ∃ behind, (if bytes.length < io.readbuf.len -
      io.readbuf.tail then bytes ++ [0] else bytes) = bytes ++ behind ∧
      io.readbuf.tail + (bytes ++ behind).length ≤ io.readbuf.base.length := by
    split
    · exact ⟨[0], rfl, by rw [List.length_append, List.length_singleton]; omega⟩
    · exact ⟨[], (List.append_nil _).symm, by rw [List.append_nil]; exact hfits⟩
  rw [hstored]
  set io' : hio_t := { io with readbuf := { io.readbuf with
    base := Bytes.patch io.readbuf.base io.readbuf.tail (bytes ++ behind)
    tail := io.readbuf.tail + bytes.length } }
  have hbase : io'.readbuf.base.length = io.readbuf.base.length := Bytes.length_patch hblen
  have hcon : io'.contents = io.contents ++ bytes :=
    Bytes.take_patch_append bytes behind hr.tail
  have hr' : Ready setting io' := by
    refine ⟨hr.unpacks, hr.closed, hr.posted, hr.alloced, hr.max, hr.head, ?_, fun hm => ?_,
      fun hm => ?_, ?_, ?_⟩
    · rw [hbase]
      exact hfits
    · rw [hbase]
      exact hr.fixed hm
    · rw [hbase]
      exact hr.low hm
    · rw [hbase]
      exact hr.limit
    · rw [hbase]
      exact hr.cnt
  have hclen : io.contents.length = io.readbuf.tail := by
    rw [hio_t.contents, List.length_take]
    omega
  have htook := @took_unpack _ _ io.readbuf.tail bytes.length hs hr' rfl
    (by rw [hcon, ← hclen, List.take_left]; exact hrest)
  rw [hcon] at htook
  unfold hio_handle_read
  rw [hr'.unpacks]
  exact took_autosize hs htook

/-! ### The stream -/

/-- What the connection came to, after it was given `received`. -/
def Outcome (setting : unpack_setting_t) (received : List UInt8) : Except Stop hio_t → Prop
  | .ok io => ∃ r, Frames (head setting) received io.packages r ∧
      (io.closed = true ∧ head setting r = .stop .overLimit ∨
        Ready setting io ∧ io.readbuf.tail < io.readbuf.base.length ∧
          head setting r = .incomplete ∧ io.contents = r)
  | .error .endless => ∃ ps r, Frames (head setting) received ps r ∧
      head setting r = .stop .endless
  | .error .assertion => False
  | .error .kernel => False

/-- A connection that ended in a loop is not read. -/
lemma outcome_error (hs : Sound setting) {received : List UInt8} {e : Stop}
    (h : Outcome setting received (.error e)) (bytes : List UInt8) :
    Outcome setting (received ++ bytes) (.error e) := by
  have hst := stable_head hs
  cases e with
  | endless =>
    obtain ⟨ps, r, hcut, hstop⟩ := h
    exact ⟨ps, _, hcut.stopped hst hstop bytes, hst.stop bytes hstop⟩
  | assertion => exact h
  | kernel => exact h

lemma outcome_read (hs : Sound setting) {received : List UInt8}
    (h : Outcome setting received (.ok io)) {bytes : List UInt8} (hfits : fits io bytes = true) :
    Outcome setting (received ++ bytes) (nio_read io bytes) := by
  have hst := stable_head hs
  obtain ⟨r, hcut, ⟨hclosed, hstop⟩ | ⟨hr, hroom, hrest, rfl⟩⟩ := h
  · rw [nio_read, if_pos hclosed]
    exact ⟨_, hcut.stopped hst hstop bytes, .inl ⟨hclosed, hst.stop bytes hstop⟩⟩
  · have htook := took_read hs hr hroom hrest hfits
    cases hx : nio_read io bytes with
    | error e =>
      rw [hx] at htook
      cases e with
      | endless =>
        obtain ⟨qs, r, hcut', hstop⟩ := htook
        exact ⟨_, r, hcut.append hst hcut', hstop⟩
      | assertion => exact htook
      | kernel => exact htook
    | ok io' =>
      rw [hx] at htook
      obtain ⟨qs, r, hqs, hcut', hend⟩ := htook
      exact ⟨r, by rw [hqs]; exact hcut.append hst hcut', hend⟩

lemma outcome_run (hs : Sound setting) {received : List UInt8}
    (h : Outcome setting received (.ok io)) {pieces : List (List UInt8)}
    (hfits : Fits io pieces) : Outcome setting (received ++ pieces.flatten) (run io pieces) := by
  induction pieces generalizing io received with
  | nil => exact (List.append_nil received).symm ▸ h
  | cons bytes pieces ih =>
    obtain ⟨hbytes, hpieces⟩ := Transition.check_cons.mp hfits
    have hread := outcome_read hs h hbytes
    rw [List.flatten_cons, ← List.append_assoc, run, List.foldlM_cons]
    cases hx : nio_read io bytes with
    | error e =>
      rw [hx] at hread
      exact outcome_error hs hread pieces.flatten
    | ok io' =>
      rw [hx] at hread
      exact ih hread (hpieces io' (congrArg Except.toOption hx))

/-- One byte at a time always fits. -/
lemma fits_bytes (hs : Sound setting) {received : List UInt8}
    (h : Outcome setting received (.ok io)) (s : List UInt8) : Fits io (s.map fun b => [b]) := by
  induction s generalizing io received with
  | nil => rfl
  | cons b s ih =>
    have hone : fits io [b] = true := by
      obtain ⟨-, -, ⟨hclosed, -⟩ | ⟨-, hroom, -⟩⟩ := h
      · rw [fits, hclosed, Bool.true_or]
      · have hlen : io.readbuf.len = io.readbuf.base.length := rfl
        rw [fits, decide_eq_true (List.cons_ne_nil b []), Bool.true_and, decide_eq_true,
          Bool.or_true]
        rw [List.length_singleton]
        omega
    refine Transition.check_cons.mpr ⟨hone, fun io' hio' => ?_⟩
    have hread := outcome_read hs h hone
    cases hx : nio_read io [b] with
    | error e =>
      rw [hx] at hio'
      cases hio'
    | ok io'' =>
      rw [hx] at hio' hread
      cases hio'
      exact ih hread

end MmrService.Unpack
