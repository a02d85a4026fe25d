import MmrService.HioQueue

/-!
What is written to a connection is sent in order.

While the connection is open, what the program has handed over is what the kernel has taken,
followed by what waits in the queue. What a close drops is lost, and this is nothing unless the
connection met an error or was closed again while it waited.
-/

namespace MmrService.Hio

open Queue

variable {w : world} {held rest : List offset_buf_t} {p : offset_buf_t}

/-- What was handed over is sent or waits, or was lost when the connection was closed. -/
structure Inv (held : List offset_buf_t) (w : world) (rest : List offset_buf_t) : Prop
    extends Core held w rest where
  stream : w.io.closed = false → w.accepted = w.sent ++ pending w.buf rest
  lost : w.io.closed = true → ∃ l, w.accepted = w.sent ++ l ∧
    (w.io.error = 0 → w.io.close = false → l = [])

/-- A connection that is to be closed waits for something. -/
def AtRest (held : List offset_buf_t) (w : world) (rest : List offset_buf_t) : Prop :=
  w.io.closed = false → w.io.close = true → held ++ rest ≠ []

lemma atRest_closed (h : w.io.closed = true) : AtRest held w rest := fun hc =>
  Bool.noConfusion (h.symm.trans hc)

namespace Core

lemma setError (c : Core held w rest) (err : ℕ) : Core held (w.setError err) rest :=
  ⟨c.toBufs, c.ready, c.closed, c.size, c.bound, c.max, c.registered, c.timer, c.destroy⟩

lemma close_async (c : Core held w rest) : Core held (hio_close_async w) rest :=
  ⟨c.toBufs, c.ready, c.closed, c.size, c.bound, c.max, c.registered, c.timer, c.destroy⟩

lemma take (c : Core held w rest) (data : List UInt8) : Core held (w.take data) rest :=
  ⟨c.toBufs, c.ready, c.closed, c.size, c.bound, c.max, c.registered, c.timer, c.destroy⟩

lemma record (c : Core held w rest) {v : world} (buf : List UInt8) (r : ℤ) :
    Core held (record v buf (w, r)) rest :=
  ⟨c.toBufs, c.ready, c.closed, c.size, c.bound, c.max, c.registered, c.timer, c.destroy⟩

lemma addWrite (c : Core held w rest) (hc : w.io.closed = false) : Core held w.addWrite rest :=
  ⟨c.toBufs, c.ready, fun h => Bool.noConfusion (hc.symm.trans h), c.size, c.bound, c.max,
    fun _ _ => rfl, c.timer, c.destroy⟩

lemma isEmpty (c : Core held w rest) : w.io.write_queue.isEmpty = (held ++ rest).isEmpty :=
  c.queue.isEmpty

end Core

/-! ### Writing -/

lemma good_initQueue {q : queue offset_buf_t} {ps : List offset_buf_t} (h : q.Good ps) :
    (initQueue q).Good ps := by
  rw [initQueue]
  split_ifs with h0
  · have hin := h.inside
    have hsize := h.size
    have hps : ps = [] := List.eq_nil_of_length_eq_zero (by omega)
    rw [hps]
    exact queue.Good.init q 4
  · exact h

/-- What a call of `hio_write` does: it hands over `data`, or fails and hands over what the
kernel took. -/
structure Wrote (w w' : world) (rest rest' : List offset_buf_t) (data : List UInt8) (r : ℤ) :
    Prop where
  closed : w'.io.closed = w.io.closed
  close : w'.io.close = w.io.close
  keeps : rest ≠ [] → rest' ≠ []
  handed : ∃ t, w'.sent = w.sent ++ t ∧
    w'.sent ++ pending w'.buf rest' =
      w.sent ++ pending w.buf rest ++ if 0 ≤ r then data else t

/-- The buffers in memory are not where the next one is allocated. -/
lemma Core.alloc_buf (c : Core held w rest) (data : List UInt8) {p : offset_buf_t}
    (hp : p ∈ held ++ rest) : (w.alloc data).buf p.base = w.buf p.base := by
  apply Function.update_of_ne
  intro he
  exact c.mem.notMem_fresh (he ▸ List.mem_map_of_mem hp)

/-- A buffer of its own for what the kernel has not taken. -/
lemma Core.alloc (c : Core held w rest) {data : List UInt8} (hpos : 0 < data.length)
    {q : queue offset_buf_t} (hq : q.Good (held ++ (rest ++ [⟨w.fresh, data.length, 0⟩]))) :
    Bufs held (rest ++ [⟨w.fresh, data.length, 0⟩]) q (w.alloc data).buf (w.fresh + 1) w.freed := by
  refine ⟨hq, ?_, fun p hp => ?_, c.done, fun p hp => ?_, c.one⟩
  · rw [← List.append_assoc, List.map_append]
    exact c.mem.alloc data
  · rw [← List.append_assoc, List.mem_append, List.mem_singleton] at hp
    obtain hp | rfl := hp
    · obtain ⟨d, hd, hlen⟩ := c.stored p hp
      exact ⟨d, (c.alloc_buf data hp).trans hd, hlen⟩
    · exact ⟨data, Function.update_self .., rfl⟩
  · rw [List.mem_append, List.mem_singleton] at hp
    obtain hp | rfl := hp
    · exact c.unsent p hp
    · exact hpos

/-- The buffer is put behind the others. -/
lemma Core.push (c : Core held w rest) (hc : w.io.closed = false) (hreg : w.io.writable = true)
    (data : List UInt8) (hpos : 0 < data.length)
    (hle : w.io.write_bufsize + data.length ≤ w.io.max_write_bufsize) :
    ∃ q, (initQueue w.io.write_queue).push_back ⟨w.fresh, data.length, 0⟩ = some q ∧
      Core held { w.alloc data with
        io := { w.io with
          write_queue := q, write_bufsize := w.io.write_bufsize + data.length } }
        (rest ++ [⟨w.fresh, data.length, 0⟩]) ∧
      pending (w.alloc data).buf (rest ++ [⟨w.fresh, data.length, 0⟩]) =
        pending w.buf rest ++ data := by
  have hsize := c.size hc
  have hmax := c.max
  have hone := c.one
  have hrest := length_le_pending (fun p hp => c.stored p (List.mem_append_right held hp)) c.unsent
  obtain ⟨q, hpush, hgood⟩ := (good_initQueue c.queue).exists_push_back
    (by rw [List.length_append]; omega) ⟨w.fresh, data.length, 0⟩
  rw [List.append_assoc] at hgood
  have hnew : (w.alloc data).buf w.fresh = some data := Function.update_self ..
  have hpend : pending (w.alloc data).buf (rest ++ [⟨w.fresh, data.length, 0⟩]) =
      pending w.buf rest ++ data := by
    rw [pending_append, pending_singleton, unsent_of_stored hnew,
      pending_congr fun p hp => c.alloc_buf data (List.mem_append_right held hp)]
    rfl
  refine ⟨q, hpush, ⟨c.alloc hpos hgood, c.ready, fun h => Bool.noConfusion (hc.symm.trans h),
    fun _ => ?_, ?_, c.max, fun _ _ => hreg, c.timer, c.destroy⟩, hpend⟩
  · change w.io.write_bufsize + data.length = (pending (w.alloc data).buf _).length
    rw [hpend, List.length_append, hsize]
  · change w.io.write_bufsize + data.length < 2 ^ 30
    omega

lemma enqueue_spec (c : Core held w rest) (hc : w.io.closed = false)
    (hreg : w.io.writable = true) (buf : List UInt8) {nwrite : ℕ} (hn : nwrite ≤ buf.length) :
    ∃ w' r rest', enqueue w buf nwrite = .ok (w', r) ∧ Core held w' rest' ∧
      w'.io.closed = w.io.closed ∧ w'.io.close = w.io.close ∧ (rest ≠ [] → rest' ≠ []) ∧
      w'.sent = w.sent ∧
      pending w'.buf rest' = pending w.buf rest ++ if 0 ≤ r then buf.drop nwrite else [] := by
  rw [enqueue]
  split_ifs with hlt hover
  · exact ⟨_, _, rest, rfl, (c.setError _).close_async, rfl, rfl, id, rfl,
      (List.append_nil _).symm⟩
  · have hlen : (buf.drop nwrite).length = buf.length - nwrite := List.length_drop
    obtain ⟨q, hpush, hcore, hpend⟩ := c.push hc hreg (buf.drop nwrite) (by omega) (by omega)
    rw [hlen] at hpush hcore hpend
    dsimp only
    rw [withQueue_eq (w := w.alloc (buf.drop nwrite)) hpush, ok_bind]
    refine ⟨_, _, _, rfl, hcore, rfl, rfl, fun _ => List.append_ne_nil_of_right_ne_nil _ (by simp),
      rfl, ?_⟩
    rw [if_pos (Int.natCast_nonneg nwrite)]
    exact hpend
  · refine ⟨w, _, rest, rfl, c, rfl, rfl, id, rfl, ?_⟩
    rw [if_pos (Int.natCast_nonneg nwrite), List.drop_of_length_le (by omega), List.append_nil]

/-- `hio_write` hands over its bytes, or fails. -/
lemma hio_write_spec (c : Core held w rest) (buf : List UInt8) (answer : Answer) :
    ∃ w' r rest', hio_write w buf answer = .ok (w', r) ∧ Core held w' rest' ∧
      Wrote w w' rest rest' buf r := by
  rw [hio_write.eq_def]
  split_ifs with hclosed hempty
  · exact ⟨w, -1, rest, rfl, c, rfl, rfl, id, [], by simp⟩
  · have hc := eq_false_of_ne_true hclosed
    rw [c.isEmpty, List.isEmpty_iff, List.append_eq_nil_iff] at hempty
    obtain ⟨rfl, rfl⟩ := hempty
    cases answer with
    | failed err =>
      exact ⟨_, _, [], rfl, (c.setError err).close_async, rfl, rfl, id, [], by
        simp [hio_close_async, world.setError]⟩
    | again =>
      obtain ⟨w', r, rest', hok, hcore, hcl, hcs, hkeep, hsent, hpend⟩ :=
        enqueue_spec (c.addWrite hc) hc rfl buf (Nat.zero_le _)
      refine ⟨w', r, rest', hok, hcore, hcl, hcs, hkeep, [], ?_, ?_⟩
      · rw [hsent, List.append_nil]
        rfl
      · rw [hsent, hpend, ← List.append_assoc]
        rfl
    | taken n =>
      dsimp only
      rw [written]
      split_ifs with h0 hall
      · exact ⟨_, _, [], rfl, c.close_async, rfl, rfl, id, [], by
          simp [hio_close_async]⟩
      · refine ⟨_, _, [], rfl, c.take buf, rfl, rfl, id, buf, rfl, ?_⟩
        rw [if_pos (Int.natCast_nonneg _)]
        change w.sent ++ buf ++ [] = w.sent ++ [] ++ buf
        rw [List.append_nil, List.append_nil]
      · obtain ⟨w', r, rest', hok, hcore, hcl, hcs, hkeep, hsent, hpend⟩ :=
          enqueue_spec ((c.take (buf.take (min n buf.length))).addWrite hc) hc rfl
            buf (Nat.min_le_right n _)
        refine ⟨w', r, rest', hok, hcore, hcl, hcs, hkeep, buf.take (min n buf.length), hsent, ?_⟩
        rw [hsent, hpend]
        change w.sent ++ buf.take _ ++ ([] ++ _) = w.sent ++ [] ++ _
        rw [List.nil_append, List.append_nil, List.append_assoc]
        congr 1
        split_ifs
        · rw [List.take_append_drop]
        · rw [List.append_nil]
  · have hc := eq_false_of_ne_true hclosed
    rw [c.isEmpty, List.isEmpty_iff] at hempty
    obtain ⟨w', r, rest', hok, hcore, hcl, hcs, hkeep, hsent, hpend⟩ :=
      enqueue_spec c hc (c.registered hc hempty) buf (Nat.zero_le _)
    refine ⟨w', r, rest', hok, hcore, hcl, hcs, hkeep, [], ?_, ?_⟩
    · rw [hsent, List.append_nil]
    · rw [hsent, hpend, ← List.append_assoc]
      rfl

namespace Inv

lemma write (i : Inv held w rest) (buf : List UInt8) (answer : Answer) :
    ∃ w' rest', (hio_write w buf answer).map (record w buf) = .ok w' ∧ Inv held w' rest' ∧
      (AtRest held w rest → AtRest held w' rest') := by
  obtain ⟨w', r, rest', hok, c, hcl, hcs, hkeep, t, hsent, hhand⟩ :=
    hio_write_spec i.toCore buf answer
  have htook : w'.sent.drop w.sent.length = t := by rw [hsent, List.drop_left]
  refine ⟨record w buf (w', r), rest', by rw [hok]; rfl, ⟨c.record buf r, ?_, ?_⟩, ?_⟩
  · intro hc
    change w.accepted ++ _ = w'.sent ++ pending w'.buf rest'
    rw [hhand, i.stream (hcl.symm.trans hc), htook]
  · intro hc
    rw [hio_write.eq_def, if_pos (hcl.symm.trans hc)] at hok
    obtain ⟨rfl, rfl⟩ := Prod.mk.inj (Except.ok.inj hok)
    obtain ⟨l, hl, hlost⟩ := i.lost hc
    refine ⟨l, ?_, hlost⟩
    change w.accepted ++ (if (0 : ℤ) ≤ -1 then buf else w.sent.drop w.sent.length) = w.sent ++ l
    rw [if_neg (by decide), List.drop_length, List.append_nil, hl]
  · intro hrest hc hclose hnil
    obtain ⟨rfl, hnil⟩ := List.append_eq_nil_iff.mp hnil
    exact hkeep (hrest (hcl.symm.trans hc) (hcs.symm.trans hclose)) hnil

/-! ### Closing -/

lemma wait (i : Inv held w rest) (hw : waits w.io = true) :
    Inv held { w with io := { w.io with close := true, close_timer := true } } rest := by
  have herr : w.io.error = 0 ∧ w.io.close = false := by
    simp only [waits, Bool.and_eq_true, beq_iff_eq, Bool.not_eq_true'] at hw
    exact ⟨hw.1.1.2, hw.1.2⟩
  refine ⟨⟨i.toBufs, i.ready, i.closed, i.size, i.bound, i.max, i.registered, fun _ _ => rfl,
    i.destroy⟩, i.stream, fun hc => ?_⟩
  obtain ⟨l, hl, hlost⟩ := i.lost hc
  exact ⟨l, hl, fun _ h => Bool.noConfusion h⟩

/-- The connection is closed at once, which frees the buffers. -/
lemma shut (i : Inv [] w rest) (hc : w.io.closed = false) (hw : waits w.io = false) :
    ∃ w', hio_close w = .ok w' ∧ Inv [] w' [] ∧ w'.io.closed = true := by
  have hready : w.io.ready = true := by rw [i.ready, hc]; rfl
  obtain ⟨buf, freed, hok, hmem⟩ := hio_close_spec hready hc hw i.queue i.mem
  have hnone : ∀ P : offset_buf_t → Prop, ∀ p ∈ ([] : List offset_buf_t), P p :=
    fun _ p hp => absurd hp List.not_mem_nil
  refine ⟨_, hok, ⟨⟨⟨queue.good_zeroed, hmem, hnone _, hnone _, hnone _, Nat.zero_le _⟩, rfl,
    fun _ => ⟨rfl, rfl, rfl⟩, fun h => Bool.noConfusion h, i.bound, i.max,
    fun h => Bool.noConfusion h, fun h => Bool.noConfusion h, i.destroy⟩,
    fun h => Bool.noConfusion h, fun _ => ⟨pending w.buf rest, i.stream hc, ?_⟩⟩, rfl⟩
  -- without an error and a close before it, the queue is empty
  intro herr hclose
  change w.io.error = 0 at herr
  change w.io.close = false at hclose
  rw [waits, i.isEmpty, herr, hclose, i.destroy] at hw
  cases rest with
  | nil => rfl
  | cons p ps => exact Bool.noConfusion hw

lemma hio_close (i : Inv [] w rest) :
    ∃ w' rest', hio_close w = .ok w' ∧ Inv [] w' rest' ∧ AtRest [] w' rest' := by
  cases hc : w.io.closed with
  | true => exact ⟨w, rest, by rw [Hio.hio_close, if_pos hc], i, atRest_closed hc⟩
  | false =>
    cases hw : waits w.io with
    | true =>
      refine ⟨_, rest, ?_, i.wait hw, fun _ _ hnil => ?_⟩
      · rw [Hio.hio_close, hc, if_neg Bool.false_ne_true, hw, if_pos rfl]
      · rw [waits, i.isEmpty, hnil] at hw
        exact Bool.noConfusion hw
    | false =>
      obtain ⟨w', hok, i', hc'⟩ := i.shut hc hw
      exact ⟨w', [], hok, i', atRest_closed hc'⟩

lemma setError (i : Inv held w rest) {err : ℕ} (herr : w.io.closed = true → err ≠ 0) :
    Inv held (w.setError err) rest := by
  refine ⟨i.toCore.setError err, i.stream, fun hc => ?_⟩
  obtain ⟨l, hl, -⟩ := i.lost hc
  exact ⟨l, hl, fun h0 => absurd h0 (herr hc)⟩

lemma close_async (i : Inv held w rest) : Inv held (hio_close_async w) rest :=
  ⟨i.toCore.close_async, i.stream, i.lost⟩

/-! ### Calls -/

lemma call (i : Inv held w rest) (c : Call) (hc : held = [] ∨ gentle w c = true) :
    call w c = .error .misuse ∨
      ∃ w' rest', call w c = .ok w' ∧ Inv held w' rest' ∧
        (AtRest held w rest → AtRest held w' rest') := by
  cases c with
  | write buf answer =>
    rw [Hio.call]
    split_ifs
    · exact .inr (i.write buf answer)
    · exact .inl rfl
  | close =>
    refine .inr ?_
    cases held with
    | nil =>
      obtain ⟨w', rest', hok, i', hrest⟩ := i.hio_close
      exact ⟨w', rest', hok, i', fun _ => hrest⟩
    | cons p ps =>
      have hopen : w.io.closed = false := by
        by_contra hcl
        exact List.cons_ne_nil _ _ (i.closed (eq_true_of_ne_false hcl)).1
      have hw : waits w.io = true := by
        have hgentle := hc.resolve_left (List.cons_ne_nil p ps)
        rwa [gentle, hopen, Bool.false_or] at hgentle
      refine ⟨_, rest, ?_, i.wait hw, ?_⟩
      · rw [Hio.call, Hio.hio_close, hopen, if_neg Bool.false_ne_true, hw, if_pos rfl]
      · exact fun _ _ _ => List.cons_ne_nil _ _
  | close_async => exact .inr ⟨_, rest, rfl, i.close_async, id⟩
  | set_max_write_bufsize size =>
    rw [Hio.call]
    split_ifs with hsize
    · exact .inr ⟨_, rest, rfl, ⟨⟨i.toBufs, i.ready, i.closed, i.size, i.bound, hsize,
        i.registered, i.timer, i.destroy⟩, i.stream, i.lost⟩, id⟩
    · exact .inl rfl

lemma calls (i : Inv held w rest) (cs : List Call) (hcs : held = [] ∨ gentleCalls w cs = true) :
    calls w cs = .error .misuse ∨
      ∃ w' rest', calls w cs = .ok w' ∧ Inv held w' rest' ∧
        (AtRest held w rest → AtRest held w' rest') := by
  induction cs generalizing w rest with
  | nil => exact .inr ⟨w, rest, rfl, i, id⟩
  | cons c cs ih =>
    rw [Hio.calls, List.foldlM_cons]
    obtain hmis | ⟨w₁, rest₁, hok, i₁, hrest₁⟩ :=
      i.call c (hcs.imp_right fun h => (Transition.check_cons.mp h).1)
    · exact .inl (by rw [hmis]; rfl)
    · rw [hok, ok_bind]
      obtain hmis | ⟨w₂, rest₂, hok₂, i₂, hrest₂⟩ := ih i₁ (hcs.imp_right fun h =>
        (Transition.check_cons.mp h).2 w₁ (congrArg Except.toOption hok))
      · exact .inl hmis
      · exact .inr ⟨w₂, rest₂, hok₂, i₂, fun h => hrest₂ (hrest₁ h)⟩

end Inv

end MmrService.Hio
