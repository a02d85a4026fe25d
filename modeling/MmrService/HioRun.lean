import MmrService.HioStream

/-!
Runs of a connection: the loop that writes the queue, and everything else that happens to it.
-/

namespace MmrService.Hio

open Queue

variable {w : world} {held rest ps : List offset_buf_t} {p : offset_buf_t}

namespace Inv

/-! ### The loop that writes the queue -/

/-- What is left of the first buffer is loaded, and it is not empty. -/
lemma load (i : Inv [] w (p :: ps)) :
    w.load p = .ok (unsent w.buf p) ∧ 0 < (unsent w.buf p).length := by
  have hlt := i.unsent p List.mem_cons_self
  have hstored := i.stored p List.mem_cons_self
  constructor
  · obtain ⟨data, hdata, hlen⟩ := hstored
    rw [world.load, hdata, Option.elim_some, if_pos ⟨hlt.le, hlen.ge⟩, unsent_of_stored hdata,
      List.take_of_length_le hlen.le]
  · rw [length_unsent hstored]
    omega

/-- The kernel takes `nwrite` bytes of the first buffer, which is held if these are all. -/
lemma progress (i : Inv [] w (p :: ps)) (hc : w.io.closed = false) {nwrite : ℕ}
    (hn : nwrite ≤ (Hio.unsent w.buf p).length) {held' rest' : List offset_buf_t}
    (happ : held' ++ rest' = { p with offset := p.offset + nwrite } :: ps)
    (hdone : ∀ p ∈ held', p.offset = p.len) (hunsent : ∀ p ∈ rest', p.offset < p.len)
    (hone : held'.length ≤ 1)
    (hpend : pending w.buf rest' = (Hio.unsent w.buf p).drop nwrite ++ pending w.buf ps) :
    Inv held' (Hio.progress w p (Hio.unsent w.buf p) nwrite) rest' := by
  have hsize := i.size hc
  have hstream := i.stream hc
  rw [pending_cons, List.length_append] at hsize
  rw [pending_cons] at hstream
  refine ⟨⟨⟨?_, ?_, ?_, hdone, hunsent, hone⟩, i.ready, fun h => ?_, fun _ => ?_, ?_, i.max,
    fun _ _ => i.registered hc (List.cons_ne_nil _ _), i.timer, i.destroy⟩, fun _ => ?_,
    fun h => ?_⟩
  · rw [happ]
    exact i.queue.setFront _
  · rw [happ]
    exact i.mem
  · rw [happ]
    intro q hq
    obtain rfl | hq := List.mem_cons.mp hq
    · exact i.stored p List.mem_cons_self
    · exact i.stored q (List.mem_cons_of_mem p hq)
  · exact Bool.noConfusion (hc.symm.trans h)
  · change w.io.write_bufsize - nwrite = (pending w.buf rest').length
    rw [hpend, List.length_append, List.length_drop, hsize]
    omega
  · exact lt_of_le_of_lt (Nat.sub_le _ _) i.bound
  · change w.accepted = w.sent ++ (Hio.unsent w.buf p).take nwrite ++ pending w.buf rest'
    rw [hpend, hstream, List.append_assoc, ← List.append_assoc (List.take _ _),
      List.take_append_drop]
  · exact Bool.noConfusion (hc.symm.trans h)

/-- The first buffer was written to its end. -/
lemma progress_all (i : Inv [] w (p :: ps)) (hc : w.io.closed = false) :
    Inv [{ p with offset := p.len }]
      (Hio.progress w p (Hio.unsent w.buf p) (Hio.unsent w.buf p).length) ps := by
  have hlt := i.unsent p List.mem_cons_self
  have hend : p.offset + (Hio.unsent w.buf p).length = p.len := by
    rw [length_unsent (i.stored p List.mem_cons_self)]
    omega
  refine i.progress hc le_rfl (by rw [hend]; rfl) ?_
    (fun q hq => i.unsent q (List.mem_cons_of_mem p hq)) le_rfl ?_
  · intro q hq
    rw [List.mem_singleton.mp hq]
  · rw [List.drop_length, List.nil_append]

/-- The first buffer was written in part. -/
lemma progress_part (i : Inv [] w (p :: ps)) (hc : w.io.closed = false) {nwrite : ℕ}
    (hn : nwrite < (Hio.unsent w.buf p).length) :
    Inv [] (Hio.progress w p (Hio.unsent w.buf p) nwrite)
      ({ p with offset := p.offset + nwrite } :: ps) := by
  have hstored := i.stored p List.mem_cons_self
  have hlen := length_unsent hstored
  refine i.progress hc hn.le rfl (fun q hq => absurd hq List.not_mem_nil) ?_ (Nat.zero_le 1) ?_
  · intro q hq
    obtain rfl | hq := List.mem_cons.mp hq
    · change p.offset + nwrite < p.len
      omega
    · exact i.unsent q (List.mem_cons_of_mem p hq)
  · rw [pending_cons, Hio.unsent, Hio.unsent, List.drop_drop]

/-- The buffer that was held is freed and taken out of the queue. -/
lemma release (i : Inv [p] w rest) :
    ∃ w', (w.free p.base >>= fun w => w.withQueue queue.pop_front) = .ok w' ∧ Inv [] w' rest ∧
      w'.io.closed = false ∧ w'.io.close = w.io.close ∧ w'.accepted = w.accepted ∧
      pending w'.buf rest = pending w.buf rest := by
  have hc : w.io.closed = false := by
    by_contra hc
    exact List.cons_ne_nil _ _ (i.closed (eq_true_of_ne_false hc)).1
  obtain ⟨q, hpop, hgood⟩ := Core.pop rest i.queue i.mem
  have hm := i.mem.free
  have hsame : ∀ q ∈ rest, Function.update w.buf p.base none q.base = w.buf q.base := by
    intro q hq
    apply Function.update_of_ne
    intro he
    exact (List.nodup_cons.mp i.mem.nodup).1 (he ▸ List.mem_map_of_mem hq)
  have hpend := pending_congr hsame
  refine ⟨_, hpop, ⟨⟨⟨hgood, hm, ?_, fun q hq => absurd hq List.not_mem_nil,
    i.unsent, Nat.zero_le 1⟩, i.ready, fun h => Bool.noConfusion (hc.symm.trans h), fun _ => ?_,
    i.bound, i.max, fun _ _ => i.registered hc (List.cons_ne_nil _ _), i.timer, i.destroy⟩,
    fun _ => ?_, fun h => Bool.noConfusion (hc.symm.trans h)⟩, hc, rfl, rfl, hpend⟩
  · intro q hq
    obtain ⟨data, hdata, hlen⟩ := i.stored q (List.mem_cons_of_mem p hq)
    exact ⟨data, (hsame q hq).trans hdata, hlen⟩
  · exact (i.size hc).trans (congrArg List.length hpend.symm)
  · exact (i.stream hc).trans (congrArg (w.sent ++ ·) hpend.symm)

/-- The queue is empty: a close that waits is made. -/
lemma drained (i : Inv [] w []) (hc : w.io.closed = false) :
    ∃ w' rest', drained w = .ok w' ∧ Inv [] w' rest' ∧ AtRest [] w' rest' := by
  rw [Hio.drained]
  split_ifs with hclose
  · have i' : Inv [] { w with io := { w.io with close := false } } [] :=
      ⟨⟨i.toBufs, i.ready, i.closed, i.size, i.bound, i.max, i.registered,
        fun _ h => Bool.noConfusion h, i.destroy⟩, i.stream,
        fun h => Bool.noConfusion (hc.symm.trans h)⟩
    exact i'.hio_close
  · exact ⟨w, [], rfl, i, fun _ h => absurd h hclose⟩

/-- The callback of a buffer that was written to its end is called, and the buffer is freed. -/
lemma finish (i : Inv [p] w rest) (cs : List Call) (hcs : gentleCalls w cs = true) :
    finish w p cs = .error .misuse ∨
      ∃ w' rest', finish w p cs = .ok w' ∧ Inv [] w' rest' ∧ w'.io.closed = false := by
  rw [Hio.finish]
  obtain hmis | ⟨w₁, rest₁, hok, i₁, -⟩ := i.calls cs (.inr hcs)
  · exact .inl (by rw [hmis]; rfl)
  · obtain ⟨w₂, hrelease, i₂, hc₂, -⟩ := i₁.release
    exact .inr ⟨w₂, rest₁, by rw [hok, ok_bind, hrelease], i₂, hc₂⟩

/-- The kernel takes all that is left of the first buffer. -/
lemma atEnd (i : Inv [] w (p :: ps)) {n : ℕ} (hn : (Hio.unsent w.buf p).length ≤ n) :
    atEnd w (.taken n) =
      some (p, Hio.progress w p (Hio.unsent w.buf p) (Hio.unsent w.buf p).length) := by
  have hfront : w.io.write_queue.front = some p := i.queue.front
  rw [Hio.atEnd, hfront]
  change ((w.load p).toOption.bind fun data => _) = _
  rw [i.load.1]
  exact if_pos hn

/-- The loop that writes the queue. -/
lemma nio_write (i : Inv [] w rest) (hc : w.io.closed = false)
    (rounds : List (Answer × List Call)) (hfair : fairRounds rounds w = true) :
    nio_write rounds w = .error .misuse ∨
      ∃ w' rest', nio_write rounds w = .ok w' ∧ Inv [] w' rest' ∧ AtRest [] w' rest' := by
  induction rounds generalizing w rest with
  | nil =>
    rw [Hio.nio_write, i.isEmpty]
    cases rest with
    | nil => exact .inr (i.drained hc)
    | cons p ps => exact .inr ⟨w, p :: ps, rfl, i, fun _ _ => List.cons_ne_nil _ _⟩
  | cons round rounds ih =>
    obtain ⟨answer, cs⟩ := round
    rw [Hio.nio_write, i.isEmpty]
    cases rest with
    | nil => exact .inr (i.drained hc)
    | cons p ps =>
      obtain ⟨hload, hpos⟩ := i.load
      have hrest : AtRest [] w (p :: ps) := fun _ _ => List.cons_ne_nil _ _
      rw [if_neg (by simp), front_eq i.queue, ok_bind, hload, ok_bind]
      cases answer with
      | again => exact .inr ⟨w, p :: ps, rfl, i, hrest⟩
      | failed err => exact .inr (i.setError fun h => Bool.noConfusion (hc.symm.trans h)).hio_close
      | taken n =>
        dsimp only
        split_ifs with h0 hall
        · exact .inr i.hio_close
        · rw [fairRounds, i.atEnd (by omega), Option.all_some, Bool.and_eq_true] at hfair
          obtain hmis | ⟨w₁, rest₁, hok, i₁, hc₁⟩ := (i.progress_all hc).finish cs hfair.1
          · refine .inl ?_
            change Hio.finish _ p cs = _ at hmis
            rw [hmis]
            rfl
          · change Hio.finish _ p cs = _ at hok
            rw [hok] at hfair ⊢
            rw [ok_bind, hc₁]
            exact ih i₁ hc₁ hfair.2
        · obtain hmis | ⟨w₁, rest₁, hok, i₁, hrest₁⟩ := (i.progress_part hc
            (lt_of_le_of_ne (Nat.min_le_right n _) hall)).calls cs (.inl rfl)
          · exact .inl hmis
          · exact .inr ⟨w₁, rest₁, hok, i₁, hrest₁ fun _ _ => List.cons_ne_nil _ _⟩

/-! ### Runs -/

/-- With nothing to send, the loop need not call back. -/
lemma delWrite (i : Inv [] w []) (hc : w.io.closed = false) : Inv [] w.delWrite [] :=
  ⟨⟨i.toBufs, i.ready, fun h => Bool.noConfusion (hc.symm.trans h), i.size, i.bound, i.max,
    fun _ h => absurd rfl h, i.timer, i.destroy⟩, i.stream, i.lost⟩

lemma hio_handle_events (i : Inv [] w rest) (hrest : AtRest [] w rest)
    (rounds : List (Answer × List Call))
    (hfair : w.io.writable = true → fairRounds rounds w = true) :
    hio_handle_events w rounds = .error .misuse ∨
      ∃ w' rest', hio_handle_events w rounds = .ok w' ∧ Inv [] w' rest' ∧ AtRest [] w' rest' := by
  rw [Hio.hio_handle_events]
  split_ifs with hw hempty
  · have hc : w.io.closed = false := by
      by_contra hc
      exact Bool.noConfusion (hw.symm.trans (i.closed (eq_true_of_ne_false hc)).2.2)
    rw [i.isEmpty, List.isEmpty_iff, List.nil_append] at hempty
    subst hempty
    refine (i.delWrite hc).nio_write hc rounds ?_
    cases rounds with
    | nil => rfl
    | cons round rounds =>
      have hnone : w.io.write_queue.front = none := i.queue.front
      have hend : Hio.atEnd w.delWrite round.1 = none := by
        cases round.1 with
        | taken n =>
          change (w.io.write_queue.front.bind fun pbuf => _) = none
          rw [hnone]
          rfl
        | again => rfl
        | failed err => rfl
      rw [fairRounds, hend]
      rfl
  · refine i.nio_write ?_ rounds (hfair hw)
    by_contra hc
    exact Bool.noConfusion (hw.symm.trans (i.closed (eq_true_of_ne_false hc)).2.2)
  · exact .inr ⟨w, rest, rfl, i, hrest⟩

/-- A connection that is closed is made ready for another one. -/
lemma hio_ready (i : Inv [] w rest) (hrest : AtRest [] w rest) :
    ∃ rest', Inv [] (hio_ready w) rest' ∧ AtRest [] (hio_ready w) rest' := by
  rw [Hio.hio_ready]
  split_ifs with hready
  · exact ⟨rest, i, hrest⟩
  · have hc : w.io.closed = true := by
      have := i.ready
      by_contra hc
      rw [eq_false_of_ne_true hc] at this
      exact hready this
    obtain ⟨-, rfl, -⟩ := i.closed hc
    have hmax : MAX_WRITE_BUFSIZE < 2 ^ 30 := by decide
    refine ⟨[], ⟨⟨i.toBufs, rfl,
      fun h => Bool.noConfusion h, fun _ => rfl, Nat.two_pow_pos 30, hmax,
      fun _ h => absurd rfl h, fun _ h => Bool.noConfusion h, i.destroy⟩, fun _ => rfl,
      fun h => Bool.noConfusion h⟩, fun _ h => Bool.noConfusion h⟩

lemma act (i : Inv [] w rest) (hrest : AtRest [] w rest) (a : Action)
    (hfair : fairAct w a = true) :
    act w a = .error .misuse ∨
      ∃ w' rest', act w a = .ok w' ∧ Inv [] w' rest' ∧ AtRest [] w' rest' := by
  cases a with
  | call c =>
    obtain hmis | ⟨w', rest', hok, i', hrest'⟩ := i.call c (.inl rfl)
    · exact .inl hmis
    · exact .inr ⟨w', rest', hok, i', hrest' hrest⟩
  | writable rounds =>
    refine i.hio_handle_events hrest rounds fun hw => ?_
    rw [fairAct, hw] at hfair
    exact hfair
  | close_event =>
    refine .inr ?_
    rw [Hio.act, hio_close_event_cb.eq_def]
    cases hposted : w.posted with
    | nil => exact ⟨w, rest, rfl, i, hrest⟩
    | cons id posted =>
      have i' : Inv [] { w with posted := posted } rest := ⟨⟨i.toBufs, i.ready, i.closed, i.size,
        i.bound, i.max, i.registered, i.timer, i.destroy⟩, i.stream, i.lost⟩
      dsimp only
      split_ifs
      · exact i'.hio_close
      · exact ⟨_, rest, rfl, i', hrest⟩
  | close_timeout =>
    refine .inr ?_
    rw [Hio.act, close_timeout_cb]
    split_ifs with htimer
    · exact (i.setError fun _ => by decide).hio_close
    · exact ⟨w, rest, rfl, i, hrest⟩
  | read_error err =>
    refine .inr ?_
    rw [Hio.act, Hio.read_error]
    split_ifs with hc
    · exact ⟨w, rest, rfl, i, hrest⟩
    · cases err with
      | none => exact i.hio_close
      | some err => exact (i.setError fun h => absurd h hc).hio_close
  | ready =>
    obtain ⟨rest', i', hrest'⟩ := i.hio_ready hrest
    exact .inr ⟨_, rest', rfl, i', hrest'⟩

lemma run (i : Inv [] w rest) (hrest : AtRest [] w rest) (as : List Action)
    (hfair : fairRun w as = true) :
    run w as = .error .misuse ∨
      ∃ w' rest', run w as = .ok w' ∧ Inv [] w' rest' ∧ AtRest [] w' rest' := by
  induction as generalizing w rest with
  | nil => exact .inr ⟨w, rest, rfl, i, hrest⟩
  | cons a as ih =>
    obtain ⟨ha, hrun⟩ := Transition.check_cons.mp hfair
    rw [Hio.run, List.foldlM_cons]
    obtain hmis | ⟨w₁, rest₁, hok, i₁, hrest₁⟩ := i.act hrest a ha
    · rw [hmis]
      exact .inl rfl
    · rw [hok, ok_bind]
      exact ih i₁ hrest₁ (hrun w₁ (congrArg Except.toOption hok))

end Inv

lemma inv_init (s_id : ℕ) : Inv [] (hio_init s_id) [] ∧ AtRest [] (hio_init s_id) [] := by
  have hnone : ∀ P : offset_buf_t → Prop, ∀ p ∈ ([] : List offset_buf_t), P p :=
    fun _ p hp => absurd hp List.not_mem_nil
  have hmax : MAX_WRITE_BUFSIZE < 2 ^ 30 := by decide
  exact ⟨⟨⟨⟨queue.good_zeroed, Mem.init, hnone _, hnone _, hnone _, Nat.zero_le _⟩, rfl,
    fun h => Bool.noConfusion h, fun _ => rfl, Nat.two_pow_pos 30, hmax, fun _ h => absurd rfl h,
    fun _ h => Bool.noConfusion h, rfl⟩, fun _ => rfl, fun h => Bool.noConfusion h⟩,
    fun _ h => Bool.noConfusion h⟩

lemma exists_inv {s_id : ℕ} {as : List Action} (hfair : fairRun (hio_init s_id) as = true)
    (h : run (hio_init s_id) as = .ok w) :
    ∃ rest, Inv [] w rest ∧ AtRest [] w rest ∧ w.io.write_queue.elems = rest := by
  obtain hmis | ⟨w', rest, hok, i, hrest⟩ := (inv_init s_id).1.run (inv_init s_id).2 as hfair
  · rw [hmis] at h
    cases h
  · rw [hok] at h
    obtain rfl := Except.ok.inj h
    exact ⟨rest, i, hrest, i.queue.elems⟩

/-- The second close in the callback of a buffer frees it, and the loop frees it again. -/
example :
    fairRun (hio_init 0) [.call (.write [1, 2] (.taken 1)),
        .writable [(.taken 1, [.close, .close])]] = false ∧
      run (hio_init 0) [.call (.write [1, 2] (.taken 1)),
        .writable [(.taken 1, [.close, .close])]] = .error .fault := ⟨by decide, rfl⟩

end MmrService.Hio
