import MmrService.HioRun

/-!
A connection comes to its end: the queue is written while the kernel takes some bytes, and a
close that waits is made then.
-/

namespace MmrService.Hio

open Queue

variable {w : world} {rest ps : List offset_buf_t} {p : offset_buf_t}

/-- The connection is writable: the kernel takes up to `n` bytes in a round for each `n`, and
then would block. The callbacks make no calls. -/
def someTaken (ns : List ℕ) : Action := .writable (ns.map fun n => (.taken n, []))

/-- There is nothing to send and nothing to wait for. -/
structure Ended (w w' : world) (close : Bool) : Prop where
  inv : Inv [] w' []
  rest : AtRest [] w' []
  sent : w'.sent = w.accepted
  accepted : w'.accepted = w.accepted
  closed : w'.io.closed = close

namespace Inv

lemma drained_end (i : Inv [] w []) (hc : w.io.closed = false) :
    ∃ w', Hio.drained w = .ok w' ∧ Ended w w' w.io.close := by
  have hsent : w.sent = w.accepted := by
    rw [i.stream hc]
    exact (List.append_nil _).symm
  obtain ⟨w', rest', hok, i', hrest'⟩ := i.drained hc
  refine ⟨w', hok, ?_⟩
  rw [Hio.drained] at hok
  cases hclose : w.io.close with
  | false =>
    rw [hclose] at hok
    obtain rfl := Except.ok.inj hok
    exact ⟨i, fun _ h => Bool.noConfusion (hclose.symm.trans h), hsent, rfl, hc⟩
  | true =>
    have hready : w.io.ready = true := by rw [i.ready, hc]; rfl
    obtain ⟨buf, freed, hshut, -⟩ := hio_close_spec
      (w := { w with io := { w.io with close := false } }) hready hc
      (by rw [waits, i.isEmpty]; rfl) i.queue i.mem
    rw [hclose, if_pos rfl, hshut] at hok
    obtain rfl := Except.ok.inj hok
    obtain ⟨-, rfl, -⟩ := i'.closed rfl
    exact ⟨i', hrest', hsent, rfl, rfl⟩

/-- Nothing more happens to a connection that has nothing to send and nothing to wait for. -/
lemma stays (i : Inv [] w []) (hrest : AtRest [] w []) (events : List (List ℕ)) :
    ∃ w', Hio.run w (events.map someTaken) = .ok w' ∧ Inv [] w' [] ∧ w'.sent = w.sent ∧
      w'.io.closed = w.io.closed := by
  induction events generalizing w with
  | nil => exact ⟨w, rfl, i, rfl, rfl⟩
  | cons ns events ih =>
    rw [List.map_cons, Hio.run, List.foldlM_cons]
    by_cases hw : w.io.writable = true
    · have hc : w.io.closed = false := by
        by_contra hc
        exact Bool.noConfusion (hw.symm.trans (i.closed (eq_true_of_ne_false hc)).2.2)
      have hclose : w.io.close = false := by
        by_contra hclose
        exact hrest hc (eq_true_of_ne_false hclose) rfl
      have hdrained : Hio.drained w.delWrite = .ok w.delWrite := by
        rw [Hio.drained]
        change (if w.io.close = true then _ else _) = _
        rw [hclose]
        rfl
      have hact : Hio.act w (someTaken ns) = .ok w.delWrite := by
        change Hio.hio_handle_events w _ = _
        rw [Hio.hio_handle_events, if_pos hw, i.isEmpty]
        change Hio.nio_write (ns.map _) w.delWrite = _
        cases ns with
        | nil =>
          rw [List.map_nil, Hio.nio_write, (i.delWrite hc).isEmpty]
          exact hdrained
        | cons n ns =>
          rw [List.map_cons, Hio.nio_write, (i.delWrite hc).isEmpty]
          exact hdrained
      rw [hact, ok_bind]
      exact ih (i.delWrite hc) hrest
    · have hact : Hio.act w (someTaken ns) = .ok w := if_neg hw
      rw [hact, ok_bind]
      exact ih i hrest

/-- What is left to be sent: the connection has come to its end, or no more waits than before. -/
def Goes (w w' : world) (size : ℕ) : Prop :=
  w'.accepted = w.accepted ∧ (Ended w w' w.io.close ∨ ∃ q qs, Inv [] w' (q :: qs) ∧
    w'.io.closed = false ∧ w'.io.close = w.io.close ∧ (pending w'.buf (q :: qs)).length ≤ size)

/-- What was done before is part of it. -/
lemma goes_of {w₁ w' : world} {size size' : ℕ} (hacc : w₁.accepted = w.accepted)
    (hclose : w₁.io.close = w.io.close) (hle : size ≤ size') (h : Goes w₁ w' size) :
    Goes w w' size' := by
  obtain ⟨hacc', hend | ⟨q, qs, i, hc, hcl, hlen⟩⟩ := h
  · exact ⟨hacc'.trans hacc, .inl ⟨hend.inv, hend.rest, hend.sent.trans hacc,
      hend.accepted.trans hacc, hend.closed.trans hclose⟩⟩
  · exact ⟨hacc'.trans hacc, .inr ⟨q, qs, i, hc, hcl.trans hclose, hlen.trans hle⟩⟩

/-- The kernel takes some bytes of the first buffers, one after the other: fewer wait then, if it
takes any. -/
lemma taken (i : Inv [] w rest) (hc : w.io.closed = false) {ns : List ℕ} (hns : ∀ n ∈ ns, 0 < n) :
    ∃ w', Hio.nio_write (ns.map fun n => (.taken n, [])) w = .ok w' ∧
      Goes w w' ((pending w.buf rest).length - if ns = [] then 0 else 1) := by
  induction ns generalizing w rest with
  | nil =>
    rw [List.map_nil, Hio.nio_write, i.isEmpty]
    cases rest with
    | nil =>
      obtain ⟨w', hok, hend⟩ := i.drained_end hc
      exact ⟨w', hok, hend.accepted, .inl hend⟩
    | cons p ps => exact ⟨w, rfl, rfl, .inr ⟨p, ps, i, hc, rfl, le_rfl⟩⟩
  | cons n ns ih =>
    have hn := hns n List.mem_cons_self
    rw [List.map_cons, Hio.nio_write, i.isEmpty, if_neg (List.cons_ne_nil n ns)]
    cases rest with
    | nil =>
      obtain ⟨w', hok, hend⟩ := i.drained_end hc
      exact ⟨w', hok, hend.accepted, .inl hend⟩
    | cons p ps =>
      obtain ⟨hload, hpos⟩ := i.load
      rw [if_neg (by simp), front_eq i.queue, ok_bind, hload, ok_bind]
      dsimp only
      rw [if_neg (by omega)]
      split_ifs with hall
      · obtain ⟨w₂, hrelease, i₂, hc₂, hclose, hacc, hpend⟩ := (i.progress_all hc).release
        have hfinish : Hio.finish (Hio.progress w p (Hio.unsent w.buf p)
            (Hio.unsent w.buf p).length) p [] = .ok w₂ := hrelease
        rw [hfinish, ok_bind, hc₂, if_neg Bool.false_ne_true]
        obtain ⟨w', hok, hgoes⟩ := ih i₂ hc₂ fun m hm => hns m (List.mem_cons_of_mem n hm)
        refine ⟨w', hok, goes_of hacc hclose ?_ hgoes⟩
        rw [hpend, pending_cons p, List.length_append]
        change (pending w.buf ps).length - _ ≤ _
        omega
      · have i₁ := i.progress_part hc (lt_of_le_of_ne (Nat.min_le_right n _) hall)
        refine ⟨_, rfl, rfl, .inr ⟨_, ps, i₁, hc, rfl, ?_⟩⟩
        rw [← i₁.size hc, ← i.size hc]
        change w.io.write_bufsize - min n _ ≤ _
        omega

/-- While the kernel takes some bytes each time, all of them are sent in the end. -/
lemma drains (i : Inv [] w rest) (hrest : AtRest [] w rest) (hc : w.io.closed = false)
    {events : List (List ℕ)} (hevents : ∀ ns ∈ events, ns ≠ [] ∧ ∀ n ∈ ns, 0 < n)
    (hlen : (pending w.buf rest).length ≤ events.length) :
    ∃ w', Hio.run w (events.map someTaken) = .ok w' ∧ Inv [] w' [] ∧ w'.sent = w.accepted ∧
      w'.io.closed = w.io.close := by
  have hempty : ∀ {w : world}, Inv [] w [] → AtRest [] w [] → w.io.closed = false →
      w.io.close = false ∧ w.sent = w.accepted := by
    intro w i hrest hc
    refine ⟨?_, ?_⟩
    · by_contra hclose
      exact hrest hc (eq_true_of_ne_false hclose) rfl
    · rw [i.stream hc]
      exact (List.append_nil _).symm
  induction events generalizing w rest with
  | nil =>
    cases rest with
    | nil =>
      obtain ⟨hclose, hsent⟩ := hempty i hrest hc
      exact ⟨w, rfl, i, hsent, hc.trans hclose.symm⟩
    | cons p ps =>
      have hpos := i.load.2
      rw [pending_cons, List.length_append, List.length_nil] at hlen
      omega
  | cons ns events ih =>
    cases rest with
    | nil =>
      obtain ⟨hclose, hsent⟩ := hempty i hrest hc
      obtain ⟨w', hrun, i', hsent', hc'⟩ := i.stays hrest (ns :: events)
      exact ⟨w', hrun, i', hsent'.trans hsent, hc'.trans (hc.trans hclose.symm)⟩
    | cons p ps =>
      obtain ⟨hne, hpos⟩ := hevents ns List.mem_cons_self
      obtain ⟨w₁, hok, hacc, hgoes⟩ := i.taken hc hpos
      rw [if_neg hne] at hgoes
      have hact : Hio.act w (someTaken ns) = .ok w₁ := by
        change Hio.hio_handle_events w _ = _
        rw [Hio.hio_handle_events, if_pos (i.registered hc (List.cons_ne_nil _ _)), i.isEmpty]
        exact hok
      rw [List.map_cons, Hio.run, List.foldlM_cons, hact, ok_bind]
      obtain hend | ⟨q, qs, i₁, hc₁, hclose, hlt⟩ := hgoes
      · obtain ⟨w', hrun, i', hsent, hc'⟩ := hend.inv.stays hend.rest events
        exact ⟨w', hrun, i', hsent.trans hend.sent, hc'.trans hend.closed⟩
      · have hpend := i.load.2
        obtain ⟨w', hrun, i', hsent, hc'⟩ := ih i₁ (fun _ _ => List.cons_ne_nil _ _) hc₁
          (fun ms hms => hevents ms (List.mem_cons_of_mem ns hms)) (by
            rw [List.length_cons] at hlen
            omega)
        exact ⟨w', hrun, i', hsent.trans hacc, hc'.trans hclose⟩

end Inv

/-- **The queue drains.** From every state that a fair run reaches, if the kernel takes at least
one byte whenever the connection is writable, of one buffer or of several, then after as many
times as there are bytes that wait all of them are sent, the queue is empty, and the connection
is closed if a close waited. -/
theorem queue_drains (s_id : ℕ) (as : List Action) (hfair : fairRun (hio_init s_id) as = true)
    (w : world) (h : run (hio_init s_id) as = .ok w) (hopen : w.io.closed = false)
    (events : List (List ℕ)) (hevents : ∀ ns ∈ events, ns ≠ [] ∧ ∀ n ∈ ns, 0 < n)
    (hlen : (pending w.buf w.io.write_queue.elems).length ≤ events.length) :
    ∃ w', run w (events.map someTaken) = .ok w' ∧ w'.sent = w.accepted ∧
      w'.io.write_queue.elems = [] ∧ w'.io.closed = w.io.close := by
  obtain ⟨rest, i, hrest, helems⟩ := exists_inv hfair h
  rw [helems] at hlen
  obtain ⟨w', hrun, i', hsent, hc⟩ := i.drains hrest hopen hevents hlen
  exact ⟨w', hrun, hsent, i'.queue.elems, hc⟩

/-- The kernel takes one byte of three and none of the next two. Then it takes one byte, the rest
of the first buffer with a byte of the second one, and the last byte, while a close waits. -/
theorem queue_drains_five :
    ∃ w w', run (hio_init 0) [.call (.write [1, 2, 3] (.taken 1)), .call (.write [4, 5] .again),
        .call .close] = .ok w ∧
      run w ([[1], [7, 1], [1], [2]].map someTaken) = .ok w' ∧ w'.sent = [1, 2, 3, 4, 5] ∧
        w'.io.closed = true := by
  obtain ⟨w', hrun, hsent, -, hc⟩ := queue_drains 0
    [.call (.write [1, 2, 3] (.taken 1)), .call (.write [4, 5] .again), .call .close] (by decide) _
    rfl rfl [[1], [7, 1], [1], [2]] (by decide) (Nat.le_refl 4)
  exact ⟨_, w', rfl, hrun, hsent, hc⟩

end MmrService.Hio
