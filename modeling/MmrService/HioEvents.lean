import MmrService.Hio

/-!
Events of an earlier connection do not close a later one.

What is posted comes behind the events that were posted before, with the id that the connection
has then. A connection that is made ready again has an id that no earlier one had.
-/

namespace MmrService.Hio

variable {w w' v : world}

/-! ### What is posted -/

/-- Events are posted for the connection as it is, which stays that one. -/
structure Posts (w w' : world) : Prop where
  posted : ∃ n, w'.posted = w.posted ++ List.replicate n w.io.id
  id : w'.io.id = w.io.id
  s_id : w'.s_id = w.s_id

namespace Posts

lemma none (hposted : w'.posted = w.posted) (hid : w'.io.id = w.io.id) (hs : w'.s_id = w.s_id) :
    Posts w w' := ⟨⟨0, by rw [hposted, List.replicate_zero, List.append_nil]⟩, hid, hs⟩

lemma refl (w : world) : Posts w w := none rfl rfl rfl

lemma trans (h : Posts w w') (h' : Posts w' v) : Posts w v := by
  obtain ⟨n, hn⟩ := h.posted
  obtain ⟨m, hm⟩ := h'.posted
  refine ⟨⟨n + m, ?_⟩, h'.id.trans h.id, h'.s_id.trans h.s_id⟩
  rw [hm, hn, h.id, List.append_assoc, List.replicate_append_replicate]

/-- From a world that was changed in what is not told of here. -/
lemma of_eq (h : Posts w' v) (hposted : w'.posted = w.posted) (hid : w'.io.id = w.io.id)
    (hs : w'.s_id = w.s_id) : Posts w v := (none hposted hid hs).trans h

lemma close_async (w : world) : Posts w (hio_close_async w) := ⟨⟨1, rfl⟩, rfl, rfl⟩

end Posts

/-- Where the call comes through, it has posted such events. -/
def Posting (w : world) (x : Except Stop world) : Prop := ∀ w', x = .ok w' → Posts w w'

lemma posting_ok (h : Posts w w') : Posting w (.ok w') := by
  rintro _ ⟨⟩
  exact h

lemma posting_error (e : Stop) : Posting w (.error e) := nofun

lemma Posting.bind {x : Except Stop world} {f : world → Except Stop world} (hx : Posting w x)
    (hf : ∀ w', Posts w w' → Posting w' (f w')) : Posting w (x >>= f) := by
  intro v hv
  cases x with
  | error e => cases hv
  | ok w' => exact (hx w' rfl).trans (hf w' (hx w' rfl) v hv)

lemma Posting.of_eq {x : Except Stop world} (h : Posting w' x) (hposted : w'.posted = w.posted)
    (hid : w'.io.id = w.io.id) (hs : w'.s_id = w.s_id) : Posting w x :=
  fun v hv => (h v hv).of_eq hposted hid hs

lemma posting_elim {α : Type} {o : Option α} {f : α → world} (hf : ∀ a, Posts w (f a)) :
    Posting w (o.elim (.error .fault) fun a => .ok (f a)) := by
  cases o with
  | none => exact posting_error _
  | some a => exact posting_ok (hf a)

lemma posting_free (w : world) (base : ℕ) : Posting w (w.free base) := by
  rw [world.free]
  split_ifs
  · exact posting_error _
  · exact posting_ok (.none rfl rfl rfl)

lemma posting_withQueue (w : world)
    (f : Queue.queue offset_buf_t → Option (Queue.queue offset_buf_t)) :
    Posting w (w.withQueue f) := posting_elim fun _ => .none rfl rfl rfl

lemma posting_freeQueue (n : ℕ) (w : world) : Posting w (freeQueue n w) := by
  induction n generalizing w with
  | zero =>
    rw [freeQueue]
    split_ifs
    · exact posting_ok (.refl w)
    · exact posting_error _
  | succ n ih =>
    rw [freeQueue]
    split_ifs
    · exact posting_ok (.refl w)
    · cases hfront : w.front with
      | error e => exact posting_error e
      | ok pbuf =>
        exact (posting_free w _).bind fun w _ => (posting_withQueue w _).bind fun w _ => ih w

/-! ### The calls -/

lemma posting_done (w : world) : Posting w (hio_done w) := by
  rw [hio_done]
  split_ifs
  · have hfree := (posting_freeQueue w.io.write_queue.size
      { w with io := { w.io with ready := false, writable := false } }).bind
        fun w _ => posting_withQueue w fun q => some q.cleanup
    exact hfree.of_eq rfl rfl rfl
  · exact posting_ok (.refl w)

lemma posting_close (w : world) : Posting w (hio_close w) := by
  rw [hio_close]
  split_ifs
  · exact posting_ok (.refl w)
  · exact posting_ok (.none rfl rfl rfl)
  · have hcb : ∀ v : world, Posts v (close_cb v) := fun v => .none rfl rfl rfl
    have hdone := (posting_done { w with io := { w.io with closed := true } }).bind
      fun v _ => posting_ok (hcb v)
    exact hdone.of_eq rfl rfl rfl

/-- `hio_write` posts an event where it fails. -/
def WritePosting (w : world) (x : Except Stop (world × ℤ)) : Prop := ∀ r, x = .ok r → Posts w r.1

lemma writePosting_ok {r : world × ℤ} (h : Posts w r.1) : WritePosting w (.ok r) := by
  rintro _ ⟨⟩
  exact h

lemma posting_enqueue (w : world) (buf : List UInt8) (nwrite : ℕ) :
    WritePosting w (enqueue w buf nwrite) := by
  rw [enqueue]
  split_ifs
  · exact writePosting_ok ((Posts.close_async (w.setError _)).of_eq rfl rfl rfl)
  · intro r hr
    dsimp only at hr
    cases hq : (w.alloc (buf.drop nwrite)).withQueue
        fun q => (initQueue q).push_back ⟨w.fresh, buf.length - nwrite, 0⟩ with
    | error e =>
      rw [hq] at hr
      cases hr
    | ok w' =>
      rw [hq] at hr
      cases hr
      have hpush : Posts w w' := (posting_withQueue _ _ w' hq).of_eq rfl rfl rfl
      exact hpush.trans (.none rfl rfl rfl)
  · exact writePosting_ok (.refl w)

lemma posting_write (w : world) (buf : List UInt8) (answer : Answer) :
    WritePosting w (hio_write w buf answer) := by
  rw [hio_write.eq_def]
  split_ifs
  · exact writePosting_ok (.refl w)
  · cases answer with
    | failed err =>
      exact writePosting_ok ((Posts.close_async (w.setError err)).of_eq rfl rfl rfl)
    | again =>
      exact fun r hr => (posting_enqueue w.addWrite buf 0 r hr).of_eq rfl rfl rfl
    | taken n =>
      dsimp only
      rw [written]
      split_ifs
      · exact writePosting_ok (.close_async w)
      · exact writePosting_ok (.none rfl rfl rfl)
      · exact fun r hr => (posting_enqueue _ buf _ r hr).of_eq rfl rfl rfl
  · exact posting_enqueue w buf 0

lemma posting_call (w : world) (c : Call) : Posting w (call w c) := by
  cases c with
  | write buf answer =>
    rw [call]
    split_ifs
    · intro v hv
      cases hr : hio_write w buf answer with
      | error e =>
        rw [hr] at hv
        cases hv
      | ok r =>
        rw [hr] at hv
        cases hv
        exact (posting_write w buf answer r hr).trans (.none rfl rfl rfl)
    · exact posting_error _
  | close => exact posting_close w
  | close_async => exact posting_ok (.close_async w)
  | set_max_write_bufsize size =>
    rw [call]
    split_ifs
    · exact posting_ok (.none rfl rfl rfl)
    · exact posting_error _

lemma posting_calls (w : world) (cs : List Call) : Posting w (calls w cs) := by
  induction cs generalizing w with
  | nil => exact posting_ok (.refl w)
  | cons c cs ih =>
    rw [calls, List.foldlM_cons]
    exact (posting_call w c).bind fun w _ => ih w

/-! ### The events of the loop -/

lemma posting_drained (w : world) : Posting w (drained w) := by
  rw [drained]
  split_ifs
  · exact (posting_close _).of_eq rfl rfl rfl
  · exact posting_ok (.refl w)

lemma posting_nio_write (rounds : List (Answer × List Call)) (w : world) :
    Posting w (nio_write rounds w) := by
  induction rounds generalizing w with
  | nil =>
    rw [nio_write]
    split_ifs
    · exact posting_drained w
    · exact posting_ok (.refl w)
  | cons round rounds ih =>
    obtain ⟨answer, cs⟩ := round
    rw [nio_write]
    split_ifs
    · exact posting_drained w
    · cases w.front with
      | error e => exact posting_error e
      | ok pbuf =>
        cases hload : w.load pbuf with
        | error e =>
          change Posting w (w.load pbuf >>= _)
          rw [hload]
          exact posting_error e
        | ok data =>
          change Posting w (w.load pbuf >>= _)
          rw [hload]
          cases answer with
          | again => exact posting_ok (.refl w)
          | failed err =>
            exact (posting_close (w.setError err)).of_eq rfl rfl rfl
          | taken n =>
            change Posting w (if _ then _ else _)
            split_ifs
            · exact posting_close w
            · have hfinish : Posting (progress w pbuf data data.length)
                  (finish (progress w pbuf data data.length) pbuf cs) :=
                (posting_calls _ cs).bind fun w _ =>
                  (posting_free w _).bind fun w _ => posting_withQueue w _
              refine (hfinish.bind fun w _ => ?_).of_eq rfl rfl rfl
              split_ifs
              · exact posting_ok (.refl w)
              · exact ih w
            · exact (posting_calls _ cs).of_eq rfl rfl rfl

/-- The event that is handled, or none. -/
def Action.isCloseEvent : Action → Bool
  | .close_event => true
  | _ => false

/-- The ids count the connections, and those that were posted are of connections there were. -/
structure Ids (w : world) : Prop where
  le : w.io.id ≤ w.s_id
  posted : ∀ x ∈ w.posted, x ≤ w.s_id
  counts : w.s_id < 2 ^ 32 → w.io.id = w.s_id

lemma Posts.ids (h : Posts w w') (i : Ids w) : Ids w' := by
  obtain ⟨n, hn⟩ := h.posted
  refine ⟨by rw [h.id, h.s_id]; exact i.le, fun x hx => ?_, by rw [h.id, h.s_id]; exact i.counts⟩
  rw [h.s_id]
  rw [hn, List.mem_append] at hx
  obtain hx | hx := hx
  · exact i.posted x hx
  · rw [List.eq_of_mem_replicate hx]
    exact i.le

/-- Events may come behind those of `old`, and connections may follow this one. -/
structure After (old : List ℕ) (w w' : world) : Prop where
  old : old <+: w'.posted
  s_id : w.s_id ≤ w'.s_id
  ids : Ids w → Ids w'

lemma Posts.after (h : Posts w w') {old : List ℕ} (hold : old <+: w.posted) : After old w w' := by
  obtain ⟨n, hn⟩ := h.posted
  exact ⟨hold.trans (hn ▸ List.prefix_append _ _), h.s_id.ge, h.ids⟩

lemma after_ready (w : world) {old : List ℕ} (hold : old <+: w.posted) :
    After old w (hio_ready w) := by
  rw [hio_ready]
  split_ifs
  · exact ⟨hold, le_rfl, id⟩
  · exact ⟨hold, Nat.le_succ _, fun i => ⟨Nat.mod_le _ _, fun x hx =>
      (i.posted x hx).trans (Nat.le_succ _), fun hlt => Nat.mod_eq_of_lt hlt⟩⟩

/-- The first event is taken out of the queue before anything else happens. -/
lemma close_event_after (h : act w .close_event = .ok w') {old : List ℕ} (hold : old <+: w.posted) :
    After old.tail w w' := by
  rw [act, hio_close_event_cb.eq_def] at h
  cases hposted : w.posted with
  | nil =>
    rw [hposted] at h hold
    cases h
    rw [List.prefix_nil.mp hold]
    exact ⟨List.nil_prefix, le_rfl, id⟩
  | cons id posted =>
    rw [hposted] at h hold
    dsimp only at h
    have htail : old.tail <+: posted := by
      obtain ⟨news, hnews⟩ := hold
      cases old with
      | nil => exact List.nil_prefix
      | cons x old => exact ⟨news, (List.cons.inj hnews).2⟩
    have hrest : Posts { w with posted := posted } w' := by
      split_ifs at h
      · exact posting_close _ w' h
      · cases h
        exact .refl _
    have hafter := hrest.after htail
    refine ⟨hafter.old, hafter.s_id, fun i => hafter.ids ⟨i.le, fun x hx => ?_, i.counts⟩⟩
    exact i.posted x (hposted ▸ List.mem_cons_of_mem id hx)

lemma act_after {a : Action} (h : act w a = .ok w') {old : List ℕ} (hold : old <+: w.posted) :
    After (if a.isCloseEvent then old.tail else old) w w' := by
  have hposting : ∀ {x}, Posting w x → x = .ok w' → After old w w' := fun hx hok =>
    (hx w' hok).after hold
  cases a with
  | call c => exact hposting (posting_call w c) h
  | writable rounds =>
    refine hposting ?_ h
    rw [act, hio_handle_events]
    split_ifs
    · exact (posting_nio_write rounds w.delWrite).of_eq rfl rfl rfl
    · exact posting_nio_write rounds w
    · exact posting_ok (.refl w)
  | close_event => exact close_event_after h hold
  | close_timeout =>
    refine hposting ?_ h
    rw [act, close_timeout_cb]
    split_ifs
    · exact (posting_close _).of_eq rfl rfl rfl
    · exact posting_ok (.refl w)
  | read_error err =>
    refine hposting ?_ h
    rw [act, read_error]
    split_ifs
    · exact posting_ok (.refl w)
    · cases err with
      | none => exact posting_close w
      | some err => exact (posting_close _).of_eq rfl rfl rfl
  | ready =>
    cases h
    exact after_ready w hold

/-- The first events that were posted are handled first. -/
lemma run_after {bs : List Action} (h : run w bs = .ok v) {old : List ℕ} (hold : old <+: w.posted) :
    After (old.drop (bs.countP Action.isCloseEvent)) w v := by
  induction bs generalizing w old with
  | nil =>
    cases h
    exact ⟨hold, le_rfl, id⟩
  | cons a bs ih =>
    rw [run, List.foldlM_cons] at h
    cases hact : act w a with
    | error e =>
      rw [hact] at h
      cases h
    | ok w₁ =>
      rw [hact] at h
      have h₁ := act_after hact hold
      have h₂ := ih h h₁.old
      refine ⟨?_, h₁.s_id.trans h₂.s_id, fun i => h₂.ids (h₁.ids i)⟩
      have hold₂ := h₂.old
      rw [List.countP_cons]
      split_ifs at hold₂ ⊢
      · rwa [← List.drop_one, List.drop_drop, Nat.add_comm] at hold₂
      · exact hold₂

lemma ids_init (s_id : ℕ) : Ids (hio_init s_id) :=
  ⟨Nat.mod_le _ _, fun _ hx => absurd hx List.not_mem_nil, fun hlt => Nat.mod_eq_of_lt hlt⟩

/-- **Events of an earlier connection.** When a connection that was closed is made ready for
another one, the events that were posted before it do not close that one nor any later one,
whatever happens before they are handled: as long as the ids of connections do not wrap around,
handling them takes them out of the queue and does nothing else. -/
theorem close_events_stale (s_id : ℕ) (as : List Action) (w : world)
    (h : run (hio_init s_id) as = .ok w) (hready : w.io.ready = false) (bs : List Action)
    (v : world) (hrun : run (hio_ready w) bs = .ok v) (hid : v.s_id < 2 ^ 32)
    (hleft : bs.countP Action.isCloseEvent < w.posted.length) :
    act v .close_event = .ok { v with posted := v.posted.tail } := by
  have i := (run_after h List.nil_prefix).ids (ids_init s_id)
  have hw : (hio_ready w).posted = w.posted ∧ (hio_ready w).s_id = w.s_id + 1 := by
    rw [hio_ready, hready]
    exact ⟨rfl, rfl⟩
  have hafter : After (w.posted.drop (bs.countP Action.isCloseEvent)) (hio_ready w) v :=
    run_after hrun (hw.1 ▸ List.prefix_rfl)
  have hv := hafter.ids ((after_ready w List.nil_prefix).ids i)
  -- the first event that is left is one of those that were posted before
  obtain ⟨x, old, hold⟩ := List.exists_cons_of_length_pos
    (show 0 < (w.posted.drop (bs.countP Action.isCloseEvent)).length by
      rw [List.length_drop]
      omega)
  have hx : x ≤ w.s_id := i.posted x (List.mem_of_mem_drop (hold ▸ List.mem_cons_self))
  obtain ⟨news, hnews⟩ := hafter.old
  rw [hold, List.cons_append] at hnews
  have hle := hafter.s_id
  rw [hw.2] at hle
  have hne : v.io.id ≠ x := by
    rw [hv.counts hid]
    omega
  rw [act, hio_close_event_cb.eq_def, ← hnews]
  exact if_neg hne

/-- A close is posted and made, and the connection is opened again and written to, before the
event is handled. -/
theorem close_events_stale_write :
    ∃ w v, run (hio_init 0) [.call .close_async, .call .close] = .ok w ∧ w.posted = [1] ∧
      run (hio_ready w) [.call (.write [7] .again), .call .close_async] = .ok v ∧
      v.posted = [1, 2] ∧ act v .close_event = .ok { v with posted := [2] } := by
  have h := close_events_stale 0 [.call .close_async, .call .close] _ rfl rfl
    [.call (.write [7] .again), .call .close_async] _ rfl (by decide) (by decide)
  exact ⟨_, _, rfl, rfl, rfl, rfl, h⟩

end MmrService.Hio
