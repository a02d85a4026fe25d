import Mathlib.Data.List.Nodup
import Mathlib.Data.Nat.Basic
import MmrService.Hio

/-!
The buffers of a connection and its queue.

The addresses in memory are those of the queue's buffers, and what was freed is in memory no
more. `held` is the first buffer while its callback is called, which has no bytes left; the
others have some.
-/

namespace MmrService.Hio

open Queue

/-! ### Memory -/

/-- The addresses in memory are those of `bases`; the others were freed once. -/
structure Mem (buf : ℕ → Option (List UInt8)) (fresh : ℕ) (freed bases : List ℕ) : Prop where
  nodup : bases.Nodup
  owned : ∀ x, buf x ≠ none ↔ x ∈ bases
  below : ∀ x, buf x ≠ none → x < fresh
  once : freed.Nodup
  freed : ∀ x, x ∈ freed ↔ x < fresh ∧ buf x = none

namespace Mem

variable {buf : ℕ → Option (List UInt8)} {fresh x : ℕ} {freed bases : List ℕ} {data : List UInt8}

lemma init : Mem (fun _ => none) 0 [] [] where
  nodup := List.nodup_nil
  owned _ := by simp
  below x hx := absurd rfl hx
  once := List.nodup_nil
  freed _ := by simp

lemma notMem_fresh (m : Mem buf fresh freed bases) : fresh ∉ bases := fun hx =>
  Nat.lt_irrefl _ (m.below _ ((m.owned _).mpr hx))

/-- A buffer is allocated. -/
lemma alloc (m : Mem buf fresh freed bases) (data : List UInt8) :
    Mem (Function.update buf fresh (some data)) (fresh + 1) freed (bases ++ [fresh]) := by
  have hnone : buf fresh = none := by
    by_contra hne
    exact m.notMem_fresh ((m.owned _).mp hne)
  constructor
  case nodup =>
    rw [List.nodup_append]
    refine ⟨m.nodup, List.nodup_singleton _, ?_⟩
    rintro x hx y hy rfl
    rw [List.mem_singleton.mp hy] at hx
    exact m.notMem_fresh hx
  case owned =>
    intro x
    rw [List.mem_append, List.mem_singleton, ← m.owned]
    by_cases hx : x = fresh
    · simp [hx]
    · simp [hx]
  case below =>
    intro x hx
    by_cases hxf : x = fresh
    · omega
    · rw [Function.update_of_ne hxf] at hx
      have := m.below x hx
      omega
  case once => exact m.once
  case freed =>
    intro x
    rw [m.freed]
    by_cases hxf : x = fresh
    · simp [hxf]
    · rw [Function.update_of_ne hxf]
      have : x < fresh + 1 ↔ x < fresh := by omega
      rw [this]

/-- A buffer is freed. -/
lemma free (m : Mem buf fresh freed (x :: bases)) :
    Mem (Function.update buf x none) fresh (freed ++ [x]) bases := by
  have hx : buf x ≠ none := (m.owned x).mpr List.mem_cons_self
  have hnot : x ∉ freed := fun h => hx ((m.freed x).mp h).2
  constructor
  case nodup => exact m.nodup.of_cons
  case owned =>
    intro y
    have hy := m.owned y
    by_cases hyx : y = x
    · subst hyx
      simp [(List.nodup_cons.mp m.nodup).1]
    · rw [Function.update_of_ne hyx, hy, List.mem_cons, or_iff_right hyx]
  case below =>
    intro y hy
    by_cases hyx : y = x
    · subst hyx
      exact m.below y hx
    · rw [Function.update_of_ne hyx] at hy
      exact m.below y hy
  case once =>
    rw [List.nodup_append]
    refine ⟨m.once, List.nodup_singleton _, ?_⟩
    rintro y hy z hz rfl
    rw [List.mem_singleton.mp hz] at hy
    exact hnot hy
  case freed =>
    intro y
    rw [List.mem_append, List.mem_singleton, m.freed]
    by_cases hyx : y = x
    · subst hyx
      simp [m.below y hx]
    · rw [Function.update_of_ne hyx, or_iff_left hyx]

end Mem

/-! ### What is still to be sent -/

/-- What is still to be sent of a buffer. -/
def unsent (buf : ℕ → Option (List UInt8)) (p : offset_buf_t) : List UInt8 :=
  ((buf p.base).getD []).drop p.offset

/-- What is still to be sent. -/
def pending (buf : ℕ → Option (List UInt8)) (ps : List offset_buf_t) : List UInt8 :=
  ps.flatMap (unsent buf)

/-- A buffer has its bytes in memory. -/
def Stored (buf : ℕ → Option (List UInt8)) (p : offset_buf_t) : Prop :=
  ∃ data, buf p.base = some data ∧ data.length = p.len

section pending

variable {buf buf' : ℕ → Option (List UInt8)} {p : offset_buf_t} {ps : List offset_buf_t}

lemma unsent_of_stored {data : List UInt8} (h : buf p.base = some data) :
    unsent buf p = data.drop p.offset := by rw [unsent, h, Option.getD_some]

lemma length_unsent (h : Stored buf p) : (unsent buf p).length = p.len - p.offset := by
  obtain ⟨data, hdata, hlen⟩ := h
  rw [unsent_of_stored hdata, List.length_drop, hlen]

lemma pending_cons (p : offset_buf_t) (ps : List offset_buf_t) :
    pending buf (p :: ps) = unsent buf p ++ pending buf ps := List.flatMap_cons

lemma pending_append (ps qs : List offset_buf_t) :
    pending buf (ps ++ qs) = pending buf ps ++ pending buf qs := List.flatMap_append

lemma pending_singleton (p : offset_buf_t) : pending buf [p] = unsent buf p := by
  rw [pending, List.flatMap_singleton]

/-- Other buffers do not matter. -/
lemma pending_congr (h : ∀ p ∈ ps, buf' p.base = buf p.base) : pending buf' ps = pending buf ps :=
  List.flatMap_congr fun p hp => by rw [unsent, unsent, h p hp]

/-- Each buffer that has bytes left counts. -/
lemma length_le_pending (hs : ∀ p ∈ ps, Stored buf p) (hu : ∀ p ∈ ps, p.offset < p.len) :
    ps.length ≤ (pending buf ps).length := by
  induction ps with
  | nil => exact Nat.zero_le _
  | cons p ps ih =>
    have htail := ih (fun q hq => hs q (List.mem_cons_of_mem p hq))
      fun q hq => hu q (List.mem_cons_of_mem p hq)
    have hlen := length_unsent (hs p List.mem_cons_self)
    have hlt := hu p List.mem_cons_self
    rw [pending_cons, List.length_append, List.length_cons, hlen]
    omega

end pending

/-! ### The queue -/

variable {w : world} {held rest : List offset_buf_t} {p : offset_buf_t}

lemma ok_bind {α β : Type} (a : α) (f : α → Except Stop β) : (Except.ok a >>= f) = f a := rfl

lemma front_eq {ps : List offset_buf_t} (h : w.io.write_queue.Good (p :: ps)) :
    w.front = .ok p := by
  rw [world.front, h.front]
  rfl

lemma free_eq (h : w.buf p.base ≠ none) :
    w.free p.base = .ok { w with
      buf := Function.update w.buf p.base none, freed := w.freed ++ [p.base] } := if_neg h

lemma withQueue_eq {f : queue offset_buf_t → Option (queue offset_buf_t)} {q : queue offset_buf_t}
    (h : f w.io.write_queue = some q) :
    w.withQueue f = .ok { w with io := { w.io with write_queue := q } } := by
  rw [world.withQueue, h]
  rfl

/-- The queue and its buffers. `held` is the first buffer while its callback is called. -/
structure Bufs (held rest : List offset_buf_t) (q : queue offset_buf_t)
    (buf : ℕ → Option (List UInt8)) (fresh : ℕ) (freed : List ℕ) : Prop where
  queue : q.Good (held ++ rest)
  mem : Mem buf fresh freed ((held ++ rest).map offset_buf_t.base)
  stored : ∀ p ∈ held ++ rest, Stored buf p
  done : ∀ p ∈ held, p.offset = p.len
  unsent : ∀ p ∈ rest, p.offset < p.len
  one : held.length ≤ 1

/-- The queue, and what the members of the connection tell about it. -/
structure Core (held : List offset_buf_t) (w : world) (rest : List offset_buf_t) : Prop
    extends Bufs held rest w.io.write_queue w.buf w.fresh w.freed where
  ready : w.io.ready = !w.io.closed
  closed : w.io.closed = true → held = [] ∧ rest = [] ∧ w.io.writable = false
  size : w.io.closed = false → w.io.write_bufsize = (pending w.buf rest).length
  bound : w.io.write_bufsize < 2 ^ 30
  max : w.io.max_write_bufsize < 2 ^ 30
  registered : w.io.closed = false → held ++ rest ≠ [] → w.io.writable = true
  timer : w.io.closed = false → w.io.close = true → w.io.close_timer = true
  destroy : w.io.destroy = false

namespace Core

/-- The first buffer is freed and taken out of the queue. -/
lemma pop (ps : List offset_buf_t) (hq : w.io.write_queue.Good (p :: ps))
    (hm : Mem w.buf w.fresh w.freed (p.base :: ps.map offset_buf_t.base)) :
    ∃ q, (w.free p.base >>= fun w => w.withQueue queue.pop_front) = .ok { w with
        io := { w.io with write_queue := q }
        buf := Function.update w.buf p.base none
        freed := w.freed ++ [p.base] } ∧ q.Good ps := by
  obtain ⟨q, hpop, hgood⟩ := hq.pop_front
  refine ⟨q, ?_, hgood⟩
  rw [free_eq ((hm.owned _).mpr List.mem_cons_self), ok_bind]
  exact withQueue_eq hpop

end Core

/-- The loop frees all that is in the queue. -/
lemma freeQueue_spec {ps : List offset_buf_t} (hq : w.io.write_queue.Good ps)
    (hm : Mem w.buf w.fresh w.freed (ps.map offset_buf_t.base)) :
    ∃ q buf freed, freeQueue ps.length w = .ok { w with
        io := { w.io with write_queue := q }, buf := buf, freed := freed } ∧
      Mem buf w.fresh freed [] := by
  induction ps generalizing w with
  | nil =>
    refine ⟨w.io.write_queue, w.buf, w.freed, ?_, hm⟩
    rw [List.length_nil, freeQueue, hq.isEmpty]
    rfl
  | cons p ps ih =>
    obtain ⟨q, hpop, hgood⟩ := Core.pop ps hq hm
    obtain ⟨q', buf, freed, hfree, hm'⟩ := ih (w := { w with
      io := { w.io with write_queue := q }
      buf := Function.update w.buf p.base none
      freed := w.freed ++ [p.base] }) hgood hm.free
    refine ⟨q', buf, freed, ?_, hm'⟩
    rw [List.length_cons, freeQueue, hq.isEmpty, front_eq hq, ok_bind]
    change ((w.free p.base >>= fun w => w.withQueue queue.pop_front >>= freeQueue ps.length)) = _
    rw [← bind_assoc, hpop, ok_bind, hfree]

/-- `hio_done` frees all that is in the queue. -/
lemma hio_done_spec {ps : List offset_buf_t} (hready : w.io.ready = true)
    (hq : w.io.write_queue.Good ps)
    (hm : Mem w.buf w.fresh w.freed (ps.map offset_buf_t.base)) :
    ∃ buf freed, hio_done w = .ok { w with
        io := { w.io with ready := false, writable := false, write_queue := zeroed }
        buf := buf, freed := freed } ∧ Mem buf w.fresh freed [] := by
  obtain ⟨q, buf, freed, hfree, hm'⟩ := freeQueue_spec (w := { w with
    io := { w.io with ready := false, writable := false } }) hq hm
  refine ⟨buf, freed, ?_, hm'⟩
  rw [hio_done, if_pos hready]
  dsimp only
  rw [hq.size, hfree, ok_bind]
  rfl

/-- A connection that was closed at once. -/
def shutDown (w : world) (buf : ℕ → Option (List UInt8)) (freed : List ℕ) : world :=
  { w with
    io := { w.io with
      ready := false, closed := true, writable := false, write_queue := zeroed,
      close_timer := false }
    buf := buf, freed := freed }

lemma hio_close_spec {ps : List offset_buf_t} (hready : w.io.ready = true)
    (hc : w.io.closed = false) (hw : waits w.io = false) (hq : w.io.write_queue.Good ps)
    (hm : Mem w.buf w.fresh w.freed (ps.map offset_buf_t.base)) :
    ∃ buf freed, hio_close w = .ok (shutDown w buf freed) ∧ Mem buf w.fresh freed [] := by
  obtain ⟨buf, freed, hdone, hmem⟩ := hio_done_spec
    (w := { w with io := { w.io with closed := true } }) hready hq hm
  refine ⟨buf, freed, ?_, hmem⟩
  rw [hio_close, hc, if_neg Bool.false_ne_true, hw, if_neg Bool.false_ne_true, hdone, ok_bind]
  rfl

end MmrService.Hio
