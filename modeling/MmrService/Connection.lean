import MmrService.HioDrain
import MmrService.UnpackStream

/-!
Messages from one end of a connection to the other one: what is written there is what is unpacked
here.

The kernels carry the bytes that one of them took to the other one in order, which gives them away
in any pieces. What has arrived is the beginning of what was sent.
-/

namespace MmrService.Connection

open Unpack (unpack_setting_t Sound Packed completed)

variable {s_id : ℕ} {as : List Hio.Action} {w : Hio.world}

/-- What the kernel took is the beginning of what was handed over. -/
lemma sent_of_accepted (hfair : Hio.fairRun (Hio.hio_init s_id) as = true)
    (h : Hio.run (Hio.hio_init s_id) as = .ok w) : w.sent <+: w.accepted := by
  obtain ⟨rest, i, -⟩ := Hio.exists_inv hfair h
  cases hc : w.io.closed with
  | false =>
    rw [i.stream hc]
    exact List.prefix_append _ _
  | true =>
    obtain ⟨l, hl, -⟩ := i.lost hc
    rw [hl]
    exact List.prefix_append _ _

/-- What is handed over is sent, if the kernel takes some of it each time. -/
lemma exists_sent (hfair : Hio.fairRun (Hio.hio_init s_id) as = true)
    (h : Hio.run (Hio.hio_init s_id) as = .ok w) (hopen : w.io.closed = false)
    {events : List (List ℕ)} (hevents : ∀ ns ∈ events, ns ≠ [] ∧ ∀ n ∈ ns, 0 < n)
    (hlen : w.io.write_bufsize ≤ events.length) :
    ∃ w', Hio.run w (events.map Hio.someTaken) = .ok w' ∧ w'.sent = w.accepted := by
  obtain ⟨rest, i, hrest, -⟩ := Hio.exists_inv hfair h
  rw [i.size hopen] at hlen
  obtain ⟨w', hrun, -, hsent, -⟩ := i.drains hrest hopen hevents hlen
  exact ⟨w', hrun, hsent⟩

end MmrService.Connection
