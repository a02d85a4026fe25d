import Mathlib.Data.Finset.Card
import Mathlib.Data.Finset.Image
import MmrService.Lib.Transition
import MmrService.Lib.Word

/-!
The connections of `TcpServerEventLoopTmpl`: the acceptor hands a connection to a loop, whose thread
takes it up in `newConnEvent` and drops it in `onclose`.

The threads of the loops come in between each other. A step is what one of them does under the
mutex of the channels, or to its counter. A connection that is handed over to a loop is taken up
there later; with no worker threads it is taken up at once, which is one of these runs. A callback
in `onclose` may close other channels of the loop, whose `onclose` is called then. The connections
have different ids, as long as the ids do not wrap around, and two calls of `nextLoop` do not come
in between each other.
-/

namespace MmrService.TcpServer

inductive load_balance_e where
  | LB_RoundRobin | LB_Random | LB_LeastConnections | LB_IpHash | LB_UrlHash

inductive EventLoop where
  | acceptor
  | worker (i : ℕ)
  deriving DecidableEq

/-- Where the thread of a loop is. -/
inductive Place where
  /-- In the `onclose` of these connections, the one that was called last first, when the counter
  of the loop was taken down for each: with none of them, outside of these functions. -/
  | closing (ids : List ℕ)
  /-- In `newConnEvent`, before the number of connections is read. -/
  | entered (id : ℕ)
  /-- In `newConnEvent`, when the connection is under the limit. -/
  | passed (id : ℕ)

/-- `posted`, `handed` and `refused` are the connections that a loop has yet to take up, the number
of those it was handed, and of those it refused; `given` is the number of times that `loop` gave
the loop to the program. `loopOf` is the loop of a connection. -/
structure Server where
  numLoops : ℕ
  next_loop_idx_ : ℕ
  load_balance : load_balance_e
  max_connections : ℕ
  connectionNum : EventLoop → ℕ
  channels : Finset ℕ
  s_id : ℕ
  loopOf : ℕ → EventLoop
  place : EventLoop → Place
  posted : EventLoop → List ℕ
  handed : EventLoop → ℕ
  given : EventLoop → ℕ
  refused : EventLoop → ℕ

def start (numLoops : ℕ) (load_balance : load_balance_e) (max_connections : ℕ) : Server where
  numLoops := numLoops
  next_loop_idx_ := 0
  load_balance := load_balance
  max_connections := max_connections
  connectionNum _ := 0
  channels := ∅
  s_id := 0
  loopOf _ := .acceptor
  place _ := .closing []
  posted _ := []
  handed _ := 0
  given _ := 0
  refused _ := 0

/-- The scan of `LB_LeastConnections`, whose round `i` reads `reads i j` from the counter of the
loop `j`: the other threads come in between. -/
def leastLoop (reads : ℕ → ℕ → ℕ) (numLoops : ℕ) : ℕ :=
  (List.range' 1 (numLoops - 1)).foldl
    (fun idx i => if reads i i < reads i idx then i else idx) 0

variable (s : Server) (rand : ℕ) (reads : ℕ → ℕ → ℕ)

/-- `nextLoop`, where `hv_rand` answers `rand`: the loop, if there is one, and the index that
`LB_RoundRobin` keeps. -/
def nextLoop (lb : load_balance_e) : Option EventLoop × ℕ :=
  if s.numLoops = 0 then (none, s.next_loop_idx_)
  else
    match lb with
    | .LB_RoundRobin =>
      let next := Word.add 32 s.next_loop_idx_ 1
      let next := if s.numLoops ≤ next then 0 else next
      (some (.worker (next % s.numLoops)), next)
    | .LB_Random => (some (.worker (rand % s.numLoops)), s.next_loop_idx_)
    | .LB_LeastConnections => (some (.worker (leastLoop reads s.numLoops)), s.next_loop_idx_)
    | .LB_IpHash | .LB_UrlHash => (some (.worker 0), s.next_loop_idx_)

/-- The loop that takes the next connection: without workers it is the acceptor's. -/
def worker_loop : EventLoop := (nextLoop s rand reads s.load_balance).1.getD .acceptor

/-- `onAccept`: the connection is handed to a loop. -/
def onAccept (id : ℕ) : Server :=
  let l := worker_loop s rand reads
  { s with
    next_loop_idx_ := (nextLoop s rand reads s.load_balance).2
    connectionNum := Function.update s.connectionNum l (Word.add 32 (s.connectionNum l) 1)
    s_id := id
    loopOf := Function.update s.loopOf id l
    posted := Function.update s.posted l (s.posted l ++ [id])
    handed := Function.update s.handed l (s.handed l + 1) }

/-- `loop()`: the program asks for a loop, always by `LB_RoundRobin`, and may get none. -/
def loop : Server :=
  let next := nextLoop s 0 (fun _ _ => 0) .LB_RoundRobin
  { s with
    next_loop_idx_ := next.2
    given := next.1.elim s.given fun l => Function.update s.given l (s.given l + 1) }

def Server.goto (l : EventLoop) (p : Place) : Server :=
  { s with place := Function.update s.place l p }

variable (l : EventLoop) (id : ℕ)

/-- `newConnEvent` is called, and `ids` have yet to be taken up. -/
def newConnEvent (ids : List ℕ) : Server :=
  Server.goto { s with posted := Function.update s.posted l ids } l (.entered id)

/-- The limit of `newConnEvent`: a connection over it is closed, and stays in the counter. -/
def checkLimit : Server :=
  if s.max_connections ≤ s.channels.card then
    Server.goto { s with refused := Function.update s.refused l (s.refused l + 1) } l
      (.closing [])
  else s.goto l (.passed id)

def addChannel : Server :=
  Server.goto { s with channels := insert id s.channels } l (.closing [])

/-- `--worker_loop->connectionNum` in `onclose`, which is called in those of `ids`. -/
def onclose (ids : List ℕ) : Server :=
  Server.goto
    { s with
      connectionNum := Function.update s.connectionNum l (Word.sub 32 (s.connectionNum l) 1) }
    l (.closing (id :: ids))

def removeChannel (ids : List ℕ) : Server :=
  Server.goto { s with channels := s.channels.erase id } l (.closing ids)

inductive Action where
  | accept (id rand : ℕ) (reads : ℕ → ℕ → ℕ)
  | enter (l : EventLoop)
  | check (l : EventLoop)
  | add (l : EventLoop)
  | close (l : EventLoop) (id : ℕ)
  | remove (l : EventLoop)
  | loop

/-- The ids of `hio_next_id` go up, and other descriptors have ids as well. -/
def step : Action → Option Server
  | .accept id rand reads =>
    if s.s_id < id ∧ id < 2 ^ 32 then some (onAccept s rand reads id) else none
  | .enter l =>
    match s.place l, s.posted l with
    | .closing [], id :: ids => some (newConnEvent s l id ids)
    | _, _ => none
  | .check l =>
    match s.place l with
    | .entered id => some (checkLimit s l id)
    | _ => none
  | .add l =>
    match s.place l with
    | .passed id => some (addChannel s l id)
    | _ => none
  | .close l id =>
    match s.place l with
    | .closing ids =>
      if id ∈ s.channels ∧ s.loopOf id = l ∧ id ∉ ids then some (onclose s l id ids) else none
    | _ => none
  | .remove l =>
    match s.place l with
    | .closing (id :: ids) => some (removeChannel s l id ids)
    | _ => none
  | .loop => some (loop s)

/-! ### What a step does -/

inductive Steps : Server → Prop
  | accept {rand : ℕ} {reads : ℕ → ℕ → ℕ} {id : ℕ} (next : s.s_id < id) (fits : id < 2 ^ 32) :
      Steps (onAccept s rand reads id)
  | enter {l : EventLoop} {id : ℕ} {ids : List ℕ} (at_ : s.place l = .closing [])
      (posted : s.posted l = id :: ids) : Steps (newConnEvent s l id ids)
  | check {l : EventLoop} {id : ℕ} (at_ : s.place l = .entered id) : Steps (checkLimit s l id)
  | add {l : EventLoop} {id : ℕ} (at_ : s.place l = .passed id) : Steps (addChannel s l id)
  | close {l : EventLoop} {id : ℕ} {ids : List ℕ} (at_ : s.place l = .closing ids)
      (mem : id ∈ s.channels) (own : s.loopOf id = l) (new : id ∉ ids) : Steps (onclose s l id ids)
  | remove {l : EventLoop} {id : ℕ} {ids : List ℕ} (at_ : s.place l = .closing (id :: ids)) :
      Steps (removeChannel s l id ids)
  | loop : Steps (loop s)

variable {s rand reads l id} {s' : Server} {a : Action}

lemma step_cases (h : step s a = some s') : Steps s s' := by
  cases a with
  | accept id rand reads =>
    rw [step] at h
    split at h
    next hid =>
      cases h
      exact .accept hid.1 hid.2
    next => cases h
  | enter l =>
    rw [step] at h
    split at h
    next hp hq =>
      cases h
      exact .enter hp hq
    next => cases h
  | check l =>
    rw [step] at h
    split at h
    next hp =>
      cases h
      exact .check hp
    next => cases h
  | add l =>
    rw [step] at h
    split at h
    next hp =>
      cases h
      exact .add hp
    next => cases h
  | close l id =>
    rw [step] at h
    split at h
    next hp =>
      split at h
      next hid =>
        cases h
        exact .close hp hid.1 hid.2.1 hid.2.2
      next => cases h
    next => cases h
  | remove l =>
    rw [step] at h
    split at h
    next hp =>
      cases h
      exact .remove hp
    next => cases h
  | loop =>
    cases h
    exact .loop

@[simp] lemma goto_self (l : EventLoop) (p : Place) : (s.goto l p).place l = p :=
  Function.update_self ..

lemma goto_of_ne {m : EventLoop} (h : l ≠ m) (p : Place) : (s.goto m p).place l = s.place l :=
  Function.update_of_ne h _ _

/-! ### The loops that take connections -/

def threads (numLoops : ℕ) : Finset EventLoop :=
  if numLoops = 0 then {.acceptor} else (Finset.range numLoops).image .worker

lemma mem_threads {numLoops i : ℕ} (h : i < numLoops) : .worker i ∈ threads numLoops := by
  rw [threads, if_neg (by omega)]
  exact Finset.mem_image_of_mem _ (Finset.mem_range.mpr h)

lemma card_threads (numLoops : ℕ) : (threads numLoops).card = max numLoops 1 := by
  unfold threads
  split
  next h => rw [h, Finset.card_singleton, Nat.max_eq_right (Nat.zero_le 1)]
  next h =>
    rw [Finset.card_image_of_injective _ fun _ _ => EventLoop.worker.inj, Finset.card_range]
    omega

/-- The last round of the scan. -/
lemma leastLoop_succ (reads : ℕ → ℕ → ℕ) (n : ℕ) :
    leastLoop reads (n + 2) =
      if reads (n + 1) (n + 1) < reads (n + 1) (leastLoop reads (n + 1)) then n + 1
      else leastLoop reads (n + 1) := by
  have hrange : List.range' 1 (n + 1) = List.range' 1 n ++ [n + 1] := by
    rw [List.range'_concat, Nat.one_mul, Nat.add_comm 1 n]
  change (List.range' 1 (n + 1)).foldl _ 0 = _
  rw [hrange, List.foldl_append]
  rfl

lemma leastLoop_lt (reads : ℕ → ℕ → ℕ) (n : ℕ) : leastLoop reads (n + 1) < n + 1 := by
  induction n with
  | zero => exact Nat.one_pos
  | succ n ih =>
    rw [leastLoop_succ]
    split
    · exact Nat.lt_succ_self _
    · omega

lemma worker_loop_mem : worker_loop s rand reads ∈ threads s.numLoops := by
  unfold worker_loop nextLoop
  by_cases h : s.numLoops = 0
  · rw [if_pos h, threads, if_pos h]
    exact Finset.mem_singleton_self _
  · rw [if_neg h]
    have hpos := Nat.pos_of_ne_zero h
    cases s.load_balance with
    | LB_RoundRobin => exact mem_threads (Nat.mod_lt _ hpos)
    | LB_Random => exact mem_threads (Nat.mod_lt _ hpos)
    | LB_LeastConnections =>
      obtain ⟨n, hn⟩ := Nat.exists_eq_succ_of_ne_zero h
      rw [hn]
      exact mem_threads (leastLoop_lt reads n)
    | LB_IpHash => exact mem_threads hpos
    | LB_UrlHash => exact mem_threads hpos

/-! ### Taking turns -/

/-- How often a loop was taken, for a connection or for the program. -/
def Server.taken (s : Server) (l : EventLoop) : ℕ := s.handed l + s.given l

/-- The loops from `1` up to the index were taken once more than the others. -/
structure Turns (s : Server) : Prop where
  policy : s.load_balance = .LB_RoundRobin
  fits : s.numLoops < 2 ^ 32
  index : s.next_loop_idx_ < s.numLoops
  taken : ∃ q, ∀ i < s.numLoops,
    s.taken (.worker i) = q + if 0 < i ∧ i ≤ s.next_loop_idx_ then 1 else 0

/-- The loop behind the one that was taken last. -/
def nextIndex (s : Server) : ℕ :=
  if s.numLoops ≤ s.next_loop_idx_ + 1 then 0 else s.next_loop_idx_ + 1

lemma Turns.nextLoop (t : Turns s) (rand : ℕ) (reads : ℕ → ℕ → ℕ) :
    nextLoop s rand reads .LB_RoundRobin = (some (.worker (nextIndex s)), nextIndex s) := by
  have hlt := t.index
  have hfits := t.fits
  have hadd : Word.add 32 s.next_loop_idx_ 1 = s.next_loop_idx_ + 1 :=
    Word.add_of_lt (by omega)
  rw [TcpServer.nextLoop, if_neg (by omega)]
  dsimp only
  rw [hadd, nextIndex, Nat.mod_eq_of_lt (by split <;> omega)]

/-- The next loop is taken. -/
lemma Turns.next (t : Turns s) (hpolicy : s'.load_balance = s.load_balance)
    (hn : s'.numLoops = s.numLoops) (hidx : s'.next_loop_idx_ = nextIndex s)
    (htaken : s'.taken = Function.update s.taken (.worker (nextIndex s))
      (s.taken (.worker (nextIndex s)) + 1)) : Turns s' := by
  have hlt := t.index
  obtain ⟨q, hq⟩ := t.taken
  refine ⟨hpolicy.trans t.policy, hn ▸ t.fits, ?_, ?_⟩
  · rw [hidx, hn, nextIndex]
    split <;> omega
  · rw [hidx, hn, htaken]
    by_cases hlast : s.numLoops ≤ s.next_loop_idx_ + 1
    · -- every loop had its turn
      rw [nextIndex, if_pos hlast]
      refine ⟨q + 1, fun i hi => ?_⟩
      by_cases h0 : i = 0
      · rw [h0, Function.update_self, hq 0 (by omega), if_neg (by omega), if_neg (by omega)]
      · rw [Function.update_of_ne fun h => h0 (EventLoop.worker.inj h), hq i hi,
          if_pos (by omega), if_neg (by omega)]
    · rw [nextIndex, if_neg hlast]
      refine ⟨q, fun i hi => ?_⟩
      by_cases hi' : i = s.next_loop_idx_ + 1
      · rw [hi', Function.update_self, hq _ (by omega), if_neg (by omega), if_pos (by omega)]
      · rw [Function.update_of_ne fun h => hi' (EventLoop.worker.inj h), hq i hi]
        congr 1
        by_cases hle : 0 < i ∧ i ≤ s.next_loop_idx_
        · rw [if_pos hle, if_pos (by omega)]
        · rw [if_neg hle, if_neg (by omega)]

lemma Turns.accept (t : Turns s) : Turns (onAccept s rand reads id) := by
  have hnext := t.nextLoop rand reads
  have hworker : worker_loop s rand reads = .worker (nextIndex s) := by
    rw [worker_loop, t.policy, hnext]
    rfl
  refine t.next rfl rfl ?_ ?_
  · change (TcpServer.nextLoop s rand reads s.load_balance).2 = _
    rw [t.policy, hnext]
  · funext l
    change Function.update s.handed (worker_loop s rand reads) _ l + s.given l = _
    rw [hworker]
    by_cases hl : l = .worker (nextIndex s)
    · rw [hl, Function.update_self, Function.update_self, Server.taken]
      omega
    · rw [Function.update_of_ne hl, Function.update_of_ne hl, Server.taken]

lemma Turns.loop (t : Turns s) : Turns (loop s) := by
  have hnext := t.nextLoop 0 fun _ _ => 0
  refine t.next rfl rfl ?_ ?_
  · rw [TcpServer.loop]
    dsimp only
    rw [hnext]
  · funext l
    rw [TcpServer.loop, Server.taken]
    dsimp only
    rw [hnext, Option.elim_some]
    by_cases hl : l = .worker (nextIndex s)
    · rw [hl, Function.update_self, Function.update_self, Server.taken]
      omega
    · rw [Function.update_of_ne hl, Function.update_of_ne hl, Server.taken]

lemma Turns.step (t : Turns s) (h : step s a = some s') : Turns s' := by
  cases step_cases h with
  | accept => exact t.accept
  | enter => exact ⟨t.policy, t.fits, t.index, t.taken⟩
  | check =>
    unfold checkLimit
    split <;> exact ⟨t.policy, t.fits, t.index, t.taken⟩
  | add => exact ⟨t.policy, t.fits, t.index, t.taken⟩
  | close => exact ⟨t.policy, t.fits, t.index, t.taken⟩
  | remove => exact ⟨t.policy, t.fits, t.index, t.taken⟩
  | loop => exact t.loop

/-- **Round robin is fair.** In every run, no worker was taken more than once more than another
one, where the connections that it was handed count and the times that `loop` gave it to the
program. -/
theorem handed_in_turn {numLoops max_connections : ℕ} {as : List Action} {s : Server}
    (hpos : 0 < numLoops) (hfits : numLoops < 2 ^ 32)
    (h : Transition.exec step (start numLoops .LB_RoundRobin max_connections) as = some s)
    {i j : ℕ} (hi : i < numLoops) (hj : j < numLoops) :
    s.handed (.worker i) + s.given (.worker i) ≤
      s.handed (.worker j) + s.given (.worker j) + 1 := by
  have h0 : Turns (start numLoops .LB_RoundRobin max_connections) ∧
      (start numLoops .LB_RoundRobin max_connections).numLoops = numLoops := by
    refine ⟨⟨rfl, hfits, hpos, 0, fun i hi => ?_⟩, rfl⟩
    change 0 = 0 + if 0 < i ∧ i ≤ 0 then 1 else 0
    rw [if_neg (by omega)]
  have hrun : Turns s ∧ s.numLoops = numLoops := by
    refine Transition.inv_of_always (P := fun _ _ _ => True)
      (I := fun _ s => Turns s ∧ s.numLoops = numLoops) h0 ?_ (fun _ _ _ _ _ _ => trivial) h
    intro _ t a u ht _ hstep
    refine ⟨ht.1.step hstep, ?_⟩
    rw [← ht.2]
    cases step_cases hstep with
    | check =>
      unfold checkLimit
      split <;> rfl
    | _ => rfl
  obtain ⟨ht, hn⟩ := hrun
  obtain ⟨q, hq⟩ := ht.taken
  rw [hn] at hq
  have hqi := hq i hi
  have hqj := hq j hj
  rw [Server.taken] at hqi hqj
  rw [hqi, hqj]
  split <;> split <;> omega

/-- Two connections, and a loop for the program between them. -/
theorem handed_in_turn_three :
    ∃ s, Transition.exec step (start 2 .LB_RoundRobin 5)
        [.accept 1 0 fun _ _ => 0, .enter (.worker 1), .loop, .accept 4 0 fun _ _ => 0] = some s ∧
      s.handed (.worker 1) = 2 ∧ s.handed (.worker 1) + s.given (.worker 1) ≤
        s.handed (.worker 0) + s.given (.worker 0) + 1 := by
  obtain ⟨s, h⟩ := (⟨_, rfl⟩ : ∃ s, Transition.exec step (start 2 .LB_RoundRobin 5)
    [.accept 1 0 fun _ _ => 0, .enter (.worker 1), .loop, .accept 4 0 fun _ _ => 0] = some s)
  refine ⟨s, h, ?_, handed_in_turn (by decide) (by decide) h (by decide) (by decide)⟩
  cases h
  rfl

end MmrService.TcpServer
