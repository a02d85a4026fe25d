import MmrService.TcpServer

/-!
What holds of the connections of a server in every run: the counters of the loops, and how far the
number of connections may go over the limit, which is checked before the connection is added.
-/

namespace MmrService.TcpServer

/-! ### One loop -/

/-- The connection that the thread of a loop is about to add. -/
def Place.coming : Place → List ℕ
  | .entered id | .passed id => [id]
  | .closing _ => []

/-- The connections that are about to be removed, which the counter leaves out already. -/
def Place.leaving : Place → List ℕ
  | .closing ids => ids
  | .entered _ | .passed _ => []

def Place.isPassed : Place → Bool
  | .passed _ => true
  | .entered _ | .closing _ => false

variable {s s' : Server} {l : EventLoop}

/-- The connections that a loop has yet to add. -/
def Server.coming (s : Server) (l : EventLoop) : List ℕ := (s.place l).coming ++ s.posted l

/-- The connections of a loop. -/
def Server.own (s : Server) (l : EventLoop) : Finset ℕ := s.channels.filter (s.loopOf · = l)

structure At (s : Server) (l : EventLoop) : Prop where
  new : ∀ id ∈ s.coming l, id ≤ s.s_id ∧ s.loopOf id = l ∧ id ∉ s.channels
  nodup : (s.coming l).Nodup
  closing : (s.place l).leaving.Nodup ∧ ∀ id ∈ (s.place l).leaving, id ∈ s.own l
  thread : s.coming l ≠ [] → l ∈ threads s.numLoops
  count : s.connectionNum l + (s.place l).leaving.length =
    (s.own l).card + (s.coming l).length + s.refused l
  bound : s.connectionNum l ≤ s.s_id

/-- A step that changes nothing that is counted. -/
lemma At.same (h : At s l) (hcoming : s'.coming l = s.coming l)
    (hleaving : (s'.place l).leaving = (s.place l).leaving)
    (hnum : s'.connectionNum l = s.connectionNum l) (hrefused : s'.refused l = s.refused l)
    (hn : s'.numLoops = s.numLoops) (hid : s.s_id ≤ s'.s_id)
    (hloop : ∀ id ≤ s.s_id, s'.loopOf id = s.loopOf id) (hown : s'.own l = s.own l) :
    At s' l := by
  refine ⟨fun id hmem => ?_, ?_, ?_, ?_, ?_, ?_⟩
  · rw [hcoming] at hmem
    obtain ⟨hle, hl, hnot⟩ := h.new id hmem
    have hl' : s'.loopOf id = l := (hloop id hle).trans hl
    refine ⟨hle.trans hid, hl', fun hin => hnot ?_⟩
    have hmem' : id ∈ s'.own l := Finset.mem_filter.mpr ⟨hin, hl'⟩
    rw [hown] at hmem'
    exact (Finset.mem_filter.mp hmem').1
  · rw [hcoming]
    exact h.nodup
  · rw [hleaving, hown]
    exact h.closing
  · rw [hcoming, hn]
    exact h.thread
  · rw [hnum, hleaving, hown, hcoming, hrefused]
    exact h.count
  · rw [hnum]
    exact h.bound.trans hid

/-- What happens to the others is nothing to a loop. -/
lemma At.other (h : At s l) (hplace : s'.place l = s.place l) (hposted : s'.posted l = s.posted l)
    (hnum : s'.connectionNum l = s.connectionNum l) (hrefused : s'.refused l = s.refused l)
    (hn : s'.numLoops = s.numLoops) (hid : s.s_id ≤ s'.s_id)
    (hloop : ∀ id ≤ s.s_id, s'.loopOf id = s.loopOf id) (hown : s'.own l = s.own l) :
    At s' l :=
  h.same (by rw [Server.coming, hplace, hposted]; rfl) (by rw [hplace]) hnum
    hrefused hn hid hloop hown

/-! ### Every step -/

/-- The threads that go on to add a connection. -/
def Server.passed (s : Server) : Finset EventLoop :=
  (threads s.numLoops).filter fun l => (s.place l).isPassed

structure Inv (s : Server) : Prop where
  id : s.s_id < 2 ^ 32
  old : ∀ id ∈ s.channels, id ≤ s.s_id
  loop : ∀ l, At s l
  limit : s.channels.card + s.passed.card + 1 ≤ s.max_connections + (threads s.numLoops).card

lemma inv_start (numLoops : ℕ) (load_balance : load_balance_e) (max_connections : ℕ) :
    Inv (start numLoops load_balance max_connections) where
  id := Nat.two_pow_pos 32
  old _ h := absurd h (Finset.notMem_empty _)
  loop _ :=
    { new := fun _ h => absurd h List.not_mem_nil
      nodup := List.nodup_nil
      closing := ⟨List.nodup_nil, fun _ h => absurd h List.not_mem_nil⟩
      thread := fun h => absurd rfl h
      count := rfl
      bound := Nat.zero_le _ }
  limit := by
    have hpassed : (start numLoops load_balance max_connections).passed = ∅ :=
      Finset.filter_eq_empty_iff.mpr fun _ _ => Bool.false_ne_true
    have hcard := card_threads numLoops
    rw [hpassed, Finset.card_empty]
    change 0 + 0 + 1 ≤ max_connections + (threads numLoops).card
    omega

/-- The connections of a loop do not change while the channels and their loops do not. -/
lemma own_eq (hc : s'.channels = s.channels)
    (hloop : ∀ id ∈ s.channels, s'.loopOf id = s.loopOf id) : s'.own l = s.own l := by
  unfold Server.own
  rw [hc]
  exact Finset.filter_congr fun id hid => by rw [hloop id hid]

variable {m : EventLoop} {id : ℕ} {p : Place}

lemma passed_goto (hold : (s.place m).isPassed = false) (hnew : p.isPassed = false) :
    (s.goto m p).passed = s.passed := by
  refine Finset.filter_congr fun l _ => ?_
  by_cases h : l = m
  · rw [h, goto_self, hold, hnew]
  · rw [goto_of_ne h]

lemma Inv.limit_goto (i : Inv s) (hold : (s.place m).isPassed = false)
    (hnew : p.isPassed = false) :
    s.channels.card + (s.goto m p).passed.card + 1 ≤
      s.max_connections + (threads s.numLoops).card := by
  rw [passed_goto hold hnew]
  exact i.limit

lemma Inv.accept (i : Inv s) {rand : ℕ} {reads : ℕ → ℕ → ℕ} (hid : s.s_id < id)
    (hlt : id < 2 ^ 32) : Inv (onAccept s rand reads id) := by
  have hloop : ∀ k ≤ s.s_id, (onAccept s rand reads id).loopOf k = s.loopOf k := fun k hk =>
    Function.update_of_ne (by omega) _ _
  have hown : ∀ l, (onAccept s rand reads id).own l = s.own l := fun l =>
    own_eq rfl fun k hk => hloop k (i.old k hk)
  refine ⟨hlt, fun k hk => (i.old k hk).trans hid.le, fun l => ?_, i.limit⟩
  by_cases hl : l = worker_loop s rand reads
  · have a := i.loop l
    have hpost : (onAccept s rand reads id).posted l = s.posted l ++ [id] := by
      subst hl
      exact Function.update_self ..
    have hcoming : (onAccept s rand reads id).coming l = s.coming l ++ [id] := by
      rw [Server.coming, hpost, ← List.append_assoc]
      rfl
    have hnum : (onAccept s rand reads id).connectionNum l = s.connectionNum l + 1 := by
      subst hl
      refine (Function.update_self ..).trans (Word.add_of_lt ?_)
      have := a.bound
      omega
    refine ⟨fun k hk => ?_, ?_, ⟨a.closing.1, fun k hk => ?_⟩, fun _ => ?_, ?_, ?_⟩
    · rw [hcoming, List.mem_append, List.mem_singleton] at hk
      rcases hk with hk | rfl
      · obtain ⟨hle, hl', hnot⟩ := a.new k hk
        exact ⟨hle.trans hid.le, (hloop k hle).trans hl', hnot⟩
      · refine ⟨le_rfl, ?_, fun hin => ?_⟩
        · subst hl
          exact Function.update_self ..
        · have := i.old k hin
          omega
    · rw [hcoming]
      refine a.nodup.append (List.nodup_singleton _) ?_
      rw [List.disjoint_singleton]
      intro hin
      have := (a.new _ hin).1
      omega
    · rw [hown]
      exact a.closing.2 k hk
    · subst hl
      exact worker_loop_mem
    · have hcount := a.count
      rw [hnum, hown, hcoming, List.length_append, List.length_singleton]
      change s.connectionNum l + 1 + (s.place l).leaving.length = _ + _ + s.refused l
      omega
    · rw [hnum]
      have := a.bound
      change s.connectionNum l + 1 ≤ id
      omega
  · exact (i.loop l).other rfl (Function.update_of_ne hl _ _) (Function.update_of_ne hl _ _) rfl rfl
      hid.le hloop (hown l)

lemma coming_of_place {pl : Place} (hp : s.place l = pl) :
    s.coming l = pl.coming ++ s.posted l := by
  rw [Server.coming, hp]

lemma coming_goto (l : EventLoop) (p : Place) : (s.goto l p).coming l = p.coming ++ s.posted l :=
  coming_of_place (goto_self l p)

lemma Inv.enter (i : Inv s) {ids : List ℕ} (hp : s.place m = .closing [])
    (hposted : s.posted m = id :: ids) :
    Inv (newConnEvent s m id ids) := by
  refine ⟨i.id, i.old, fun l => ?_, ?_⟩
  · by_cases hl : l = m
    · subst hl
      refine (i.loop l).same ?_ ?_ rfl rfl rfl le_rfl (fun _ _ => rfl) rfl
      · rw [coming_of_place hp, hposted, newConnEvent, coming_goto]
        exact congrArg ([id] ++ ·) (Function.update_self ..)
      · rw [newConnEvent, goto_self, hp]
        rfl
    · exact (i.loop l).other (goto_of_ne hl _) (Function.update_of_ne hl _ _) rfl rfl rfl le_rfl
        (fun _ _ => rfl) rfl
  · exact i.limit_goto (p := .entered id) (congrArg Place.isPassed hp) rfl

/-- The connection that a thread took up, and those it has yet to take up. -/
lemma At.next (a : At s l) (hcoming : s.coming l = id :: s.posted l) :
    (id ≤ s.s_id ∧ s.loopOf id = l ∧ id ∉ s.channels) ∧ l ∈ threads s.numLoops ∧
      (s.posted l).Nodup ∧ ∀ k ∈ s.posted l,
        k ≠ id ∧ k ≤ s.s_id ∧ s.loopOf k = l ∧ k ∉ s.channels := by
  have hnew := a.new
  have hnodup := a.nodup
  rw [hcoming] at hnew hnodup
  have hthread := a.thread (hcoming ▸ List.cons_ne_nil _ _)
  refine ⟨hnew id (List.mem_cons_self ..), hthread, hnodup.of_cons, fun k hk => ⟨?_, ?_⟩⟩
  · rintro rfl
    exact hnodup.notMem hk
  · exact hnew k (List.mem_cons_of_mem id hk)

lemma Inv.refuse (i : Inv s) (hp : s.place m = .entered id) :
    Inv (Server.goto { s with refused := Function.update s.refused m (s.refused m + 1) } m
      (.closing [])) := by
  refine ⟨i.id, i.old, fun l => ?_, ?_⟩
  · by_cases hl : l = m
    · subst hl
      have a := i.loop l
      have hcoming : s.coming l = id :: s.posted l := coming_of_place hp
      obtain ⟨-, hthread, hnodup, hposted⟩ := a.next hcoming
      refine ⟨fun k hk => ?_, ?_, ?_, fun _ => hthread, ?_, a.bound⟩
      · rw [coming_goto] at hk
        exact (hposted k hk).2
      · rw [coming_goto]
        exact hnodup
      · rw [goto_self]
        exact ⟨List.nodup_nil, fun _ hk => absurd hk List.not_mem_nil⟩
      · have hcount := a.count
        rw [hcoming, hp, List.length_cons] at hcount
        change s.connectionNum l + 0 = _ at hcount
        rw [goto_self, coming_goto]
        change s.connectionNum l + 0 = (s.own l).card + (s.posted l).length +
          Function.update s.refused l (s.refused l + 1) l
        rw [Function.update_self]
        omega
    · exact (i.loop l).other (goto_of_ne hl _) rfl rfl (Function.update_of_ne hl _ _) rfl le_rfl
        (fun _ _ => rfl) rfl
  · exact i.limit_goto (p := .closing []) (congrArg Place.isPassed hp) rfl

lemma Inv.pass (i : Inv s) (hp : s.place m = .entered id)
    (hfree : s.channels.card < s.max_connections) : Inv (s.goto m (.passed id)) := by
  refine ⟨i.id, i.old, fun l => ?_, ?_⟩
  · by_cases hl : l = m
    · subst hl
      refine (i.loop l).same ?_ ?_ rfl rfl rfl le_rfl (fun _ _ => rfl) rfl
      · rw [coming_of_place hp, coming_goto]
        rfl
      · rw [goto_self, hp]
        rfl
    · exact (i.loop l).other (goto_of_ne hl _) rfl rfl rfl rfl le_rfl (fun _ _ => rfl) rfl
  · -- there are no more threads than that
    have hcard : (s.goto m (.passed id)).passed.card ≤ (threads s.numLoops).card :=
      Finset.card_filter_le _ _
    change s.channels.card + _ + 1 ≤ s.max_connections + (threads s.numLoops).card
    omega

/-- The thread is not one of those that go on to add a connection any more. -/
lemma passed_addChannel : (addChannel s m id).passed = s.passed.erase m := by
  ext l
  rw [Finset.mem_erase, Server.passed, Server.passed, Finset.mem_filter, Finset.mem_filter]
  by_cases h : l = m
  · rw [h, addChannel, goto_self]
    exact ⟨fun hx => Bool.noConfusion hx.2, fun hx => absurd rfl hx.1⟩
  · rw [addChannel, goto_of_ne h]
    exact ⟨fun hx => ⟨h, hx⟩, fun hx => hx.2⟩

lemma Inv.add (i : Inv s) (hp : s.place m = .passed id) : Inv (addChannel s m id) := by
  have a := i.loop m
  have hcoming : s.coming m = id :: s.posted m := coming_of_place hp
  obtain ⟨⟨hle, hloop, hnot⟩, hthread, hnodup, hposted⟩ := a.next hcoming
  refine ⟨i.id, fun k hk => ?_, fun l => ?_, ?_⟩
  · rcases Finset.mem_insert.mp hk with rfl | hk
    · exact hle
    · exact i.old k hk
  · by_cases hl : l = m
    · subst hl
      have hown : (addChannel s l id).own l = insert id (s.own l) :=
        (Finset.filter_insert ..).trans (if_pos hloop)
      have hnotown : id ∉ s.own l := fun hin => hnot (Finset.mem_filter.mp hin).1
      refine ⟨fun k hk => ?_, ?_, ?_, fun _ => hthread, ?_, a.bound⟩
      · rw [addChannel, coming_goto] at hk
        obtain ⟨hne, hkle, hkl, hknot⟩ := hposted k hk
        exact ⟨hkle, hkl, fun hin => hknot (Finset.mem_of_mem_insert_of_ne hin hne)⟩
      · rw [addChannel, coming_goto]
        exact hnodup
      · rw [addChannel, goto_self]
        exact ⟨List.nodup_nil, fun _ hk => absurd hk List.not_mem_nil⟩
      · have hcount := a.count
        rw [hcoming, hp, List.length_cons] at hcount
        change s.connectionNum l + 0 = _ at hcount
        rw [hown, Finset.card_insert_of_notMem hnotown, addChannel, goto_self, coming_goto]
        change s.connectionNum l + 0 = _ + (s.posted l).length + s.refused l
        omega
    · refine (i.loop l).other (goto_of_ne hl _) rfl rfl rfl rfl le_rfl (fun _ _ => rfl) ?_
      exact (Finset.filter_insert ..).trans (if_neg fun h => hl (h.symm.trans hloop))
  · have hmem : m ∈ s.passed := by
      refine Finset.mem_filter.mpr ⟨hthread, ?_⟩
      rw [hp]
      rfl
    have hlimit := i.limit
    have hpos := Finset.card_pos.mpr ⟨m, hmem⟩
    rw [passed_addChannel, Finset.card_erase_of_mem hmem]
    change (insert id s.channels).card + _ + 1 ≤ s.max_connections + (threads s.numLoops).card
    rw [Finset.card_insert_of_notMem hnot]
    omega

lemma Inv.close (i : Inv s) {ids : List ℕ} (hp : s.place m = .closing ids) (hid : id ∈ s.channels)
    (hloop : s.loopOf id = m) (hnew : id ∉ ids) : Inv (onclose s m id ids) := by
  refine ⟨i.id, i.old, fun l => ?_, ?_⟩
  · by_cases hl : l = m
    · subst hl
      have a := i.loop l
      have hown : id ∈ s.own l := Finset.mem_filter.mpr ⟨hid, hloop⟩
      obtain ⟨hnodup, hclosing⟩ := a.closing
      rw [hp] at hnodup hclosing
      have hall : ∀ k ∈ id :: ids, k ∈ s.own l := fun k hk => by
        obtain rfl | hk := List.mem_cons.mp hk
        · exact hown
        · exact hclosing k hk
      -- the channels that are about to be removed are different ones of the loop
      have hle : (id :: ids).length ≤ (s.own l).card := by
        rw [← List.toFinset_card_of_nodup (List.nodup_cons.mpr ⟨hnew, hnodup⟩)]
        exact Finset.card_le_card fun k hk => hall k (List.mem_toFinset.mp hk)
      have hcoming : (onclose s l id ids).coming l = s.coming l := by
        rw [onclose, coming_goto, coming_of_place hp]
        rfl
      have hcount := a.count
      rw [hp] at hcount
      change s.connectionNum l + ids.length = _ at hcount
      rw [List.length_cons] at hle
      have hbound := a.bound
      have hlt := i.id
      have hnum : (onclose s l id ids).connectionNum l = s.connectionNum l - 1 :=
        (Function.update_self ..).trans (Word.sub_of_le (by omega) (by omega))
      refine ⟨?_, ?_, ?_, ?_, ?_, ?_⟩
      · rw [hcoming]
        exact a.new
      · rw [hcoming]
        exact a.nodup
      · rw [onclose, goto_self]
        exact ⟨List.nodup_cons.mpr ⟨hnew, hnodup⟩, hall⟩
      · rw [hcoming]
        exact a.thread
      · rw [hnum, hcoming, onclose, goto_self]
        change s.connectionNum l - 1 + (ids.length + 1) = (s.own l).card + _ + s.refused l
        omega
      · rw [hnum]
        change s.connectionNum l - 1 ≤ s.s_id
        omega
    · exact (i.loop l).other (goto_of_ne hl _) rfl (Function.update_of_ne hl _ _) rfl rfl le_rfl
        (fun _ _ => rfl) rfl
  · exact i.limit_goto (p := .closing (id :: ids)) (congrArg Place.isPassed hp) rfl

lemma Inv.remove (i : Inv s) {ids : List ℕ} (hp : s.place m = .closing (id :: ids)) :
    Inv (removeChannel s m id ids) := by
  have a := i.loop m
  obtain ⟨hnodup, hclosing⟩ := a.closing
  rw [hp] at hnodup hclosing
  obtain ⟨hnew, hnodup⟩ := List.nodup_cons.mp hnodup
  have hmem := hclosing id List.mem_cons_self
  obtain ⟨hin, hloop⟩ := Finset.mem_filter.mp hmem
  have hown : ∀ l, (removeChannel s m id ids).own l = (s.own l).erase id := fun l =>
    Finset.filter_erase ..
  refine ⟨i.id, fun k hk => i.old k (Finset.mem_of_mem_erase hk), fun l => ?_, ?_⟩
  · by_cases hl : l = m
    · subst hl
      have hcoming : (removeChannel s l id ids).coming l = s.coming l := by
        rw [removeChannel, coming_goto, coming_of_place hp]
        rfl
      refine ⟨fun k hk => ?_, ?_, ?_, ?_, ?_, a.bound⟩
      · rw [hcoming] at hk
        obtain ⟨hle, hl', hnot⟩ := a.new k hk
        exact ⟨hle, hl', fun hk' => hnot (Finset.mem_of_mem_erase hk')⟩
      · rw [hcoming]
        exact a.nodup
      · rw [hown, removeChannel, goto_self]
        refine ⟨hnodup, fun k hk => Finset.mem_erase.mpr ⟨?_, ?_⟩⟩
        · rintro rfl
          exact hnew hk
        · exact hclosing k (List.mem_cons_of_mem id hk)
      · rw [hcoming]
        exact a.thread
      · have hcount := a.count
        rw [hp] at hcount
        change s.connectionNum l + (ids.length + 1) = _ at hcount
        have hpos := Finset.card_pos.mpr ⟨id, hmem⟩
        rw [hown, hcoming, Finset.card_erase_of_mem hmem, removeChannel, goto_self]
        change s.connectionNum l + ids.length = _ + _ + s.refused l
        omega
    · refine (i.loop l).other (goto_of_ne hl _) rfl rfl rfl rfl le_rfl (fun _ _ => rfl) ?_
      rw [hown]
      exact Finset.erase_eq_of_notMem fun h => hl ((Finset.mem_filter.mp h).2.symm.trans hloop)
  · have hlimit : s.channels.card + (removeChannel s m id ids).passed.card + 1 ≤
        s.max_connections + (threads s.numLoops).card :=
      i.limit_goto (p := .closing ids) (congrArg Place.isPassed hp) rfl
    have hle := Finset.card_erase_le (s := s.channels) (a := id)
    change (s.channels.erase id).card + _ + 1 ≤ s.max_connections + (threads s.numLoops).card
    omega

lemma Inv.check (i : Inv s) (hp : s.place m = .entered id) : Inv (checkLimit s m id) := by
  unfold checkLimit
  split
  next => exact i.refuse hp
  next hlimit => exact i.pass hp (Nat.not_le.mp hlimit)

lemma Inv.step {a : Action} (i : Inv s) (h : step s a = some s') : Inv s' := by
  cases step_cases h with
  | accept hnext hfits => exact i.accept hnext hfits
  | enter hp hposted => exact i.enter hp hposted
  | check hp => exact i.check hp
  | add hp => exact i.add hp
  | close hp hid hloop hnew => exact i.close hp hid hloop hnew
  | remove hp => exact i.remove hp
  | loop =>
    exact ⟨i.id, i.old, fun l => (i.loop l).other rfl rfl rfl rfl rfl le_rfl (fun _ _ => rfl) rfl,
      i.limit⟩

lemma inv_run {numLoops max_connections : ℕ} {load_balance : load_balance_e} {as : List Action}
    (h : Transition.exec step (start numLoops load_balance max_connections) as = some s) :
    Inv s ∧ s.max_connections = max_connections ∧ s.numLoops = numLoops := by
  refine Transition.inv_of_always (P := fun _ _ _ => True)
    (I := fun _ s => Inv s ∧ s.max_connections = max_connections ∧ s.numLoops = numLoops)
    ⟨inv_start _ _ _, rfl, rfl⟩ ?_ (fun _ _ _ _ _ _ => trivial) h
  intro _ t a u ht _ hstep
  refine ⟨ht.1.step hstep, ?_⟩
  rw [← ht.2.1, ← ht.2.2]
  cases step_cases hstep with
  | check =>
    unfold checkLimit
    split <;> exact ⟨rfl, rfl⟩
  | _ => exact ⟨rfl, rfl⟩

/-- **The counters.** In every run, the counter of a loop is the number of its channels and of the
connections it has yet to add, and of those it refused: they are never taken out. The channels that
are about to be removed are left out already. -/
theorem connections_counted {numLoops max_connections : ℕ} {load_balance : load_balance_e}
    {as : List Action} {s : Server}
    (h : Transition.exec step (start numLoops load_balance max_connections) as = some s)
    (l : EventLoop) :
    s.connectionNum l + (s.place l).leaving.length =
      (s.own l).card + (s.coming l).length + s.refused l :=
  ((inv_run h).1.loop l).count

/-- Of three connections one is over the limit; the callback in the `onclose` of the first one
closes the second one. -/
theorem connections_counted_nested :
    ∃ s, Transition.exec step (start 0 .LB_RoundRobin 2)
        [.accept 1 0 fun _ _ => 0, .enter .acceptor, .check .acceptor, .add .acceptor,
          .accept 2 0 fun _ _ => 0, .enter .acceptor, .check .acceptor, .add .acceptor,
          .accept 3 0 fun _ _ => 0, .enter .acceptor, .check .acceptor,
          .close .acceptor 1, .close .acceptor 2] = some s ∧
      (s.place .acceptor).leaving = [2, 1] ∧
      s.connectionNum .acceptor + (s.place .acceptor).leaving.length =
        (s.own .acceptor).card + (s.coming .acceptor).length + s.refused .acceptor := by
  obtain ⟨s, h⟩ := (⟨_, rfl⟩ : ∃ s, Transition.exec step (start 0 .LB_RoundRobin 2)
    [.accept 1 0 fun _ _ => 0, .enter .acceptor, .check .acceptor, .add .acceptor,
      .accept 2 0 fun _ _ => 0, .enter .acceptor, .check .acceptor, .add .acceptor,
      .accept 3 0 fun _ _ => 0, .enter .acceptor, .check .acceptor,
      .close .acceptor 1, .close .acceptor 2] = some s)
  refine ⟨s, h, ?_, connections_counted h .acceptor⟩
  cases h
  rfl

/-- **The limit.** In every run there are fewer connections than the limit and the number of the
loops together: each of the other loops may add one that it checked before. -/
theorem connections_limited {numLoops max_connections : ℕ} {load_balance : load_balance_e}
    {as : List Action} {s : Server}
    (h : Transition.exec step (start numLoops load_balance max_connections) as = some s) :
    s.channels.card < max_connections + max numLoops 1 := by
  obtain ⟨i, hmax, hn⟩ := inv_run h
  have hlimit := i.limit
  rw [card_threads, hmax, hn] at hlimit
  omega

/-- Two workers go over a limit of one. -/
theorem connections_limited_two :
    ∃ s, Transition.exec step (start 2 .LB_RoundRobin 1)
        [.accept 1 0 fun _ _ => 0, .accept 2 0 fun _ _ => 0, .enter (.worker 1),
          .enter (.worker 0), .check (.worker 1), .check (.worker 0), .add (.worker 1),
          .add (.worker 0)] = some s ∧
      s.channels.card = 2 ∧ s.channels.card < 1 + max 2 1 := by
  have hrun : ∃ s, Transition.exec step (start 2 .LB_RoundRobin 1)
      [.accept 1 0 fun _ _ => 0, .accept 2 0 fun _ _ => 0, .enter (.worker 1),
        .enter (.worker 0), .check (.worker 1), .check (.worker 0), .add (.worker 1),
        .add (.worker 0)] = some s ∧ s.channels.card = 2 := ⟨_, rfl, rfl⟩
  obtain ⟨s, h, hcard⟩ := hrun
  exact ⟨s, h, hcard, connections_limited h⟩

end MmrService.TcpServer
