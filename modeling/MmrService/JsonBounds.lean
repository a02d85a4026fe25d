import MmrService.JsonReads

/-!
`load` stays in the text.

A failure where a value is expected is the failure of the whole text. So `load` leaves the text,
or the list of an array, exactly when a string or an exponent that is expected runs into the end
of the text or an array is too long, and moves the offset behind the end exactly when a string
or a number runs into the end.
-/

namespace MmrService.Json

open Scan Relation

variable {N : Numbers} {str s t u : List UInt8} {o n k : ℕ} {v : Value N.Double}

/-! ### What is not read -/

/-- No value is returned, and where an error is thrown `Q` holds. -/
def Fails (Q : ℕ → Prop) : Res (List UInt8) (Value N.Double) → Prop :=
  Res.Post (fun _ _ => False) (fun _ o => Q o) True

variable {Q : ℕ → Prop}

lemma Fails.bind {r : Res (List UInt8) (Value N.Double)}
    {f : Value N.Double → ℕ → Res (List UInt8) (Value N.Double)} (h : Fails Q r) :
    Fails Q (r.bind f) := Res.Post.bind h fun _ _ hf => hf.elim

/-- A failure without a read outside is an error. -/
lemma Fails.exists {r : Res (List UInt8) (Value N.Double)} {P : Value N.Double → ℕ → Prop}
    {Q' : ℕ → Prop} (h : Fails Q r) (h' : r.Post P (fun _ o => Q' o) False) :
    ∃ o, Q o ∧ Q' o := by
  cases r with
  | ok v o => exact h.elim
  | throw e o => exact ⟨o, h, h'⟩
  | outside i => exact h'.elim
  | unfinished => exact h'.elim

/-- The text goes on with another character than a closing one. -/
def NotClose (s : List UInt8) : Prop := s.headD 0 ≠ rbracket ∧ s.headD 0 ≠ rbrace

lemma Starts.head (h : Starts N s t) (ht : NotClose t) (hs : Skips s u) : NotClose u := by
  cases h with
  | here hs' =>
    obtain rfl := hs'.unique hs
    exact ht
  | array hs' _ =>
    obtain rfl := hs'.unique hs
    exact (by decide : lbracket ≠ rbracket ∧ lbracket ≠ rbrace)
  | object hs' _ =>
    obtain rfl := hs'.unique hs
    exact (by decide : lbrace ≠ rbracket ∧ lbrace ≠ rbrace)

mutual

/-- A failure where a value is expected is the failure of the whole value. -/
lemma Starts.fails {s : List UInt8} (h : Starts N s t) (ht : NotClose t)
    (hf : ∀ {o n}, At str o t → t.length < n → Fails Q (parse_next N str n o))
    {o n : ℕ} (hat : At str o s)
    (hn : s.length < n) : Fails Q (parse_next N str n o) := by
  obtain ⟨n, rfl⟩ : ∃ m, n = m + 1 := ⟨n - 1, by omega⟩
  match h with
  | .here hs =>
    obtain ⟨o1, hr, hat1⟩ := consume_ws_eq hat hs
    rw [parse_next_skips hat hs hat1]
    exact hf hat1 (hs.length.trans_lt hn)
  | .array hs he =>
    obtain ⟨o1, hat1, heq⟩ := parse_next_array (N := N) (n := n) hat hs
    have hlen := hs.length_cons
    have hlen1 := hat1.tail.length
    have hne : ∀ u, Skips _ u → u.headD 0 ≠ rbracket := fun u hu => by
      cases he with
      | here hst => exact (hst.head ht hu).1
      | later hv _ _ => exact (hv.head hu).1
    rw [heq, parse_array_loop hat1 hne]
    exact StartsElement.fails he ht hf (l := []) hat1.tail (by omega) (by unfold turns; omega)
      (Nat.two_pow_pos 32)
  | .object hs hm =>
    obtain ⟨o1, hat1, heq⟩ := parse_next_object (N := N) (n := n) hat hs
    have hlen := hs.length_cons
    have hlen1 := hat1.tail.length
    have hne : ∀ u, Skips _ u → u.headD 0 ≠ rbrace := fun u hu => by
      cases hm with
      | key hst => exact (hst.head ht hu).2
      | value hk _ _ => exact (hk.head hu).2
      | later hk _ _ _ _ => exact (hk.head hu).2
    rw [heq, parse_object_loop hat1 hne]
    exact StartsMember.fails hm ht hf hat1.tail (by omega) (by unfold turns; omega)

lemma StartsElement.fails {s : List UInt8} (h : StartsElement N s t) (ht : NotClose t)
    (hf : ∀ {o n}, At str o t → t.length < n → Fails Q (parse_next N str n o))
    {o n k : ℕ} {l : List (Value N.Double)} (hat : At str o s) (hk : s.length < k)
    (hn : s.length < n) (hl : l.length < 2 ^ 32) :
    Fails Q (arrayLoop str (parse_next N str k) n l.length l o) := by
  obtain ⟨n, rfl⟩ : ∃ m, n = m + 1 := ⟨n - 1, by omega⟩
  match h with
  | .here hst =>
    rw [arrayLoop, bind_apply]
    exact (Starts.fails hst ht hf hat hk).bind
  | .later hv hc he =>
    have hlen := hv.length
    have hlen' := hc.length_cons
    obtain ⟨o1, hv1, hat1⟩ := hv.parse hat hk
    rcases Nat.lt_or_ge (l.length + 1) (2 ^ 32) with hfit | hfull
    · obtain ⟨o2, hat2, heq⟩ := arrayLoop_element (n := n) hv1 hat1 hc hfit
      rw [heq, if_pos rfl]
      exact StartsElement.fails he ht hf hat2 (by omega) (by omega) (by simpa using hfit)
    · -- the list is left before the failure is reached
      rw [arrayLoop_wrap hv1 (by omega)]
      trivial

lemma StartsMember.fails {s : List UInt8} (h : StartsMember N s t) (ht : NotClose t)
    (hf : ∀ {o n}, At str o t → t.length < n → Fails Q (parse_next N str n o))
    {o n k : ℕ} {Object : List (List UInt8 × Value N.Double)} (hat : At str o s) (hk : s.length < k)
    (hn : s.length < n) : Fails Q (objectLoop str (parse_next N str k) n Object o) := by
  obtain ⟨n, rfl⟩ : ∃ m, n = m + 1 := ⟨n - 1, by omega⟩
  match h with
  | .key hst =>
    rw [objectLoop, bind_apply]
    exact (Starts.fails hst ht hf hat hk).bind
  | .value hkey hc hst =>
    have hlen := hkey.length.trans' hc.length_cons
    obtain ⟨o1, hkey1, hat1⟩ := hkey.parse hat hk
    obtain ⟨o2, hat2, heq⟩ := objectLoop_key (n := n) parse_next_skips hkey1 hat1 hc Object
    rw [heq]
    exact (Starts.fails hst ht hf hat2 (by omega)).bind
  | .later hkey hc hv hm hmem =>
    have hlen := hkey.length.trans' hc.length_cons
    have hlen' := hv.length.trans' hm.length_cons
    obtain ⟨o1, hkey1, hat1⟩ := hkey.parse hat hk
    obtain ⟨o2, hat2, heq⟩ := objectLoop_member (n := n) parse_next_skips hkey1 hat1 hc
      (fun hat => hv.parse hat (by omega)) hm
    rw [heq, if_pos rfl]
    exact StartsMember.fails hmem ht hf hat2 (by omega) (by omega)

end

/-! ### The starts of strings and numbers -/

lemma OpenString.notClose (h : OpenString s) : NotClose s := by
  obtain ⟨r, rfl, -⟩ := h
  exact (by decide : quote ≠ rbracket ∧ quote ≠ rbrace)

lemma OpenString.fails (h : OpenString s) (hat : At str o s) :
    Fails Q (parse_next N str (n + 1) o) := by
  obtain ⟨r, rfl, hr⟩ := h
  obtain ⟨o1, hat1, heq⟩ := parse_next_string (N := N) (n := n) hat (skips_self (by decide))
  obtain ⟨i, hi⟩ := parse_string_outside (N := N) hr hat1
  rw [heq, hi]
  trivial

lemma StartsNumber.skips (h : StartsNumber s) : Skips s s := by
  cases s with
  | nil => obtain ⟨c, hc, -⟩ := h; cases hc
  | cons c s =>
    have hc := startsNumber_cons.mp h
    refine skips_self ?_
    simp only [isDigit, isspace, minus, hash, slash] at *
    grind

lemma StartsNumber.notClose (h : StartsNumber s) : NotClose s := by
  cases s with
  | nil => obtain ⟨c, hc, -⟩ := h; cases hc
  | cons c s =>
    have hc := startsNumber_cons.mp h
    simp only [NotClose, List.headD_cons, isDigit, minus, rbracket, rbrace] at *
    grind

lemma FirstElements.fails {vs l : List (Value N.Double)} (h : FirstElements N s vs t)
    (hat : At str o s) (hk : s.length < k) (hn : s.length < n)
    (hlen : l.length + vs.length = 2 ^ 32) :
    Fails Q (arrayLoop str (parse_next N str k) n l.length l o) := by
  induction h generalizing o n l with
  | one hv =>
    obtain ⟨n, rfl⟩ : ∃ m, n = m + 1 := ⟨n - 1, by omega⟩
    obtain ⟨o1, hv1, -⟩ := hv.parse hat hk
    rw [arrayLoop_wrap hv1 hlen]
    trivial
  | @more s s' s'' t v vs hv hc hr ih =>
    obtain ⟨n, rfl⟩ : ∃ m, n = m + 1 := ⟨n - 1, by omega⟩
    have hlt := hv.length
    have hlt' := hc.length_cons
    rw [List.length_cons] at hlen
    have hvs : 0 < vs.length := by cases hr <;> exact Nat.succ_pos _
    obtain ⟨o1, hv1, hat1⟩ := hv.parse hat hk
    obtain ⟨o2, hat2, heq⟩ := arrayLoop_element (n := n) hv1 hat1 hc
      (show l.length + 1 < 2 ^ 32 by omega)
    rw [heq, if_pos rfl]
    refine ih hat2 (by omega) (by omega) ?_
    rw [List.length_append, List.length_singleton]
    omega

lemma LongArray.fails (h : LongArray N s) (hat : At str o s) (hn : s.length < n) :
    Fails Q (parse_next N str n o) := by
  obtain ⟨s', vs, t, rfl, hvs, hlen⟩ := h
  obtain ⟨n, rfl⟩ : ∃ m, n = m + 1 := ⟨n - 1, by omega⟩
  rw [List.length_cons] at hn
  obtain ⟨o1, hat1, heq⟩ := parse_next_array (N := N) (n := n) hat (skips_self (by decide))
  have hlen1 := hat1.tail.length
  have hne : ∀ u, Skips s' u → u.headD 0 ≠ rbracket := fun u hu => by
    cases hvs with
    | one hv => exact (hv.head hu).1
    | more hv _ _ => exact (hv.head hu).1
  rw [heq, parse_array_loop hat1 hne]
  exact hvs.fails (l := []) hat1.tail (by omega) (by unfold turns; omega)
    ((Nat.zero_add _).trans hlen)

lemma Overruns.notClose (h : Overruns N s) : NotClose s := by
  rcases h with h | h | ⟨s', vs, t, rfl, -, -⟩
  · exact h.notClose
  · exact h.1.notClose
  · exact (by decide : lbracket ≠ rbracket ∧ lbracket ≠ rbrace)

lemma Overruns.fails (h : Overruns N s) (hat : At str o s) (hn : s.length < n) :
    Fails Q (parse_next N str n o) := by
  obtain ⟨n, rfl⟩ : ∃ m, n = m + 1 := ⟨n - 1, by omega⟩
  rcases h with h | ⟨hstart, hcut⟩ | h
  · exact h.fails hat
  · obtain ⟨o1, hat1, heq⟩ := parse_next_number (N := N) (n := n) hat hstart.skips hstart
    obtain ⟨i, hi⟩ := hcut.parse (N := N) hat1
    rw [heq, hi]
    trivial
  · exact h.fails hat hn

lemma RunsOut.fails (h : RunsOut s) (hat : At str o s) (hn : s.length < n) :
    Fails (str.length < ·) (parse_next N str n o) := by
  obtain ⟨n, rfl⟩ : ∃ m, n = m + 1 := ⟨n - 1, by omega⟩
  obtain ⟨o1, hat1, heq⟩ := parse_next_number (N := N) (n := n) hat h.1.skips h.1
  rw [heq]
  exact h.2.parse hat1

/-! ### Loading -/

lemma errorPos_ok {r row p : ℕ} (hp : p ≤ str.length) (hn : str.length - p < n) :
    ∃ q, errorPos str r n row p o = .ok q o := by
  induction n generalizing row p with
  | zero => omega
  | succ n ih =>
    obtain ⟨s, hat⟩ := exists_at hp
    rw [errorPos]
    rcases hf : find str [newline] p with _ | e
    · exact ⟨_, rfl⟩
    · have hge := find_ge hf
      obtain ⟨t, -, hat'⟩ := hat.find_some hf
      have hle : e + 1 ≤ str.length := hat'.le
      dsimp only
      split_ifs
      · exact ⟨_, rfl⟩
      · exact ih hle (by omega)
      · exact ⟨_, rfl⟩

variable (jsonRoot : Value N.Double)

lemma load_ok (h : parse_next N str (turns str) 0 = .ok v o) :
    load N str jsonRoot = .ok ([], v) o := by
  rw [load, h]

/-- What is thrown is returned as an error, with a place. -/
lemma load_throw {e : List UInt8} (h : parse_next N str (turns str) 0 = .throw e o) :
    ∃ place, load N str jsonRoot = .ok (what e ++ text "row:" ++ place, jsonRoot) o := by
  obtain ⟨q, hq⟩ : ∃ q, (if 0 < o then errorPos str o (turns str) 0 0 o else .ok (0, 0) o) =
      Res.ok q o := by
    split_ifs
    · exact errorPos_ok (Nat.zero_le _) (by unfold turns; omega)
    · exact ⟨_, rfl⟩
  refine ⟨decimal q.1 ++ text " col:" ++ decimal q.2, ?_⟩
  rw [load, h]
  simp only [hq, Res.ok_bind, List.append_assoc]

/-- `load` ends as the parser does, errors included. -/
lemma load_post {P : ℕ → Prop} :
    (load N str jsonRoot).Post (fun _ o => P o) (fun _ _ => False) False ↔
      (parse_next N str (turns str) 0).Post (fun _ o => P o) (fun _ o => P o) False := by
  rcases h : parse_next N str (turns str) 0 with ⟨v, o⟩ | ⟨e, o⟩ | i | _
  · rw [load_ok jsonRoot h]
    rfl
  · obtain ⟨place, hl⟩ := load_throw jsonRoot h
    rw [hl]
    rfl
  · rw [load, h]
    rfl
  · rw [load, h]
    rfl

variable (str)

/-- `load` ends without a read outside the text and its terminator, and without a write outside
the list of an array. -/
def ReadsInBounds : Prop :=
  (load N str jsonRoot).Post (fun _ _ => True) (fun _ _ => False) False

/-- And then the offset is in the text or at its terminator. -/
def EndsInBounds : Prop :=
  (load N str jsonRoot).Post (fun _ o => o ≤ str.length) (fun _ _ => False) False

lemma overruns_fails (ht : Starts N str t) (ho : Overruns N t) :
    Fails Q (parse_next N str (turns str) 0) :=
  ht.fails ho.notClose (fun hat hn => ho.fails hat hn) (.start str) (Nat.lt_succ_self _)

lemma runsOut_fails (ht : Starts N str t) (ho : RunsOut t) :
    Fails (str.length < ·) (parse_next N str (turns str) 0) :=
  ht.fails ho.1.notClose (fun hat hn => ho.fails hat hn) (.start str) (Nat.lt_succ_self _)

lemma readsInBounds_iff :
    ReadsInBounds str jsonRoot ↔ ∀ t, Starts N str t → ¬ Overruns N t := by
  rw [ReadsInBounds, load_post]
  constructor
  · intro h t ht ho
    obtain ⟨o, hf, -⟩ := (overruns_fails (Q := fun _ => False) str ht ho).exists h
    exact hf
  · intro h
    refine Res.Post.imp (parse_next_spec (N := N) (.start str) (Nat.lt_succ_self _))
      (fun _ _ _ => trivial) (fun _ _ _ => trivial) ?_
    rintro ⟨t, ht, ho⟩
    exact h t ht ho

lemma endsInBounds_iff :
    EndsInBounds str jsonRoot ↔ ∀ t, Starts N str t → ¬ Overruns N t ∧ ¬ RunsOut t := by
  rw [EndsInBounds, load_post]
  constructor
  · intro h t ht
    constructor
    · intro ho
      obtain ⟨o, hf, -⟩ := (overruns_fails (Q := fun _ => False) str ht ho).exists h
      exact hf
    · intro ho
      obtain ⟨o, hlt, hle⟩ := (runsOut_fails str ht ho).exists h
      exact absurd hlt (not_lt.mpr hle)
  · intro h
    refine Res.Post.imp (parse_next_spec (N := N) (.start str) (Nat.lt_succ_self _))
      (fun v o ⟨t, hat, _⟩ => hat.le) (fun e o hq => ?_) ?_
    · by_contra hlt
      obtain ⟨t, ht, ho⟩ := hq (not_le.mp hlt)
      exact (h t ht).2 ho
    · rintro ⟨t, ht, ho⟩
      exact (h t ht).1 ho

/-- All reads are in bounds when no string and no exponent that is expected runs into the end of
the text and no array is too long, and the offset as well when no number runs into the end. -/
theorem load_in_bounds :
    (ReadsInBounds str jsonRoot ↔ ∀ t, Starts N str t → ¬ Overruns N t) ∧
    (EndsInBounds str jsonRoot ↔ ∀ t, Starts N str t → ¬ Overruns N t ∧ ¬ RunsOut t) :=
  ⟨readsInBounds_iff str jsonRoot, endsInBounds_iff str jsonRoot⟩

/-- A `long` of 64 bits, for texts without doubles. -/
def lp64 : Numbers where
  longBits := 64
  Double := Unit
  stod _ := .error (text "stod")
  ofLong _ := ()
  mul _ _ := ()
  pow10 _ := ()
  to_string _ := []

/-- A string that is not closed, and a number as the whole text. -/
theorem load_out_of_bounds :
    ¬ ReadsInBounds [quote, 97, 98, 99] (Value.null : Value lp64.Double) ∧
    ¬ EndsInBounds [49, 50] (Value.null : Value lp64.Double) := by
  have hquote : load lp64 [quote, 97, 98, 99] .null = .outside 5 := rfl
  obtain ⟨e, hnumber⟩ : ∃ e, load lp64 [49, 50] .null = .ok (e, .null) 3 := ⟨_, rfl⟩
  constructor
  · rw [ReadsInBounds, hquote]
    exact id
  · rw [EndsInBounds, hnumber]
    intro hle
    exact absurd (show 3 ≤ 2 from hle) (by decide)

end MmrService.Json
