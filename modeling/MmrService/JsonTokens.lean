import MmrService.JsonGrammar

/-!
The parser functions without recursion meet the grammar of the tokens.

For each one: what it does in every case, in terms of what is left of the text, and that it
reads what the grammar says.
-/

namespace MmrService.Json

open Scan Relation

variable {N : Numbers} {str s t : List UInt8} {o n : ℕ}

lemma look_cons {c : UInt8} (h : At str o (c :: s)) : look str 0 o = .ok c o := h.peek

lemma look_nil (h : At str o []) : look str 0 o = .ok 0 o := h.peek_end

lemma take_cons {c : UInt8} (h : At str o (c :: s)) : take str o = .ok c (o + 1) := h.next

lemma take_nil (h : At str o []) : take str o = .ok 0 (o + 1) := h.next_end

/-! ### White space and comments -/

lemma skipSpaces_spec (h : At str o s) (hn : s.length < n) :
    ∃ o' t, skipSpaces str n o = .ok () o' ∧ At str o' t ∧ ReflTransGen Blank s t ∧
      ∀ c ∈ t.head?, isspace c = false := by
  induction n generalizing s o with
  | zero => omega
  | succ n ih =>
    cases s with
    | nil =>
      refine ⟨o, [], ?_, h, .refl, by simp⟩
      rw [skipSpaces, bind_apply, look_nil h, Res.ok_bind, if_neg (by decide), pure_apply]
    | cons c s =>
      simp only [List.length_cons] at hn
      rw [skipSpaces, bind_apply, look_cons h, Res.ok_bind]
      split_ifs with hc
      · obtain ⟨o', t, hr, hat, hb, ht⟩ := ih h.tail (by omega)
        exact ⟨o', t, by rw [bind_apply, Reader.advance_apply, Res.ok_bind, hr], hat,
          .head (.space hc) hb, ht⟩
      · exact ⟨o, c :: s, rfl, h, .refl, by simpa using hc⟩

/-- No line comment without a newline, no block comment without its end mark. -/
lemma stopped_of_no_end {c : UInt8} {r : List UInt8} (hc : isspace c = false)
    (hline : [hash] <+: c :: r ∨ [slash, slash] <+: c :: r → ∀ u, ¬ First [newline] (c :: r) u)
    (hblock : [slash, star] <+: c :: r → ∀ u, ¬ First [star, slash] (c :: r) u) :
    Skips (c :: r) (c :: r) := by
  refine ⟨.refl, fun u hu => ?_⟩
  cases hu with
  | space h => rw [h] at hc; cases hc
  | line hm h => exact hline hm u h
  | block hm h => exact hblock hm u h

/-- A comment is skipped with what follows it, or it has no end and is left alone. -/
lemma skipComment_spec {endMark : List UInt8} {again : Parser Unit} (h : At str o s)
    (hagain : ∀ o' u, At str o' u → First endMark s u →
      ∃ o'' t, again o' = .ok () o'' ∧ At str o'' t ∧ Skips u t)
    (hblank : ∀ u, First endMark s u → Blank s u)
    (hstop : (∀ u, ¬ First endMark s u) → Skips s s) :
    ∃ o' t, skipComment str endMark again o = .ok () o' ∧ At str o' t ∧ Skips s t := by
  simp only [skipComment, bind_apply, Reader.offset_apply, Res.ok_bind]
  rcases hf : find str endMark o with _ | i
  · exact ⟨o, s, rfl, h, hstop (h.find_none hf)⟩
  · obtain ⟨u, hfirst, hat⟩ := h.find_some hf
    obtain ⟨o'', t, hr, hat', hskip⟩ := hagain _ _ hat hfirst
    exact ⟨o'', t, by simpa using hr, hat', hskip.behind (.single (hblank u hfirst))⟩

/-- Behind a slash, a second slash or a star makes a comment. -/
lemma slash_spec {again : Parser Unit} (h : At str o (slash :: s))
    (hagain : ∀ endMark : List UInt8, endMark ≠ [] → ∀ o' u, At str o' u →
      First endMark (slash :: s) u → ∃ o'' t, again o' = .ok () o'' ∧ At str o'' t ∧ Skips u t) :
    ∃ o' t, (do
        let c ← look str 1
        if c = slash then skipComment str [newline] again
        else if c = star then skipComment str [star, slash] again
        else pure ()) o = .ok () o' ∧ At str o' t ∧ Skips (slash :: s) t := by
  have hspace : isspace slash = false := by decide
  cases s with
  | nil =>
    have hl : look str 1 o = .ok 0 o := h.peek_ahead_end
    refine ⟨o, [slash], ?_, h, stopped_of_no_end hspace ?_ ?_⟩
    · rw [bind_apply, hl]; rfl
    · rintro (⟨r, hr⟩ | ⟨r, hr⟩) <;> simp [hash, slash] at hr
    · rintro ⟨r, hr⟩; simp at hr
  | cons d s =>
    have hl : look str 1 o = .ok d o := h.peek_ahead (w := [slash])
    rw [bind_apply, hl, Res.ok_bind]
    have hline : ([hash] <+: slash :: d :: s ∨ [slash, slash] <+: slash :: d :: s) ↔ d = slash := by
      simp [List.cons_prefix_cons, hash, slash, eq_comm]
    have hblock : [slash, star] <+: slash :: d :: s ↔ d = star := by
      simp [List.cons_prefix_cons, eq_comm]
    split_ifs with h1 h2
    · refine skipComment_spec h (hagain [newline] (by simp)) (fun u hf => .line (hline.mpr h1) hf)
        fun hno => stopped_of_no_end hspace (fun _ => hno) fun hm => ?_
      rw [hblock, h1] at hm
      exact absurd hm (by decide)
    · refine skipComment_spec h (hagain [star, slash] (by simp))
        (fun u hf => .block (hblock.mpr h2) hf)
        fun hno => stopped_of_no_end hspace (fun hm => ?_) fun _ => hno
      exact absurd (hline.mp hm) h1
    · exact ⟨o, _, rfl, h, stopped_of_no_end hspace (fun hm => absurd (hline.mp hm) h1)
        fun hm => absurd (hblock.mp hm) h2⟩

lemma skipAll_spec (h : At str o s) (hn : s.length < n) :
    ∃ o' t, skipAll str n o = .ok () o' ∧ At str o' t ∧ Skips s t := by
  induction n generalizing s o with
  | zero => omega
  | succ n ih =>
    have hlen := h.length
    obtain ⟨o1, r, hsp, hat, hb, hhead⟩ := skipSpaces_spec (n := turns str) h
      (by unfold turns; omega)
    have hle := blanks_length hb
    -- what a comment at `r` leaves is skipped by the next call
    have hagain : ∀ endMark : List UInt8, endMark ≠ [] → ∀ o' u, At str o' u →
        First endMark r u →
          ∃ o'' t', skipAll str n o' = .ok () o'' ∧ At str o'' t' ∧ Skips u t' := by
      intro endMark hne o' u hu hf
      have := hf.length
      have := List.length_pos_of_ne_nil hne
      exact ih hu (by omega)
    simp only [skipAll, bind_apply, hsp, Res.ok_bind]
    cases r with
    | nil =>
      rw [look_nil hat]
      exact ⟨o1, [], rfl, hat, Skips.behind ⟨.refl, fun u => not_blank_nil⟩ hb⟩
    | cons c r =>
      have hc : isspace c = false := hhead c rfl
      rw [look_cons hat, Res.ok_bind]
      split_ifs with hhash hslash
      · obtain ⟨o', t, hr, hat', hskip⟩ := skipComment_spec hat (hagain [newline] (by simp))
          (fun u hf => .line (.inl ⟨r, by rw [hhash]; rfl⟩) hf) fun hno =>
          stopped_of_no_end hc (fun _ => hno) fun hm =>
            absurd ((List.cons_prefix_cons.mp hm).1.trans hhash) (by decide)
        exact ⟨o', t, hr, hat', hskip.behind hb⟩
      · subst hslash
        obtain ⟨o', t, hr, hat', hskip⟩ := slash_spec hat hagain
        exact ⟨o', t, hr, hat', hskip.behind hb⟩
      · exact ⟨o1, c :: r, rfl, hat, (skips_self ⟨hc, hhash, hslash⟩).behind hb⟩

lemma consume_ws_spec (h : At str o s) :
    ∃ o' t, consume_ws str o = .ok () o' ∧ At str o' t ∧ Skips s t :=
  skipAll_spec h (by have := h.length; unfold turns; omega)

/-- What the grammar skips is what is skipped. -/
lemma consume_ws_eq (h : At str o s) (hs : Skips s t) :
    ∃ o', consume_ws str o = .ok () o' ∧ At str o' t := by
  obtain ⟨o', t', hr, hat, hs'⟩ := consume_ws_spec h
  obtain rfl := hs.unique hs'
  exact ⟨o', hr, hat⟩

/-! ### Strings -/

lemma hexDigits_eq {w hex : List UInt8} (h : At str o (w ++ (hex ++ s)))
    (hx : ∀ c ∈ hex, isHex c = true) :
    hexDigits str hex.length w.length o = .ok hex o := by
  induction hex generalizing w with
  | nil => rfl
  | cons c hex ih =>
    have hl : look str w.length o = .ok c o := h.peek_ahead
    have h' : At str o ((w ++ [c]) ++ (hex ++ s)) := by simpa using h
    have hrec := ih h' fun d hd => hx d (List.mem_cons_of_mem _ hd)
    rw [List.length_append, List.length_singleton] at hrec
    rw [List.length_cons, hexDigits, bind_apply, hl, Res.ok_bind, if_pos (hx c List.mem_cons_self),
      bind_apply, hrec, Res.ok_bind, pure_apply]

/-- The digits are there, or the escape is refused where it stands. -/
lemma hexDigits_spec {w : List UInt8} (h : At str o (w ++ s)) (k : ℕ) :
    (∃ hex r, s = hex ++ r ∧ hex.length = k ∧ ∀ c ∈ hex, isHex c = true) ∨
      ∃ e, hexDigits str k w.length o = .throw e o := by
  induction k generalizing w s with
  | zero => exact .inl ⟨[], s, rfl, rfl, by simp⟩
  | succ k ih =>
    cases s with
    | nil =>
      rw [List.append_nil] at h
      have hl : look str w.length o = .ok 0 o := h.peek_ahead_end
      exact .inr ⟨_, by rw [hexDigits, bind_apply, hl, Res.ok_bind, if_neg (by decide)]; rfl⟩
    | cons c s =>
      have hl : look str w.length o = .ok c o := h.peek_ahead
      have h' : At str o ((w ++ [c]) ++ s) := by simpa using h
      by_cases hc : isHex c = true
      · rcases ih h' with ⟨hex, r, rfl, hlen, hx⟩ | ⟨e, he⟩
        · refine .inl ⟨c :: hex, r, rfl, by rw [List.length_cons, hlen], fun d hd => ?_⟩
          rcases List.mem_cons.mp hd with rfl | hd
          · exact hc
          · exact hx d hd
        · rw [List.length_append] at he
          exact .inr ⟨e, by rw [hexDigits, bind_apply, hl, Res.ok_bind, if_pos hc, bind_apply]
                            exact congrArg (Res.bind · _) he⟩
      · exact .inr ⟨_, by rw [hexDigits, bind_apply, hl, Res.ok_bind, if_neg hc]; rfl⟩

lemma stringLoop_end (h : At str o []) (val : List UInt8) :
    stringLoop str (n + 1) val o = .outside (o + 1) := by
  have hl : look str 0 (o + 1) = .outside (o + 1) := h.peek_outside Nat.one_pos 0
  rw [stringLoop, bind_apply, Reader.advance_apply, Res.ok_bind, bind_apply, hl, Res.outside_bind]

section

variable {c d : UInt8} (val : List UInt8)

/-! One turn of the loop, by the character it meets; at the end of the text the terminator is
taken for a character of the string. -/

lemma stringLoop_nil (h : At str o [d]) :
    stringLoop str (n + 1 + 1) val o = .outside (o + 1 + 1) := by
  rw [stringLoop, bind_apply, Reader.advance_apply, Res.ok_bind, bind_apply, look_nil h.tail,
    Res.ok_bind, if_neg (by decide), if_neg (by decide), stringLoop_end h.tail]

lemma stringLoop_backslash (h : At str o [d, backslash]) :
    stringLoop str (n + 1 + 1) val o = .outside (o + 1 + 1 + 1) := by
  rw [stringLoop, bind_apply, Reader.advance_apply, Res.ok_bind, bind_apply, look_cons h.tail,
    Res.ok_bind, if_neg (by decide), if_pos rfl, bind_apply, Reader.advance_apply, Res.ok_bind,
    bind_apply, look_nil h.tail.tail, Res.ok_bind, if_neg (by decide), stringLoop_end h.tail.tail]

lemma stringLoop_quote (h : At str o (d :: quote :: s)) :
    stringLoop str (n + 1) val o = .ok val (o + 1) := by
  rw [stringLoop, bind_apply, Reader.advance_apply, Res.ok_bind, bind_apply, look_cons h.tail,
    Res.ok_bind, if_pos rfl, pure_apply]

lemma stringLoop_char (h : At str o (d :: c :: s)) (hq : c ≠ quote) (hb : c ≠ backslash) :
    stringLoop str (n + 1) val o = stringLoop str n (val ++ [c]) (o + 1) := by
  rw [stringLoop, bind_apply, Reader.advance_apply, Res.ok_bind, bind_apply, look_cons h.tail,
    Res.ok_bind, if_neg hq, if_neg hb]

lemma stringLoop_escape (h : At str o (d :: backslash :: c :: s)) (hu : c ≠ letterU) :
    stringLoop str (n + 1) val o = stringLoop str n (val ++ unescape c) (o + 1 + 1) := by
  rw [stringLoop, bind_apply, Reader.advance_apply, Res.ok_bind, bind_apply, look_cons h.tail,
    Res.ok_bind, if_neg (by decide), if_pos rfl, bind_apply, Reader.advance_apply, Res.ok_bind,
    bind_apply, look_cons h.tail.tail, Res.ok_bind, if_neg hu]

lemma stringLoop_unicode (h : At str o (d :: backslash :: letterU :: s)) :
    stringLoop str (n + 1) val o = (hexDigits str 4 1 (o + 1 + 1)).bind fun hex o' =>
      stringLoop str n (val ++ backslash :: letterU :: hex) (o' + 4) := by
  rw [stringLoop, bind_apply, Reader.advance_apply, Res.ok_bind, bind_apply, look_cons h.tail,
    Res.ok_bind, if_neg (by decide), if_pos rfl, bind_apply, Reader.advance_apply, Res.ok_bind,
    bind_apply, look_cons h.tail.tail, Res.ok_bind, if_pos rfl]
  rfl

end

/-- Behind the digits of a unicode escape the last of them is the character before. -/
lemma at_hex {hex : List UInt8} (h : At str o (letterU :: (hex ++ s))) (hlen : hex.length = 4) :
    ∃ d, At str (o + 4) (d :: s) := by
  obtain ⟨hex', d, rfl⟩ : ∃ l d, hex = l ++ [d] :=
    ⟨_, _, (List.dropLast_append_getLast (by rintro rfl; cases hlen)).symm⟩
  have hat : At str (o + (letterU :: hex').length) (d :: s) := At.skip (by simpa using h)
  rw [List.length_append, List.length_singleton] at hlen
  rw [List.length_cons, hlen] at hat
  exact ⟨d, hat⟩

lemma stringLoop_spec {d : UInt8} (h : At str o (d :: s)) (val : List UInt8)
    (hn : s.length + 1 < n) :
    (stringLoop str n val o).Post
      (fun v o' => ∃ w t, v = val ++ w ∧ At str o' (quote :: t) ∧ Chars s w t)
      (fun _ o' => o' ≤ str.length) (OpenChars s) := by
  induction n generalizing s o d val with
  | zero => omega
  | succ n ih =>
    rcases s with _ | ⟨c, s⟩
    · obtain ⟨m, rfl⟩ : ∃ m, n = m + 1 := ⟨n - 1, by simp at hn; omega⟩
      rw [stringLoop_nil val h]
      exact .nil
    simp only [List.length_cons] at hn
    by_cases hq : c = quote
    · subst hq
      rw [stringLoop_quote val h]
      exact ⟨[], s, by simp, h.tail, .close⟩
    by_cases hb : c ≠ backslash
    · rw [stringLoop_char val h hq hb]
      refine (ih h.tail _ (by omega)).imp ?_ (fun _ _ ho => ho) (.char hq hb)
      rintro v o' ⟨w, t, rfl, hat, hw⟩
      exact ⟨c :: w, t, by simp, hat, .char hq hb hw⟩
    obtain rfl : c = backslash := not_not.mp hb
    rcases s with _ | ⟨e, s⟩
    · obtain ⟨m, rfl⟩ : ∃ m, n = m + 1 := ⟨n - 1, by simp at hn; omega⟩
      rw [stringLoop_backslash val h]
      exact .backslash
    simp only [List.length_cons] at hn
    by_cases hu : e ≠ letterU
    · rw [stringLoop_escape val h hu]
      refine (ih h.tail.tail _ (by omega)).imp ?_ (fun _ _ ho => ho) (.escape hu)
      rintro v o' ⟨w, t, rfl, hat, hw⟩
      exact ⟨unescape e ++ w, t, by simp, hat, .escape hu hw⟩
    obtain rfl : e = letterU := not_not.mp hu
    rw [stringLoop_unicode val h]
    have hat := h.tail.tail
    rcases hexDigits_spec (w := [letterU]) hat 4 with ⟨hex, r, rfl, hlen, hx⟩ | ⟨e, he⟩
    · have heq : hexDigits str 4 1 (o + 1 + 1) = .ok hex (o + 1 + 1) :=
        hlen ▸ hexDigits_eq (w := [letterU]) hat hx
      obtain ⟨d', hat'⟩ := at_hex hat hlen
      rw [heq, Res.ok_bind]
      rw [List.length_append] at hn
      refine (ih hat' _ (by omega)).imp ?_ (fun _ _ ho => ho) (.unicode hlen hx)
      rintro v o' ⟨w, t, rfl, hat, hw⟩
      exact ⟨backslash :: letterU :: (hex ++ w), t, by simp, hat, .unicode hlen hx hw⟩
    · have he : hexDigits str 4 1 (o + 1 + 1) = .throw e (o + 1 + 1) := he
      rw [he]
      exact hat.le

lemma Chars.length {w : List UInt8} (h : Chars s w t) : t.length < s.length := by
  induction h with
  | close => simp
  | char _ _ _ ih => simp only [List.length_cons]; omega
  | escape _ _ ih => simp only [List.length_cons]; omega
  | unicode _ _ _ ih => simp only [List.length_cons, List.length_append]; omega

lemma stringLoop_eq {d : UInt8} {w : List UInt8} (hw : Chars s w t) (h : At str o (d :: s))
    (val : List UInt8) (hn : s.length + 1 < n) :
    ∃ o', stringLoop str n val o = .ok (val ++ w) o' ∧ At str o' (quote :: t) := by
  obtain ⟨n, rfl⟩ : ∃ m, n = m + 1 := ⟨n - 1, by omega⟩
  induction hw generalizing o d val n with
  | close => exact ⟨o + 1, by rw [stringLoop_quote val h, List.append_nil], h.tail⟩
  | char hq hb _ ih =>
    simp only [List.length_cons] at hn
    obtain ⟨n, rfl⟩ : ∃ m, n = m + 1 := ⟨n - 1, by omega⟩
    obtain ⟨o', hr, hat⟩ := ih h.tail (val ++ [_]) n (by omega)
    exact ⟨o', by rw [stringLoop_char val h hq hb, hr]; simp, hat⟩
  | escape hu _ ih =>
    simp only [List.length_cons] at hn
    obtain ⟨n, rfl⟩ : ∃ m, n = m + 1 := ⟨n - 1, by omega⟩
    obtain ⟨o', hr, hat⟩ := ih h.tail.tail (val ++ unescape _) n (by omega)
    exact ⟨o', by rw [stringLoop_escape val h hu, hr]; simp, hat⟩
  | @unicode hex s w t hlen hx _ ih =>
    simp only [List.length_cons, List.length_append] at hn
    obtain ⟨n, rfl⟩ : ∃ m, n = m + 1 := ⟨n - 1, by omega⟩
    have hat := h.tail.tail
    have heq : hexDigits str 4 1 (o + 1 + 1) = .ok hex (o + 1 + 1) :=
      hlen ▸ hexDigits_eq (w := [letterU]) hat hx
    obtain ⟨d', hat'⟩ := at_hex hat hlen
    obtain ⟨o', hr, hat''⟩ := ih hat' (val ++ backslash :: letterU :: hex) n (by omega)
    exact ⟨o', by rw [stringLoop_unicode val h, heq, Res.ok_bind, hr]; simp, hat''⟩

lemma stringLoop_outside {d : UInt8} (hs : OpenChars s) (h : At str o (d :: s))
    (val : List UInt8) (hn : s.length + 1 < n) :
    ∃ i, stringLoop str n val o = .outside i := by
  obtain ⟨n, rfl⟩ : ∃ m, n = m + 1 := ⟨n - 1, by omega⟩
  induction hs generalizing o d val n with
  | nil =>
    obtain ⟨n, rfl⟩ : ∃ m, n = m + 1 := ⟨n - 1, by simp at hn; omega⟩
    exact ⟨_, stringLoop_nil val h⟩
  | char hq hb _ ih =>
    simp only [List.length_cons] at hn
    obtain ⟨n, rfl⟩ : ∃ m, n = m + 1 := ⟨n - 1, by omega⟩
    rw [stringLoop_char val h hq hb]
    exact ih h.tail _ n (by omega)
  | backslash =>
    obtain ⟨n, rfl⟩ : ∃ m, n = m + 1 := ⟨n - 1, by simp at hn; omega⟩
    exact ⟨_, stringLoop_backslash val h⟩
  | escape hu _ ih =>
    simp only [List.length_cons] at hn
    obtain ⟨n, rfl⟩ : ∃ m, n = m + 1 := ⟨n - 1, by omega⟩
    rw [stringLoop_escape val h hu]
    exact ih h.tail.tail _ n (by omega)
  | @unicode hex s hlen hx _ ih =>
    simp only [List.length_cons, List.length_append] at hn
    obtain ⟨n, rfl⟩ : ∃ m, n = m + 1 := ⟨n - 1, by omega⟩
    have hat := h.tail.tail
    have heq : hexDigits str 4 1 (o + 1 + 1) = .ok hex (o + 1 + 1) :=
      hlen ▸ hexDigits_eq (w := [letterU]) hat hx
    obtain ⟨d', hat'⟩ := at_hex hat hlen
    rw [stringLoop_unicode val h, heq, Res.ok_bind]
    exact ih hat' _ n (by omega)

end MmrService.Json
