import MmrService.JsonNumbers

/-!
`parse_next` meets the grammar.

What it returns is a value of the grammar, which ends where it stands; where it reads outside
the text, or moves the offset behind its end, a string or a number stands that is not over at
the end of the text; and what the grammar reads it returns.
-/

namespace MmrService.Json

open Scan Relation

variable {N : Numbers} {str s t u : List UInt8} {o n k : ℕ} {v : Value N.Double}

/-! ### The grammar behind spaces and comments -/

lemma Reads.behind (hv : Reads N u v t) (hb : ReflTransGen Blank s u) : Reads N s v t := by
  cases hv with
  | token hs hv => exact .token (hs.behind hb) hv
  | arrayNil hs ht => exact .arrayNil (hs.behind hb) ht
  | array hs hv hlen => exact .array (hs.behind hb) hv hlen
  | objectNil hs ht => exact .objectNil (hs.behind hb) ht
  | object hs hv => exact .object (hs.behind hb) hv

lemma Starts.behind (ht : Starts N u t) (hb : ReflTransGen Blank s u) : Starts N s t := by
  cases ht with
  | here hs => exact .here (hs.behind hb)
  | array hs ht => exact .array (hs.behind hb) ht
  | object hs ht => exact .object (hs.behind hb) ht

lemma Elements.behind {vs : List (Value N.Double)} (hv : Elements N u vs t)
    (hb : ReflTransGen Blank s u) : Elements N s vs t := by
  cases hv with
  | last hv ht => exact .last (hv.behind hb) ht
  | more hv hc hr => exact .more (hv.behind hb) hc hr

lemma FirstElements.behind {vs : List (Value N.Double)} (hv : FirstElements N u vs t)
    (hb : ReflTransGen Blank s u) : FirstElements N s vs t := by
  cases hv with
  | one hv => exact .one (hv.behind hb)
  | more hv hc hr => exact .more (hv.behind hb) hc hr

lemma Members.behind {ms : List (Value N.Double × Value N.Double)} (hm : Members N u ms t)
    (hb : ReflTransGen Blank s u) : Members N s ms t := by
  cases hm with
  | last hk hc hv ht => exact .last (hk.behind hb) hc hv ht
  | more hk hc hv hm hr => exact .more (hk.behind hb) hc hv hm hr

lemma StartsElement.behind (ht : StartsElement N u t) (hb : ReflTransGen Blank s u) :
    StartsElement N s t := by
  cases ht with
  | here ht => exact .here (ht.behind hb)
  | later hv hc ht => exact .later (hv.behind hb) hc ht

lemma StartsMember.behind (ht : StartsMember N u t) (hb : ReflTransGen Blank s u) :
    StartsMember N s t := by
  cases ht with
  | key ht => exact .key (ht.behind hb)
  | value hk hc ht => exact .value (hk.behind hb) hc ht
  | later hk hc hv hm ht => exact .later (hk.behind hb) hc hv hm ht

/-! ### Lengths -/

lemma Number.length (hs : StartsNumber s) (h : Number N s v t) : t.length < s.length := by
  cases h with
  | @plain val t c _ hval hc =>
    cases val with
    | nil =>
      obtain ⟨d, hd, hstart⟩ := hs
      obtain rfl : c = d := by simpa using hd
      have hnot := isStop_not_isNumber hc
      have hnum : isNumber c = true :=
        isNumber_iff.mpr (hstart.elim (fun h => .inr (.inl h)) .inl)
      rw [hnum] at hnot
      cases hnot
    | cons d val => simp only [List.length_append, List.length_cons]; omega
  | exponent => simp only [List.length_append, List.length_cons]; omega

lemma Token.length (h : Token N s v t) : t.length < s.length := by
  cases h with
  | string h => exact h.length.trans (Nat.lt_succ_self _)
  | number hs h => exact h.length hs
  | true_ => rw [List.length_append]; exact Nat.lt_add_of_pos_left (by decide)
  | false_ => rw [List.length_append]; exact Nat.lt_add_of_pos_left (by decide)
  | null => rw [List.length_append]; exact Nat.lt_add_of_pos_left (by decide)

lemma Skips.length_cons {c : UInt8} (h : Skips s (c :: t)) : t.length < s.length :=
  Nat.lt_of_succ_le h.length

mutual

lemma Reads.length {s t : List UInt8} {v : Value N.Double} :
    Reads N s v t → t.length < s.length
  | .token hs h => h.length.trans_le hs.length
  | .arrayNil hs ht => ht.length_cons.trans hs.length_cons
  | .array hs h _ => (Elements.length h).trans hs.length_cons
  | .objectNil hs ht => ht.length_cons.trans hs.length_cons
  | .object hs h => (Members.length h).trans hs.length_cons

lemma Elements.length {s t : List UInt8} {vs : List (Value N.Double)} :
    Elements N s vs t → t.length < s.length
  | .last h ht => ht.length_cons.trans (Reads.length h)
  | .more h hc hr => (Elements.length hr).trans (hc.length_cons.trans (Reads.length h))

lemma Members.length {s t : List UInt8} {ms : List (Value N.Double × Value N.Double)} :
    Members N s ms t → t.length < s.length
  | .last hk hc hv ht =>
    ht.length_cons.trans ((Reads.length hv).trans (hc.length_cons.trans (Reads.length hk)))
  | .more hk hc hv hm hr =>
    (Members.length hr).trans (hm.length_cons.trans ((Reads.length hv).trans
      (hc.length_cons.trans (Reads.length hk))))

end

/-! ### The next character -/

lemma look_head (h : At str o s) : look str 0 o = .ok (s.headD 0) o := by
  cases s with
  | nil => exact look_nil h
  | cons c s => exact look_cons h

lemma cons_of_headD {c : UInt8} (h : s.headD 0 = c) (hc : c ≠ 0) : ∃ t, s = c :: t := by
  cases s with
  | nil => exact absurd h.symm hc
  | cons d s => exact ⟨s, by rw [← h]; rfl⟩

/-- Behind spaces and comments stands the character that decides how to go on. -/
lemma next_char (h : At str o s) :
    ∃ o' t, At str o' t ∧ Skips s t ∧ ∀ {α : Type} (f : UInt8 → Parser α),
      (do consume_ws str; let c ← look str 0; f c) o = f (t.headD 0) o' := by
  obtain ⟨o', t, hr, hat, hs⟩ := consume_ws_spec h
  exact ⟨o', t, hat, hs, fun f => by
    rw [bind_apply, hr, Res.ok_bind, bind_apply, look_head hat, Res.ok_bind]⟩

lemma next_char_eq (h : At str o s) (hs : Skips s t) :
    ∃ o', At str o' t ∧ ∀ {α : Type} (f : UInt8 → Parser α),
      (do consume_ws str; let c ← look str 0; f c) o = f (t.headD 0) o' := by
  obtain ⟨o', t', hat, hs', heq⟩ := next_char h
  obtain rfl := hs.unique hs'
  exact ⟨o', hat, heq⟩

lemma next_char_cons {c : UInt8} (h : At str o s) (hs : Skips s (c :: t)) :
    ∃ o', At str o' (c :: t) ∧ ∀ {α : Type} (f : UInt8 → Parser α),
      (do consume_ws str; let c ← look str 0; f c) o = f c o' := next_char_eq h hs

/-! ### What a result may be -/

/-- A number stands here that goes on to the end of the text. -/
def RunsOut (s : List UInt8) : Prop := StartsNumber s ∧ OpenNumber s

variable (N) in
/-- A string or an exponent stands here whose end is looked for behind the end of the text, or
an array of which an element is stored behind the end of the list. -/
def Overruns (s : List UInt8) : Prop :=
  OpenString s ∨ StartsNumber s ∧ CutExponent s ∨ LongArray N s

/-- A result within the grammar: values `R`, read from `s`, and positions `S` of values. -/
def Spec (str s : List UInt8) (R : Value N.Double → List UInt8 → Prop)
    (S : List UInt8 → Prop) : Res (List UInt8) (Value N.Double) → Prop :=
  Res.Post (fun v o => ∃ t, At str o t ∧ R v t ∧ t.length < s.length)
    (fun _ o => str.length < o → ∃ t, S t ∧ RunsOut t) (∃ t, S t ∧ Overruns N t)

section

variable {s' : List UInt8} {R R' : Value N.Double → List UInt8 → Prop} {S S' : List UInt8 → Prop}
  {r : Res (List UInt8) (Value N.Double)}

lemma Spec.imp (h : Spec str s R S r)
    (hR : ∀ v t, R v t → t.length < s.length → R' v t ∧ t.length < s'.length)
    (hS : ∀ t, S t → S' t) : Spec str s' R' S' r :=
  Res.Post.imp h (fun v _ ⟨t, hat, hv, hlt⟩ => ⟨t, hat, hR v t hv hlt⟩)
    (fun _ _ hq hlt => (hq hlt).imp fun t ht => ⟨hS t ht.1, ht.2⟩)
    fun ⟨t, ht⟩ => ⟨t, hS t ht.1, ht.2⟩

lemma Spec.bind {f : Value N.Double → ℕ → Res (List UInt8) (Value N.Double)}
    (h : Spec str s R S r) (hS : ∀ t, S t → S' t)
    (hf : ∀ v o t, At str o t → R v t → t.length < s.length → Spec str s' R' S' (f v o)) :
    Spec str s' R' S' (r.bind f) := by
  have h' : Spec str s R S' r := h.imp (fun _ _ hv hlt => ⟨hv, hlt⟩) hS
  exact Res.Post.bind h' fun v o ⟨t, hat, hv, hlt⟩ => hf v o t hat hv hlt

/-- An error raised in the text. -/
lemma spec_throw {e : List UInt8} (h : At str o t) : Spec str s R S (.throw e o) :=
  fun hlt => absurd hlt (not_lt.mpr h.le)

end

/-! ### Arrays and objects, with a parser for what is inside -/

/-- The element behind the last one is appended. -/
lemma setElement_length {Array : List (Value N.Double)} (h : Array.length + 1 < 2 ^ 32) :
    setElement Array Array.length v o = .ok (Array ++ [v]) o := by
  have hset : (Array ++ [Value.null]).set Array.length v = Array ++ [v] := by
    rw [List.set_append_right _ _ (Nat.le_refl _), Nat.sub_self, List.set_cons_zero]
  simp only [setElement, Nat.mod_eq_of_lt h, Nat.add_sub_cancel_left, List.replicate_one,
    List.take_of_length_le (Nat.le_succ _), if_pos (Nat.le_refl _), hset]
  rw [if_pos (by simp)]
  rfl

/-- At the last index the list is emptied. -/
lemma setElement_wrap {Array : List (Value N.Double)} (h : Array.length + 1 = 2 ^ 32) :
    setElement Array Array.length v o = .outside Array.length := by
  simp only [setElement, h, Nat.mod_self, List.take_zero, Nat.zero_sub, List.replicate_zero,
    if_pos (Nat.le_refl _), List.append_nil, List.length_nil, if_neg (Nat.not_lt_zero _)]
  rfl

section

variable {p : Parser (Value N.Double)}
  (hp : ∀ {o s}, At str o s → s.length < k → Spec str s (Reads N s) (Starts N s) (p o))

include hp

/-- The positions `S` are those of the elements, and that of the array if it is too long. -/
lemma arrayLoop_spec {S : List UInt8 → Prop} (Array : List (Value N.Double)) (h : At str o s)
    (hk : s.length < k) (hn : s.length < n) (hlen : Array.length < 2 ^ 32)
    (hS : ∀ t, StartsElement N s t → S t)
    (hlong : ∀ vs t, FirstElements N s vs t → Array.length + vs.length = 2 ^ 32 →
      ∃ t, S t ∧ Overruns N t) :
    Spec str s (fun v t => ∃ vs, v = .array (Array ++ vs) ∧ Elements N s vs t ∧
      (Array ++ vs).length < 2 ^ 32) S (arrayLoop str p n Array.length Array o) := by
  induction n generalizing s o Array with
  | zero => omega
  | succ n ih =>
    rw [arrayLoop, bind_apply]
    refine (hp h hk).bind (fun t ht => hS t (.here ht)) fun v o1 s1 hat1 hv hlt => ?_
    rcases Nat.lt_or_ge (Array.length + 1) (2 ^ 32) with hfit | hfull
    · rw [bind_apply, setElement_length hfit, Res.ok_bind]
      obtain ⟨o2, s2, hat2, hs, heq⟩ := next_char hat1
      simp only [heq]
      split_ifs with hcomma hbracket
      · obtain ⟨s3, rfl⟩ := cons_of_headD hcomma (by decide)
        have hlt' := hs.length_cons.trans hlt
        have hindex : (Array.length + 1) % 2 ^ 32 = (Array ++ [v]).length := by
          rw [List.length_append, List.length_singleton, Nat.mod_eq_of_lt hfit]
        rw [hindex]
        refine (ih (Array ++ [v]) hat2.tail (by omega) (by omega) (by simpa using hfit)
          (fun t ht => hS t (.later hv hs ht)) fun vs t hvs hl => ?_).imp ?_ fun t ht => ht
        · refine hlong (v :: vs) t (.more hv hs hvs) ?_
          rw [List.length_append, List.length_singleton] at hl
          rw [List.length_cons]
          omega
        · rintro v' t ⟨vs, rfl, hvs, hl⟩ ht
          rw [List.append_assoc, List.singleton_append] at hl ⊢
          exact ⟨⟨v :: vs, rfl, .more hv hs hvs, hl⟩, ht.trans hlt'⟩
      · obtain ⟨s3, rfl⟩ := cons_of_headD hbracket (by decide)
        exact ⟨s3, hat2.tail, ⟨[v], rfl, .last hv hs, by simpa using hfit⟩,
          hs.length_cons.trans hlt⟩
      · exact spec_throw hat2
    · -- the index of the next element would wrap
      have hwrap : Array.length + 1 = 2 ^ 32 := by omega
      rw [bind_apply, setElement_wrap hwrap]
      exact hlong [v] s1 (.one hv) hwrap

lemma parse_array_spec (h : At str o (lbracket :: s)) (hk : s.length < k) :
    Spec str (lbracket :: s) (Reads N (lbracket :: s)) (Starts N (lbracket :: s))
      (parse_array str p o) := by
  have hself : Skips (lbracket :: s) (lbracket :: s) := skips_self (by decide)
  rw [parse_array, bind_apply, Reader.advance_apply, Res.ok_bind]
  obtain ⟨o1, s1, hat1, hs, heq⟩ := next_char h.tail
  have hle := hs.length
  simp only [heq]
  split_ifs with hbracket
  · obtain ⟨t, rfl⟩ := cons_of_headD hbracket (by decide)
    exact ⟨t, hat1.tail, .arrayNil hself hs, hs.length_cons.trans (Nat.lt_succ_self _)⟩
  · have hlen := hat1.length
    have hlong : ∀ vs t, FirstElements N s1 vs t → 0 + vs.length = 2 ^ 32 →
        ∃ t, Starts N (lbracket :: s) t ∧ Overruns N t := fun vs t hvs hl =>
      ⟨_, .here hself, .inr (.inr ⟨s, vs, t, rfl, hvs.behind hs.1, by omega⟩)⟩
    refine (arrayLoop_spec hp (n := turns str) [] hat1 (by omega) (by unfold turns; omega)
      (Nat.two_pow_pos 32) (fun t ht => .array hself (ht.behind hs.1)) hlong).imp ?_ fun t ht => ht
    rintro v t ⟨vs, rfl, hvs, hl⟩ ht
    exact ⟨.array hself (hvs.behind hs.1) hl, by simp only [List.length_cons]; omega⟩

lemma objectLoop_spec (Object : List (List UInt8 × Value N.Double)) (h : At str o s)
    (hk : s.length < k) (hn : s.length < n) :
    Spec str s (fun v t => ∃ ms, v = .object (build Object ms) ∧ Members N s ms t)
      (StartsMember N s) (objectLoop str p n Object o) := by
  induction n generalizing s o Object with
  | zero => omega
  | succ n ih =>
    rw [objectLoop, bind_apply]
    refine (hp h hk).bind (fun t ht => .key ht) fun key o1 s1 hat1 hkey hlt1 => ?_
    obtain ⟨o2, s2, hat2, hs2, heq2⟩ := next_char hat1
    simp only [heq2]
    split_ifs with hcolon
    · exact spec_throw hat2
    obtain ⟨s3, rfl⟩ := cons_of_headD (not_not.mp hcolon) (by decide)
    have hlt3 := hs2.length_cons.trans hlt1
    obtain ⟨o4, s4, hr4, hat4, hs4⟩ := consume_ws_spec hat2.tail
    have hlt4 := hs4.length.trans_lt hlt3
    rw [bind_apply, Reader.advance_apply, Res.ok_bind, bind_apply, hr4, Res.ok_bind, bind_apply]
    refine (hp hat4 (by omega)).bind (fun t ht => .value hkey hs2 (ht.behind hs4.1))
      fun v o5 s5 hat5 hv hlt5 => ?_
    have hv := hv.behind hs4.1
    obtain ⟨o6, s6, hat6, hs6, heq6⟩ := next_char hat5
    simp only [heq6]
    split_ifs with hcomma hbrace
    · obtain ⟨s7, rfl⟩ := cons_of_headD hcomma (by decide)
      have hlt7 := hs6.length_cons.trans (hlt5.trans hlt4)
      refine (ih _ hat6.tail (by omega) (by omega)).imp ?_ fun t ht => .later hkey hs2 hv hs6 ht
      rintro v' t ⟨ms, rfl, hms⟩ ht
      exact ⟨⟨(key, v) :: ms, rfl, .more hkey hs2 hv hs6 hms⟩, ht.trans hlt7⟩
    · obtain ⟨s7, rfl⟩ := cons_of_headD hbrace (by decide)
      exact ⟨s7, hat6.tail, ⟨[(key, v)], rfl, .last hkey hs2 hv hs6⟩,
        hs6.length_cons.trans (hlt5.trans hlt4)⟩
    · exact spec_throw hat6

lemma parse_object_spec (h : At str o (lbrace :: s)) (hk : s.length < k) :
    Spec str (lbrace :: s) (Reads N (lbrace :: s)) (Starts N (lbrace :: s))
      (parse_object str p o) := by
  have hself : Skips (lbrace :: s) (lbrace :: s) := skips_self (by decide)
  rw [parse_object, bind_apply, Reader.advance_apply, Res.ok_bind]
  obtain ⟨o1, s1, hat1, hs, heq⟩ := next_char h.tail
  have hle := hs.length
  simp only [heq]
  split_ifs with hbrace
  · obtain ⟨t, rfl⟩ := cons_of_headD hbrace (by decide)
    exact ⟨t, hat1.tail, .objectNil hself hs, hs.length_cons.trans (Nat.lt_succ_self _)⟩
  · have hlen := hat1.length
    refine (objectLoop_spec hp (n := turns str) [] hat1 (by omega)
      (by unfold turns; omega)).imp ?_ fun t ht => .object hself (ht.behind hs.1)
    rintro v t ⟨ms, rfl, hms⟩ ht
    exact ⟨.object hself (hms.behind hs.1), by simp only [List.length_cons]; omega⟩

end

/-! ### A value -/

lemma startsNumber_cons {c : UInt8} : StartsNumber (c :: s) ↔ isDigit c = true ∨ c = minus := by
  simp [StartsNumber]

/-- The parser of a token, as far as `parse_next` uses it. -/
lemma spec_token {r : Res (List UInt8) (Value N.Double)} (hs : Skips s s)
    (h : r.Post (fun v o' => ∃ t, At str o' t ∧ Token N s v t)
      (fun _ o' => str.length < o' → RunsOut s) (Overruns N s)) :
    Spec str s (Reads N s) (Starts N s) r :=
  h.imp (fun _ _ ⟨t, hat, hv⟩ => ⟨t, hat, .token hs hv, hv.length⟩)
    (fun _ _ hq hlt => ⟨s, .here hs, hq hlt⟩) fun ho => ⟨s, .here hs, ho⟩

lemma parse_next_spec (h : At str o s) (hn : s.length < n) :
    Spec str s (Reads N s) (Starts N s) (parse_next N str n o) := by
  induction n generalizing s o with
  | zero => omega
  | succ n ih =>
    obtain ⟨o1, s1, hat, hs, heq⟩ := next_char h
    have hle := hs.length
    have hself := hs.again
    rw [parse_next, heq]
    -- it is enough to read what stands behind the spaces and comments
    refine Spec.imp (s := s1) (R := Reads N s1) (S := Starts N s1) ?_
      (fun v t hv hlt => ⟨hv.behind hs.1, hlt.trans_le hle⟩) fun t ht => ht.behind hs.1
    split_ifs with harray hobject hstring hbool hnull hnumber
    · obtain ⟨s2, rfl⟩ := cons_of_headD harray (by decide)
      exact parse_array_spec (fun hat hk => ih hat hk) hat (by rw [List.length_cons] at hle; omega)
    · obtain ⟨s2, rfl⟩ := cons_of_headD hobject (by decide)
      exact parse_object_spec (fun hat hk => ih hat hk) hat (by rw [List.length_cons] at hle; omega)
    · obtain ⟨s2, rfl⟩ := cons_of_headD hstring (by decide)
      exact spec_token hself ((parse_string_spec hat).imp (fun _ _ hv => hv)
        (fun _ _ ho hlt => absurd hlt (not_lt.mpr ho)) fun ho => .inl ⟨s2, rfl, ho⟩)
    · exact spec_token hself ((parse_bool_spec hat).imp (fun _ _ hv => hv)
        (fun _ _ ho hlt => absurd hlt (not_lt.mpr ho)) False.elim)
    · exact spec_token hself ((parse_null_spec hat).imp (fun _ _ hv => hv)
        (fun _ _ ho hlt => absurd hlt (not_lt.mpr ho)) False.elim)
    · have hstart : StartsNumber s1 := by
        cases s1 with
        | nil => exact absurd hnumber (by decide)
        | cons c s2 => exact startsNumber_cons.mpr (by simpa using hnumber)
      exact spec_token hself ((parse_number_spec hat).imp
        (fun _ _ ⟨t, hat, hv⟩ => ⟨t, hat, .number hstart hv⟩)
        (fun _ _ ho hlt => ⟨hstart, ho hlt⟩) fun ho => .inr (.inl ⟨hstart, ho⟩))
    · exact spec_throw hat

/-! ### What the grammar reads is returned -/

/-! A value starts behind the spaces and comments before it, and its first character decides
which parser reads it. -/

lemma parse_next_array (h : At str o s) (hs : Skips s (lbracket :: t)) :
    ∃ o', At str o' (lbracket :: t) ∧
      parse_next N str (n + 1) o = parse_array str (parse_next N str n) o' := by
  obtain ⟨o', hat, heq⟩ := next_char_cons h hs
  exact ⟨o', hat, by rw [parse_next, heq, if_pos rfl]⟩

lemma parse_next_object (h : At str o s) (hs : Skips s (lbrace :: t)) :
    ∃ o', At str o' (lbrace :: t) ∧
      parse_next N str (n + 1) o = parse_object str (parse_next N str n) o' := by
  obtain ⟨o', hat, heq⟩ := next_char_cons h hs
  exact ⟨o', hat, by rw [parse_next, heq, if_neg (by decide), if_pos rfl]⟩

lemma parse_next_string (h : At str o s) (hs : Skips s (quote :: t)) :
    ∃ o', At str o' (quote :: t) ∧ parse_next N str (n + 1) o = parse_string N str o' := by
  obtain ⟨o', hat, heq⟩ := next_char_cons h hs
  exact ⟨o', hat, by
    rw [parse_next, heq, if_neg (by decide), if_neg (by decide), if_pos rfl]⟩

lemma parse_next_bool {c : UInt8} (hc : c = 116 ∨ c = 102) (h : At str o s)
    (hs : Skips s (c :: t)) :
    ∃ o', At str o' (c :: t) ∧ parse_next N str (n + 1) o = parse_bool N str o' := by
  obtain ⟨o', hat, heq⟩ := next_char_cons h hs
  refine ⟨o', hat, ?_⟩
  rw [parse_next, heq]
  rcases hc with rfl | rfl <;>
    rw [if_neg (by decide), if_neg (by decide), if_neg (by decide), if_pos (by decide)]

lemma parse_next_null (h : At str o s) (hs : Skips s (110 :: t)) :
    ∃ o', At str o' (110 :: t) ∧ parse_next N str (n + 1) o = parse_null N str o' := by
  obtain ⟨o', hat, heq⟩ := next_char_cons h hs
  exact ⟨o', hat, by rw [parse_next, heq, if_neg (by decide), if_neg (by decide),
    if_neg (by decide), if_neg (by decide), if_pos rfl]⟩

lemma parse_next_number (h : At str o s) (hs : Skips s t) (hstart : StartsNumber t) :
    ∃ o', At str o' t ∧ parse_next N str (n + 1) o = parse_number N str o' := by
  obtain ⟨o', hat, heq⟩ := next_char_eq h hs
  refine ⟨o', hat, ?_⟩
  cases t with
  | nil => obtain ⟨c, hc, -⟩ := hstart; cases hc
  | cons c t =>
    have hc := startsNumber_cons.mp hstart
    have hne : c ≠ lbracket ∧ c ≠ lbrace ∧ c ≠ quote ∧ c ≠ 116 ∧ c ≠ 102 ∧ c ≠ 110 := by
      simp only [isDigit, lbracket, lbrace, quote, minus] at *
      grind
    rw [parse_next, heq, List.headD_cons, if_neg hne.1, if_neg hne.2.1, if_neg hne.2.2.1,
      if_neg (by simp [hne]), if_neg hne.2.2.2.2.2, if_pos (by simpa using hc)]

lemma Token.parse (hs : Skips s u) (ht : Token N u v t) (h : At str o s) :
    ∃ o', parse_next N str (n + 1) o = .ok v o' ∧ At str o' t := by
  cases ht with
  | string hw =>
    obtain ⟨o1, hat, heq⟩ := parse_next_string (N := N) (n := n) h hs
    rw [heq]
    exact parse_string_eq hw hat
  | number hstart hv =>
    obtain ⟨o1, hat, heq⟩ := parse_next_number (N := N) (n := n) h hs hstart
    rw [heq]
    exact hv.parse hat
  | true_ =>
    obtain ⟨o1, hat, heq⟩ := parse_next_bool (N := N) (n := n) (.inl rfl) h hs
    exact ⟨o1 + 4, by rw [heq, parse_bool_true hat], At.skip (w := trueText) hat⟩
  | false_ =>
    obtain ⟨o1, hat, heq⟩ := parse_next_bool (N := N) (n := n) (.inr rfl) h hs
    exact ⟨o1 + 5, by rw [heq, parse_bool_false hat], At.skip (w := falseText) hat⟩
  | null =>
    obtain ⟨o1, hat, heq⟩ := parse_next_null (N := N) (n := n) h hs
    exact ⟨o1 + 4, by rw [heq, parse_null_eq hat], At.skip (w := nullText) hat⟩

/-- A value starts with another character than a closing one. -/
lemma Reads.head (h : Reads N s v t) (hs : Skips s u) :
    u.headD 0 ≠ rbracket ∧ u.headD 0 ≠ rbrace := by
  cases h with
  | token hs' ht =>
    obtain rfl := hs'.unique hs
    cases ht with
    | string => exact (by decide : quote ≠ rbracket ∧ quote ≠ rbrace)
    | number hstart =>
      obtain ⟨c, hc, hstart⟩ := hstart
      have hhead : ∀ {r : List UInt8}, r.head? = some c → r.headD 0 = c := by
        rintro (_ | ⟨d, r⟩) hd <;> simp_all
      rw [hhead hc]
      simp only [isDigit, rbracket, rbrace, minus] at *
      grind
    | true_ => exact (by decide : (116 : UInt8) ≠ rbracket ∧ (116 : UInt8) ≠ rbrace)
    | false_ => exact (by decide : (102 : UInt8) ≠ rbracket ∧ (102 : UInt8) ≠ rbrace)
    | null => exact (by decide : (110 : UInt8) ≠ rbracket ∧ (110 : UInt8) ≠ rbrace)
  | arrayNil hs' _ =>
    obtain rfl := hs'.unique hs
    exact (by decide : lbracket ≠ rbracket ∧ lbracket ≠ rbrace)
  | array hs' _ =>
    obtain rfl := hs'.unique hs
    exact (by decide : lbracket ≠ rbracket ∧ lbracket ≠ rbrace)
  | objectNil hs' _ =>
    obtain rfl := hs'.unique hs
    exact (by decide : lbrace ≠ rbracket ∧ lbrace ≠ rbrace)
  | object hs' _ =>
    obtain rfl := hs'.unique hs
    exact (by decide : lbrace ≠ rbracket ∧ lbrace ≠ rbrace)

/-- Spaces and comments before a value may have been skipped already. -/
lemma parse_next_skips {o' : ℕ} (h : At str o s) (hs : Skips s t) (h' : At str o' t) :
    parse_next N str n o = parse_next N str n o' := by
  cases n with
  | zero => rfl
  | succ n =>
    obtain ⟨o1, hat, heq⟩ := next_char_eq h hs
    obtain ⟨o2, hat', heq'⟩ := next_char_eq h' hs.again
    obtain rfl := hat.inj hat'
    rw [parse_next, heq, heq']

/-- An array that is not empty is read by the loop. -/
lemma parse_array_loop (h : At str o (lbracket :: s))
    (hne : ∀ u, Skips s u → u.headD 0 ≠ rbracket) :
    parse_array str (parse_next N str k) o =
      arrayLoop str (parse_next N str k) (turns str) 0 [] (o + 1) := by
  obtain ⟨o1, s1, hat, hs, heq⟩ := next_char h.tail
  rw [parse_array, bind_apply, Reader.advance_apply, Res.ok_bind, heq, if_neg (hne _ hs), turns,
    arrayLoop, bind_apply, bind_apply, parse_next_skips h.tail hs hat]

lemma parse_object_loop (h : At str o (lbrace :: s)) (hne : ∀ u, Skips s u → u.headD 0 ≠ rbrace) :
    parse_object str (parse_next N str k) o =
      objectLoop str (parse_next N str k) (turns str) [] (o + 1) := by
  obtain ⟨o1, s1, hat, hs, heq⟩ := next_char h.tail
  rw [parse_object, bind_apply, Reader.advance_apply, Res.ok_bind, heq, if_neg (hne _ hs), turns,
    objectLoop, bind_apply, bind_apply, parse_next_skips h.tail hs hat]

/-- An element is read, and a comma or a bracket behind it. -/
lemma arrayLoop_element {p : Parser (Value N.Double)} {o1 : ℕ} {c : UInt8}
    {Array : List (Value N.Double)} (hv : p o = .ok v o1) (hat : At str o1 s)
    (hs : Skips s (c :: t)) (hfit : Array.length + 1 < 2 ^ 32) :
    ∃ o2, At str o2 t ∧ arrayLoop str p (n + 1) Array.length Array o =
      if c = comma then arrayLoop str p n (Array ++ [v]).length (Array ++ [v]) o2
      else if c = rbracket then .ok (.array (Array ++ [v])) o2
      else .throw (text "ERROR: Array: Expected ',' or ']', found '" ++ [c] ++ text "'.")
        (o2 - 1) := by
  obtain ⟨o2, hat2, heq⟩ := next_char_cons hat hs
  refine ⟨o2 + 1, hat2.tail, ?_⟩
  rw [arrayLoop, bind_apply, hv, Res.ok_bind, bind_apply, setElement_length hfit, Res.ok_bind,
    Nat.mod_eq_of_lt hfit, List.length_append, List.length_singleton]
  simp only [heq]
  split_ifs <;> rfl

lemma arrayLoop_wrap {p : Parser (Value N.Double)} {o1 : ℕ} {Array : List (Value N.Double)}
    (hv : p o = .ok v o1) (hwrap : Array.length + 1 = 2 ^ 32) :
    arrayLoop str p (n + 1) Array.length Array o = .outside Array.length := by
  rw [arrayLoop, bind_apply, hv, Res.ok_bind, bind_apply, setElement_wrap hwrap, Res.outside_bind]

section

variable {p : Parser (Value N.Double)} {o1 : ℕ} {s' s'' : List UInt8} {key : Value N.Double}
  (hp : ∀ {o' o'' u}, At str o' s'' → Skips s'' u → At str o'' u → p o' = p o'')
  (hk : p o = .ok key o1) (hat : At str o1 s') (hc : Skips s' (colon :: s''))

include hp hk hat hc

/-- A key and a colon are read, and a value is expected. -/
lemma objectLoop_key (Object : List (List UInt8 × Value N.Double)) :
    ∃ o2, At str o2 s'' ∧ objectLoop str p (n + 1) Object o = (p o2).bind fun value o =>
      (do
        consume_ws str
        let c ← look str 0
        if c = comma then do
          Reader.advance 1
          objectLoop str p n (Value.insert key.ToString value Object)
        else if c = rbrace then do
          Reader.advance 1
          pure (.object (Value.insert key.ToString value Object))
        else Reader.throw (text "ERROR: Object: Expected ',' or '\x7d', found '" ++ [c] ++
          text "'.")) o := by
  obtain ⟨o2, hat2, heq⟩ := next_char_cons hat hc
  obtain ⟨o3, s3, hr3, hat3, hs3⟩ := consume_ws_spec hat2.tail
  refine ⟨o2 + 1, hat2.tail, ?_⟩
  rw [objectLoop, bind_apply, hk, Res.ok_bind]
  simp only [heq]
  rw [if_neg (not_not.mpr rfl), bind_apply, Reader.advance_apply, Res.ok_bind, bind_apply, hr3,
    Res.ok_bind, bind_apply, ← hp hat2.tail hs3 hat3]

/-- A member is read, and a comma or a brace behind it. -/
lemma objectLoop_member {Object : List (List UInt8 × Value N.Double)} {r : List UInt8} {c : UInt8}
    (hv : ∀ {o'}, At str o' s'' → ∃ o'', p o' = .ok v o'' ∧ At str o'' r)
    (hr : Skips r (c :: t)) :
    ∃ o2, At str o2 t ∧ objectLoop str p (n + 1) Object o =
      if c = comma then objectLoop str p n (Value.insert key.ToString v Object) o2
      else if c = rbrace then .ok (.object (Value.insert key.ToString v Object)) o2
      else .throw (text "ERROR: Object: Expected ',' or '\x7d', found '" ++ [c] ++ text "'.")
        (o2 - 1) := by
  obtain ⟨o2, hat2, heq⟩ := objectLoop_key (n := n) hp hk hat hc Object
  obtain ⟨o4, hv4, hat4⟩ := hv hat2
  obtain ⟨o5, hat5, heq5⟩ := next_char_cons hat4 hr
  refine ⟨o5 + 1, hat5.tail, ?_⟩
  rw [heq, hv4, Res.ok_bind]
  simp only [heq5]
  split_ifs <;> rfl

end

mutual

lemma Reads.parse {s t : List UInt8} {v : Value N.Double} (h : Reads N s v t) {o n : ℕ}
    (hat : At str o s) (hn : s.length < n) :
    ∃ o', parse_next N str n o = .ok v o' ∧ At str o' t := by
  obtain ⟨n, rfl⟩ : ∃ m, n = m + 1 := ⟨n - 1, by omega⟩
  match h with
  | .token hs ht => exact ht.parse hs hat
  | .arrayNil hs ht =>
    obtain ⟨o1, hat1, heq⟩ := parse_next_array (N := N) (n := n) hat hs
    obtain ⟨o2, hat2, heq2⟩ := next_char_cons hat1.tail ht
    refine ⟨o2 + 1, ?_, hat2.tail⟩
    rw [heq, parse_array, bind_apply, Reader.advance_apply, Res.ok_bind, heq2, if_pos rfl]
    rfl
  | .array hs he hl =>
    obtain ⟨o1, hat1, heq⟩ := parse_next_array (N := N) (n := n) hat hs
    have hlen := hs.length_cons
    have hlen1 := hat1.tail.length
    have hne : ∀ u, Skips _ u → u.headD 0 ≠ rbracket := fun u hu => by
      cases he with
      | last hv _ => exact (hv.head hu).1
      | more hv _ _ => exact (hv.head hu).1
    rw [heq, parse_array_loop hat1 hne]
    exact Elements.parse he (l := []) hat1.tail (by omega) (by unfold turns; omega)
      ((Nat.zero_add _).trans_lt hl)
  | .objectNil hs ht =>
    obtain ⟨o1, hat1, heq⟩ := parse_next_object (N := N) (n := n) hat hs
    obtain ⟨o2, hat2, heq2⟩ := next_char_cons hat1.tail ht
    refine ⟨o2 + 1, ?_, hat2.tail⟩
    rw [heq, parse_object, bind_apply, Reader.advance_apply, Res.ok_bind, heq2, if_pos rfl]
    rfl
  | .object hs hm =>
    obtain ⟨o1, hat1, heq⟩ := parse_next_object (N := N) (n := n) hat hs
    have hlen := hs.length_cons
    have hlen1 := hat1.tail.length
    have hne : ∀ u, Skips _ u → u.headD 0 ≠ rbrace := fun u hu => by
      cases hm with
      | last hk _ _ _ => exact (hk.head hu).2
      | more hk _ _ _ _ => exact (hk.head hu).2
    rw [heq, parse_object_loop hat1 hne]
    exact Members.parse hm hat1.tail (by omega) (by unfold turns; omega)

lemma Elements.parse {s t : List UInt8} {vs : List (Value N.Double)} (h : Elements N s vs t)
    {o n k : ℕ} {l : List (Value N.Double)} (hat : At str o s) (hk : s.length < k)
    (hn : s.length < n) (hl : l.length + vs.length < 2 ^ 32) :
    ∃ o', arrayLoop str (parse_next N str k) n l.length l o =
      .ok (.array (l ++ vs)) o' ∧ At str o' t := by
  obtain ⟨n, rfl⟩ : ∃ m, n = m + 1 := ⟨n - 1, by omega⟩
  match h with
  | .last hv ht =>
    obtain ⟨o1, hv1, hat1⟩ := Reads.parse hv hat hk
    obtain ⟨o2, hat2, heq⟩ := arrayLoop_element (n := n) hv1 hat1 ht hl
    exact ⟨o2, by rw [heq, if_neg (by decide), if_pos rfl], hat2⟩
  | @Elements.more _ _ _ _ _ v vs hv hc hr =>
    have hlen := Reads.length hv
    have hlen' := hc.length_cons
    rw [List.length_cons] at hl
    have hl' : (l ++ [v]).length + vs.length < 2 ^ 32 := by
      rwa [List.length_append, List.length_singleton, Nat.add_assoc, Nat.add_comm 1]
    obtain ⟨o1, hv1, hat1⟩ := Reads.parse hv hat hk
    obtain ⟨o2, hat2, heq⟩ := arrayLoop_element (n := n) hv1 hat1 hc
      (show l.length + 1 < 2 ^ 32 by omega)
    obtain ⟨o3, hr3, hat3⟩ := Elements.parse hr (n := n) (k := k) hat2 (by omega) (by omega) hl'
    exact ⟨o3, by rw [heq, if_pos rfl, hr3, List.append_assoc, List.singleton_append], hat3⟩

lemma Members.parse {s t : List UInt8} {ms : List (Value N.Double × Value N.Double)}
    (h : Members N s ms t) {o n k : ℕ} {Object : List (List UInt8 × Value N.Double)}
    (hat : At str o s) (hk : s.length < k) (hn : s.length < n) :
    ∃ o', objectLoop str (parse_next N str k) n Object o = .ok (.object (build Object ms)) o' ∧
      At str o' t := by
  obtain ⟨n, rfl⟩ : ∃ m, n = m + 1 := ⟨n - 1, by omega⟩
  match h with
  | .last hkey hc hv ht =>
    have hlen := (Reads.length hkey).trans' hc.length_cons
    obtain ⟨o1, hkey1, hat1⟩ := Reads.parse hkey hat hk
    obtain ⟨o2, hat2, heq⟩ := objectLoop_member (n := n) parse_next_skips hkey1
      hat1 hc (fun hat => Reads.parse hv hat (by omega)) ht
    exact ⟨o2, by rw [heq, if_neg (by decide), if_pos rfl]; rfl, hat2⟩
  | .more hkey hc hv hm hr =>
    have hlen := (Reads.length hkey).trans' hc.length_cons
    have hlen' := (Reads.length hv).trans' hm.length_cons
    obtain ⟨o1, hkey1, hat1⟩ := Reads.parse hkey hat hk
    obtain ⟨o2, hat2, heq⟩ := objectLoop_member (n := n) parse_next_skips hkey1
      hat1 hc (fun hat => Reads.parse hv hat (by omega)) hm
    obtain ⟨o3, hr3, hat3⟩ := Members.parse hr (n := n) (k := k) hat2 (by omega) (by omega)
    exact ⟨o3, by rw [heq, if_pos rfl, hr3]; rfl, hat3⟩

end

end MmrService.Json
