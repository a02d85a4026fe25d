import MmrService.JsonText

/-!
The texts of `dumpFast` and `dumpStyle` with their white space left open.

Both write the same tokens: the strings escaped, the keys as they are. They differ in what
stands between the tokens.
-/

namespace MmrService.Json

variable {N : Numbers}

/-- White space that the output functions write. -/
def White (w : List UInt8) : Prop := ∀ c ∈ w, c = blank ∨ c = tabulator ∨ c = newline

lemma white_nil : White [] := by simp [White]

lemma White.append {w w' : List UInt8} (h : White w) (h' : White w') : White (w ++ w') :=
  fun c hc => (List.mem_append.mp hc).elim (h c) (h' c)

lemma White.newline {w : List UInt8} (h : White w) : White (newline :: w) :=
  List.forall_mem_cons.mpr ⟨.inr (.inr rfl), h⟩

lemma white_pad {depth : ℕ} {tab : List UInt8} (htab : White tab) :
    White (Value.pad depth tab) := by
  intro c hc
  obtain ⟨l, hl, hc⟩ := List.mem_flatten.mp hc
  exact htab c (List.eq_of_mem_replicate hl ▸ hc)

lemma exists_gap {w : List UInt8} (h : White w) : ∃ g : Gap, g.Strict ∧ g.render = w := by
  induction w with
  | nil => exact ⟨[], Gap.strict_nil, rfl⟩
  | cons c w ih =>
    obtain ⟨g, hs, hr⟩ := ih fun d hd => h d (List.mem_cons_of_mem _ hd)
    have hc := h c List.mem_cons_self
    exact ⟨.white c (by tauto) :: g, List.forall_mem_cons.mpr ⟨trivial, hs⟩,
      congrArg (c :: ·) hr⟩

/-- An integer from its sign and its digits. -/
lemma signed_natAbs (i : ℤ) :
    (if decide (i < 0) = true then -(i.natAbs : ℤ) else i.natAbs) = i := by
  split_ifs with hneg
  · have := of_decide_eq_true hneg
    omega
  · have : ¬ i < 0 := fun hlt => hneg (decide_eq_true hlt)
    omega

mutual

/-- The text is the tokens of the value, with white space in front of it and inside. -/
inductive Layout (N : Numbers) : Value N.Double → List UInt8 → Prop
  | null : Layout N .null nullText
  | boolean (b : Bool) : Layout N (.boolean b) (if b then trueText else falseText)
  | string (w : List UInt8) : Layout N (.string w) (quote :: json_escape w ++ [quote])
  | integral (i : ℤ) : Layout N (.integral i) (to_string i)
  | arrayNil {w : List UInt8} (hw : White w) :
      Layout N (.array []) (lbracket :: (w ++ [rbracket]))
  | array {vs : List (Value N.Double)} {s : List UInt8} (h : LayoutElements N vs s) :
      Layout N (.array vs) (lbracket :: s)
  | objectNil {w : List UInt8} (hw : White w) :
      Layout N (.object []) (lbrace :: (w ++ [rbrace]))
  | object {Map : List (List UInt8 × Value N.Double)} {s : List UInt8}
      (h : LayoutMembers N Map s) : Layout N (.object Map) (lbrace :: s)
  | behind {v : Value N.Double} {w s : List UInt8} (hw : White w) (h : Layout N v s) :
      Layout N v (w ++ s)

/-- The elements of an array, up to and with its bracket. -/
inductive LayoutElements (N : Numbers) : List (Value N.Double) → List UInt8 → Prop
  | last {v : Value N.Double} {s w : List UInt8} (hv : Layout N v s) (hw : White w) :
      LayoutElements N [v] (s ++ (w ++ [rbracket]))
  | more {v : Value N.Double} {vs : List (Value N.Double)} {s t : List UInt8}
      (hv : Layout N v s) (hr : LayoutElements N vs t) :
      LayoutElements N (v :: vs) (s ++ comma :: t)

/-- The members of an object, up to and with its brace. -/
inductive LayoutMembers (N : Numbers) : List (List UInt8 × Value N.Double) → List UInt8 → Prop
  | last (key : List UInt8) {u w w' s : List UInt8} {v : Value N.Double} (hu : White u)
      (hw : White w) (hv : Layout N v s) (hw' : White w') :
      LayoutMembers N [(key, v)]
        (u ++ (quote :: key ++ [quote] ++ (w ++ colon :: (s ++ (w' ++ [rbrace])))))
  | more (key : List UInt8) {u w s t : List UInt8} {v : Value N.Double}
      {Map : List (List UInt8 × Value N.Double)} (hu : White u) (hw : White w)
      (hv : Layout N v s) (hr : LayoutMembers N Map t) :
      LayoutMembers N ((key, v) :: Map)
        (u ++ (quote :: key ++ [quote] ++ (w ++ colon :: (s ++ comma :: t))))

end

/-- There is no double in a value. -/
inductive Value.NoFloat {D : Type} : Value D → Prop
  | null : NoFloat .null
  | boolean (b : Bool) : NoFloat (.boolean b)
  | string (w : List UInt8) : NoFloat (.string w)
  | integral (i : ℤ) : NoFloat (.integral i)
  | array {vs : List (Value D)} (h : ∀ v ∈ vs, NoFloat v) : NoFloat (.array vs)
  | object {Map : List (List UInt8 × Value D)} (h : ∀ e ∈ Map, NoFloat e.2) :
      NoFloat (.object Map)

section

variable {v : Value N.Double} {vs : List (Value N.Double)}
  {Map : List (List UInt8 × Value N.Double)} {e : List UInt8 × Value N.Double} {depth : ℕ}
  {tab : List UInt8}

lemma dumpFastElements_layout (hv : Layout N v (v.dumpFast N))
    (h : ∀ v ∈ vs, Layout N v (v.dumpFast N)) :
    LayoutElements N (v :: vs) (Value.dumpFastElements N true (v :: vs) ++ [rbracket]) := by
  induction vs generalizing v with
  | nil => simpa [Value.dumpFastElements] using LayoutElements.last hv white_nil
  | cons u vs ih =>
    obtain ⟨hu, h⟩ := List.forall_mem_cons.mp h
    simpa [Value.dumpFastElements] using LayoutElements.more hv (ih hu h)

lemma dumpFastMembers_layout (hv : Layout N e.2 (e.2.dumpFast N))
    (h : ∀ e ∈ Map, Layout N e.2 (e.2.dumpFast N)) :
    LayoutMembers N (e :: Map) (Value.dumpFastMembers N true (e :: Map) ++ [rbrace]) := by
  induction Map generalizing e with
  | nil =>
    have hlast := LayoutMembers.last e.1 white_nil white_nil hv white_nil
    simpa [Value.dumpFastMembers] using hlast
  | cons e' Map ih =>
    obtain ⟨he', h⟩ := List.forall_mem_cons.mp h
    have hmore := LayoutMembers.more e.1 white_nil white_nil hv (ih he' h)
    simpa [Value.dumpFastMembers] using hmore

lemma dumpStyleElements_layout (htab : White tab)
    (hv : Layout N v (v.dumpStyle N (depth + 1) tab))
    (h : ∀ v ∈ vs, Layout N v (v.dumpStyle N (depth + 1) tab)) :
    LayoutElements N (v :: vs)
      (newline :: Value.dumpStyleElements N depth tab true (v :: vs) ++
        (newline :: Value.pad depth tab ++ [rbracket])) := by
  have hpad : White (Value.pad depth tab) := white_pad htab
  have hw : White (newline :: Value.pad depth tab ++ tab) := (hpad.append htab).newline
  induction vs generalizing v with
  | nil =>
    simpa [Value.dumpStyleElements] using
      LayoutElements.last (.behind hw hv) hpad.newline
  | cons u vs ih =>
    obtain ⟨hu, h⟩ := List.forall_mem_cons.mp h
    simpa [Value.dumpStyleElements] using LayoutElements.more (.behind hw hv) (ih hu h)

lemma dumpStyleMembers_layout (htab : White tab)
    (hv : Layout N e.2 (e.2.dumpStyle N (depth + 1) tab))
    (h : ∀ e ∈ Map, Layout N e.2 (e.2.dumpStyle N (depth + 1) tab)) :
    LayoutMembers N (e :: Map)
      (newline :: Value.dumpStyleMembers N depth tab true (e :: Map) ++
        (newline :: Value.pad depth tab ++ [rbrace])) := by
  have hpad : White (Value.pad depth tab) := white_pad htab
  have hw : White (newline :: Value.pad depth tab ++ tab) := (hpad.append htab).newline
  have hblank : White [blank] := by simp [White]
  induction Map generalizing e with
  | nil =>
    have hlast := LayoutMembers.last e.1 hw hblank (.behind hblank hv) hpad.newline
    simpa [Value.dumpStyleMembers] using hlast
  | cons e' Map ih =>
    obtain ⟨he', h⟩ := List.forall_mem_cons.mp h
    have hmore := LayoutMembers.more e.1 hw hblank (.behind hblank hv) (ih he' h)
    simpa [Value.dumpStyleMembers] using hmore

lemma dumpFast_layout (hn : v.NoFloat) : Layout N v (v.dumpFast N) := by
  induction hn with
  | null => exact .null
  | boolean b => exact .boolean b
  | string w => exact .string w
  | integral i => exact .integral i
  | @array vs _ ih =>
    cases vs with
    | nil => exact .arrayNil white_nil
    | cons v vs =>
      obtain ⟨hv, hvs⟩ := List.forall_mem_cons.mp ih
      exact .array (dumpFastElements_layout hv hvs)
  | @object Map _ ih =>
    cases Map with
    | nil => exact .objectNil white_nil
    | cons e Map =>
      obtain ⟨he, hes⟩ := List.forall_mem_cons.mp ih
      exact .object (dumpFastMembers_layout he hes)

/-- The line end before the brace of an object is left out at depth 0. -/
lemma dumpStyle_object (depth : ℕ) (tab : List UInt8) (Map : List (List UInt8 × Value N.Double)) :
    (Value.object Map).dumpStyle N depth tab =
      (if depth = 0 then Value.pad depth tab else newline :: Value.pad depth tab) ++
        lbrace :: (newline :: Value.dumpStyleMembers N depth tab true Map ++
          (newline :: Value.pad depth tab ++ [rbrace])) := by
  rw [Value.dumpStyle]
  split_ifs <;> simp

lemma dumpStyle_layout (hn : v.NoFloat) (htab : White tab) (depth : ℕ) :
    Layout N v (v.dumpStyle N depth tab) := by
  have hpad : ∀ d, White (Value.pad d tab) := fun d => white_pad htab
  induction hn generalizing depth with
  | null => exact .null
  | boolean b => exact .boolean b
  | string w => exact .string w
  | integral i => exact .integral i
  | @array vs _ ih =>
    cases vs with
    | nil =>
      have h : Layout N (.array []) _ := .behind (hpad depth).newline
        (.arrayNil (hpad depth).newline.newline)
      simpa [Value.dumpStyle, Value.dumpStyleElements] using h
    | cons v vs =>
      obtain ⟨hv, hvs⟩ := List.forall_mem_cons.mp fun v hv => ih v hv (depth + 1)
      have h : Layout N (.array (v :: vs)) _ := .behind (hpad depth).newline
        (.array (dumpStyleElements_layout htab hv hvs))
      simpa [Value.dumpStyle] using h
  | @object Map _ ih =>
    have hlead : White (if depth = 0 then Value.pad depth tab
        else newline :: Value.pad depth tab) := by
      split_ifs
      · exact hpad depth
      · exact (hpad depth).newline
    rw [dumpStyle_object]
    cases Map with
    | nil => exact .behind hlead (.objectNil (hpad depth).newline.newline)
    | cons e Map =>
      obtain ⟨he, hes⟩ := List.forall_mem_cons.mp fun e he => ih e he (depth + 1)
      exact .behind hlead (.object (dumpStyleMembers_layout htab he hes))

end

end MmrService.Json
