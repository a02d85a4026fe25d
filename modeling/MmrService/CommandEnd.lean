import MmrService.CommandSetting

/-!
When the command loops end.

None of them looks at the state of the stream. At the end of the input every line is empty, an
empty line leaves no menu, and so the loops end only on what the lines before it say.
-/

namespace MmrService.Command

open Json (newline colon)

/-! ### Lines -/

/-- The lines of some content; the last one need not end in a newline. -/
def lines : List UInt8 → List (List UInt8)
  | [] => []
  | c :: s =>
    if c = newline then [] :: lines s
    else match lines s with
      | [] => [[c]]
      | line :: ls => (c :: line) :: ls

/-- The content is empty or ends in a newline. -/
def endsLine (content : List UInt8) : Bool := content.getLast?.all (· = newline)

lemma lines_last {line : List UInt8} (hne : line ≠ []) (h : newline ∉ line) :
    lines line = [line] := by
  induction line with
  | nil => exact absurd rfl hne
  | cons c line ih =>
    rw [List.mem_cons, not_or] at h
    rw [lines, if_neg (Ne.symm h.1)]
    cases line with
    | nil => rfl
    | cons d line => rw [ih (List.cons_ne_nil _ _) h.2]

lemma lines_append {line : List UInt8} (h : newline ∉ line) (rest : List UInt8) :
    lines (line ++ newline :: rest) = line :: lines rest := by
  induction line with
  | nil => rw [List.nil_append, lines, if_pos rfl]
  | cons c line ih =>
    rw [List.mem_cons, not_or] at h
    rw [List.cons_append, lines, if_neg (Ne.symm h.1), ih h.2]

lemma endsLine_append (line rest : List UInt8) :
    endsLine (line ++ newline :: rest) = endsLine rest := by
  cases rest with
  | nil => simp [endsLine]
  | cons c rest =>
    rw [endsLine, endsLine, List.getLast?_append_of_ne_nil _ (List.cons_ne_nil _ _),
      List.getLast?_cons_cons]

/-- A content is a line and a rest behind a newline, or without a newline. -/
lemma content_cases (content : List UInt8) : newline ∉ content ∨
    ∃ line rest, content = line ++ newline :: rest ∧ newline ∉ line := by
  by_cases h : newline ∈ content
  · obtain ⟨line, rest, hsplit, hnot⟩ := List.eq_append_cons_of_mem h
    exact .inr ⟨line, rest, hsplit, hnot⟩
  · exact .inl h

/-! ### Reading them -/

/-- What is left of the input is these lines, of which the last one ends in a newline or not. -/
def Feeds (cin : Stdin) (ls : List (List UInt8)) (newlineLast : Bool) : Prop :=
  (cin.eofbit = false ∧ cin.failbit = false ∧ lines cin.rest = ls ∧
    (ls ≠ [] → endsLine cin.rest = newlineLast)) ∨
  (cin.eofbit = true ∧ ls = [])

lemma feeds_start (content : List UInt8) :
    Feeds ⟨content, false, false⟩ (lines content) (endsLine content) :=
  .inl ⟨rfl, rfl, rfl, fun _ => rfl⟩

lemma lines_ne_nil {content : List UInt8} (h : content ≠ []) : lines content ≠ [] := by
  rcases content_cases content with hnot | ⟨line, rest, rfl, hnot⟩
  · rw [lines_last h hnot]
    exact List.cons_ne_nil _ _
  · rw [lines_append hnot]
    exact List.cons_ne_nil _ _

variable {cin : Stdin} {l : List UInt8} {ls : List (List UInt8)} {newlineLast : Bool}

lemma getline_ended (h : cin.eofbit = true) (str : List UInt8) :
    getline cin str = ({ cin with failbit := true }, str) := by
  rw [getline, h]
  rfl

lemma getline_last {rest : List UInt8} (h : newline ∉ rest) (str : List UInt8) :
    getline ⟨rest, false, false⟩ str = (⟨[], true, rest.isEmpty⟩, rest) := by
  have hall : ∀ c ∈ rest, decide (c ≠ newline) = true := fun c hc =>
    decide_eq_true fun he => h (he ▸ hc)
  simp only [getline]
  rw [List.takeWhile_eq_self_iff.mpr hall, List.dropWhile_eq_nil_iff.mpr hall]
  rfl

lemma getline_append {line : List UInt8} (h : newline ∉ line) (rest str : List UInt8) :
    getline ⟨line ++ newline :: rest, false, false⟩ str = (⟨rest, false, false⟩, line) := by
  have hall : ∀ c ∈ line, decide (c ≠ newline) = true := fun c hc =>
    decide_eq_true fun he => h (he ▸ hc)
  simp only [getline]
  rw [List.takeWhile_append_of_pos hall, List.dropWhile_append_of_pos hall,
    List.takeWhile_cons_of_neg (by simp), List.dropWhile_cons_of_neg (by simp), List.append_nil]
  rfl

/-- A line is read. Behind the last one `getline` keeps its argument or empties it. -/
lemma getline_line (h : Feeds cin (l :: ls) newlineLast) (str : List UInt8) :
    ∃ cin', getline cin str = (cin', l) ∧ Feeds cin' ls newlineLast ∧
      (ls = [] → ∀ str', (getline cin' str').2 = if newlineLast then [] else str') := by
  rcases h with ⟨heof, hfail, hlines, hlast⟩ | ⟨-, hnil⟩
  · obtain ⟨rest, eofbit, failbit⟩ := cin
    obtain rfl : eofbit = false := heof
    obtain rfl : failbit = false := hfail
    simp only at hlines hlast
    rcases content_cases rest with hnot | ⟨line, rest, rfl, hnot⟩
    · have hne : rest ≠ [] := fun he => by simp [he, lines] at hlines
      rw [lines_last hne hnot] at hlines
      obtain ⟨rfl, rfl⟩ := List.cons.inj hlines
      have hends : endsLine rest = false := by
        rw [endsLine, List.getLast?_eq_some_getLast hne]
        exact decide_eq_false fun he => hnot (he ▸ List.getLast_mem hne)
      rw [← hlast (List.cons_ne_nil _ _), hends]
      exact ⟨_, getline_last hnot str, .inr ⟨rfl, rfl⟩, fun _ str' => rfl⟩
    · rw [lines_append hnot] at hlines
      obtain ⟨rfl, rfl⟩ := List.cons.inj hlines
      have hends := hlast (List.cons_ne_nil _ _)
      rw [endsLine_append] at hends
      refine ⟨_, getline_append hnot rest str, .inl ⟨rfl, rfl, rfl, fun _ => hends⟩, ?_⟩
      intro hnil str'
      have hrest : rest = [] := by
        by_contra hne
        exact lines_ne_nil hne hnil
      subst hrest
      rw [← hends]
      rfl
  · cases hnil

/-- At the end of the input. -/
lemma getline_end (h : Feeds cin [] newlineLast) (str : List UInt8) :
    ∃ cin' str', getline cin str = (cin', str') ∧ Feeds cin' [] newlineLast ∧
      (str' = str ∨ str' = []) := by
  rcases h with ⟨heof, hfail, hlines, -⟩ | ⟨heof, -⟩
  · obtain ⟨rest, eofbit, failbit⟩ := cin
    obtain rfl : eofbit = false := heof
    obtain rfl : failbit = false := hfail
    have hrest : rest = [] := by
      by_contra hne
      exact lines_ne_nil hne hlines
    subst hrest
    exact ⟨_, [], rfl, .inr ⟨rfl, rfl⟩, .inr rfl⟩
  · exact ⟨_, str, getline_ended heof str, .inr ⟨heof, rfl⟩, .inl rfl⟩

/-! ### Complete sessions -/

/-- A single character other than a colon, which the code for `-sl` throws on. -/
def overruns (line : List UInt8) : Bool := line.length = 1 && line ≠ [colon]

/-- The lines leave every menu by `-q` and answer it with `Y` or `y` in the main one, or one of
them makes a command throw: a line for `-sl` that is too short, or a path for `-rs` that cannot
be loaded. A `-rs` without a line behind it takes what `getline` leaves for the path. -/
def completes (lib : Cxx) (newlineLast : Bool) : Menu → List (List UInt8) → Bool
  | _, [] => false
  | .main, l :: ls =>
    if l = lg then completes lib newlineLast .logger ls
    else if l = lc then completes lib newlineLast .license ls
    else if l = q then
      match ls with
      | [] => false
      | l' :: ls => isYes l' || completes lib newlineLast .main ls
    else completes lib newlineLast .main ls
  | .logger, l :: ls =>
    if sl.isPrefixOf l then
      match ls with
      | [] => false
      | l' :: ls => overruns l' || completes lib newlineLast .logger ls
    else completes lib newlineLast (if l = q then .main else .logger) ls
  | .license, l :: ls =>
    if rs.isPrefixOf l then
      match ls with
      | [] => !lib.loads (if newlineLast then [] else l)
      | l' :: ls => !lib.loads l' || completes lib newlineLast .license ls
    else completes lib newlineLast (if l = q then .main else .license) ls

/-! ### One iteration -/

variable {lib : Cxx} {map : MapLogCtrl} {st : State} {menu : Menu}

/-- An iteration ends the loops where the session is complete; otherwise it takes lines away,
or there are none left, and leaves the rest of the session to be completed. -/
def Follows (lib : Cxx) (newlineLast : Bool) (menu : Menu) (ls : List (List UInt8)) :
    Outcome → Prop
  | .next st => ∃ ls', Feeds st.cin ls' newlineLast ∧
      completes lib newlineLast menu ls = completes lib newlineLast st.menu ls' ∧
      (ls'.length < ls.length ∨ ls = [] ∧ ls' = [])
  | _ => completes lib newlineLast menu ls = true

/-- At the end of the input, a loop goes round with nothing to read. -/
lemma follows_nil {menu : Menu} (h : Feeds st.cin [] newlineLast) :
    Follows lib newlineLast menu [] (.next st) :=
  ⟨[], h, by rw [completes, completes], .inr ⟨rfl, rfl⟩⟩

lemma not_yes_of_left {str : List UInt8} (h : str = q ∨ str = []) : isYes str = false := by
  rcases h with rfl | rfl
  · decide
  · decide

lemma dealCmd_follows (hmenu : st.menu = .main) (h : Feeds st.cin ls newlineLast) :
    Follows lib newlineLast .main ls (dealCmd st) := by
  cases ls with
  | nil =>
    obtain ⟨cin', str', hget, hfeeds, hstr⟩ := getline_end h []
    obtain rfl : str' = [] := hstr.elim id id
    rw [dealCmd, hget]
    exact follows_nil hfeeds
  | cons l ls =>
    obtain ⟨cin', hget, hfeeds, -⟩ := getline_line h []
    rw [dealCmd, hget]
    simp only
    by_cases hlg : l = lg
    · rw [if_pos hlg]
      refine ⟨ls, hfeeds, ?_, .inl (Nat.lt_succ_self _)⟩
      rw [completes.eq_def]
      exact if_pos hlg
    by_cases hlc : l = lc
    · rw [if_neg hlg, if_pos hlc]
      refine ⟨ls, hfeeds, ?_, .inl (Nat.lt_succ_self _)⟩
      rw [completes.eq_def]
      exact (if_neg hlg).trans (if_pos hlc)
    rw [if_neg hlg, if_neg hlc]
    by_cases hq : l = q
    · subst hq
      rw [if_neg (by decide), if_neg (by decide), if_pos rfl]
      cases ls with
      | nil =>
        obtain ⟨cin'', str', hget', hfeeds', hstr⟩ := getline_end hfeeds q
        rw [hget']
        simp only [not_yes_of_left hstr, Bool.false_eq_true, if_false]
        exact ⟨[], hfeeds', by rw [hmenu]; rfl, .inl (Nat.lt_succ_self _)⟩
      | cons l' ls =>
        obtain ⟨cin'', hget', hfeeds', -⟩ := getline_line hfeeds q
        have hcomp : completes lib newlineLast .main (q :: l' :: ls) =
            (isYes l' || completes lib newlineLast .main ls) := by
          rw [completes.eq_def]
          simp only [hlg, hlc, if_true, if_false]
        rw [hget']
        cases hyes : isYes l' with
        | true =>
          rw [hyes, Bool.true_or] at hcomp
          exact hcomp
        | false =>
          rw [hyes, Bool.false_or] at hcomp
          exact ⟨ls, hfeeds', by rw [hcomp, hmenu], .inl (by simp only [List.length_cons]; omega)⟩
    · have hcomp : completes lib newlineLast .main (l :: ls) =
          completes lib newlineLast st.menu ls := by
        rw [completes.eq_def, hmenu]
        simp only [hlg, hlc, hq, if_false]
      rw [if_neg hq]
      split_ifs
      · exact ⟨ls, hfeeds, hcomp, .inl (Nat.lt_succ_self _)⟩
      · exact ⟨ls, hfeeds, hcomp, .inl (Nat.lt_succ_self _)⟩
      · exact ⟨ls, hfeeds, hcomp, .inl (Nat.lt_succ_self _)⟩

/-- A line for `-sl` throws exactly where it is too short for its length. -/
lemma setLevel_none_iff {loggers : Wrappers} (line : List UInt8) :
    setLevel lib map loggers line = none ↔ overruns line = true := by
  have hpow := two_le_pow lib
  constructor
  · intro h
    rw [setLevel] at h
    split_ifs at h with hpos hover
    obtain ⟨-, hsize⟩ := hpos
    rcases colon_cases line with habsent | ⟨name, rest, rfl, hname⟩
    · rw [findColon_absent habsent] at hsize hover
      have hone := eq_one_of_sub (by rw [npos] at hover; omega) hsize.symm
      obtain ⟨c, rfl⟩ := List.length_eq_one_iff.mp hone
      refine (Bool.and_eq_true _ _).mpr ⟨rfl, decide_eq_true fun he => habsent ?_⟩
      rw [he]
      exact List.mem_singleton_self _
    · rw [findColon_append hname, List.length_append] at hover
      omega
  · intro h
    rw [overruns, Bool.and_eq_true, decide_eq_true_eq, decide_eq_true_eq] at h
    obtain ⟨c, rfl⟩ := List.length_eq_one_iff.mp h.1
    exact setLevel_single fun hc => h.2 (by rw [hc])

lemma isNone_setLevel {loggers : Wrappers} (line : List UInt8) :
    (setLevel lib map loggers line).isNone = overruns line := by
  rw [Bool.eq_iff_iff, Option.isNone_iff_eq_none, setLevel_none_iff]

/-- A line has no two of the prefixes. -/
lemma not_isPrefixOf {p p' : List UInt8} (h : p.isPrefixOf l = true)
    (hlen : p'.length = p.length) (hne : p' ≠ p) : ¬ p'.isPrefixOf l = true := by
  intro h'
  have hle := List.prefix_of_prefix_length_le (List.isPrefixOf_iff_prefix.mp h')
    (List.isPrefixOf_iff_prefix.mp h) hlen.le
  exact hne (hle.eq_of_length hlen)

/-- At the end of the input, `-sl` works on what it was called by or on nothing. -/
lemma not_overruns_of_left {str : List UInt8} (hsl : sl.isPrefixOf l = true)
    (h : str = l ∨ str = []) : overruns str = false := by
  rcases h with rfl | rfl
  · have hle := (List.isPrefixOf_iff_prefix.mp hsl).length_le
    have hthree : sl.length = 3 := rfl
    rw [overruns, decide_eq_false (by omega), Bool.false_and]
  · rfl

lemma loggerLoop_follows (hmenu : st.menu = .logger) (h : Feeds st.cin ls newlineLast) :
    Follows lib newlineLast .logger ls (loggerLoop lib map st) := by
  cases ls with
  | nil =>
    obtain ⟨cin', str', hget, hfeeds, hstr⟩ := getline_end h []
    obtain rfl : str' = [] := hstr.elim id id
    rw [loggerLoop, hget]
    exact follows_nil hfeeds
  | cons l ls =>
    obtain ⟨cin', hget, hfeeds, -⟩ := getline_line h []
    rw [loggerLoop, hget]
    simp only
    by_cases hsl : sl.isPrefixOf l = true
    · have hvl : ¬ vl.isPrefixOf l = true := not_isPrefixOf hsl rfl (by decide)
      rw [if_neg hvl, if_pos hsl]
      cases ls with
      | nil =>
        obtain ⟨cin'', str', hget', hfeeds', hstr⟩ := getline_end hfeeds l
        rw [hget']
        simp only
        cases hset : setLevel lib map st.loggers str' with
        | none =>
          rw [setLevel_none_iff, not_overruns_of_left hsl hstr] at hset
          cases hset
        | some r =>
          refine ⟨[], hfeeds', ?_, .inl (Nat.lt_succ_self _)⟩
          rw [completes.eq_def, completes]
          exact if_pos hsl
      | cons l' ls =>
        obtain ⟨cin'', hget', hfeeds', -⟩ := getline_line hfeeds l
        have hcomp : completes lib newlineLast .logger (l :: l' :: ls) =
            (overruns l' || completes lib newlineLast .logger ls) := by
          rw [completes.eq_def]
          exact if_pos hsl
        have hover : (setLevel lib map st.loggers l').isNone = overruns l' := isNone_setLevel l'
        rw [← hover] at hcomp
        rw [hget']
        simp only
        cases hset : setLevel lib map st.loggers l' with
        | none =>
          rw [hset] at hcomp
          exact hcomp
        | some r =>
          rw [hset, Option.isNone_some, Bool.false_or] at hcomp
          refine ⟨ls, hfeeds', ?_, .inl (by simp only [List.length_cons]; omega)⟩
          rw [hcomp, hmenu]
    · have hcomp : completes lib newlineLast .logger (l :: ls) =
          completes lib newlineLast (if l = q then .main else .logger) ls := by
        rw [completes.eq_def]
        exact if_neg hsl
      rw [if_neg hsl]
      by_cases hq : l = q
      · rw [if_neg (by rw [hq]; decide), if_pos hq]
        rw [if_pos hq] at hcomp
        exact ⟨ls, hfeeds, hcomp, .inl (Nat.lt_succ_self _)⟩
      · rw [if_neg hq]
        rw [if_neg hq] at hcomp
        split_ifs
        · exact ⟨ls, hfeeds, by rw [hcomp, hmenu], .inl (Nat.lt_succ_self _)⟩
        · exact ⟨ls, hfeeds, by rw [hcomp, hmenu], .inl (Nat.lt_succ_self _)⟩

lemma licenseLoop_follows (hmenu : st.menu = .license) (h : Feeds st.cin ls newlineLast) :
    Follows lib newlineLast .license ls (licenseLoop lib st) := by
  cases ls with
  | nil =>
    obtain ⟨cin', str', hget, hfeeds, hstr⟩ := getline_end h []
    obtain rfl : str' = [] := hstr.elim id id
    rw [licenseLoop, hget]
    exact follows_nil hfeeds
  | cons l ls =>
    obtain ⟨cin', hget, hfeeds, hpath⟩ := getline_line h []
    rw [licenseLoop, hget]
    simp only
    by_cases hrs : rs.isPrefixOf l = true
    · have hvl : ¬ vl.isPrefixOf l = true := not_isPrefixOf hrs rfl (by decide)
      rw [if_neg hvl, if_pos hrs]
      cases ls with
      | nil =>
        obtain ⟨cin'', str', hget', hfeeds', -⟩ := getline_end hfeeds l
        have hcomp : completes lib newlineLast .license [l] =
            !lib.loads (if newlineLast then [] else l) := by
          rw [completes.eq_def]
          exact if_pos hrs
        have hstr := hpath rfl l
        rw [hget'] at hstr ⊢
        simp only at hstr ⊢
        rw [← hstr] at hcomp
        rw [reloadLicense]
        cases hloads : lib.loads str' with
        | false =>
          rw [hloads] at hcomp
          exact hcomp
        | true =>
          rw [hloads] at hcomp
          exact ⟨[], hfeeds', by rw [hcomp, completes]; rfl, .inl (Nat.lt_succ_self _)⟩
      | cons l' ls =>
        obtain ⟨cin'', hget', hfeeds', -⟩ := getline_line hfeeds l
        have hcomp : completes lib newlineLast .license (l :: l' :: ls) =
            (!lib.loads l' || completes lib newlineLast .license ls) := by
          rw [completes.eq_def]
          exact if_pos hrs
        rw [hget']
        simp only [reloadLicense]
        cases hloads : lib.loads l' with
        | false =>
          rw [hloads, Bool.not_false, Bool.true_or] at hcomp
          exact hcomp
        | true =>
          rw [hloads, Bool.not_true, Bool.false_or] at hcomp
          refine ⟨ls, hfeeds', ?_, .inl (by simp only [List.length_cons]; omega)⟩
          rw [hcomp, hmenu]
    · have hcomp : completes lib newlineLast .license (l :: ls) =
          completes lib newlineLast (if l = q then .main else .license) ls := by
        rw [completes.eq_def]
        exact if_neg hrs
      rw [if_neg hrs]
      by_cases hq : l = q
      · rw [if_neg (by rw [hq]; decide), if_pos hq]
        rw [if_pos hq] at hcomp
        exact ⟨ls, hfeeds, hcomp, .inl (Nat.lt_succ_self _)⟩
      · rw [if_neg hq]
        rw [if_neg hq] at hcomp
        split_ifs
        · exact ⟨ls, hfeeds, by rw [hcomp, hmenu], .inl (Nat.lt_succ_self _)⟩
        · exact ⟨ls, hfeeds, by rw [hcomp, hmenu], .inl (Nat.lt_succ_self _)⟩

/-- **One iteration** of the loop that is running. -/
lemma step_follows (h : Feeds st.cin ls newlineLast) :
    Follows lib newlineLast st.menu ls (step lib map st) := by
  rw [step]
  cases hmenu : st.menu with
  | main => exact dealCmd_follows hmenu h
  | logger => exact loggerLoop_follows hmenu h
  | license => exact licenseLoop_follows hmenu h

/-! ### Runs -/

/-- The loops have ended. -/
def Outcome.Ended : Outcome → Prop
  | .next _ => False
  | _ => True

/-- A run that ends has been through a complete session. -/
lemma completes_of_ended (n : ℕ) : ∀ {st : State} {ls}, Feeds st.cin ls newlineLast →
    (run lib map n st).Ended → completes lib newlineLast st.menu ls = true := by
  induction n with
  | zero => exact fun _ h => h.elim
  | succ n ih =>
    intro st ls hfeeds hended
    have hfollows : Follows lib newlineLast st.menu ls (step lib map st) := step_follows hfeeds
    rw [run] at hended
    cases hstep : step lib map st with
    | next st' =>
      rw [hstep] at hfollows hended
      obtain ⟨ls', hfeeds', hcomp, -⟩ := hfollows
      rw [hcomp]
      exact ih hfeeds' hended
    | stopped out =>
      rw [hstep] at hfollows
      exact hfollows
    | threw =>
      rw [hstep] at hfollows
      exact hfollows

/-- A complete session ends after as many iterations as there are lines. -/
lemma ended_of_completes (n : ℕ) : ∀ {st : State} {ls}, ls.length ≤ n →
    Feeds st.cin ls newlineLast → completes lib newlineLast st.menu ls = true →
    (run lib map n st).Ended := by
  induction n with
  | zero =>
    intro st ls hlen hfeeds hcomp
    rw [List.length_eq_zero_iff.mp (Nat.le_zero.mp hlen), completes] at hcomp
    cases hcomp
  | succ n ih =>
    intro st ls hlen hfeeds hcomp
    have hfollows : Follows lib newlineLast st.menu ls (step lib map st) := step_follows hfeeds
    rw [run]
    cases hstep : step lib map st with
    | next st' =>
      rw [hstep] at hfollows
      obtain ⟨ls', hfeeds', hcomp', hshorter⟩ := hfollows
      rw [hcomp'] at hcomp
      rcases hshorter with hlt | ⟨-, rfl⟩
      · exact ih (by omega) hfeeds' hcomp
      · rw [completes] at hcomp
        cases hcomp
    | stopped out => trivial
    | threw => trivial

/-- **The command loops** end after finitely many iterations exactly if the lines of the input
are a complete session. -/
theorem ended_iff_completes (lib : Cxx) (map : MapLogCtrl) (loggers : Wrappers)
    (content : List UInt8) : (∃ n, (run lib map n (start loggers content)).Ended) ↔
      completes lib (endsLine content) .main (lines content) = true :=
  ⟨fun ⟨n, h⟩ => completes_of_ended n (feeds_start content) h,
    fun h => ⟨_, ended_of_completes _ le_rfl (feeds_start content) h⟩⟩

/-- Without any input the loop never ends. -/
theorem never_ends_without_input :
    ¬ ∃ n, (run glibc SortedMap.empty n (start (fun _ => none) [])).Ended := by
  rintro ⟨n, h⟩
  exact absurd (completes_of_ended n (feeds_start []) h) (by decide)

end MmrService.Command
