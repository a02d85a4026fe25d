import MmrService.Command
import MmrService.JsonNumbers

/-!
The line that is typed for `-sl`.

A line of one character makes `pos` and `strCmd.size() - 2` the same number, which is `npos`.
Otherwise the line has to end in a colon and one more character; what is in front of them is
left to `atoi` and to the conversion to 16 bits, and the character may be `/` too.
-/

namespace MmrService.Command

open Json (colon isDigit ofDigits strtol slash)
open Logger (emLogLevel)

variable {lib : Cxx} {map : MapLogCtrl} {loggers : Wrappers} {line name : List UInt8} {c : UInt8}

/-! ### Where the colon is -/

lemma two_le_pow (lib : Cxx) : 2 ^ 32 ≤ 2 ^ lib.sizeBits := by
  rcases lib.size_width with h | h
  · rw [h]
  · rw [h]
    decide

lemma findColon_absent (h : colon ∉ line) : findColon lib line = npos lib := by
  rw [findColon, List.idxOf?_eq_none_iff.mpr h]
  rfl

lemma findColon_append (h : colon ∉ name) (rest : List UInt8) :
    findColon lib (name ++ colon :: rest) = name.length := by
  rw [findColon, Bytes.idxOf?_append_cons h]
  rfl

/-- A line is without a colon, or is split at the first one. -/
lemma colon_cases (line : List UInt8) :
    colon ∉ line ∨ ∃ name rest, line = name ++ colon :: rest ∧ colon ∉ name := by
  by_cases h : colon ∈ line
  · obtain ⟨name, rest, hsplit, hnot⟩ := List.eq_append_cons_of_mem h
    exact .inr ⟨name, rest, hsplit, hnot⟩
  · exact .inl h

/-! ### What the code makes of a line -/

/-- Only from the length 1 two is taken away to `npos`. -/
lemma eq_one_of_sub {n : ℕ} (hn : n < 2 ^ lib.sizeBits)
    (h : Word.sub lib.sizeBits n 2 = npos lib) : n = 1 := by
  have hpow := two_le_pow lib
  rw [npos] at h
  rcases Nat.lt_or_ge n 2 with h2 | h2
  · rcases Nat.lt_or_ge n 1 with h0 | h0
    · rw [Nat.lt_one_iff.mp h0, Word.sub, Nat.mod_eq_of_lt (show 2 < 2 ^ lib.sizeBits by omega),
        Nat.mod_eq_of_lt (by omega)] at h
      omega
    · omega
  · rw [Word.sub_of_le h2 hn] at h
    omega

/-- One character other than a colon is too short a string for its length. -/
lemma setLevel_single (hc : c ≠ colon) : setLevel lib map loggers [c] = none := by
  have hpow := two_le_pow lib
  have hpos : findColon lib [c] = npos lib := findColon_absent (by simpa using hc.symm)
  have hsize : Word.sub lib.sizeBits 1 2 = npos lib := by
    rw [Word.sub, npos, Nat.mod_eq_of_lt (show 2 < 2 ^ lib.sizeBits by omega),
      Nat.mod_eq_of_lt (by omega)]
    omega
  rw [setLevel, hpos, List.length_singleton, hsize]
  simp only [and_true]
  rw [if_pos (by rw [npos]; omega), if_pos (by rw [npos]; omega)]

/-- A name, a colon and one more character. -/
lemma setLevel_pair (hname : name ≠ []) (hcolon : colon ∉ name)
    (hlen : (name ++ [colon, c]).length < 2 ^ lib.sizeBits) :
    setLevel lib map loggers (name ++ [colon, c]) =
      some (applyLevel loggers (Word.toInt 8 c.toNat - 0x30)
        (findLogger map loggers (toIndex (lib.atoi name)))) := by
  have hpos := List.length_pos_iff.mpr hname
  have hfind : findColon lib (name ++ [colon, c]) = name.length := findColon_append hcolon [c]
  have hlength : (name ++ [colon, c]).length = name.length + 2 := by simp
  have hsub : Word.sub lib.sizeBits (name.length + 2) 2 = name.length := by
    rw [Word.sub_of_le (by omega) (by omega), Nat.add_sub_cancel]
  have hlast : (name ++ [colon, c]).getD (name.length + 1) 0 = c := by
    rw [List.getD_eq_getElem?_getD, List.getElem?_append_right (by omega)]
    simp
  rw [setLevel, hfind, hlength, hsub]
  simp only [and_true]
  rw [if_pos hpos, if_neg (by omega), List.take_left, hlast]

/-- Every other line. -/
lemma setLevel_other (hlen : line.length < 2 ^ lib.sizeBits)
    (hsingle : line.length = 1 → line = [colon])
    (hpair : ∀ name c, line = name ++ [colon, c] → colon ∉ name → name = []) :
    setLevel lib map loggers line = some (loggers, .unknownCommand) := by
  have hpow := two_le_pow lib
  rw [setLevel]
  refine if_neg ?_
  rintro ⟨hpos, hsize⟩
  rcases colon_cases line with habsent | ⟨name, rest, rfl, hname⟩
  · -- then `size() - 2` is `npos`
    rw [findColon_absent habsent] at hsize
    rw [hsingle (eq_one_of_sub hlen hsize.symm)] at habsent
    simp at habsent
  · rw [findColon_append hname] at hpos hsize
    have hlength : (name ++ colon :: rest).length = name.length + 1 + rest.length := by
      rw [List.length_append, List.length_cons]
      omega
    rw [hlength] at hsize hlen
    rw [Word.sub_of_le (by omega) hlen] at hsize
    obtain ⟨c, rfl⟩ := List.length_eq_one_iff.mp (show rest.length = 1 by omega)
    rw [hpair name c rfl hname] at hpos
    simp at hpos

/-! ### Levels -/

lemma level_iff : (-1 ≤ Word.toInt 8 c.toNat - 0x30 ∧ Word.toInt 8 c.toNat - 0x30 ≤ 5) ↔
    0x2F ≤ c.toNat ∧ c.toNat ≤ 0x35 := by
  have hc := c.toNat_lt
  rcases Nat.lt_or_ge c.toNat 128 with h | h
  · rw [Word.toInt_natCast (by omega)]
    omega
  · rw [Word.toInt_of_ge (by omega) (by omega)]
    omega

/-- The digit of a level. -/
def levelDigit (level : ℕ) : UInt8 := UInt8.ofNat (0x30 + level)

lemma level_levelDigit {level : ℕ} (h : level ≤ 5) :
    Word.toInt 8 (levelDigit level).toNat - 0x30 = level := by
  have hnat : (levelDigit level).toNat = 0x30 + level := by
    rw [levelDigit, UInt8.toNat_ofNat']
    omega
  rw [hnat, Word.toInt_natCast (by omega)]
  omega

/-! ### Settings -/

/-- The line is the index of a live logger in decimal digits, a colon and a digit up to 5. -/
structure Setting (map : MapLogCtrl) (loggers : Wrappers) (line : List UInt8)
    (name : List UInt8) (LoggerPtr level : ℕ) : Prop where
  level_le : level ≤ 5
  spelled : ∃ (digits : List UInt8) (index : Index), line = digits ++ [colon, levelDigit level] ∧
    digits ≠ [] ∧ (∀ d ∈ digits, isDigit d = true) ∧ (ofDigits digits : ℤ) = index.1 ∧
    findLogger map loggers index = some (name, LoggerPtr)

/-- A setting is carried out and changes no other level; any other line changes nothing, and is
reported as an error. -/
def Handled (lib : Cxx) (map : MapLogCtrl) (loggers : Wrappers) (line : List UInt8) : Prop :=
  (∃ name LoggerPtr level, Setting map loggers line name LoggerPtr level ∧
    setLevel lib map loggers line = some (Function.update loggers LoggerPtr
      (some (toLogLevel level)), .success name level)) ∨
  ((¬ ∃ name LoggerPtr level, Setting map loggers line name LoggerPtr level) ∧
    setLevel lib map loggers line = some (loggers, .unknownCommand))

/-- The line is not a single character other than a colon; and where it is accepted, it says
so: the character behind the colon is not a slash, and what is in front of it are the digits of
the index that is looked up. -/
structure Plain (lib : Cxx) (map : MapLogCtrl) (loggers : Wrappers) (line : List UInt8) :
    Prop where
  single : line.length = 1 → line = [colon]
  exact : ∀ name c, line = name ++ [colon, c] → name ≠ [] → colon ∉ name →
    (findLogger map loggers (toIndex (lib.atoi name))).isSome → 0x2F ≤ c.toNat → c.toNat ≤ 0x35 →
    c ≠ slash ∧ (∀ d ∈ name, isDigit d = true) ∧
      (ofDigits name : ℤ) = (toIndex (lib.atoi name)).1

/-- `atoi` reads the index that digits denote. -/
lemma atoi_digits {digits : List UInt8} {index : Index} (hne : digits ≠ [])
    (hdigits : ∀ d ∈ digits, isDigit d = true) (hindex : (ofDigits digits : ℤ) = index.1) :
    toIndex (lib.atoi digits) = index := by
  have hstrtol : (strtol digits).getD 0 = ofDigits digits := by
    have h := Json.strtol_digits hdigits false
    simp only [Bool.false_eq_true, if_false, List.nil_append, if_neg hne] at h
    rw [h]
    rfl
  have hrange := index.2
  have hvalue := lib.atoi_value digits (by omega) (by omega)
  rw [hstrtol, hindex] at hvalue
  exact Subtype.ext (by rw [hvalue]; exact Int.bmod_eq_of_le (by omega) (by omega))

lemma colon_not_digit {digits : List UInt8} (hdigits : ∀ d ∈ digits, isDigit d = true) :
    colon ∉ digits := fun h => absurd (hdigits colon h) (by decide)

lemma append_pair_inj {name name' : List UInt8} {c c' : UInt8}
    (h : name ++ [colon, c] = name' ++ [colon, c']) : name = name' ∧ c = c' := by
  obtain ⟨hname, hpair⟩ := List.append_inj' h rfl
  exact ⟨hname, by simpa using hpair⟩

/-- A setting is carried out. -/
lemma Setting.carried_out {LoggerPtr level : ℕ}
    (h : Setting map loggers line name LoggerPtr level) (hlen : line.length < 2 ^ lib.sizeBits) :
    setLevel lib map loggers line = some (Function.update loggers LoggerPtr
      (some (toLogLevel level)), .success name level) := by
  obtain ⟨hle, digits, index, rfl, hne, hdigits, hindex, hfind⟩ := h
  rw [setLevel_pair hne (colon_not_digit hdigits) hlen, atoi_digits hne hdigits hindex, hfind,
    level_levelDigit hle, applyLevel, if_pos (by omega)]

/-- A line that is accepted and says so is a setting. -/
lemma Plain.setting (h : Plain lib map loggers (name ++ [colon, c])) (hname : name ≠ [])
    (hcolon : colon ∉ name) {found : List UInt8 × ℕ}
    (hfind : findLogger map loggers (toIndex (lib.atoi name)) = some found)
    (hlo : 0x2F ≤ c.toNat) (hhi : c.toNat ≤ 0x35) :
    Setting map loggers (name ++ [colon, c]) found.1 found.2 (c.toNat - 0x30) := by
  obtain ⟨hslash, hdigits, hindex⟩ := h.exact name c rfl hname hcolon (by rw [hfind]; rfl) hlo hhi
  have hne : c.toNat ≠ 0x2F := fun he => hslash (UInt8.toNat_inj.mp he)
  have hc : levelDigit (c.toNat - 0x30) = c := by
    rw [levelDigit, show 0x30 + (c.toNat - 0x30) = c.toNat by omega, UInt8.ofNat_toNat]
  exact ⟨by omega, name, _, by rw [hc], hname, hdigits, hindex, hfind⟩

/-- **The line for `-sl`** is handled exactly if it is plain. -/
theorem handled_iff (lib : Cxx) (map : MapLogCtrl) (loggers : Wrappers) {line : List UInt8}
    (hlen : line.length < 2 ^ lib.sizeBits) :
    Handled lib map loggers line ↔ Plain lib map loggers line := by
  constructor
  · intro h
    refine ⟨fun hone => ?_, fun name c hline hname hcolon hlive hlo hhi => ?_⟩
    · obtain ⟨c, rfl⟩ := List.length_eq_one_iff.mp hone
      by_contra hne
      have hthrows : setLevel lib map loggers [c] = none := setLevel_single (by simpa using hne)
      rcases h with ⟨name, LoggerPtr, level, -, hset⟩ | ⟨-, hset⟩
      · rw [hthrows] at hset
        cases hset
      · rw [hthrows] at hset
        cases hset
    · subst hline
      obtain ⟨found, hfind⟩ := Option.isSome_iff_exists.mp hlive
      have hset : setLevel lib map loggers (name ++ [colon, c]) = _ :=
        setLevel_pair hname hcolon hlen
      rw [hfind, applyLevel, if_pos (level_iff.mpr ⟨hlo, hhi⟩)] at hset
      rcases h with ⟨_, _, level, ⟨hle, digits, index, hline, -, hdigits, hindex, -⟩, -⟩ | ⟨-, herr⟩
      · obtain ⟨rfl, rfl⟩ := append_pair_inj hline
        refine ⟨?_, hdigits, by rw [atoi_digits hname hdigits hindex, hindex]⟩
        intro hslash
        have hlevel := level_levelDigit hle
        have hoff : Word.toInt 8 slash.toNat - 0x30 = -1 := by decide
        rw [hslash, hoff] at hlevel
        omega
      · rw [hset] at herr
        exact absurd (congrArg Prod.snd (Option.some.inj herr)) (by simp)
  · intro h
    have hsetting : ∀ {name LoggerPtr level}, Setting map loggers line name LoggerPtr level →
        Handled lib map loggers line := fun hs => .inl ⟨_, _, _, hs, hs.carried_out hlen⟩
    by_cases hs : ∃ name LoggerPtr level, Setting map loggers line name LoggerPtr level
    · obtain ⟨_, _, _, hs⟩ := hs
      exact hsetting hs
    · refine .inr ⟨hs, ?_⟩
      by_cases hpair : ∃ name c, line = name ++ [colon, c] ∧ colon ∉ name ∧ name ≠ []
      · obtain ⟨name, c, rfl, hcolon, hname⟩ := hpair
        rw [setLevel_pair hname hcolon hlen]
        cases hfind : findLogger map loggers (toIndex (lib.atoi name)) with
        | none => rfl
        | some found =>
          rw [applyLevel, if_neg]
          rw [level_iff]
          rintro ⟨hlo, hhi⟩
          exact hs ⟨_, _, _, h.setting hname hcolon hfind hlo hhi⟩
      · refine setLevel_other hlen h.single fun name c hline hcolon => ?_
        by_contra hname
        exact hpair ⟨name, c, hline, hcolon, hname⟩

/-- One live logger of the name `A`, under the index 1. -/
def oneLogger : MapLogCtrl := SortedMap.empty.insert ⟨1, by decide⟩ ([65], 0)

/-- `1:3` is handled. -/
theorem oneLogger_handled : Handled glibc oneLogger (fun _ => some .Log_Debug) [49, 58, 51] := by
  refine (handled_iff glibc oneLogger _ (by decide)).mpr ⟨by decide, ?_⟩
  intro name c hline _ _ _ _ _
  obtain ⟨rfl, rfl⟩ := append_pair_inj (show [49] ++ [colon, 51] = name ++ [colon, c] from hline)
  refine ⟨by decide, fun d hd => ?_, by decide⟩
  rw [List.mem_singleton.mp hd]
  decide

/-- `5` throws; `1:/` and `65537x:3` are taken for settings of the logger 1. -/
theorem oneLogger_not_handled :
    ¬ Handled glibc oneLogger (fun _ => some .Log_Debug) [53] ∧
    (setLevel glibc oneLogger (fun _ => some .Log_Debug) [49, 58, 47]).map Prod.snd =
      some (.success [65] (-1)) ∧
    (setLevel glibc oneLogger (fun _ => some .Log_Debug)
      [54, 53, 53, 51, 55, 120, 58, 51]).map Prod.snd = some (.success [65] 3) := by
  refine ⟨?_, by decide, by decide⟩
  have hthrows : setLevel glibc oneLogger (fun _ => some .Log_Debug) [53] = none :=
    setLevel_single (by decide)
  rintro (⟨_, _, _, -, hset⟩ | ⟨-, hset⟩)
  · rw [hthrows] at hset
    cases hset
  · rw [hthrows] at hset
    cases hset

end MmrService.Command
