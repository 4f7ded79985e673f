import Mathlib.Tactic.SplitIfs
import TrialBoard.Toml.Writer

/-!
# Reading quoted strings back

A string that is written between quotes of any kind is read as itself, and what follows the quotes
is left. Between double quotes every character is either kept or escaped, so one lemma follows the
reader over what is written for one character. Quotes in a block are the one place where the reader
looks ahead: it has to tell those that belong to the string from those that close it.
-/

namespace TrialBoard.Toml

variable {block : Bool} {seen rest cs : List Char} {c letter : Char}

/-- A character that was read goes from the text to those seen. -/
theorem reverse_cons_append (c : Char) (seen cs : List Char) :
    (c :: seen).reverse ++ cs = seen.reverse ++ c :: cs := by
  rw [List.reverse_cons, List.append_assoc, List.singleton_append]

/-! ## Double quotes -/

/-- Reads what stands between double quotes, in a block or not. -/
def between (block : Bool) (seen cs : List Char) : Scan String :=
  if block then doubleQuotedBlock false seen cs else doubleQuoted seen cs

theorem between_true : between true seen cs = doubleQuotedBlock false seen cs := rfl

theorem between_false : between false seen cs = doubleQuoted seen cs := rfl

theorem doubleQuotedBlock_keep (hkept : c = '\n' ∨ isPlain c = true) (hquote : c ≠ '"')
    (hslash : c ≠ '\\') :
    doubleQuotedBlock false seen (c :: rest) = doubleQuotedBlock false (c :: seen) rest := by
  have hreturn : c ≠ '\r' := by
    rintro rfl
    exact absurd hkept (by decide)
  rw [doubleQuotedBlock.eq_def]
  split
  case h_6 heq =>
    obtain ⟨rfl, rfl⟩ := List.cons.inj heq
    rw [if_neg (by simp), if_neg hquote, if_pos (by simpa [hslash] using hkept)]
  all_goals rename_i heq; cases heq
  all_goals contradiction

theorem between_plain (hplain : isPlain c = true) (hquote : c ≠ '"') (hslash : c ≠ '\\') :
    between block seen (c :: rest) = between block (c :: seen) rest := by
  cases block with
  | false =>
    rw [between_false, between_false, doubleQuoted.eq_5, if_neg hquote,
      if_pos (by simp [hplain, hslash])]
    all_goals simp [hslash]
  | true => exact doubleQuotedBlock_keep (.inr hplain) hquote hslash

/-- A character whose escape is one letter. -/
theorem between_escaped (h : escaped? letter = some c) :
    between block seen ('\\' :: letter :: rest) = between block (c :: seen) rest := by
  have hu : letter ≠ 'u' := by
    rintro rfl
    cases h
  have hU : letter ≠ 'U' := by
    rintro rfl
    cases h
  cases block with
  | false =>
    rw [between_false, between_false, doubleQuoted.eq_4, h]
    all_goals simp [hu, hU]
  | true =>
    rw [between_true, between_true, doubleQuotedBlock.eq_4, h]
    all_goals simp [hu, hU]

/-- A character whose escape is its number. -/
theorem between_short {a b d e : Char} (h : short? a b d e = some c) :
    between block seen ('\\' :: 'u' :: a :: b :: d :: e :: rest) =
      between block (c :: seen) rest := by
  cases block with
  | false => rw [between_false, between_false, doubleQuoted.eq_2, h]
  | true => rw [between_true, between_true, doubleQuotedBlock.eq_2, h]

theorem lt_of_isControl (h : isControl c = true) : c.toNat < 128 := by
  simp only [isControl, isPlain, Bool.and_eq_true, Bool.not_eq_true', Bool.or_eq_false_iff,
    Bool.and_eq_false_iff, decide_eq_false_iff_not, bne_eq_false_iff_eq] at h
  omega

theorem short?_hexDigit : ∀ n < 128,
    short? '0' '0' (hexDigit (n / 16)) (hexDigit (n % 16)) = some (Char.ofNat n) := by
  decide

theorem between_escapeControl (h : c = '\t' ∨ c = '\n' ∨ isControl c = true) :
    between block seen (escapeControl c ++ rest) = between block (c :: seen) rest := by
  unfold escapeControl
  split_ifs with hback htab hnewline hfeed hreturn
  · exact between_escaped (by rw [hback]; rfl)
  · exact between_escaped (by rw [htab]; rfl)
  · exact between_escaped (by rw [hnewline]; rfl)
  · exact between_escaped (by rw [hfeed]; rfl)
  · exact between_escaped (by rw [hreturn]; rfl)
  · have hcontrol : isControl c = true := by simpa [htab, hnewline] using h
    refine between_short ?_
    rw [short?_hexDigit c.toNat (lt_of_isControl hcontrol), Char.ofNat_toNat]

/-- What stands between double quotes for a character that is not a quote. -/
def marked (block : Bool) (c : Char) : List Char :=
  if c = '\\' then ['\\', '\\']
  else if c = '\n' ∧ block = true then ['\n']
  else if c = '\t' ∨ c = '\n' ∨ isControl c = true then escapeControl c
  else [c]

theorem escape_cons (hquote : c ≠ '"') (quotes : Nat) :
    escape block quotes (c :: cs) = marked block c ++ escape block 0 cs := by
  rw [escape, if_neg hquote, marked]
  split_ifs <;> simp_all [escapeControl]

theorem between_marked (hquote : c ≠ '"') :
    between block seen (marked block c ++ rest) = between block (c :: seen) rest := by
  unfold marked
  split_ifs with hslash hnewline hcontrol
  · exact between_escaped (by rw [hslash]; rfl)
  · obtain ⟨rfl, rfl⟩ := hnewline
    exact doubleQuotedBlock_keep (.inl rfl) (by decide) (by decide)
  · exact between_escapeControl hcontrol
  · have hplain : isPlain c = true := by
      simp only [isControl, not_or, Bool.and_eq_true, Bool.not_eq_true', not_and] at hcontrol
      simpa [hcontrol.2.1] using hcontrol.2.2
    exact between_plain hplain hquote hslash

/-- A quote that is escaped. -/
theorem between_quote :
    between block seen ('\\' :: '"' :: rest) = between block ('"' :: seen) rest :=
  between_escaped rfl

/-- A string between double quotes is read as itself. -/
theorem doubleQuoted_escape (seen cs rest : List Char) :
    doubleQuoted seen (escape false 0 cs ++ '"' :: rest) =
      .ok (String.ofList (seen.reverse ++ cs), rest) := by
  rw [← between_false]
  induction cs generalizing seen with
  | nil =>
    rw [escape, List.nil_append, List.append_nil]
    rfl
  | cons c cs ih =>
    by_cases hquote : c = '"'
    · subst hquote
      rw [escape, if_pos rfl, if_neg (by simp), List.cons_append, List.cons_append, between_quote,
        ih, reverse_cons_append]
    · rw [escape_cons hquote, List.append_assoc, between_marked hquote, ih, reverse_cons_append]

/-! ## Blocks between double quotes -/

/-- What is written for a character starts with a backslash or is the character. -/
theorem exists_first_marked (block : Bool) (c : Char) :
    ∃ x tail, marked block c = x :: tail ∧ (x = '\\' ∨ x = c ∧ isControl c = false) := by
  unfold marked escapeControl
  split_ifs with hslash hnewline hcontrol
  · exact ⟨_, _, rfl, .inl rfl⟩
  · exact ⟨_, _, rfl, .inr ⟨hnewline.1.symm, by rw [hnewline.1]; decide⟩⟩
  iterate 6 exact ⟨_, _, rfl, .inl rfl⟩
  · simp only [not_or, Bool.not_eq_true] at hcontrol
    exact ⟨_, _, rfl, .inr ⟨rfl, hcontrol.2.2⟩⟩

theorem escape_keptQuote {quotes : Nat} (h : quotes < 2) :
    escape true quotes ('"' :: cs) = '"' :: escape true (quotes + 1) cs := by
  rw [escape, if_pos rfl, if_pos (by simpa using h)]

theorem escape_slashedQuote {quotes : Nat} (h : ¬(block = true ∧ quotes < 2)) :
    escape block quotes ('"' :: cs) = '\\' :: '"' :: escape block 0 cs := by
  rw [escape, if_pos rfl, if_neg (by simpa using h)]

/-- What is written for a string starts with a quote only where it is kept. -/
theorem escape_ne_quote {quotes : Nat} (h : c = '"' → ¬(block = true ∧ quotes < 2))
    (tail after : List Char) : escape block quotes (c :: cs) ++ tail ≠ '"' :: after := by
  intro heq
  by_cases hquote : c = '"'
  · rw [hquote, escape_slashedQuote (h hquote)] at heq
    cases heq
  · obtain ⟨x, after', hx, hcase⟩ := exists_first_marked block c
    rw [escape_cons hquote, hx] at heq
    obtain ⟨rfl, -⟩ := List.cons.inj heq
    rcases hcase with hcase | ⟨rfl, -⟩
    · cases hcase
    · exact hquote rfl

/-- Quotes after which no two others follow belong to the string. -/
theorem doubleQuotedBlock_keepQuote (h : ∀ tail, rest ≠ '"' :: '"' :: tail) :
    doubleQuotedBlock false seen ('"' :: rest) = doubleQuotedBlock false ('"' :: seen) rest := by
  rw [doubleQuotedBlock.eq_9, if_neg (by simp), if_pos rfl]
  all_goals simp [h]

/-- Of the quotes at the end of a block the last three close it. -/
theorem doubleQuotedBlock_close (hrest : rest.head? ≠ some '"') {n : Nat} (hn : n ≤ 2) :
    doubleQuotedBlock false seen (List.replicate n '"' ++ '"' :: '"' :: '"' :: rest) =
      .ok (String.ofList (seen.reverse ++ List.replicate n '"'), rest) := by
  have hstop (tail : List Char) : rest ≠ '"' :: tail := by
    rintro rfl
    exact hrest rfl
  match n, hn with
  | 0, _ =>
    change doubleQuotedBlock false seen ('"' :: '"' :: '"' :: rest) = _
    rw [doubleQuotedBlock.eq_8, if_neg (by simp), if_pos rfl]
    all_goals simp [hstop]
  | 1, _ =>
    change doubleQuotedBlock false seen ('"' :: '"' :: '"' :: '"' :: rest) = _
    rw [doubleQuotedBlock.eq_7, if_neg (by simp), if_pos rfl]
    all_goals simp [hstop]
  | 2, _ =>
    change doubleQuotedBlock false seen ('"' :: '"' :: '"' :: '"' :: '"' :: rest) = _
    rw [doubleQuotedBlock.eq_6, if_neg (by simp), if_pos rfl]
    all_goals simp

/-- After a quote that is kept come the quotes of the end, or there are no two more. -/
theorem escape_after_quote (quotes : Nat) (cs tail : List Char) :
    (cs = [] ∨ cs = ['"'] ∧ quotes = 0) ∨
      ∀ after, escape true (quotes + 1) cs ++ tail ≠ '"' :: '"' :: after := by
  match cs with
  | [] => exact .inl (.inl rfl)
  | c :: cs =>
    by_cases hkept : c = '"' ∧ quotes = 0
    · obtain ⟨rfl, rfl⟩ := hkept
      match cs with
      | [] => exact .inl (.inr ⟨rfl, rfl⟩)
      | c' :: cs =>
        refine .inr fun after heq => ?_
        rw [escape_keptQuote (by decide)] at heq
        exact escape_ne_quote (fun _ => by decide) _ _ (List.cons.inj heq).2
    · refine .inr fun after => escape_ne_quote (fun hquote hlt => ?_) tail _
      have hquotes : quotes ≠ 0 := fun hzero => hkept ⟨hquote, hzero⟩
      omega

/-- A block between double quotes is read as the string it was written for. -/
theorem doubleQuotedBlock_escape (hrest : rest.head? ≠ some '"') (seen cs : List Char)
    (quotes : Nat) :
    doubleQuotedBlock false seen (escape true quotes cs ++ '"' :: '"' :: '"' :: rest) =
      .ok (String.ofList (seen.reverse ++ cs), rest) := by
  rw [← between_true]
  induction cs generalizing seen quotes with
  | nil => exact doubleQuotedBlock_close hrest (n := 0) (by decide)
  | cons c cs ih =>
    by_cases hquote : c = '"'
    · subst hquote
      by_cases hkept : quotes < 2
      · rw [escape_keptQuote hkept, List.cons_append]
        rcases escape_after_quote quotes cs ('"' :: '"' :: '"' :: rest) with
          (rfl | ⟨rfl, rfl⟩) | hmore
        · exact doubleQuotedBlock_close hrest (n := 1) (by decide)
        · exact doubleQuotedBlock_close hrest (n := 2) (by decide)
        · rw [between_true, doubleQuotedBlock_keepQuote hmore, ← between_true, ih,
            reverse_cons_append]
      · rw [escape_slashedQuote (fun h => hkept h.2), List.cons_append, List.cons_append,
          between_quote, ih, reverse_cons_append]
    · rw [escape_cons hquote, List.append_assoc, between_marked hquote, ih, reverse_cons_append]

/-! ## Single quotes -/

theorem singleQuoted_plain (h : ∀ c ∈ cs, isPlain c = true ∧ c ≠ '\'') (seen rest : List Char) :
    singleQuoted seen (cs ++ '\'' :: rest) = .ok (String.ofList (seen.reverse ++ cs), rest) := by
  induction cs generalizing seen with
  | nil =>
    rw [List.append_nil]
    rfl
  | cons c cs ih =>
    obtain ⟨hplain, hquote⟩ := h c List.mem_cons_self
    rw [List.cons_append, singleQuoted, if_neg hquote, if_pos hplain,
      ih fun c hc => h c (List.mem_cons_of_mem _ hc), reverse_cons_append]

theorem le_longestRun (x : Char) (before : Nat) (cs : List Char) :
    before ≤ longestRun x before cs := by
  induction cs generalizing before with
  | nil => exact Nat.le_refl before
  | cons c cs ih =>
    rw [longestRun]
    split
    · exact Nat.le_trans (Nat.le_succ before) (ih (before + 1))
    · exact Nat.le_max_left _ _

theorem longestRun_self (x : Char) (before : Nat) :
    longestRun x before (x :: cs) = longestRun x (before + 1) cs := by
  rw [longestRun, if_pos rfl]

theorem longestRun_of_ne {x : Char} (h : c ≠ x) (before : Nat) :
    longestRun x before (c :: cs) = max before (longestRun x 0 cs) := by
  rw [longestRun, if_neg h]

theorem singleQuotedBlock_keep (hkept : isControl c = false) (hquote : c ≠ '\'') :
    singleQuotedBlock seen (c :: rest) = singleQuotedBlock (c :: seen) rest := by
  have hplain : (c == '\n' || isPlain c) = true := by
    cases hplain : isPlain c
    · simpa [isControl, hplain] using hkept
    · exact Bool.or_true _
  have hreturn : c ≠ '\r' := by
    rintro rfl
    exact absurd hkept (by decide)
  rw [singleQuotedBlock.eq_def]
  split
  case h_3 heq =>
    obtain ⟨rfl, rfl⟩ := List.cons.inj heq
    rw [if_neg hquote, if_pos hplain]
  all_goals rename_i heq; cases heq
  contradiction

theorem singleQuotedBlock_keepQuote (h : ∀ tail, rest ≠ '\'' :: '\'' :: tail) :
    singleQuotedBlock seen ('\'' :: rest) = singleQuotedBlock ('\'' :: seen) rest := by
  rw [singleQuotedBlock.eq_6, if_pos rfl]
  all_goals simp [h]

theorem singleQuotedBlock_close (hrest : rest.head? ≠ some '\'') {n : Nat} (hn : n ≤ 2) :
    singleQuotedBlock seen (List.replicate n '\'' ++ '\'' :: '\'' :: '\'' :: rest) =
      .ok (String.ofList (seen.reverse ++ List.replicate n '\''), rest) := by
  have hstop (tail : List Char) : rest ≠ '\'' :: tail := by
    rintro rfl
    exact hrest rfl
  match n, hn with
  | 0, _ =>
    change singleQuotedBlock seen ('\'' :: '\'' :: '\'' :: rest) = _
    rw [singleQuotedBlock.eq_5, if_pos rfl]
    all_goals simp [hstop]
  | 1, _ =>
    change singleQuotedBlock seen ('\'' :: '\'' :: '\'' :: '\'' :: rest) = _
    rw [singleQuotedBlock.eq_4, if_pos rfl]
    all_goals simp [hstop]
  | 2, _ =>
    change singleQuotedBlock seen ('\'' :: '\'' :: '\'' :: '\'' :: '\'' :: rest) = _
    rw [singleQuotedBlock.eq_3, if_pos rfl]
    all_goals simp

/-- After a quote come the quotes of the end, or there are no two more. -/
theorem singles_after_quote {before : Nat} (hrun : longestRun '\'' (before + 1) cs ≤ 2)
    (tail : List Char) :
    (cs = [] ∨ cs = ['\'']) ∨ ∀ after, cs ++ '\'' :: tail ≠ '\'' :: '\'' :: after := by
  match cs with
  | [] => exact .inl (.inl rfl)
  | [c] =>
    by_cases hquote : c = '\''
    · exact .inl (.inr (by rw [hquote]))
    · exact .inr fun after heq => hquote (List.cons.inj heq).1
  | c :: c' :: cs =>
    refine .inr fun after heq => ?_
    obtain ⟨rfl, htail⟩ := List.cons.inj heq
    obtain ⟨rfl, -⟩ := List.cons.inj htail
    -- three quotes together
    rw [longestRun_self, longestRun_self] at hrun
    have hlong := le_longestRun '\'' (before + 1 + 1 + 1) cs
    omega

/-- A block between single quotes in which no three of them stand together is read as itself. -/
theorem singleQuotedBlock_plain (hrest : rest.head? ≠ some '\'')
    (hkept : ∀ c ∈ cs, isControl c = false) (seen : List Char) {before : Nat}
    (hrun : longestRun '\'' before cs ≤ 2) :
    singleQuotedBlock seen (cs ++ '\'' :: '\'' :: '\'' :: rest) =
      .ok (String.ofList (seen.reverse ++ cs), rest) := by
  induction cs generalizing seen before with
  | nil => exact singleQuotedBlock_close hrest (n := 0) (by decide)
  | cons c cs ih =>
    have hkept' : ∀ c ∈ cs, isControl c = false := fun c hc => hkept c (List.mem_cons_of_mem _ hc)
    by_cases hquote : c = '\''
    · subst hquote
      rw [longestRun_self] at hrun
      rcases singles_after_quote hrun ('\'' :: '\'' :: rest) with (rfl | rfl) | hmore
      · exact singleQuotedBlock_close hrest (n := 1) (by decide)
      · exact singleQuotedBlock_close hrest (n := 2) (by decide)
      · rw [List.cons_append, singleQuotedBlock_keepQuote hmore, ih hkept' _ hrun,
          reverse_cons_append]
    · rw [longestRun_of_ne hquote] at hrun
      rw [List.cons_append, singleQuotedBlock_keep (hkept c List.mem_cons_self) hquote,
        ih hkept' _ (Nat.le_trans (Nat.le_max_right _ _) hrun), reverse_cons_append]

/-! ## Strings -/

theorem longestRun_eq_zero {x : Char} (h : longestRun x 0 cs = 0) : x ∉ cs := by
  induction cs with
  | nil => exact List.not_mem_nil
  | cons c cs ih =>
    by_cases hc : c = x
    · rw [hc, longestRun_self] at h
      have hone := le_longestRun x (0 + 1) cs
      omega
    · rw [longestRun_of_ne hc] at h
      rw [List.mem_cons, not_or]
      exact ⟨Ne.symm hc, ih (by omega)⟩

theorem not_mem_of_contains {x : Char} (h : cs.contains x = false) : x ∉ cs := by
  intro hx
  rw [List.contains_iff_mem.2 hx] at h
  cases h

theorem isPlain_of_isControl (h : isControl c = false) (hnewline : c ≠ '\n') :
    isPlain c = true := by
  simpa [isControl, hnewline] using h

/-- A string on one line between single quotes is not empty and has no such quote. -/
theorem plain_of_single (h : Quotes.for cs = .single) :
    cs ≠ [] ∧ ∀ c ∈ cs, isPlain c = true ∧ c ≠ '\'' := by
  simp only [Quotes.for] at h
  split_ifs at h with hdouble hsingle
  simp only [Bool.and_eq_true, Bool.not_eq_true', beq_iff_eq, List.any_eq_false,
    Bool.not_eq_true] at hsingle
  refine ⟨?_, fun c hc => ⟨isPlain_of_isControl (hsingle.1.1 c hc) ?_, ?_⟩⟩
  · rintro rfl
    exact hdouble rfl
  · rintro rfl
    exact not_mem_of_contains hsingle.2 hc
  · rintro rfl
    exact longestRun_eq_zero hsingle.1.2 hc

theorem plain_of_singleBlock (h : Quotes.for cs = .singleBlock) :
    (∀ c ∈ cs, isControl c = false) ∧ longestRun '\'' 0 cs ≤ 2 := by
  simp only [Quotes.for] at h
  split_ifs at h with hdouble hsingle hblock hsingleBlock
  simpa using hsingleBlock

/-- A line end right after the opening quotes is the one that starts a block. -/
theorem dropNewline_blockStart {text tail : List Char} {quote : Char}
    (htext : ∀ c ∈ text.head?, c ≠ '\r' ∧ (c = '\n' → '\n' ∈ cs))
    (hquote : quote ≠ '\r' ∧ quote ≠ '\n') :
    dropNewline (blockStart cs ++ (text ++ quote :: tail)) = text ++ quote :: tail := by
  unfold blockStart
  split
  · rfl
  · rename_i hnewline
    have hnewline : '\n' ∉ cs := by simpa using hnewline
    have hnone (c : Char) (after : List Char) (hc : c ≠ '\r' ∧ c ≠ '\n') :
        dropNewline (c :: after) = c :: after := by
      unfold dropNewline
      rw [newline?.eq_3, Option.getD_none]
      · exact fun _ heq => hc.2 (List.cons.inj heq).1
      · exact fun _ heq => hc.1 (List.cons.inj heq).1
    cases text with
    | nil => exact hnone quote tail hquote
    | cons c text =>
      obtain ⟨hreturn, hc⟩ := htext c rfl
      exact hnone c _ ⟨hreturn, fun h => hnewline (hc h)⟩

theorem first_escape (quotes : Nat) :
    ∀ x ∈ (escape block quotes cs).head?, x ≠ '\r' ∧ (x = '\n' → '\n' ∈ cs) := by
  cases cs with
  | nil => exact nofun
  | cons c cs =>
    intro x hx
    by_cases hquote : c = '"'
    · have hfirst : x = '"' ∨ x = '\\' := by
        rw [escape, if_pos hquote] at hx
        split at hx
        · exact .inl (Option.some.inj hx).symm
        · exact .inr (Option.some.inj hx).symm
      rcases hfirst with rfl | rfl
      · exact ⟨by decide, fun h => absurd h (by decide)⟩
      · exact ⟨by decide, fun h => absurd h (by decide)⟩
    · obtain ⟨y, tail, hy, hcase⟩ := exists_first_marked block c
      rw [escape_cons hquote, hy] at hx
      obtain rfl : y = x := Option.some.inj hx
      rcases hcase with rfl | ⟨rfl, hcontrol⟩
      · exact ⟨by decide, fun h => absurd h (by decide)⟩
      · refine ⟨?_, fun h => h ▸ List.mem_cons_self⟩
        rintro rfl
        exact absurd hcontrol (by decide)

theorem string_double (hdouble : rest.head? ≠ some '"') (cs : List Char) :
    string ('"' :: (escape false 0 cs ++ '"' :: rest)) = .ok (String.ofList cs, rest) := by
  have hline : ∀ tail, escape false 0 cs ++ '"' :: rest ≠ '"' :: '"' :: tail := by
    intro tail
    cases cs with
    | nil =>
      intro heq
      exact hdouble (by rw [(List.cons.inj heq).2]; rfl)
    | cons c cs => exact escape_ne_quote (fun _ => by decide) _ _
  rw [string.eq_2 _ hline, doubleQuoted_escape, List.reverse_nil, List.nil_append]

theorem string_single (hne : cs ≠ []) (hplain : ∀ c ∈ cs, isPlain c = true ∧ c ≠ '\'')
    (rest : List Char) : string ('\'' :: (cs ++ '\'' :: rest)) = .ok (String.ofList cs, rest) := by
  have hline : ∀ tail, cs ++ '\'' :: rest ≠ '\'' :: '\'' :: tail := by
    intro tail
    cases cs with
    | nil => exact absurd rfl hne
    | cons c cs =>
      intro heq
      exact (hplain c List.mem_cons_self).2 (List.cons.inj heq).1
  rw [string.eq_4 _ hline, singleQuoted_plain hplain, List.reverse_nil, List.nil_append]

theorem string_doubleBlock (hdouble : rest.head? ≠ some '"') (cs : List Char) :
    string ('"' :: '"' :: '"' ::
      (blockStart cs ++ (escape true 0 cs ++ '"' :: '"' :: '"' :: rest))) =
      .ok (String.ofList cs, rest) := by
  change doubleQuotedBlock false [] (dropNewline _) = _
  rw [dropNewline_blockStart (first_escape 0) (by decide), doubleQuotedBlock_escape hdouble,
    List.reverse_nil, List.nil_append]

theorem string_singleBlock (hsingle : rest.head? ≠ some '\'')
    (hkept : ∀ c ∈ cs, isControl c = false) (hrun : longestRun '\'' 0 cs ≤ 2) :
    string ('\'' :: '\'' :: '\'' :: (blockStart cs ++ (cs ++ '\'' :: '\'' :: '\'' :: rest))) =
      .ok (String.ofList cs, rest) := by
  have hfirst : ∀ c ∈ cs.head?, c ≠ '\r' ∧ (c = '\n' → '\n' ∈ cs) := by
    intro c hc
    have hmem : c ∈ cs := List.mem_of_mem_head? hc
    refine ⟨?_, fun h => h ▸ hmem⟩
    rintro rfl
    exact absurd (hkept _ hmem) (by decide)
  change singleQuotedBlock [] (dropNewline _) = _
  rw [dropNewline_blockStart hfirst (by decide), singleQuotedBlock_plain hsingle hkept _ hrun,
    List.reverse_nil, List.nil_append]

/-- A string is read as itself, whatever quotes it is written between. -/
theorem string_quotedChars (cs : List Char) (hdouble : rest.head? ≠ some '"')
    (hsingle : rest.head? ≠ some '\'') :
    string (quotedChars cs ++ rest) = .ok (String.ofList cs, rest) := by
  unfold quotedChars
  split
  case h_1 hquotes => simpa using string_double hdouble cs
  case h_2 hquotes =>
    obtain ⟨hne, hplain⟩ := plain_of_single hquotes
    simpa using string_single hne hplain rest
  case h_3 hquotes => simpa using string_doubleBlock hdouble cs
  case h_4 hquotes =>
    obtain ⟨hkept, hrun⟩ := plain_of_singleBlock hquotes
    simpa using string_singleBlock hsingle hkept hrun

end TrialBoard.Toml
