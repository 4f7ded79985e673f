import TrialBoard.Proofs.PrintedText
import TrialBoard.Proofs.QuotedText
import TrialBoard.Toml.Reader

/-!
# Reading written documents back

A document of tables is written line by line and read line by line. What a line puts into the tables
is said without any text, by `Draft.begin?` and `Draft.put?`; the reader that takes a written line
does just that. So a document is read as the tables that its sections make, whatever its strings
hold.
-/

namespace TrialBoard.Toml

variable {rest : List Char}

/-! ## Numbers -/

theorem valueOf_toDigits (n : Nat) : valueOf 10 (Nat.toDigits 10 n) = n := by
  have hfold : valueOf 10 (Nat.toDigits 10 n) = Nat.ofDigitChars 10 (Nat.toDigits 10 n) 0 := by
    rw [Nat.ofDigitChars_eq_foldl, valueOf]
    refine List.foldl_ext _ _ 0 fun m c hc => ?_
    rw [Json.hexValue?, if_pos (digits_toDigits n c hc), Option.getD_some, Nat.mul_comm]
  rw [hfold, Nat.ofDigitChars_toDigits (by decide) (by decide)]

section Digits

variable {ds : List Char}

theorem ne_of_isDigit {c x : Char} (hc : c.isDigit = true) (hx : x.isDigit = false) : c ≠ x := by
  rintro rfl
  rw [hc] at hx
  cases hx

theorem digits?_digits (hds : ∀ c ∈ ds, c.isDigit = true) (hne : ds ≠ []) :
    digits? Char.isDigit ds = some ds := by
  induction ds with
  | nil => exact absurd rfl hne
  | cons c ds ih =>
    have hc : c.isDigit = true := hds c List.mem_cons_self
    cases ds with
    | nil => rw [digits?.eq_2, if_pos hc]
    | cons d ds =>
      have hd : d ≠ '_' := ne_of_isDigit (hds d (by simp)) (by decide)
      rw [digits?.eq_4, if_pos hc, ih (fun c hc => hds c (List.mem_cons_of_mem _ hc)) nofun,
        Option.map_some]
      · exact nofun
      · exact fun _ heq => hd (List.cons.inj heq).1

theorem decimal?_whole (h : IsWhole ds) : decimal? ds = some ds := by
  unfold decimal?
  rw [digits?_digits h.digits h.nonempty]
  split
  · rename_i c cs heq
    obtain rfl := Option.some.inj heq
    exact absurd (h.leading rfl) (by simp)
  · rfl

theorem signed_digits (hds : ∀ c ∈ ds, c.isDigit = true) : signed ds = (false, ds) := by
  cases ds with
  | nil => rfl
  | cons c ds =>
    have hc : c.isDigit = true := hds c List.mem_cons_self
    rw [signed.eq_3]
    · exact fun _ heq => ne_of_isDigit hc (by decide) (List.cons.inj heq).1
    · exact fun _ heq => ne_of_isDigit hc (by decide) (List.cons.inj heq).1

/-- Digits alone are no date and no time of day. -/
theorem time_digits (hds : ∀ c ∈ ds, c.isDigit = true) : time ds = none := by
  have hdate : date? ds = none := by
    unfold date?
    split
    · exact absurd (hds '-' (by simp)) (by decide)
    · rfl
  have htime : time? ds = none := by
    unfold time?
    split
    · exact absurd (hds ':' (by simp)) (by decide)
    · rfl
  unfold time
  rw [hdate, htime]
  rfl

/-- Digits alone have no fraction and no exponent. -/
theorem real?_digits (hds : ∀ c ∈ ds, c.isDigit = true) : real? ds = none := by
  have hword {c : Char} (hc : c.isDigit = false) (tail : List Char) :
      (ds == c :: tail) = false := by
    rw [beq_eq_false_iff_ne]
    rintro rfl
    rw [hds c List.mem_cons_self] at hc
    cases hc
  have hrun : ∀ c ∈ ds, (c.isDigit || c == '_') = true := by
    intro c hc
    rw [hds c hc, Bool.true_or]
  have hnothing : ds.dropWhile (fun c => c.isDigit || c == '_') = [] :=
    List.dropWhile_eq_nil_iff.2 hrun
  unfold real?
  rw [signed_digits hds]
  simp only [hnothing]
  rw [hword (by decide), hword (by decide), if_neg (by simp)]
  cases decimal? (ds.takeWhile fun c => c.isDigit || c == '_') <;> rfl

/-- A whole number is in no other base than ten. -/
theorem integer?_whole (h : IsWhole ds) : integer? ds = fitting? (valueOf 10 ds) := by
  have hbase {c : Char} (hc : c.isDigit = false) (tail : List Char) (heq : ds = '0' :: c :: tail) :
      False := by
    rw [h.digits c (by simp [heq])] at hc
    cases hc
  rw [integer?.eq_4 _ (hbase (by decide)) (hbase (by decide)) (hbase (by decide)),
    signed_digits h.digits]
  dsimp only
  rw [decimal?_whole h, Option.bind_some, if_neg (by decide)]

theorem word?_toDigits {n : Nat} (hn : n < 0x8000000000000000) :
    word? (Nat.toDigits 10 n) = some (.integer n) := by
  have hwhole := isWhole_toDigits n
  have hword {c : Char} (hc : c.isDigit = false) (tail : List Char) :
      Nat.toDigits 10 n ≠ c :: tail := by
    intro heq
    rw [hwhole.digits c (heq ▸ List.mem_cons_self)] at hc
    cases hc
  have hfits : -0x8000000000000000 ≤ (n : Int) ∧ (n : Int) < 0x8000000000000000 := by omega
  unfold word?
  rw [if_neg (hword (by decide) _), if_neg (hword (by decide) _), time_digits hwhole.digits,
    real?_digits hwhole.digits, Option.or_none, Option.none_or, integer?_whole hwhole,
    valueOf_toDigits, fitting?, if_pos hfits]

end Digits

/-! ## Splitting off what was read -/

/-- Characters of a kind are all taken, up to one that is not of the kind. -/
theorem take_drop_while {p : Char → Bool} {cs tail : List Char} (hcs : ∀ c ∈ cs, p c = true)
    (htail : ∀ c ∈ tail.head?, p c = false) :
    (cs ++ tail).takeWhile p = cs ∧ (cs ++ tail).dropWhile p = tail := by
  rw [List.takeWhile_append_of_pos hcs, List.dropWhile_append_of_pos hcs]
  cases tail with
  | nil => exact ⟨List.append_nil cs, rfl⟩
  | cons c tail =>
    have hc : ¬p c = true := by simp [htail c rfl]
    rw [List.takeWhile_cons_of_neg hc, List.dropWhile_cons_of_neg hc, List.append_nil]
    exact ⟨rfl, rfl⟩

theorem scalar_toDigits {n : Nat} (hn : n < 0x8000000000000000) (rest : List Char) :
    scalar (Nat.toDigits 10 n ++ '\n' :: rest) = .ok (.integer n, '\n' :: rest) := by
  have hdigits : ∀ c ∈ Nat.toDigits 10 n, isWordChar c = true := by
    intro c hc
    simp [isWordChar, Char.isAlphanum, digits_toDigits n c hc]
  have hnewline : ∀ c ∈ ('\n' :: rest).head?, isWordChar c = false := by
    intro c hc
    obtain rfl := Option.some.inj hc
    decide
  obtain ⟨htake, hdrop⟩ := take_drop_while hdigits hnewline
  have hsplit : splitWord (Nat.toDigits 10 n ++ '\n' :: rest) =
      (Nat.toDigits 10 n, '\n' :: rest) := by
    simp only [splitWord, htake, hdrop]
    rfl
  rw [scalar, hsplit, word?_toDigits hn]

/-! ## Values -/

/-- The setting of a value. -/
def Plain.setting : Plain → Setting
  | text s => .text s
  | number n => .integer n

/-- Whether a value can be read back: a number may not be too large. -/
def Plain.IsReadable : Plain → Prop
  | text _ => True
  | number n => n < 0x8000000000000000

theorem exists_quote (cs : List Char) :
    ∃ quote tail, quotedChars cs = quote :: tail ∧ (quote = '"' ∨ quote = '\'') := by
  unfold quotedChars
  split
  · exact ⟨_, _, rfl, .inl rfl⟩
  · exact ⟨_, _, rfl, .inr rfl⟩
  · exact ⟨_, _, rfl, .inl rfl⟩
  · exact ⟨_, _, rfl, .inr rfl⟩

theorem value_of_isDigit {d : Char} (hd : d.isDigit = true) (fuel room : Nat) (tail : List Char) :
    value (fuel + 1) room (d :: tail) = scalar (d :: tail) := by
  have hfirst {c : Char} (hc : c.isDigit = false) : d ≠ c := ne_of_isDigit hd hc
  rw [value.eq_def]
  dsimp only
  split
  case h_7 => rfl
  all_goals
    rename_i heq
    exact absurd (List.cons.inj heq).1 (hfirst (by decide))

theorem value_render {v : Plain} (h : v.IsReadable) (fuel room : Nat) (rest : List Char) :
    value (fuel + 1) room (v.render.toList ++ '\n' :: rest) = .ok (v.setting, '\n' :: rest) := by
  cases v with
  | text s =>
    have hstring : string (quotedChars s.toList ++ '\n' :: rest) =
        .ok (String.ofList s.toList, '\n' :: rest) :=
      string_quotedChars s.toList (by simp) (by simp)
    rw [String.ofList_toList] at hstring
    obtain ⟨quote, tail, hquoted, hquote⟩ := exists_quote s.toList
    rw [Plain.render, quoted, String.toList_ofList]
    rw [hquoted] at hstring ⊢
    rw [List.cons_append] at hstring ⊢
    unfold value
    rcases hquote with rfl | rfl
    · simp only [hstring]
      rfl
    · simp only [hstring]
      rfl
  | number n =>
    have hscalar := scalar_toDigits h rest
    obtain ⟨d, ds, hcons⟩ := List.exists_cons_of_ne_nil (isWhole_toDigits n).nonempty
    have hd : d.isDigit = true := digits_toDigits n d (by simp [hcons])
    rw [Plain.render, Nat.toString_eq_ofList_toDigits, String.toList_ofList]
    rw [hcons, List.cons_append] at hscalar ⊢
    rw [value_of_isDigit hd, hscalar]
    rfl

theorem exists_first_render (v : Plain) :
    ∃ c tail, v.render.toList = c :: tail ∧ isBlank c = false := by
  cases v with
  | text s =>
    obtain ⟨quote, tail, hquoted, hquote⟩ := exists_quote s.toList
    refine ⟨quote, tail, ?_, ?_⟩
    · rw [Plain.render, quoted, String.toList_ofList, hquoted]
    · rcases hquote with rfl | rfl <;> decide
  | number n =>
    obtain ⟨d, ds, hcons⟩ := List.exists_cons_of_ne_nil (isWhole_toDigits n).nonempty
    have hd : d.isDigit = true := digits_toDigits n d (by simp [hcons])
    refine ⟨d, ds, ?_, ?_⟩
    · rw [Plain.render, Nat.toString_eq_ofList_toDigits, String.toList_ofList, hcons]
    · rw [isBlank, Bool.or_eq_false_iff, beq_eq_false_iff_ne, beq_eq_false_iff_ne]
      exact ⟨ne_of_isDigit hd (by decide), ne_of_isDigit hd (by decide)⟩

/-! ## Keys -/

/-- Whether a name can be written as a key without quotes. -/
def IsBareName (name : String) : Prop := name.toList ≠ [] ∧ ∀ c ∈ name.toList, isBare c = true

section Keys

variable {name : String} {path : List String} {tail : List Char}

theorem IsBareName.exists_first (h : IsBareName name) :
    ∃ c cs, name.toList = c :: cs ∧ isBare c = true := by
  obtain ⟨c, cs, hcons⟩ := List.exists_cons_of_ne_nil h.1
  exact ⟨c, cs, hcons, h.2 c (by simp [hcons])⟩

theorem ne_of_isBare {c x : Char} (hc : isBare c = true) (hx : isBare x = false) : c ≠ x := by
  rintro rfl
  rw [hc] at hx
  cases hx

theorem isBlank_of_isBare {c : Char} (h : isBare c = true) : isBlank c = false := by
  rw [isBlank, Bool.or_eq_false_iff, beq_eq_false_iff_ne, beq_eq_false_iff_ne]
  exact ⟨ne_of_isBare h (by decide), ne_of_isBare h (by decide)⟩

theorem skipBlank_cons {c : Char} (h : isBlank c = false) (cs : List Char) :
    skipBlank (c :: cs) = c :: cs := by
  rw [skipBlank, List.dropWhile_cons_of_neg (by simp [h])]

theorem skipBlank_space (cs : List Char) : skipBlank (' ' :: cs) = skipBlank cs := rfl

theorem IsBareName.skipBlank_append (h : IsBareName name) (tail : List Char) :
    skipBlank (name.toList ++ tail) = name.toList ++ tail := by
  obtain ⟨c, cs, hcons, hc⟩ := h.exists_first
  rw [hcons, List.cons_append, skipBlank_cons (isBlank_of_isBare hc)]

theorem keyPart_name (h : IsBareName name) (htail : ∀ c ∈ tail.head?, isBare c = false) :
    keyPart (name.toList ++ tail) = .ok (name, tail) := by
  obtain ⟨c, cs, hcons, hc⟩ := h.exists_first
  obtain ⟨htake, hdrop⟩ := take_drop_while h.2 htail
  have hfirst {x : Char} (hx : isBare x = false) (after : List Char)
      (heq : name.toList ++ tail = x :: after) : False := by
    rw [hcons] at heq
    exact ne_of_isBare hc hx (List.cons.inj heq).1
  rw [keyPart.eq_3 _ (hfirst (by decide)) (hfirst (by decide)), htake, hdrop,
    if_neg (by simpa using h.1), String.ofList_toList]

theorem keyParts_path (hpath : path ≠ []) (hbare : ∀ name ∈ path, IsBareName name)
    {limit : Nat} (hlimit : path.length ≤ limit) (htail : ∀ c ∈ tail.head?, isBare c = false)
    (hpoint : ∀ after, skipBlank tail ≠ '.' :: after) :
    keyParts limit ((String.intercalate "." path).toList ++ tail) =
      .ok (path, skipBlank tail) := by
  induction path generalizing limit with
  | nil => exact absurd rfl hpath
  | cons name path ih =>
    have hname : IsBareName name := hbare name List.mem_cons_self
    obtain ⟨limit, rfl⟩ : ∃ n, limit = n + 1 := Nat.exists_eq_add_one.2 (by simp at hlimit; omega)
    cases path with
    | nil =>
      rw [String.intercalate_singleton, keyParts, hname.skipBlank_append, keyPart_name hname htail]
      dsimp only [bind, Except.bind]
      split
      · rename_i heq
        exact absurd heq (hpoint _)
      · rfl
    | cons next path =>
      have hrest := ih nofun (fun n hn => hbare n (List.mem_cons_of_mem _ hn))
        (Nat.le_of_succ_le_succ hlimit)
      have htext : (String.intercalate "." (name :: next :: path)).toList ++ tail =
          name.toList ++ '.' :: ((String.intercalate "." (next :: path)).toList ++ tail) := by
        simp [String.intercalate_cons_cons]
      rw [htext, keyParts, hname.skipBlank_append, keyPart_name hname (by simp; decide)]
      change (keyParts limit _ >>= fun r => .ok (name :: r.1, r.2)) = _
      rw [hrest]
      rfl

theorem exists_first_path (hpath : path ≠ []) (hbare : ∀ name ∈ path, IsBareName name) :
    ∃ c cs, (String.intercalate "." path).toList = c :: cs ∧ isBare c = true := by
  obtain ⟨name, path, rfl⟩ := List.exists_cons_of_ne_nil hpath
  obtain ⟨c, cs, hcons, hc⟩ := (hbare name List.mem_cons_self).exists_first
  cases path with
  | nil => exact ⟨c, cs, by rw [String.intercalate_singleton, hcons], hc⟩
  | cons next path =>
    refine ⟨c, cs ++ '.' :: (String.intercalate "." (next :: path)).toList, ?_, hc⟩
    simp [String.intercalate_cons_cons, hcons]

theorem key_path (hpath : path ≠ []) (hbare : ∀ name ∈ path, IsBareName name)
    (hlimit : path.length ≤ maxDepth) (htail : ∀ c ∈ tail.head?, isBare c = false)
    (hpoint : ∀ after, skipBlank tail ≠ '.' :: after) :
    key ((String.intercalate "." path).toList ++ tail) =
      .ok ((path.dropLast, path.getLastD ""), skipBlank tail) := by
  rw [key, keyParts_path hpath hbare hlimit htail hpoint]
  rfl

theorem header_path (hpath : path ≠ []) (hbare : ∀ name ∈ path, IsBareName name)
    (hlimit : path.length ≤ maxDepth) (rest : List Char) :
    header [']'] ((String.intercalate "." path).toList ++ ']' :: '\n' :: rest) =
      .ok ((path.dropLast, path.getLastD ""), rest) := by
  have hend : skipBlank (']' :: '\n' :: rest) = ']' :: '\n' :: rest := rfl
  rw [header, key_path hpath hbare hlimit (by simp; decide) (by simp [hend]), hend]
  rfl

theorem entry_render {v : Plain} (hname : IsBareName name) (hv : v.IsReadable) (fuel room : Nat)
    (rest : List Char) :
    entry (fuel + 2) room (name.toList ++ ' ' :: '=' :: ' ' :: (v.render.toList ++ '\n' :: rest)) =
      .ok (([], name, v.setting), '\n' :: rest) := by
  obtain ⟨c, cs, hfirst, hblank⟩ := exists_first_render v
  have hkey : key (name.toList ++ ' ' :: '=' :: ' ' :: (v.render.toList ++ '\n' :: rest)) =
      .ok (([], name), '=' :: ' ' :: (v.render.toList ++ '\n' :: rest)) := by
    have hlimit : [name].length ≤ maxDepth := by
      rw [List.length_singleton]
      decide
    have hbare : ∀ n ∈ [name], IsBareName n := by simpa using hname
    rw [← String.intercalate_singleton (s := ".") (t := name),
      key_path (List.cons_ne_nil _ _) hbare hlimit]
    · rfl
    · simp
      decide
    · rw [skipBlank_space]
      exact nofun
  have hvalue : skipBlank (' ' :: (v.render.toList ++ '\n' :: rest)) =
      v.render.toList ++ '\n' :: rest := by
    rw [skipBlank_space, hfirst, List.cons_append, skipBlank_cons hblank]
  rw [entry.eq_def]
  simp only [hkey, hvalue, value_render hv]

end Keys

/-! ## Lines -/

namespace Draft

/-- Starts the table of a header. -/
def begin? (draft : Draft) (path : List String) : Option Draft :=
  (draft.entries.define path.dropLast (path.getLastD "")).map fun entries =>
    { entries, header := path }

/-- Sets a key of the table that was started last. -/
def put? (draft : Draft) (entry : String × Plain) : Option Draft :=
  (draft.entries.within false (Entries.set [] entry.1 entry.2.setting) draft.header .defined).map
    fun entries => { draft with entries }

/-- Takes in a table. -/
def lay? (draft : Draft) (s : Section) : Option Draft :=
  (draft.begin? s.path).bind (s.entries.foldlM put? ·)

/-- Whether a reader that has one draft has the other one once it has read a text. -/
def Advances (text : List Char) (draft draft' : Draft) : Prop :=
  ∀ fuel rest, (text ++ rest).length < fuel →
    ∃ fuel', rest.length < fuel' ∧ lines fuel draft (text ++ rest) = lines fuel' draft' rest

variable {draft draft' draft'' : Draft} {text text' : List Char}

theorem advances_nil (draft : Draft) : Advances [] draft draft :=
  fun fuel _ hfuel => ⟨fuel, hfuel, rfl⟩

theorem Advances.append (h : Advances text draft draft') (h' : Advances text' draft' draft'') :
    Advances (text ++ text') draft draft'' := by
  intro fuel rest hfuel
  rw [List.append_assoc] at hfuel ⊢
  obtain ⟨fuel', hfuel', heq⟩ := h fuel (text' ++ rest) hfuel
  obtain ⟨fuel'', hfuel'', heq'⟩ := h' fuel' rest hfuel'
  exact ⟨fuel'', hfuel'', heq.trans heq'⟩

theorem advances_newline (draft : Draft) : Advances ['\n'] draft draft := by
  intro fuel rest hfuel
  obtain ⟨fuel, rfl⟩ : ∃ n, fuel = n + 1 := Nat.exists_eq_add_one.2 (Nat.zero_lt_of_lt hfuel)
  exact ⟨fuel, by simpa using hfuel, rfl⟩

/-- A line that starts with a character of its own is read as `line` says. -/
theorem advances_line {c : Char} (hblank : isBlank c = false) (hcomment : c ≠ '#')
    (hnewline : c ≠ '\n') (hreturn : c ≠ '\r')
    (h : ∀ rest, line draft (c :: text ++ rest) = .ok (draft', rest)) :
    Advances (c :: text) draft draft' := by
  intro fuel rest hfuel
  obtain ⟨fuel, rfl⟩ : ∃ n, fuel = n + 1 := Nat.exists_eq_add_one.2 (Nat.zero_lt_of_lt hfuel)
  refine ⟨fuel, ?_, ?_⟩
  · rw [List.cons_append, List.length_cons, List.length_append] at hfuel
    omega
  · have hend : newline? (c :: (text ++ rest)) = none := by
      rw [newline?.eq_3]
      · exact fun _ heq => hnewline (List.cons.inj heq).1
      · exact fun _ heq => hreturn (List.cons.inj heq).1
    have hline := h rest
    rw [List.cons_append] at hline ⊢
    rw [lines, skipBlank_cons hblank]
    dsimp only
    rw [if_neg hcomment, hend]
    dsimp only
    rw [hline]
    rfl

theorem advances_header {path : List String} (hpath : path ≠ [])
    (hbare : ∀ name ∈ path, IsBareName name) (hlimit : path.length ≤ maxDepth)
    (h : draft.begin? path = some draft') :
    Advances ('[' :: ((String.intercalate "." path).toList ++ [']', '\n'])) draft draft' := by
  obtain ⟨entries, hentries, rfl⟩ := Option.map_eq_some_iff.1 h
  refine advances_line (by decide) (by decide) (by decide) (by decide) fun rest => ?_
  have hheader := header_path hpath hbare hlimit rest
  have hfull : path.dropLast ++ [path.getLastD ""] = path := by
    rw [List.getLastD_eq_getLast?, List.getLast?_eq_some_getLast hpath, Option.getD_some,
      List.dropLast_append_getLast hpath]
  obtain ⟨c, cs, hcons, hc⟩ := exists_first_path hpath hbare
  have htext : '[' :: ((String.intercalate "." path).toList ++ [']', '\n']) ++ rest =
      '[' :: ((String.intercalate "." path).toList ++ ']' :: '\n' :: rest) := by simp
  have hsingle (after : List Char)
      (heq : (String.intercalate "." path).toList ++ ']' :: '\n' :: rest = '[' :: after) :
      False := by
    rw [hcons] at heq
    exact ne_of_isBare hc (by decide) (List.cons.inj heq).1
  rw [htext, line.eq_2 _ _ hsingle, hheader]
  change (changed (draft.entries.define path.dropLast (path.getLastD "")) _ >>= fun entries =>
    Except.ok (Draft.mk entries (path.dropLast ++ [path.getLastD ""]), rest)) = _
  rw [hentries, hfull]
  rfl

theorem advances_entry {name : String} {v : Plain} (hname : IsBareName name) (hv : v.IsReadable)
    (h : draft.put? (name, v) = some draft') :
    Advances (name.toList ++ (' ' :: '=' :: ' ' :: (v.render.toList ++ ['\n']))) draft draft' := by
  obtain ⟨entries, hentries, rfl⟩ := Option.map_eq_some_iff.1 h
  obtain ⟨c, cs, hcons, hc⟩ := hname.exists_first
  have hfirst {x : Char} (hx : isBare x = false) : c ≠ x := ne_of_isBare hc hx
  rw [hcons, List.cons_append]
  refine advances_line (isBlank_of_isBare hc) (hfirst (by decide)) (hfirst (by decide))
    (hfirst (by decide)) fun rest => ?_
  have htext : c :: (cs ++ ' ' :: '=' :: ' ' :: (v.render.toList ++ ['\n'])) ++ rest =
      name.toList ++ ' ' :: '=' :: ' ' :: (v.render.toList ++ '\n' :: rest) := by
    rw [hcons]
    simp
  have hheader (after : List Char) (heq : name.toList ++ ' ' :: '=' :: ' ' ::
      (v.render.toList ++ '\n' :: rest) = '[' :: after) : False := by
    rw [hcons] at heq
    exact hfirst (by decide) (List.cons.inj heq).1
  obtain ⟨fuel, hfuel⟩ : ∃ fuel, (name.toList ++ ' ' :: '=' :: ' ' ::
      (v.render.toList ++ '\n' :: rest)).length + 1 = fuel + 2 :=
    ⟨_, by rw [hcons, List.cons_append, List.length_cons]⟩
  rw [htext, line.eq_3 _ _ (fun _ => hheader _) hheader, hfuel, entry_render hname hv]
  change (changed (draft.entries.within false (Entries.set [] name v.setting) draft.header .defined)
    _ >>= fun entries => Except.ok (Draft.mk entries draft.header, rest)) = _
  rw [hentries]
  rfl

end Draft

/-! ## Documents -/

/-- Whether a table can be read back: its names need no quotes, and its numbers fit. -/
structure Section.IsReadable (s : Section) : Prop where
  path_ne : s.path ≠ []
  length_path : s.path.length ≤ maxDepth
  path : ∀ name ∈ s.path, IsBareName name
  names : ∀ name ∈ s.entries.map Prod.fst, IsBareName name
  values : ∀ v ∈ s.entries.map Prod.snd, v.IsReadable

namespace Draft

variable {draft draft' : Draft}

theorem advances_entries {entries : List (String × Plain)}
    (hnames : ∀ name ∈ entries.map Prod.fst, IsBareName name)
    (hvalues : ∀ v ∈ entries.map Prod.snd, v.IsReadable)
    (h : entries.foldlM put? draft = some draft') :
    Advances (String.join (entries.map fun (name, value) =>
      name ++ " = " ++ value.render ++ "\n")).toList draft draft' := by
  induction entries generalizing draft with
  | nil =>
    obtain rfl := Option.some.inj h
    exact advances_nil draft
  | cons entry entries ih =>
    obtain ⟨name, v⟩ := entry
    obtain ⟨between, hbetween, h⟩ := Option.bind_eq_some_iff.1 h
    have hentry := advances_entry (hnames _ List.mem_cons_self) (hvalues _ List.mem_cons_self)
      hbetween
    have hrest := ih (fun n hn => hnames n (List.mem_cons_of_mem _ hn))
      (fun v hv => hvalues v (List.mem_cons_of_mem _ hv)) h
    have htext : (String.join (((name, v) :: entries).map fun (name, value) =>
        name ++ " = " ++ value.render ++ "\n")).toList =
        (name.toList ++ (' ' :: '=' :: ' ' :: (v.render.toList ++ ['\n']))) ++
          (String.join (entries.map fun (name, value) =>
            name ++ " = " ++ value.render ++ "\n")).toList := by
      simp
    rw [htext]
    exact hentry.append hrest

theorem advances_section {s : Section} (hs : s.IsReadable) (h : draft.lay? s = some draft') :
    Advances s.render.toList draft draft' := by
  obtain ⟨started, hstarted, h⟩ := Option.bind_eq_some_iff.1 h
  have hheader := advances_header hs.path_ne hs.path hs.length_path hstarted
  have htext : s.render.toList = '[' :: ((String.intercalate "." s.path).toList ++ [']', '\n']) ++
      (String.join (s.entries.map fun (name, value) =>
        name ++ " = " ++ value.render ++ "\n")).toList := by
    simp [Section.render]
  rw [htext]
  exact hheader.append (advances_entries hs.names hs.values h)

/-- Tables with an empty line after each. -/
theorem advances_sections {sections : List Section} (hsections : ∀ s ∈ sections, s.IsReadable)
    (h : sections.foldlM lay? draft = some draft') :
    Advances (sections.flatMap fun s => s.render.toList ++ ['\n']) draft draft' := by
  induction sections generalizing draft with
  | nil =>
    obtain rfl := Option.some.inj h
    exact advances_nil draft
  | cons s sections ih =>
    obtain ⟨next, hnext, h⟩ := Option.bind_eq_some_iff.1 h
    rw [List.flatMap_cons]
    exact ((advances_section (hsections s List.mem_cons_self) hnext).append
      (advances_newline next)).append
      (ih (fun s hs => hsections s (List.mem_cons_of_mem _ hs)) h)

end Draft

theorem toList_render {sections : List Section} (hsections : sections ≠ []) :
    (render sections ++ "\n").toList = sections.flatMap fun s => s.render.toList ++ ['\n'] := by
  induction sections with
  | nil => exact absurd rfl hsections
  | cons s sections ih =>
    cases sections with
    | nil => simp [render]
    | cons next sections =>
      rw [List.flatMap_cons, ← ih nofun]
      simp [render]

/-- A document is read as the tables that its sections make. -/
theorem parse_render {sections : List Section} (hne : sections ≠ [])
    (hsections : ∀ s ∈ sections, s.IsReadable) {draft : Draft}
    (h : sections.foldlM Draft.lay? {} = some draft) :
    parse (render sections ++ "\n") = .ok (.table (Node.entriesToSettings draft.entries)) := by
  have hadvances := Draft.advances_sections hsections h
  rw [← toList_render hne] at hadvances
  have hmark : dropMark (render sections ++ "\n").toList = (render sections ++ "\n").toList := by
    obtain ⟨s, sections, rfl⟩ := List.exists_cons_of_ne_nil hne
    rw [toList_render hne, List.flatMap_cons, Section.render]
    simp [dropMark]
  obtain ⟨fuel, hfuel, hlines⟩ := hadvances ((render sections ++ "\n").toList.length + 1) []
    (by rw [List.append_nil]; exact Nat.lt_succ_self _)
  obtain ⟨fuel, rfl⟩ : ∃ n, fuel = n + 1 := Nat.exists_eq_add_one.2 hfuel
  rw [List.append_nil] at hlines
  rw [parse, hmark, hlines]
  rfl

end TrialBoard.Toml
