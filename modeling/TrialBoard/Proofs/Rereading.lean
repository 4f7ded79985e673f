import TrialBoard.Proofs.LenientReading

/-!
# What printed text is read as

A reader takes the text of a value for one value, or refuses it, whatever comes after the text. So
`Json.reread` can say what a text is read as, container by container. A string and an integer are
read as themselves. A real number may come out as a neighbour of itself, and what is nested too
deep is refused.
-/

namespace TrialBoard.Json

namespace Reading

variable {α β : Type}

/-- What was read, and what was left. -/
def value? : Reading α → Option (α × List Char)
  | ok value rest => some (value, rest)
  | fault _ => none

theorem value?_andThen (r : Reading α) (next : α → List Char → Reading β) :
    (r.andThen next).value? = r.value?.bind fun p => (next p.1 p.2).value? := by
  cases r <;> rfl

theorem value?_map (f : α → β) (r : Reading α) :
    (r.map f).value? = r.value?.map fun p => (f p.1, p.2) := by
  cases r <;> rfl

end Reading

/-! ## Strings -/

theorem hexFour?_hexDigits : ∀ n < 32, hexFour? '0' '0' (hexDigit (n / 16)) (hexDigit (n % 16)) =
    some n := by decide

theorem simpleEscape?_letter {letter c : Char} (h : (letter, c) ∈ shortEscapes) :
    letter ≠ 'u' ∧ simpleEscape? letter = some c := by
  simp only [shortEscapes, List.mem_cons, Prod.mk.injEq, List.not_mem_nil, or_false] at h
  rcases h with ⟨rfl, rfl⟩ | ⟨rfl, rfl⟩ | ⟨rfl, rfl⟩ | ⟨rfl, rfl⟩ | ⟨rfl, rfl⟩ | ⟨rfl, rfl⟩ |
    ⟨rfl, rfl⟩ <;> exact ⟨by decide, rfl⟩

theorem stringBody_escapeChar (seen : List Char) (c : Char) (cs : List Char) :
    stringBody seen (escapeChar c ++ cs) = stringBody (c :: seen) cs := by
  rcases escapeChar_cases c with ⟨hquote, hslash, hhigh, hc⟩ | ⟨letter, hletter, hc⟩ | ⟨hlow, hc⟩
  · rw [hc, List.singleton_append, stringBody.eq_6, if_neg hquote, if_neg (Nat.not_lt.2 hhigh)]
    · exact fun _ _ _ _ _ heq => absurd heq hslash
    · exact fun _ heq => absurd heq hslash
    · exact fun heq => absurd heq hslash
    · exact fun _ _ heq => absurd heq hslash
  · obtain ⟨hu, hescape⟩ := simpleEscape?_letter hletter
    rw [hc, List.cons_append, List.singleton_append, stringBody.eq_5, hescape]
    · exact fun _ _ _ _ _ heq => absurd heq hu
    · exact hu
  · have htrailing : isTrailing c.toNat = false := by
      unfold isTrailing
      rw [decide_eq_false (by omega), Bool.false_and]
    have hleading : isLeading c.toNat = false := by
      unfold isLeading
      rw [decide_eq_false (by omega), Bool.false_and]
    rw [hc]
    simp only [List.cons_append, List.nil_append]
    rw [stringBody.eq_2, hexFour?_hexDigits _ hlow]
    simp only [htrailing, hleading, Bool.false_eq_true, if_false, Char.ofNat_toNat]

/-- What stands between the quotes of a string is read as the string. -/
theorem stringBody_written (s : String) (rest : List Char) :
    stringBody [] (written s ++ '"' :: rest) = .ok s rest := by
  have hall : ∀ (cs seen : List Char), stringBody seen (cs.flatMap escapeChar ++ '"' :: rest) =
      .ok (String.ofList (seen.reverse ++ cs)) rest := by
    intro cs
    induction cs with
    | nil =>
      intro seen
      rw [List.flatMap_nil, List.nil_append, List.append_nil, stringBody.eq_6, if_pos rfl] <;> simp
    | cons c cs ih =>
      intro seen
      rw [List.flatMap_cons, List.append_assoc, stringBody_escapeChar, ih, List.reverse_cons,
        List.append_assoc, List.singleton_append]
  rw [written, hall, List.reverse_nil, List.nil_append, String.ofList_toList]

/-! ## Numbers -/

/-- Whether a reader takes characters for one value, or none, whatever comes after them. -/
def Settles {α : Type} (read : List Char → Reading α) (cs : List Char) : Prop :=
  ∃ value? : Option α, ∀ rest, Ends rest → (read (cs ++ rest)).value? = value?.map (·, rest)

section Digits

variable {ds tail : List Char}

theorem leadingDigits_append (hds : ∀ c ∈ ds, c.isDigit = true)
    (htail : ∀ c ∈ tail.head?, c.isDigit = false) :
    leadingDigits (ds ++ tail) = ds ∧ dropDigits (ds ++ tail) = tail := by
  have hspan := span_digits hds htail
  rw [List.span_eq_takeWhile_dropWhile] at hspan
  exact Prod.mk.inj hspan

/-- How many digits fit the significand does not depend on what comes after the digits. -/
theorem takeDigits_append (htail : ∀ c ∈ tail.head?, c.isDigit = false) (n k : Nat) :
    takeDigits n k (ds ++ tail) =
      ((takeDigits n k ds).1, (takeDigits n k ds).2.1, (takeDigits n k ds).2.2 ++ tail) := by
  induction ds generalizing n k with
  | nil =>
    cases tail with
    | nil => rfl
    | cons c tail =>
      have hc : c.isDigit = false := htail c rfl
      change takeDigits n k (c :: tail) = (n, k, c :: tail)
      rw [takeDigits, if_neg (by simp [hc])]
  | cons c ds ih =>
    rw [List.cons_append, takeDigits, takeDigits]
    split
    · exact ih _ _
    · rfl

theorem digits_takeDigits (hds : ∀ c ∈ ds, c.isDigit = true) (n k : Nat) :
    ∀ c ∈ (takeDigits n k ds).2.2, c.isDigit = true := by
  induction ds generalizing n k with
  | nil => exact nofun
  | cons c ds ih =>
    rw [takeDigits]
    split
    · exact ih (List.forall_mem_cons.1 hds).2 _ _
    · exact hds

/-- What is left of the digits of an exponent: nothing, or those after one too many. -/
theorem takeExponent_append (hds : ∀ c ∈ ds, c.isDigit = true)
    (htail : ∀ c ∈ tail.head?, c.isDigit = false) (n : Nat) :
    (∃ e, takeExponent n ds = .ok (e, []) ∧ takeExponent n (ds ++ tail) = .ok (e, tail)) ∨
      ∃ left, takeExponent n ds = .error left ∧ (∀ c ∈ left, c.isDigit = true) ∧
        takeExponent n (ds ++ tail) = .error (left ++ tail) := by
  induction ds generalizing n with
  | nil =>
    refine .inl ⟨n, rfl, ?_⟩
    cases tail with
    | nil => rfl
    | cons c tail =>
      have hc : c.isDigit = false := htail c rfl
      rw [List.nil_append, takeExponent, if_neg (by simp [hc])]
  | cons c ds ih =>
    obtain ⟨hc, hds⟩ := List.forall_mem_cons.1 hds
    rw [List.cons_append, takeExponent, takeExponent, if_pos hc, if_pos hc]
    split
    · exact ih hds _
    · exact .inr ⟨ds, rfl, hds, rfl⟩

end Digits

/-- The number of a significand and a power of ten, if it is not too large. -/
def scaled? (negative : Bool) (n : Nat) (e : Int) : Option JsonNumber :=
  (Binary64.ofScientific? n e).map fun x => .real (x.withSign negative)

theorem value?_scientific (negative : Bool) (n : Nat) (e : Int) (rest : List Char) :
    (scientific negative n e rest).value? = (scaled? negative n e).map (·, rest) := by
  unfold scientific scaled?
  cases Binary64.ofScientific? n e <;> rfl

theorem settles_exponentPart (negative : Bool) (n : Nat) (start : Int) {sign : Char}
    {ds : List Char} (hsign : sign = '+' ∨ sign = '-') (hds : IsWhole ds) :
    Settles (exponentPart negative n start) (sign :: ds) := by
  obtain ⟨d, ds, rfl⟩ := List.exists_cons_of_ne_nil hds.nonempty
  obtain ⟨hd, hdigits⟩ := List.forall_mem_cons.1 hds.digits
  have htaken : ∀ rest e rest', takeExponent (digitValue d) (ds ++ rest) = .ok (e, rest') →
      exponentPart negative n start (sign :: d :: ds ++ rest) =
        scientific negative n (if sign = '-' then start - e else start + e) rest' := by
    intro rest e rest' htake
    rcases hsign with rfl | rfl
    · simp only [exponentPart, List.cons_append, hd, if_true, htake]
      rfl
    · simp only [exponentPart, List.cons_append, hd, if_true, htake]
  have htooLarge : ∀ rest rest', takeExponent (digitValue d) (ds ++ rest) = .error rest' →
      exponentPart negative n start (sign :: d :: ds ++ rest) =
        if n ≠ 0 ∧ !decide (sign = '-') then faultAt .numberOutOfRange rest'
        else .ok (.real (Binary64.zero.withSign negative)) (dropDigits rest') := by
    intro rest rest' htake
    rcases hsign with rfl | rfl
    · simp only [exponentPart, List.cons_append, hd, if_true, htake]
      rfl
    · simp only [exponentPart, List.cons_append, hd, if_true, htake]
      rfl
  cases hexponent : takeExponent (digitValue d) ds with
  | ok p =>
    refine ⟨scaled? negative n (if sign = '-' then start - p.1 else start + p.1),
      fun rest hrest => ?_⟩
    obtain ⟨e, he, happend⟩ | ⟨left, he, -, -⟩ :=
      takeExponent_append hdigits hrest.head_not_digit (digitValue d)
    · rw [hexponent] at he
      obtain rfl := Except.ok.inj he
      rw [htaken rest _ _ happend]
      exact value?_scientific ..
    · rw [hexponent] at he
      cases he
  | error left =>
    refine ⟨if n ≠ 0 ∧ !decide (sign = '-') then none
      else some (.real (Binary64.zero.withSign negative)), fun rest hrest => ?_⟩
    obtain ⟨e, he, -⟩ | ⟨left', he, hleft, happend⟩ :=
      takeExponent_append hdigits hrest.head_not_digit (digitValue d)
    · rw [hexponent] at he
      cases he
    · rw [htooLarge rest _ happend]
      simp only [(leadingDigits_append hleft hrest.head_not_digit).2]
      split <;> rfl

theorem settles_optionalExponent (negative : Bool) (n : Nat) (e : Int)
    {exponent? : Option (Char × List Char)}
    (hexponent : ∀ e ∈ exponent?, (e.1 = '+' ∨ e.1 = '-') ∧ IsWhole e.2) :
    Settles (optionalExponent negative n e) (Numeral.exponentText exponent?) := by
  cases exponent? with
  | some exponent =>
    obtain ⟨hsign, hds⟩ := hexponent exponent rfl
    exact settles_exponentPart negative n e hsign hds
  | none =>
    refine ⟨scaled? negative n e, fun rest hrest => ?_⟩
    rw [Numeral.exponentText, List.nil_append]
    have hno : optionalExponent negative n e rest = scientific negative n e rest := by
      unfold optionalExponent
      split
      · exact absurd rfl (hrest.head_ne (by decide))
      · exact absurd rfl (hrest.head_ne (by decide))
      · rfl
    rw [hno]
    exact value?_scientific ..

theorem settles_fractionPart (negative : Bool) (n : Nat) (start : Int) {ds : List Char}
    (hds : ∀ c ∈ ds, c.isDigit = true) {exponent? : Option (Char × List Char)}
    (hexponent : ∀ e ∈ exponent?, (e.1 = '+' ∨ e.1 = '-') ∧ IsWhole e.2) :
    Settles (fractionPart negative n start) (ds ++ Numeral.exponentText exponent?) := by
  have htail : ∀ rest, Ends rest →
      ∀ c ∈ (Numeral.exponentText exponent? ++ rest).head?, c.isDigit = false := by
    intro rest hrest c hc
    rcases Numeral.head?_exponentText exponent? hrest c hc with rfl | rfl | rfl | rfl <;> decide
  by_cases hnil : ds = []
  · refine ⟨none, fun rest hrest => ?_⟩
    have hleading := (leadingDigits_append hds (htail rest hrest)).1
    rw [hnil, List.nil_append] at hleading ⊢
    unfold fractionPart
    rw [if_pos hleading]
    split <;> rfl
  · obtain ⟨value?, hvalue⟩ := settles_optionalExponent negative (takeDigits n 0 ds).1
      (start - (takeDigits n 0 ds).2.1) hexponent
    refine ⟨value?, fun rest hrest => ?_⟩
    have hleading := (leadingDigits_append hds (htail rest hrest)).1
    have hleft := digits_takeDigits hds n 0
    rw [← hvalue rest hrest, List.append_assoc]
    unfold fractionPart
    rw [if_neg (by rw [hleading]; exact hnil), takeDigits_append (htail rest hrest)]
    simp only [(leadingDigits_append hleft (htail rest hrest)).2]

theorem settles_afterWhole (negative : Bool) (n dropped : Nat) (m : Numeral) :
    Settles (afterWhole negative n dropped)
      (Numeral.fractionText m.fraction? ++ Numeral.exponentText m.exponent?) := by
  cases hfraction : m.fraction? with
  | some ds =>
    exact settles_fractionPart negative n dropped (m.fractionDigits ds hfraction) m.exponentDigits
  | none =>
    cases hexponent : m.exponent? with
    | some e =>
      obtain ⟨hsign, hds⟩ := m.exponentDigits e hexponent
      exact settles_exponentPart negative n dropped hsign hds
    | none =>
      refine ⟨if dropped = 0 then some (signedInteger negative n) else scaled? negative n dropped,
        fun rest hrest => ?_⟩
      have hno : afterWhole negative n dropped rest =
          if dropped = 0 then .ok (signedInteger negative n) rest
          else scientific negative n dropped rest := by
        unfold afterWhole
        split
        · exact absurd rfl (hrest.head_ne (by decide))
        · exact absurd rfl (hrest.head_ne (by decide))
        · exact absurd rfl (hrest.head_ne (by decide))
        · rfl
      change (afterWhole negative n dropped rest).value? = _
      rw [hno]
      split
      · rfl
      · exact value?_scientific ..

theorem afterWhole_head_not_digit (m : Numeral) {rest : List Char} (h : Ends rest) :
    ∀ c ∈ (Numeral.fractionText m.fraction? ++ (Numeral.exponentText m.exponent? ++ rest)).head?,
      c.isDigit = false := by
  intro c hc
  rcases Numeral.head?_fractionText _ _ h c hc with rfl | rfl | rfl | rfl | rfl <;> decide

/-- The text of a numeral is taken for one number, or none. -/
theorem settles_unsignedNumber (negative : Bool) (m : Numeral) :
    Settles (unsignedNumber negative) m.text := by
  obtain ⟨d, ds, hwhole⟩ := List.exists_cons_of_ne_nil m.isWhole.nonempty
  have hdigits := m.isWhole.digits
  rw [hwhole] at hdigits
  obtain ⟨hd, hds⟩ := List.forall_mem_cons.1 hdigits
  by_cases hzero : d = '0'
  · have hlength := m.isWhole.leading (by rw [hwhole, hzero]; rfl)
    obtain rfl : ds = [] := by simpa [hwhole] using hlength
    obtain ⟨value?, hvalue⟩ := settles_afterWhole negative 0 0 m
    refine ⟨value?, fun rest hrest => ?_⟩
    have hnone : ∀ c ∈ ([] : List Char), c.isDigit = true := by simp
    have hleading := (leadingDigits_append hnone (afterWhole_head_not_digit m hrest)).1
    rw [List.nil_append] at hleading
    rw [← hvalue rest hrest, Numeral.text, hwhole, List.append_assoc, List.append_assoc,
      List.singleton_append, unsignedNumber, if_pos hzero, if_pos hleading]
  · obtain ⟨value?, hvalue⟩ := settles_afterWhole negative (takeDigits (digitValue d) 0 ds).1
      (takeDigits (digitValue d) 0 ds).2.2.length m
    refine ⟨value?, fun rest hrest => ?_⟩
    have htail := afterWhole_head_not_digit m hrest
    have hleft := leadingDigits_append (digits_takeDigits hds (digitValue d) 0) htail
    rw [← hvalue rest hrest, Numeral.text, hwhole, List.append_assoc, List.append_assoc,
      List.cons_append, unsignedNumber, if_neg hzero, if_pos hd, takeDigits_append htail]
    simp only [hleft.1, hleft.2]

theorem digit_ne {d : Char} (hd : d.isDigit = true) :
    d ≠ 'n' ∧ d ≠ 't' ∧ d ≠ 'f' ∧ d ≠ '-' := by
  refine ⟨?_, ?_, ?_, ?_⟩ <;> (rintro rfl; exact absurd hd (by decide))

theorem scalar_numeral (negative : Bool) (m : Numeral) (rest : List Char) :
    scalar (signText negative ++ m.text ++ rest) =
      (unsignedNumber negative (m.text ++ rest)).map .number := by
  cases negative with
  | true => rfl
  | false =>
    obtain ⟨d, cs, hd, htext⟩ := m.exists_digit_text
    obtain ⟨hn, ht, hf, hminus⟩ := digit_ne hd
    rw [signText, if_neg Bool.false_ne_true, List.nil_append, htext, List.cons_append, scalar,
      if_neg hn, if_neg ht, if_neg hf, if_neg hminus, if_pos hd]

/-! ## Values -/

theorem settles_scalar {v : Json} (hv : v.IsScalar) : Settles scalar v.text := by
  cases v with
  | null => exact ⟨some .null, fun rest _ => rfl⟩
  | bool b => exact ⟨some (.bool b), fun rest _ => by cases b <;> rfl⟩
  | string s =>
    refine ⟨some (.string s), fun rest _ => ?_⟩
    rw [text, stringText_append]
    change ((stringBody [] (written s ++ '"' :: rest)).map Json.string).value? = _
    rw [stringBody_written]
    rfl
  | number n =>
    obtain ⟨negative, m, htext⟩ := exists_numeral_text n
    obtain ⟨value?, hvalue⟩ := settles_unsignedNumber negative m
    refine ⟨value?.map .number, fun rest hrest => ?_⟩
    rw [text, htext, scalar_numeral, Reading.value?_map, hvalue rest hrest, Option.map_map,
      Option.map_map]
    rfl
  | array | object => exact hv.elim

theorem skipBlank_of_begins {c : Char} (h : Begins c) (cs : List Char) :
    skipBlank (c :: cs) = c :: cs := by
  have hblank : isBlank c = false := by
    rw [Bool.eq_false_iff]
    intro hblank
    simp only [isBlank, Bool.or_eq_true, beq_iff_eq] at hblank
    rcases hblank with ((rfl | rfl) | rfl) | rfl <;> exact absurd h.notSpace (by decide)
  rw [skipBlank, List.dropWhile_cons_of_neg (by rw [hblank]; exact Bool.false_ne_true)]

theorem skipBlank_text (v : Json) (rest : List Char) :
    skipBlank (v.text ++ rest) = v.text ++ rest := by
  obtain ⟨c, cs, htext, hc, -⟩ := exists_first_text v
  rw [htext, List.cons_append, skipBlank_of_begins hc]

theorem raw_of_scalar {v : Json} (hv : v.IsScalar) (room : Nat) (rest : List Char) :
    raw room (v.text ++ rest) = scalar (v.text ++ rest) := by
  have hskip := skipBlank_text v rest
  obtain ⟨c, cs, htext, hc, hother⟩ := exists_first_text v
  rw [htext, List.cons_append] at hskip ⊢
  unfold raw
  rw [hskip]
  split
  · exact absurd (List.cons.inj ‹_›).1 (hother hv).1
  · exact absurd (List.cons.inj ‹_›).1 (hother hv).2
  · rfl

/-- What the text of a value is read as by a reader with so much room. -/
def reread (room : Nat) (v : Json) : Option Json := (raw room v.text).value?.map Prod.fst

section Containers

variable {room : Nat} (hraw : ∀ v : Json, Settles (raw room) v.text)

theorem Settles.append {α : Type} {read : List Char → Reading α} {cs rest : List Char}
    (h : Settles read cs) (hrest : Ends rest) :
    (read (cs ++ rest)).value? = ((read cs).value?.map Prod.fst).map (·, rest) := by
  obtain ⟨value?, hvalue⟩ := h
  have halone := hvalue [] ends_nil
  rw [List.append_nil] at halone
  rw [hvalue rest hrest, halone, Option.map_map, Option.map_map]
  rfl

theorem closeList_close (rest : List Char) : closeList (']' :: rest) = .ok () rest := rfl

theorem closeObject_close (rest : List Char) : closeObject ('\x7d' :: rest) = .ok () rest := rfl

theorem nextItem_true (v : Json) (rest : List Char) :
    nextItem true (v.text ++ rest) = .ok true (v.text ++ rest) := by
  have hskip := skipBlank_text v rest
  obtain ⟨c, cs, htext, hc, -⟩ := exists_first_text v
  rw [htext, List.cons_append] at hskip ⊢
  unfold nextItem
  rw [hskip]
  split
  · exact absurd ‹_› (List.cons_ne_nil _ _)
  · exact absurd (List.cons.inj ‹_›).1 hc.notBracket
  · rename_i heq
    rw [if_pos rfl, heq]

theorem nextItem_false (v : Json) (rest : List Char) :
    nextItem false (',' :: (v.text ++ rest)) = .ok true (v.text ++ rest) := by
  have hskip := skipBlank_text v rest
  obtain ⟨c, cs, htext, hc, -⟩ := exists_first_text v
  have hcomma : ∀ cs, skipBlank (',' :: cs) = ',' :: cs := fun _ => rfl
  rw [htext, List.cons_append] at hskip ⊢
  unfold nextItem
  rw [hcomma]
  split
  · exact absurd ‹_› (List.cons_ne_nil _ _)
  · exact absurd (List.cons.inj ‹_›).1 (by decide)
  · obtain ⟨rfl, rfl⟩ := List.cons.inj ‹_›
    rw [if_neg Bool.false_ne_true, if_pos rfl, hskip]
    split
    · exact absurd ‹_› (List.cons_ne_nil _ _)
    · exact absurd (List.cons.inj ‹_›).1 hc.notBracket
    · rfl

theorem nextKey_true (key : String) (rest : List Char) :
    nextKey true (stringText key ++ rest) = .ok (some key) rest := by
  rw [stringText_append]
  change (stringBody [] (written key ++ '"' :: rest)).map some = _
  rw [stringBody_written, Reading.map_ok]

theorem nextKey_false (key : String) (rest : List Char) :
    nextKey false (',' :: (stringText key ++ rest)) = .ok (some key) rest := by
  rw [stringText_append]
  change (stringBody [] (written key ++ '"' :: rest)).map some = _
  rw [stringBody_written, Reading.map_ok]

/-- The reader of the next key finds the first member of those that are printed. -/
theorem nextKey_membersText (first : Bool) (key : String) (v : Json) (ms : List (String × Json))
    (rest : List Char) :
    nextKey first (membersText first ((key, v) :: ms) ++ '\x7d' :: rest) =
      .ok (some key) (':' :: (v.text ++ (membersText false ms ++ '\x7d' :: rest))) := by
  cases first with
  | true =>
    rw [membersText_true, List.append_assoc, List.cons_append, List.append_assoc, nextKey_true]
  | false =>
    rw [membersText_false, membersText_true, List.cons_append, List.append_assoc,
      List.cons_append, List.append_assoc, nextKey_false]

theorem ends_itemsText (items : List Json) (rest : List Char) :
    Ends (itemsText false items ++ ']' :: rest) := by
  cases items with
  | nil => exact ends_cons (.inr (.inl rfl)) rest
  | cons item items =>
    rw [itemsText_false]
    exact ends_cons (.inl rfl) _

theorem ends_membersText (members : List (String × Json)) (rest : List Char) :
    Ends (membersText false members ++ '\x7d' :: rest) := by
  cases members with
  | nil => exact ends_cons (.inr (.inr rfl)) rest
  | cons m members =>
    rw [membersText_false]
    exact ends_cons (.inl rfl) _

/-- The items of a printed array, each read by a reader that settles its text. -/
theorem items_text {α : Type} {item : List Char → Reading α} (vs : List Json)
    (hitem : ∀ v ∈ vs, Settles item v.text) (first : Bool) (rest : List Char) {fuel : Nat}
    (hfuel : vs.length < fuel) :
    (items item fuel first (itemsText first vs ++ ']' :: rest)).value? =
      (vs.mapM fun v => (item v.text).value?.map Prod.fst).map (·, ']' :: rest) := by
  induction vs generalizing first fuel with
  | nil =>
    obtain ⟨fuel, rfl⟩ : ∃ n, fuel = n + 1 := ⟨fuel - 1, by omega⟩
    rfl
  | cons v vs ih =>
    obtain ⟨hv, hvs⟩ := List.forall_mem_cons.1 hitem
    rw [List.length_cons] at hfuel
    obtain ⟨fuel, rfl⟩ : ∃ n, fuel = n + 1 := ⟨fuel - 1, by omega⟩
    have hnext : nextItem first (itemsText first (v :: vs) ++ ']' :: rest) =
        .ok true (v.text ++ (itemsText false vs ++ ']' :: rest)) := by
      cases first with
      | true => rw [itemsText_true, List.append_assoc, nextItem_true]
      | false =>
        rw [itemsText_false, itemsText_true, List.cons_append, List.append_assoc, nextItem_false]
    rw [items, hnext, Reading.andThen_ok, if_pos rfl, Reading.value?_andThen,
      hv.append (ends_itemsText vs rest), List.mapM_cons]
    cases hread : (item v.text).value?.map Prod.fst with
    | none => rfl
    | some w =>
      simp only [Option.map_some, Option.bind_some, Reading.value?_map,
        ih hvs false (Nat.lt_of_succ_lt_succ hfuel)]
      cases vs.mapM fun v => (item v.text).value?.map Prod.fst <;> rfl

include hraw

theorem members_text (ms : List (String × Json)) (first : Bool) (rest : List Char) {fuel : Nat}
    (hfuel : ms.length < fuel) :
    (members (raw room) fuel first (membersText first ms ++ '\x7d' :: rest)).value? =
      (ms.mapM fun m => (reread room m.2).map (m.1, ·)).map (·, '\x7d' :: rest) := by
  induction ms generalizing first fuel with
  | nil =>
    obtain ⟨fuel, rfl⟩ : ∃ n, fuel = n + 1 := ⟨fuel - 1, by omega⟩
    rfl
  | cons m ms ih =>
    obtain ⟨key, v⟩ := m
    rw [List.length_cons] at hfuel
    obtain ⟨fuel, rfl⟩ : ∃ n, fuel = n + 1 := ⟨fuel - 1, by omega⟩
    rw [members, nextKey_membersText, Reading.andThen_ok]
    change ((raw room _).andThen _).value? = _
    rw [Reading.value?_andThen, (hraw v).append (ends_membersText ms rest), List.mapM_cons]
    change ((reread room v).map _).bind _ = _
    cases hv : reread room v with
    | none => rfl
    | some w =>
      simp only [Option.map_some, Option.bind_some, Reading.value?_map,
        ih false (Nat.lt_of_succ_lt_succ hfuel)]
      cases ms.mapM fun m => (reread room m.2).map (m.1, ·) <;> rfl

end Containers

theorem length_le_itemsText (items : List Json) (first : Bool) :
    items.length ≤ (itemsText first items).length := by
  induction items generalizing first with
  | nil => exact Nat.le_refl _
  | cons item items ih =>
    obtain ⟨c, cs, htext, -⟩ := exists_first_text item
    have hitems := ih false
    rw [itemsText, htext, List.length_append, List.length_append, List.length_cons,
      List.length_cons]
    omega

theorem length_le_membersText (members : List (String × Json)) (first : Bool) :
    members.length ≤ (membersText first members).length := by
  induction members generalizing first with
  | nil => exact Nat.le_refl _
  | cons m members ih =>
    obtain ⟨key, value⟩ := m
    have hmembers := ih false
    rw [membersText, List.length_append, List.length_append, List.length_cons, List.length_cons]
    omega

theorem value?_enclosed {α : Type} {close : List Char → Reading Unit} (past : List Char → List Char)
    {contents : Reading α} {value? : Option α} {mid rest : List Char}
    (hclose : close mid = .ok () rest) (hcontents : contents.value? = value?.map (·, mid)) :
    (enclosed close past contents).value? = value?.map (·, rest) := by
  cases contents with
  | ok value mid' =>
    cases value? with
    | none => cases hcontents
    | some value' =>
      obtain ⟨rfl, rfl⟩ := Prod.mk.inj (Option.some.inj hcontents)
      rw [enclosed, hclose]
      rfl
  | fault f =>
    cases value? with
    | none => rfl
    | some value' => cases hcontents

theorem text_array_append (vs : List Json) (rest : List Char) :
    (array vs).text ++ rest = '[' :: (itemsText true vs ++ ']' :: rest) := by
  rw [text, List.cons_append, List.cons_append, List.append_assoc, List.singleton_append]

theorem text_object_append (ms : List (String × Json)) (rest : List Char) :
    (object ms).text ++ rest = '\x7b' :: (membersText true ms ++ '\x7d' :: rest) := by
  rw [text, List.cons_append, List.cons_append, List.append_assoc, List.singleton_append]

theorem settles_raw_scalar {v : Json} (hv : v.IsScalar) (room : Nat) :
    Settles (raw room) v.text := by
  obtain ⟨value?, hvalue⟩ := settles_scalar hv
  refine ⟨value?, fun rest hrest => ?_⟩
  rw [raw_of_scalar hv, hvalue rest hrest]

section Containers

variable {room : Nat} (hraw : ∀ v : Json, Settles (raw room) v.text)

include hraw

theorem value?_raw_array (vs : List Json) (rest : List Char) :
    (raw (room + 1) ((array vs).text ++ rest)).value? =
      ((vs.mapM (reread room)).map array).map (·, rest) := by
  have hlength := length_le_itemsText vs true
  have hfuel : vs.length < (itemsText true vs ++ ']' :: rest).length + 1 := by
    rw [List.length_append]
    omega
  have hitems := items_text vs (fun v _ => hraw v) true rest hfuel
  rw [text_array_append]
  unfold raw
  change ((enclosed closeList pastList _).map array).value? = _
  rw [Reading.value?_map, value?_enclosed pastList (closeList_close rest) hitems, Option.map_map,
    Option.map_map]
  rfl

theorem value?_raw_object (ms : List (String × Json)) (rest : List Char) :
    (raw (room + 1) ((object ms).text ++ rest)).value? =
      ((ms.mapM fun m => (reread room m.2).map (m.1, ·)).map object).map (·, rest) := by
  have hlength := length_le_membersText ms true
  have hfuel : ms.length < (membersText true ms ++ '\x7d' :: rest).length + 1 := by
    rw [List.length_append]
    omega
  have hmembers := members_text hraw ms true rest hfuel
  rw [text_object_append]
  unfold raw
  change ((enclosed closeObject pastObject _).map object).value? = _
  rw [Reading.value?_map, value?_enclosed pastObject (closeObject_close rest) hmembers,
    Option.map_map, Option.map_map]
  rfl

end Containers

/-- The text of a value is taken for one value, or none, whatever comes after it. -/
theorem settles_raw (room : Nat) (v : Json) : Settles (raw room) v.text := by
  induction room generalizing v with
  | zero =>
    cases v with
    | array items => exact ⟨none, fun rest _ => rfl⟩
    | object members => exact ⟨none, fun rest _ => rfl⟩
    | null | bool | number | string => exact settles_raw_scalar (by trivial) 0
  | succ room ih =>
    cases v with
    | array items => exact ⟨_, fun rest _ => value?_raw_array ih items rest⟩
    | object members => exact ⟨_, fun rest _ => value?_raw_object ih members rest⟩
    | null | bool | number | string => exact settles_raw_scalar (by trivial) _

/-! ## What a text is read as -/

variable {room : Nat}

theorem reread_array (items : List Json) :
    reread (room + 1) (array items) = (items.mapM (reread room)).map array := by
  have hread := value?_raw_array (settles_raw room) items []
  rw [List.append_nil] at hread
  rw [reread, hread, Option.map_map]
  exact Option.map_id'

theorem reread_object (members : List (String × Json)) :
    reread (room + 1) (object members) =
      (members.mapM fun m => (reread room m.2).map (m.1, ·)).map object := by
  have hread := value?_raw_object (settles_raw room) members []
  rw [List.append_nil] at hread
  rw [reread, hread, Option.map_map]
  exact Option.map_id'

theorem reread_of_scalar {v : Json} (hv : v.IsScalar) (room : Nat) :
    reread room v = (scalar v.text).value?.map Prod.fst := by
  have hraw := raw_of_scalar hv room []
  rw [List.append_nil] at hraw
  rw [reread, hraw]

theorem reread_string (room : Nat) (s : String) : reread room (string s) = some (string s) := by
  rw [reread_of_scalar (by trivial), text, ← List.append_nil (stringText s), stringText_append]
  change ((stringBody [] (written s ++ ['"'])).map Json.string).value?.map Prod.fst = _
  rw [stringBody_written]
  rfl

/-- A number is read as a number, if it is not too large, and always as the same one. -/
theorem reread_number (n : JsonNumber) :
    ∃ value? : Option JsonNumber, ∀ room, reread room (number n) = value?.map number := by
  obtain ⟨negative, m, htext⟩ := exists_numeral_text n
  have hread := scalar_numeral negative m []
  rw [List.append_nil, List.append_nil] at hread
  refine ⟨(unsignedNumber negative m.text).value?.map Prod.fst, fun room => ?_⟩
  rw [reread_of_scalar (by trivial), text, htext, hread, Reading.value?_map, Option.map_map,
    Option.map_map]
  rfl

/-! ## Integers -/

theorem le_ofDigitChars (ds : List Char) (n : Nat) : n ≤ Nat.ofDigitChars 10 ds n := by
  induction ds generalizing n with
  | nil => exact Nat.le_refl n
  | cons c ds ih =>
    rw [Nat.ofDigitChars_cons]
    have hle := ih (10 * n + (c.toNat - '0'.toNat))
    omega

/-- The digits of a number that fits the significand are all taken. -/
theorem takeDigits_of_lt {ds : List Char} (hds : ∀ c ∈ ds, c.isDigit = true) {n : Nat}
    (hlt : Nat.ofDigitChars 10 ds n < 0x10000000000000000) (k : Nat) :
    takeDigits n k ds = (Nat.ofDigitChars 10 ds n, k + ds.length, []) := by
  induction ds generalizing n k with
  | nil => rfl
  | cons c ds ih =>
    obtain ⟨hc, hds⟩ := List.forall_mem_cons.1 hds
    rw [Nat.ofDigitChars_cons] at hlt ⊢
    have hle := le_ofDigitChars ds (10 * n + (c.toNat - '0'.toNat))
    have hstep : n * 10 + digitValue c = 10 * n + (c.toNat - '0'.toNat) := by
      rw [digitValue, Nat.mul_comm]
    rw [takeDigits, hstep, if_pos ⟨hc, by omega⟩, ih hds hlt, List.length_cons]
    congr 2
    omega

theorem unsignedNumber_toDigits (negative : Bool) {n : Nat} (hn : n < 0x10000000000000000) :
    unsignedNumber negative (Nat.toDigits 10 n) = .ok (signedInteger negative n) [] := by
  have hvalue : Nat.ofDigitChars 10 (Nat.toDigits 10 n) 0 = n :=
    Nat.ofDigitChars_toDigits (by decide) (by decide)
  have hwhole := isWhole_toDigits n
  generalize Nat.toDigits 10 n = ds at hvalue hwhole
  obtain ⟨d, ds, rfl⟩ := List.exists_cons_of_ne_nil hwhole.nonempty
  obtain ⟨hd, hds⟩ := List.forall_mem_cons.1 hwhole.digits
  rw [Nat.ofDigitChars_cons, Nat.mul_zero, Nat.zero_add] at hvalue
  by_cases hzero : d = '0'
  · have hlength := hwhole.leading (by rw [hzero]; rfl)
    obtain rfl : ds = [] := by simpa using hlength
    rw [hzero] at hvalue ⊢
    obtain rfl : 0 = n := hvalue
    rfl
  · change Nat.ofDigitChars 10 ds (digitValue d) = n at hvalue
    have htake := takeDigits_of_lt hds (n := digitValue d) (hvalue ▸ hn) 0
    rw [unsignedNumber, if_neg hzero, if_pos hd, htake, hvalue]
    rfl

theorem reread_of_digits {m : JsonNumber} {negative : Bool} {n : Nat}
    (htext : m.text = signText negative ++ (Numeral.ofNat n).text) (hn : n < 0x10000000000000000)
    (room : Nat) : reread room (number m) = some (number (signedInteger negative n)) := by
  have hnumeral := scalar_numeral negative (Numeral.ofNat n) []
  rw [List.append_nil, List.append_nil, Numeral.text_ofNat,
    unsignedNumber_toDigits negative hn] at hnumeral
  rw [reread_of_scalar (by trivial), text, htext, Numeral.text_ofNat, hnumeral]
  rfl

theorem ofNat_of_fitsWord {n : Nat} (h : FitsWord n) : JsonNumber.ofNat n = .integer n h :=
  dif_pos h

theorem signedInteger_false (n : Nat) : signedInteger false n = .ofNat n :=
  if_neg Bool.false_ne_true

theorem signedInteger_true {n : Nat} (hn : n ≠ 0) (h : FitsWord (-(n : Int))) :
    signedInteger true n = .integer (-(n : Int)) h := by
  rw [signedInteger, if_pos rfl, dif_pos h, if_neg hn]

/-- An integer is read as itself. -/
theorem reread_integer (value : Int) (h : FitsWord value) (room : Nat) :
    reread room (number (.integer value h)) = some (number (.integer value h)) := by
  have htext := text_integer_eq value h
  cases value with
  | ofNat n =>
    have hhigh : (n : Int) < 0x10000000000000000 := h.2
    have hsign : decide (Int.ofNat n < 0) = false :=
      decide_eq_false (Int.not_lt.2 (Int.natCast_nonneg n))
    rw [hsign] at htext
    rw [reread_of_digits htext (show n < _ by omega), signedInteger_false]
    exact congrArg (some ∘ number) (ofNat_of_fitsWord h)
  | negSucc n =>
    have hlow : -0x8000000000000000 ≤ Int.negSucc n := h.1
    have hsign : decide (Int.negSucc n < 0) = true := decide_eq_true (Int.negSucc_lt_zero n)
    rw [hsign] at htext
    rw [reread_of_digits htext (show n + 1 < _ by omega)]
    exact congrArg (some ∘ number) (signedInteger_true (Nat.succ_ne_zero n) h)

end TrialBoard.Json
