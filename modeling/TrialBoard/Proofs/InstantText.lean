import TrialBoard.Proofs.Calendar
import TrialBoard.Proofs.Failure
import TrialBoard.Proofs.PrintedText
import TrialBoard.Time.Reader

/-!
# The text of an instant

A text can tell an instant in many ways: in any time zone, with white space, with more digits than
needed. The text of the instant that was read is read as that instant, in every year of the
calendar and inside leap seconds.
-/

namespace TrialBoard.Instant

/-! ## Digits -/

theorem toList_padded (width n : Nat) : (padded width n).toList =
    List.replicate (width - (Nat.toDigits 10 n).length) '0' ++ Nat.toDigits 10 n := by
  simp only [padded, String.toList_append, String.toList_ofList, Nat.toList_repr,
    ← String.length_toList]

theorem digits_padded (width n : Nat) : ∀ c ∈ (padded width n).toList, c.isDigit = true := by
  rw [toList_padded]
  exact Decimal.digits_append (Decimal.digits_replicate _) (digits_toDigits n)

theorem length_padded {width n : Nat} (hwidth : 0 < width) (h : n < 10 ^ width) :
    (padded width n).toList.length = width := by
  have hle := (Nat.length_toDigits_le_iff (b := 10) (by decide) hwidth).2 h
  rw [toList_padded, List.length_append, List.length_replicate]
  omega

theorem ofDigitChars_padded (width n : Nat) :
    Nat.ofDigitChars 10 (padded width n).toList 0 = n := by
  have hzeros (k : Nat) : Nat.ofDigitChars 10 (List.replicate k '0') 0 = 0 := by
    induction k with
    | zero => rfl
    | succ k ih => rwa [List.replicate_succ, Nat.ofDigitChars_cons]
  rw [toList_padded, Nat.ofDigitChars_append, hzeros]
  exact Nat.ofDigitChars_toDigits (by decide) (by decide)

theorem exists_cons_padded (width n : Nat) :
    ∃ d ds, d.isDigit = true ∧ (padded width n).toList = d :: ds := by
  have hnil : (padded width n).toList ≠ [] := by
    rw [toList_padded]
    exact List.append_ne_nil_of_right_ne_nil _ Nat.toDigits_ne_nil
  obtain ⟨d, ds, hcons⟩ := List.exists_cons_of_ne_nil hnil
  exact ⟨d, ds, digits_padded width n d (by simp [hcons]), hcons⟩

theorem isWhiteSpace_of_digit {d : Char} (h : d.isDigit = true) : Text.isWhiteSpace d = false := by
  simp only [Char.isDigit, Bool.and_eq_true, decide_eq_true_eq, UInt32.le_iff_toNat_le] at h
  have hlow : 48 ≤ d.toNat := h.1
  have hhigh : d.toNat ≤ 57 := h.2
  simp only [Text.isWhiteSpace, Bool.or_eq_false_iff, Bool.and_eq_false_iff, decide_eq_false_iff_not,
    beq_eq_false_iff_ne]
  omega

theorem trimStart_of_not {c : Char} (h : Text.isWhiteSpace c = false) (cs : List Char) :
    Text.trimStart (c :: cs) = c :: cs :=
  List.dropWhile_cons_of_neg (by simp [h])

theorem trimStart_padded (width n : Nat) (rest : List Char) :
    Text.trimStart ((padded width n).toList ++ rest) = (padded width n).toList ++ rest := by
  obtain ⟨d, ds, hd, hcons⟩ := exists_cons_padded width n
  rw [hcons, List.cons_append, trimStart_of_not (isWhiteSpace_of_digit hd)]

section Digits

variable {rest : List Char}

theorem takeNumber_digits {ds : List Char} (hds : ∀ c ∈ ds, c.isDigit = true)
    (hrest : ∀ c ∈ rest.head?, c.isDigit = false) {width : Nat} (hwidth : ds.length ≤ width)
    (acc : Nat) : takeNumber acc width (ds ++ rest) = (Nat.ofDigitChars 10 ds acc, rest) := by
  induction ds generalizing width acc with
  | nil =>
    cases width with
    | zero => rfl
    | succ width =>
      cases rest with
      | nil => rfl
      | cons c rest =>
        have hc : c.isDigit = false := hrest c rfl
        rw [List.nil_append, takeNumber, if_neg (by simp [hc])]
        rfl
  | cons c ds ih =>
    obtain ⟨hc, hds⟩ := List.forall_mem_cons.1 hds
    obtain ⟨width, rfl⟩ : ∃ n, width = n + 1 := ⟨width - 1, by simp at hwidth; omega⟩
    rw [List.cons_append, takeNumber, if_pos hc, ih hds (by simpa using hwidth),
      Nat.ofDigitChars_cons, Nat.mul_comm]

theorem number_padded {width n room : Nat} (hwidth : (padded width n).toList.length ≤ room)
    (hn : n < 0x8000000000000000) (hrest : ∀ c ∈ rest.head?, c.isDigit = false) :
    number room ((padded width n).toList ++ rest) = .ok (n, rest) := by
  have htake := takeNumber_digits (digits_padded width n) hrest hwidth 0
  rw [ofDigitChars_padded] at htake
  obtain ⟨d, ds, hd, hcons⟩ := exists_cons_padded width n
  rw [hcons, List.cons_append] at htake ⊢
  simp only [number, hd, if_true, htake, hn]

theorem numberIn_padded {low high n : Nat} (hlow : low ≤ n) (hhigh : n ≤ high) (hn : n < 100)
    (hrest : ∀ c ∈ rest.head?, c.isDigit = false) :
    numberIn low high ((padded 2 n).toList ++ rest) = .ok (n, rest) := by
  have hlength : (padded 2 n).toList.length = 2 := length_padded (by decide) hn
  rw [numberIn, trimStart_padded, number_padded hlength.le (by omega) hrest]
  simp only [bind, Except.bind, pure, Except.pure, hlow, hhigh, and_self, if_true]

end Digits

/-! ## The parts of the text -/

theorem isWhiteSpace_minus : Text.isWhiteSpace '-' = false := by decide

theorem isWhiteSpace_plus : Text.isWhiteSpace '+' = false := by decide

theorem isWhiteSpace_colon : Text.isWhiteSpace ':' = false := by decide

theorem isWhiteSpace_zone : Text.isWhiteSpace 'Z' = false := by decide

section Years

variable {digits rest : List Char} {n : Nat}

theorem readYear_minus (h : number digits.length digits = .ok (n, rest))
    (hfits : -0x80000000 ≤ -(n : Int) ∧ -(n : Int) < 0x80000000) :
    readYear ('-' :: digits) = .ok (-n, rest) := by
  unfold readYear
  rw [trimStart_of_not isWhiteSpace_minus]
  simp only [h]
  rw [bind_ok, pure_bind, if_pos hfits]
  rfl

theorem readYear_plus (h : number digits.length digits = .ok (n, rest))
    (hfits : -0x80000000 ≤ (n : Int) ∧ (n : Int) < 0x80000000) :
    readYear ('+' :: digits) = .ok (n, rest) := by
  unfold readYear
  rw [trimStart_of_not isWhiteSpace_plus]
  simp only [h]
  rw [bind_ok, pure_bind, if_pos hfits]
  rfl

theorem readYear_digit {d : Char} (hd : d.isDigit = true)
    (h : number 4 (d :: digits) = .ok (n, rest))
    (hfits : -0x80000000 ≤ (n : Int) ∧ (n : Int) < 0x80000000) :
    readYear (d :: digits) = .ok (n, rest) := by
  unfold readYear
  rw [trimStart_of_not (isWhiteSpace_of_digit hd)]
  split
  · rename_i heq
    obtain ⟨rfl, -⟩ := List.cons.inj heq
    exact absurd hd (by decide)
  · rename_i heq
    obtain ⟨rfl, -⟩ := List.cons.inj heq
    exact absurd hd (by decide)
  · simp only [h]
    rw [bind_ok, pure_bind, if_pos hfits]
    rfl

end Years

theorem readYear_yearText {year : Int} (hlow : firstYear ≤ year) (hhigh : year ≤ lastYear)
    (rest : List Char) :
    readYear ((yearText year).toList ++ '-' :: rest) = .ok (year, '-' :: rest) := by
  have hrest : ∀ c ∈ ('-' :: rest).head?, c.isDigit = false := by simp
  unfold firstYear at hlow
  unfold lastYear at hhigh
  unfold yearText
  split
  · have hyear : ((year.toNat : Nat) : Int) = year := by omega
    have hlength := @length_padded 4 year.toNat (by decide) (by omega)
    have hfour := number_padded hlength.le (by omega) hrest
    obtain ⟨d, ds, hd, hcons⟩ := exists_cons_padded 4 year.toNat
    rw [hcons, List.cons_append] at hfour ⊢
    rw [readYear_digit hd hfour (by omega), hyear]
  · have hdigits : (padded 4 year.natAbs).toList.length ≤
        ((padded 4 year.natAbs).toList ++ '-' :: rest).length := by simp
    have hnumber := number_padded hdigits (by omega) hrest
    have hminus : "-".toList = ['-'] := by decide
    have hplus : "+".toList = ['+'] := by decide
    rw [String.toList_append, List.append_assoc]
    split
    · have hyear : -((year.natAbs : Nat) : Int) = year := by omega
      rw [hminus, List.singleton_append, readYear_minus hnumber (by omega), hyear]
    · have hyear : ((year.natAbs : Nat) : Int) = year := by omega
      rw [hplus, List.singleton_append, readYear_plus hnumber (by omega), hyear]

/-- A fraction of a second is read in the unit of its last digit. -/
theorem readFraction_padded {width m : Nat} (hpos : 0 < width) (hle : width ≤ 9)
    (hm : m < 10 ^ width) :
    readFraction ('.' :: ((padded width m).toList ++ ['Z'])) =
      .ok (m * Nat.pow 10 (9 - width), ['Z']) := by
  have hlength := length_padded hpos hm
  have hlt : m < 0x8000000000000000 :=
    hm.trans_le ((Nat.pow_le_pow_right (by decide) hle).trans (by decide))
  have htaken : ((padded width m).toList ++ ['Z']).length - ['Z'].length = width := by
    rw [List.length_append, hlength, Nat.add_sub_cancel]
  have hrest : ∀ c ∈ ['Z'].head?, c.isDigit = false := by simp
  have hread := number_padded (hlength.le.trans hle) hlt hrest
  simp only [readFraction, hread, bind, Except.bind, pure, Except.pure, htaken]
  rfl

theorem readFraction_fractionText {n : Nat} (h : n < 1000000000) :
    readFraction ((fractionText n).toList ++ ['Z']) = .ok (n, ['Z']) := by
  have hdot (s : String) : ("." ++ s).toList = '.' :: s.toList := String.toList_append
  unfold fractionText
  split
  · rename_i hzero
    rw [hzero]
    rfl
  · split
    · rw [hdot, List.cons_append, readFraction_padded (by decide) (by decide) (by omega)]
      congr 2
      change n / 1000000 * 1000000 = n
      omega
    · split
      · rw [hdot, List.cons_append, readFraction_padded (by decide) (by decide) (by omega)]
        congr 2
        change n / 1000 * 1000 = n
        omega
      · rw [hdot, List.cons_append, readFraction_padded (by decide) (by decide) h]
        congr 2
        exact Nat.mul_one n

/-- The fraction of a second begins with no digit. -/
theorem head?_fractionText (n : Nat) :
    ∀ c ∈ ((fractionText n).toList ++ ['Z']).head?, c.isDigit = false := by
  have hdot (s : String) : ∀ c ∈ (("." ++ s).toList ++ ['Z']).head?, c.isDigit = false := by
    have hlist : ("." ++ s).toList = '.' :: s.toList := String.toList_append
    rw [hlist]
    simp
  unfold fractionText
  split
  · simp
  · split
    · exact hdot _
    · split <;> exact hdot _

/-- Whether an instant is one that a text can tell. -/
structure IsReadable (t : Instant) : Prop where
  second_lt : t.second < 86400
  nanosecond_lt : t.nanosecond < 2000000000
  /-- A leap second extends the last second of a minute. -/
  leap : 1000000000 ≤ t.nanosecond → t.second % 60 = 59
  firstYear_le : firstYear ≤ (Date.ofDay t.day).year
  le_lastYear : (Date.ofDay t.day).year ≤ lastYear

/-! ## Reading the text -/

theorem toList_text (t : Instant) : t.text.toList =
    (yearText (Date.ofDay t.day).year).toList ++ '-' ::
      ((padded 2 (Date.ofDay t.day).month).toList ++ '-' ::
      ((padded 2 (Date.ofDay t.day).day).toList ++ 'T' ::
      ((padded 2 (t.second / 3600)).toList ++ ':' ::
      ((padded 2 (t.second / 60 % 60)).toList ++ ':' ::
      ((padded 2 (t.second % 60 + t.nanosecond / 1000000000)).toList ++
      ((fractionText (t.nanosecond % 1000000000)).toList ++ ['Z'])))))) := by
  have hminus : "-".toList = ['-'] := by decide
  have hcolon : ":".toList = [':'] := by decide
  have htime : "T".toList = ['T'] := by decide
  have hzone : "Z".toList = ['Z'] := by decide
  simp only [text, String.toList_append, hminus, hcolon, htime, hzone, List.append_assoc,
    List.cons_append, List.nil_append]

theorem mark_self {c : Char} (h : Text.isWhiteSpace c = false) (rest : List Char) :
    mark c (c :: rest) = .ok rest := by
  rw [mark, trimStart_of_not h]
  exact if_pos rfl

/-- The instant of the date and the time of day of an instant is that instant. -/
theorem ofLocal_text {t : Instant} (h : t.IsReadable) (second : Nat) (hsecond : second = t.second) :
    ofLocal (Date.ofDay t.day) second t.nanosecond 0 = .ok t := by
  have hdate := Date.isDate_ofDay t.day
  have hsecond_lt := h.second_lt
  have hday : ((Date.ofDay t.day).toDay * 86400 + second - 0) / 86400 = t.day := by
    rw [Date.toDay_ofDay]
    omega
  have hrest : (((Date.ofDay t.day).toDay * 86400 + second - 0) % 86400).toNat = t.second := by
    rw [Date.toDay_ofDay]
    omega
  unfold ofLocal
  rw [if_neg (not_not.2 ⟨h.firstYear_le, h.le_lastYear, hdate.day_le⟩), if_neg (by decide)]
  simp only [hday, hrest]
  rw [if_pos ⟨h.firstYear_le, h.le_lastYear⟩]

theorem readOffset_text : readOffset (Text.trimStart ['Z']) = .ok (0, []) := by
  rw [trimStart_of_not isWhiteSpace_zone]
  rfl

/-- The text of an instant is read as the instant. -/
theorem parse_text {t : Instant} (h : t.IsReadable) : parse t.text = .ok t := by
  have hdate := Date.isDate_ofDay t.day
  have hmonth_le := hdate.month_le
  have hday_le : (Date.ofDay t.day).day ≤ 31 := hdate.day_le.trans (Date.daysInMonth_le_31 _ _)
  have hsecond_lt := h.second_lt
  have hnanosecond_lt := h.nanosecond_lt
  have hleap := h.leap
  have hminus (cs : List Char) : ∀ c ∈ ('-' :: cs).head?, c.isDigit = false := by simp
  have htime (cs : List Char) : ∀ c ∈ ('T' :: cs).head?, c.isDigit = false := by simp
  have hcolon (cs : List Char) : ∀ c ∈ (':' :: cs).head?, c.isDigit = false := by simp
  have hfraction := head?_fractionText (t.nanosecond % 1000000000)
  have hfraction_lt : t.nanosecond % 1000000000 < 1000000000 := Nat.mod_lt _ (by decide)
  have hextra : (if t.second % 60 + t.nanosecond / 1000000000 = 60 then 1 else 0) =
      t.nanosecond / 1000000000 := by
    split <;> omega
  unfold parse
  rw [toList_text, readYear_yearText h.firstYear_le h.le_lastYear]
  simp only [bind_ok, mark_self isWhiteSpace_minus,
    numberIn_padded hdate.month_pos hmonth_le (by omega) (hminus _),
    numberIn_padded hdate.day_pos hday_le (by omega) (htime _)]
  rw [if_pos (.inl trivial), pure_bind, numberIn_padded (by omega) (by omega) (by omega) (hcolon _)]
  simp only [bind_ok, mark_self isWhiteSpace_colon]
  rw [numberIn_padded (by omega) (by omega) (by omega) (hcolon _)]
  simp only [bind_ok, mark_self isWhiteSpace_colon]
  rw [numberIn_padded (by omega) (by omega) (by omega) hfraction]
  simp only [bind_ok, readFraction_fractionText hfraction_lt, readOffset_text, hextra]
  have hend : (Text.trimStart []).isEmpty = true := rfl
  rw [if_pos hend]
  have hnanosecond : t.nanosecond % 1000000000 + t.nanosecond / 1000000000 * 1000000000 =
      t.nanosecond := by omega
  rw [hnanosecond]
  exact ofLocal_text h _ (by omega)

/-! ## What texts tell -/

theorem lt_of_takeNumber {width : Nat} {cs : List Char} {acc : Nat} {p : Nat × List Char}
    (h : takeNumber acc width cs = p) :
    ∃ k ≤ width, cs.length = p.2.length + k ∧ p.1 < (acc + 1) * 10 ^ k := by
  induction width generalizing cs acc with
  | zero =>
    subst h
    exact ⟨0, Nat.le_refl 0, rfl, by simp [takeNumber]⟩
  | succ width ih =>
    cases cs with
    | nil =>
      subst h
      exact ⟨0, Nat.zero_le _, rfl, by simp [takeNumber]⟩
    | cons c cs =>
      rw [takeNumber] at h
      split at h
      · rename_i hc
        obtain ⟨k, hk, hlength, hlt⟩ := ih h
        have hdigit : c.toNat - '0'.toNat ≤ 9 := by
          simp only [Char.isDigit, Bool.and_eq_true, decide_eq_true_eq,
            UInt32.le_iff_toNat_le] at hc
          have hhigh : c.toNat ≤ 57 := hc.2
          change c.toNat - 48 ≤ 9
          omega
        refine ⟨k + 1, by omega, by rw [List.length_cons, hlength, Nat.add_assoc], ?_⟩
        calc p.1 < (acc * 10 + (c.toNat - '0'.toNat) + 1) * 10 ^ k := hlt
          _ ≤ (acc + 1) * 10 * 10 ^ k := Nat.mul_le_mul_right _ (by omega)
          _ = (acc + 1) * 10 ^ (k + 1) := by rw [Nat.pow_succ', Nat.mul_assoc]
      · subst h
        exact ⟨0, Nat.zero_le _, rfl, by simp⟩

/-- A number is less than its digits allow. -/
theorem lt_of_number {width n : Nat} {cs rest : List Char} (h : number width cs = .ok (n, rest)) :
    ∃ k ≤ width, cs.length = rest.length + k ∧ n < 10 ^ k := by
  unfold number at h
  split at h
  · cases h
  · split at h
    · simp only at h
      split at h
      · obtain ⟨k, hk, hlength, hlt⟩ := lt_of_takeNumber (Except.ok.inj h)
        exact ⟨k, hk, hlength, by simpa using hlt⟩
      · cases h
    · cases h

theorem readFraction_lt {cs rest : List Char} {n : Nat} (h : readFraction cs = .ok (n, rest)) :
    n < 1000000000 := by
  unfold readFraction at h
  split at h
  · rename_i digits
    obtain ⟨⟨m, left⟩, hnumber, h⟩ := exists_of_bind_eq_ok h
    obtain ⟨k, hk, hlength, hlt⟩ := lt_of_number hnumber
    obtain ⟨rfl, -⟩ := Prod.mk.inj (Except.ok.inj h)
    have htaken : digits.length - left.length = k := by omega
    change m * 10 ^ (9 - (digits.length - left.length)) < 1000000000
    rw [htaken]
    calc m * 10 ^ (9 - k) < 10 ^ k * 10 ^ (9 - k) :=
          Nat.mul_lt_mul_of_pos_right hlt (Nat.pow_pos (by decide))
      _ = 1000000000 := by rw [← Nat.pow_add, Nat.add_sub_cancel' hk]
  · obtain ⟨rfl, -⟩ := Prod.mk.inj (Except.ok.inj h)
    decide

theorem numberIn_le {low high n : Nat} {cs rest : List Char}
    (h : numberIn low high cs = .ok (n, rest)) : n ≤ high := by
  obtain ⟨⟨m, left⟩, -, h⟩ := exists_of_bind_eq_ok h
  simp only at h
  split at h
  · obtain ⟨rfl, -⟩ := Prod.mk.inj (Except.ok.inj h)
    exact (by assumption : _ ∧ _).2
  · cases h

/-- An offset has whole minutes. -/
theorem readOffsetDigits_mod {cs rest : List Char} {n : Nat}
    (h : readOffsetDigits cs = .ok (n, rest)) : n % 60 = 0 := by
  obtain ⟨hours, -, h⟩ := exists_of_bind_eq_ok h
  obtain ⟨minutes, -, h⟩ := exists_of_bind_eq_ok h
  simp only at h
  split at h
  · obtain ⟨rfl, -⟩ := Prod.mk.inj (Except.ok.inj h)
    omega
  · cases h

theorem readOffset_emod {cs rest : List Char} {offset : Int}
    (h : readOffset cs = .ok (offset, rest)) : offset % 60 = 0 := by
  have hsigned : ∀ {digits : List Char} {f : Nat → Int}, (∀ n, n % 60 = 0 → f n % 60 = 0) →
      ((readOffsetDigits digits).map fun p => (f p.1, p.2)) = .ok (offset, rest) →
      offset % 60 = 0 := by
    intro digits f hf h
    cases hdigits : readOffsetDigits digits with
    | error e =>
      rw [hdigits] at h
      cases h
    | ok p =>
      rw [hdigits] at h
      obtain ⟨rfl, -⟩ := Prod.mk.inj (Except.ok.inj h)
      exact hf _ (readOffsetDigits_mod hdigits)
  unfold readOffset at h
  split at h
  · cases h
  · split at h
    · obtain ⟨rfl, -⟩ := Prod.mk.inj (Except.ok.inj h)
      rfl
    · split at h
      · obtain ⟨rfl, -⟩ := Prod.mk.inj (Except.ok.inj h)
        rfl
      · split at h
        · exact hsigned (f := fun n => n) (fun n hn => by omega) h
        · split at h
          · exact hsigned (f := fun n => -n) (fun n hn => by omega) h
          · cases h

/-- The instant of a time of day with whole minutes, and perhaps a leap second after the last of
them, is readable. -/
theorem isReadable_of_ofLocal {date : Date} {second nanosecond : Nat} {offset : Int} {t : Instant}
    (h : ofLocal date second nanosecond offset = .ok t) (hoffset : offset % 60 = 0)
    (hnanosecond : nanosecond < 2000000000)
    (hleap : 1000000000 ≤ nanosecond → second % 60 = 59) : t.IsReadable := by
  unfold ofLocal at h
  split at h
  · cases h
  · split at h
    · cases h
    · simp only at h
      split at h
      · rename_i hyear
        obtain rfl := Except.ok.inj h
        refine ⟨?_, hnanosecond, fun hextra => ?_, hyear.1, hyear.2⟩
        · simp only
          omega
        · have hlast := hleap hextra
          simp only
          omega
      · cases h

/-- What is read is an instant that a text can tell. -/
theorem isReadable_of_parse {s : String} {t : Instant} (h : parse s = .ok t) : t.IsReadable := by
  obtain ⟨year, -, h⟩ := exists_of_bind_eq_ok h
  obtain ⟨cs, -, h⟩ := exists_of_bind_eq_ok h
  obtain ⟨month, -, h⟩ := exists_of_bind_eq_ok h
  obtain ⟨cs, -, h⟩ := exists_of_bind_eq_ok h
  obtain ⟨day, -, h⟩ := exists_of_bind_eq_ok h
  simp only at h
  split at h
  · cases h
  · split at h
    · rw [pure_bind] at h
      obtain ⟨hour, -, h⟩ := exists_of_bind_eq_ok h
      obtain ⟨cs, -, h⟩ := exists_of_bind_eq_ok h
      obtain ⟨minute, -, h⟩ := exists_of_bind_eq_ok h
      obtain ⟨cs, -, h⟩ := exists_of_bind_eq_ok h
      obtain ⟨second, hsecond, h⟩ := exists_of_bind_eq_ok h
      obtain ⟨nanosecond, hnanosecond, h⟩ := exists_of_bind_eq_ok h
      obtain ⟨offset, hoffset, h⟩ := exists_of_bind_eq_ok h
      have hsecond_le := numberIn_le hsecond
      have hnanosecond_lt := readFraction_lt hnanosecond
      split at h
      · refine isReadable_of_ofLocal h (readOffset_emod hoffset) ?_ fun hleap => ?_
        · split <;> omega
        · split at hleap
          · split <;> omega
          · omega
      · cases h
    · cases h

end TrialBoard.Instant
