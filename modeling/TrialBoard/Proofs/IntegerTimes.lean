import Mathlib.Order.Monotone.Basic
import Mathlib.Tactic.SplitIfs
import TrialBoard.Proofs.LenientReading
import TrialBoard.Proofs.RecencyOrder

/-!
# Times that are integers

Times are compared as binary64 numbers, and an integer of 64 bits is rounded to one before. What it
is rounded to is `Binary64.nearest`, the nearest number of 53 significant bits: rounding counts in
units of `2 ^ -1074`, and a larger magnitude is a larger number of units, so the order of the
rounded numbers is that of `nearest`.

Rounding never swaps two integers, but it can make them equal, and then the row that comes first is
the most recent one. Integers up to `2 ^ 53` are told apart, as milliseconds and
microseconds are. Nanoseconds are so only where they are further apart than the numbers around them
(`Binary64.spacing`).
-/

namespace TrialBoard

namespace Binary64

/-! ## Rounding a quotient -/

section

variable {n m den k : Nat}

theorem div_le_roundHalfEven (n den : Nat) : n / den ≤ roundHalfEven n den := by
  unfold roundHalfEven
  dsimp only
  split_ifs <;> omega

/-- A multiple of the denominator is not rounded. -/
theorem roundHalfEven_mul_self (q : Nat) (hden : 0 < den) : roundHalfEven (q * den) den = q := by
  unfold roundHalfEven
  dsimp only
  rw [Nat.mul_div_cancel _ hden, Nat.mul_mod_left, if_pos (by omega)]

theorem roundHalfEven_mul_right (n den : Nat) (hk : 0 < k) :
    roundHalfEven (n * k) (den * k) = roundHalfEven n den := by
  unfold roundHalfEven
  dsimp only
  have hlt : ∀ a b, a * k < b * k ↔ a < b := fun a b => Nat.mul_lt_mul_right hk
  rw [Nat.mul_div_mul_right _ _ hk, Nat.mul_mod_mul_right, ← Nat.mul_assoc]
  simp only [hlt]

theorem roundHalfEven_mono (h : n ≤ m) (den : Nat) : roundHalfEven n den ≤ roundHalfEven m den := by
  rcases Nat.lt_or_eq_of_le (Nat.div_le_div_right h : n / den ≤ m / den) with hlt | hsame
  · exact (roundHalfEven_le n den).trans (Nat.le_trans hlt (div_le_roundHalfEven m den))
  · have hremainder : n % den ≤ m % den := by
      have hn := Nat.div_add_mod n den
      have hm := Nat.div_add_mod m den
      rw [hsame] at hn
      omega
    unfold roundHalfEven
    dsimp only
    rw [hsame]
    split_ifs <;> omega

/-- What is rounded lies half a denominator away at most. -/
theorem roundHalfEven_near (n : Nat) (hden : 0 < den) :
    2 * n ≤ 2 * (roundHalfEven n den * den) + den ∧
      2 * (roundHalfEven n den * den) ≤ 2 * n + den := by
  have hn := Nat.div_add_mod' n den
  have hlt := Nat.mod_lt n hden
  have hnext := Nat.add_mul (n / den) 1 den
  unfold roundHalfEven
  dsimp only
  split_ifs
  · omega
  · omega
  · rcases Nat.mod_two_eq_zero_or_one (n / den) with heven | hodd
    · rw [heven, Nat.add_zero]
      omega
    · rw [hodd]
      omega

end

/-! ## Numbers of 53 bits -/

/-- The distance of the numbers with 53 significant bits around a natural number. -/
def spacing (n : Nat) : Nat := 2 ^ (Nat.log2 n - 52)

/-- The number with 53 significant bits that is nearest to a natural number; of two the one whose
last bit is zero. -/
def nearest (n : Nat) : Nat := roundHalfEven n (spacing n) * spacing n

variable {n m k : Nat}

theorem spacing_pos (n : Nat) : 0 < spacing n := Nat.two_pow_pos _

theorem log2_mono (h : n ≤ m) : Nat.log2 n ≤ Nat.log2 m := by
  by_cases hn : n = 0
  · rw [hn, Nat.log2_zero]
    exact Nat.zero_le _
  · exact (Nat.le_log2 (by omega)).2 ((Nat.log2_self_le hn).trans h)

theorem spacing_dvd_two_pow (hk : Nat.log2 n ≤ k) : spacing n ∣ 2 ^ k :=
  Nat.pow_dvd_pow 2 (by omega)

/-- Rounding does not pass a number with 53 significant bits. -/
theorem le_nearest (hdvd : spacing n ∣ k) (h : k ≤ n) : k ≤ nearest n := by
  obtain ⟨q, rfl⟩ := hdvd
  have hq : roundHalfEven (q * spacing n) (spacing n) ≤ roundHalfEven n (spacing n) :=
    roundHalfEven_mono (by rwa [Nat.mul_comm]) _
  rw [roundHalfEven_mul_self q (spacing_pos n)] at hq
  rw [Nat.mul_comm]
  exact Nat.mul_le_mul_right _ hq

theorem nearest_le (hdvd : spacing n ∣ k) (h : n ≤ k) : nearest n ≤ k := by
  obtain ⟨q, rfl⟩ := hdvd
  have hq : roundHalfEven n (spacing n) ≤ roundHalfEven (q * spacing n) (spacing n) :=
    roundHalfEven_mono (by rwa [Nat.mul_comm]) _
  rw [roundHalfEven_mul_self q (spacing_pos n)] at hq
  rw [Nat.mul_comm _ q]
  exact Nat.mul_le_mul_right _ hq

theorem nearest_of_dvd (hdvd : spacing n ∣ n) : nearest n = n :=
  Nat.le_antisymm (nearest_le hdvd (Nat.le_refl n)) (le_nearest hdvd (Nat.le_refl n))

theorem nearest_of_lt (h : n < 2 ^ 53) : nearest n = n := by
  have hlog : Nat.log2 n ≤ 52 := by
    by_cases hn : n = 0
    · rw [hn, Nat.log2_zero]
      decide
    · exact Nat.le_of_lt_succ ((Nat.log2_lt hn).2 h)
  refine nearest_of_dvd ?_
  rw [spacing, Nat.sub_eq_zero_of_le hlog]
  exact Nat.one_dvd n

theorem nearest_of_le (h : n ≤ 2 ^ 53) : nearest n = n := by
  rcases Nat.lt_or_eq_of_le h with hlt | rfl
  · exact nearest_of_lt hlt
  · exact nearest_of_dvd (spacing_dvd_two_pow (by rw [Nat.log2_two_pow]))

theorem nearest_mono (h : n ≤ m) : nearest n ≤ nearest m := by
  rcases Nat.lt_or_eq_of_le (log2_mono h) with hlt | hsame
  · -- A power of two lies between.
    have hn : n ≤ 2 ^ Nat.log2 m := by
      have hbound : n < 2 ^ (Nat.log2 n + 1) := Nat.lt_log2_self
      exact hbound.le.trans (Nat.pow_le_pow_right (by decide) hlt)
    have hm : 2 ^ Nat.log2 m ≤ m := Nat.log2_self_le fun hzero => by
      rw [hzero, Nat.log2_zero] at hlt
      omega
    exact (nearest_le (spacing_dvd_two_pow hlt.le) hn).trans
      (le_nearest (spacing_dvd_two_pow (Nat.le_refl _)) hm)
  · rw [nearest, nearest, spacing, spacing, hsame]
    exact Nat.mul_le_mul_right _ (roundHalfEven_mono h _)

theorem nearest_near (n : Nat) :
    2 * n ≤ 2 * nearest n + spacing n ∧ 2 * nearest n ≤ 2 * n + spacing n :=
  roundHalfEven_near n (spacing_pos n)

/-- Rounding looks at the significant bits only. -/
theorem nearest_mul_two_pow (n k : Nat) : nearest (n * 2 ^ k) = nearest n * 2 ^ k := by
  by_cases hn : n = 0
  · rw [hn, Nat.zero_mul, nearest_of_lt (by decide), Nat.zero_mul]
  have hlog : Nat.log2 (n * 2 ^ k) = Nat.log2 n + k := by
    have hpow := Nat.two_pow_pos k
    refine (Nat.log2_eq_iff (Nat.mul_ne_zero hn hpow.ne')).2 ⟨?_, ?_⟩
    · rw [Nat.pow_add]
      exact Nat.mul_le_mul_right _ (Nat.log2_self_le hn)
    · rw [Nat.add_right_comm, Nat.pow_add]
      exact Nat.mul_lt_mul_of_pos_right Nat.lt_log2_self hpow
  rcases Nat.lt_or_ge (Nat.log2 n) 52 with hsmall | hlarge
  · have hdvd : spacing (n * 2 ^ k) ∣ 2 ^ k := by
      rw [spacing, hlog]
      exact Nat.pow_dvd_pow 2 (by omega)
    have hlt : n < 2 ^ 53 := (Nat.log2_lt hn).1 (by omega)
    rw [nearest_of_dvd (Nat.dvd_mul_left_of_dvd hdvd n), nearest_of_lt hlt]
  · have hspacing : spacing (n * 2 ^ k) = spacing n * 2 ^ k := by
      rw [spacing, hlog, spacing, ← Nat.pow_add]
      congr 1
      omega
    rw [nearest, hspacing, roundHalfEven_mul_right _ _ (Nat.two_pow_pos k), nearest, Nat.mul_assoc]

/-! ## Values -/

theorem unitsOf_normal {e r : Nat} (hr : r < hiddenBit) :
    unitsOf ((e + 1) * hiddenBit + r) = (hiddenBit + r) * 2 ^ e := by
  have hdiv : ((e + 1) * hiddenBit + r) / hiddenBit = e + 1 := by
    unfold hiddenBit at hr ⊢
    omega
  have hmod : ((e + 1) * hiddenBit + r) % hiddenBit = r := by
    unfold hiddenBit at hr ⊢
    omega
  rw [unitsOf, if_neg (by rw [Nat.add_mul]; omega), gap, hdiv, hmod]
  rfl

/-- The value of a magnitude is its significand, shifted by its exponent. The significand may be one
too large for the exponent, as it is when rounding carries. -/
theorem unitsOf_significand {shift q : Nat} (hle : q ≤ 2 * hiddenBit)
    (hnormal : shift = 0 ∨ hiddenBit ≤ q) : unitsOf (shift * hiddenBit + q) = q * 2 ^ shift := by
  rcases Nat.lt_or_ge q hiddenBit with hsmall | hlarge
  · obtain rfl : shift = 0 := by omega
    rw [Nat.zero_mul, Nat.zero_add, unitsOf, if_pos hsmall, Nat.pow_zero, Nat.mul_one]
  · obtain ⟨r, rfl⟩ := Nat.exists_eq_add_of_le hlarge
    rcases Nat.lt_or_eq_of_le (show r ≤ hiddenBit by omega) with hr | rfl
    · rw [← unitsOf_normal hr, Nat.add_mul, Nat.one_mul, Nat.add_assoc]
    · have hcarry : shift * hiddenBit + (hiddenBit + hiddenBit) =
          (shift + 1 + 1) * hiddenBit + 0 := by
        unfold hiddenBit
        omega
      rw [hcarry, unitsOf_normal (by decide), Nat.add_zero, Nat.pow_succ, ← Nat.mul_two]
      ac_rfl

theorem exists_significand (magnitude : Nat) : ∃ shift q, magnitude = shift * hiddenBit + q ∧
    q < 2 * hiddenBit ∧ (shift = 0 ∨ hiddenBit ≤ q) := by
  rcases Nat.lt_or_ge magnitude hiddenBit with hlt | hge
  · exact ⟨0, magnitude, by omega, by omega, .inl rfl⟩
  · have hmod := Nat.mod_lt magnitude (show 0 < hiddenBit by decide)
    refine ⟨magnitude / hiddenBit - 1, hiddenBit + magnitude % hiddenBit, ?_, by omega,
      .inr (Nat.le_add_right _ _)⟩
    unfold hiddenBit at hge ⊢
    omega

/-- A larger magnitude is a larger value. -/
theorem unitsOf_strictMono : StrictMono unitsOf := by
  refine strictMono_nat_of_lt_succ fun magnitude => ?_
  obtain ⟨shift, q, rfl, hlt, hnormal⟩ := exists_significand magnitude
  rw [Nat.add_assoc, unitsOf_significand hlt.le hnormal, unitsOf_significand hlt (by omega)]
  exact Nat.mul_lt_mul_of_pos_right (Nat.lt_succ_self q) (Nat.two_pow_pos shift)

/-- A rounded number of units has the value of the number of 53 bits nearest to it. -/
theorem unitsOf_roundUnits (n : Nat) : unitsOf (roundUnits n 1) = nearest n := by
  have hround : roundUnits n 1 =
      (Nat.log2 n - 52) * hiddenBit + roundHalfEven n (spacing n) := by
    rw [roundUnits, Nat.div_one, Nat.one_mul]
    rfl
  have hle : n / spacing n < 2 * hiddenBit := by
    refine Nat.div_lt_of_lt_mul ?_
    change n < 2 ^ (Nat.log2 n - 52) * 2 ^ 53
    rw [← Nat.pow_add]
    exact Nat.lt_of_lt_of_le Nat.lt_log2_self (Nat.pow_le_pow_right (by decide) (by omega))
  have hnormal : Nat.log2 n - 52 = 0 ∨ hiddenBit ≤ n / spacing n := by
    refine (Nat.eq_zero_or_pos _).imp_right fun hpos => ?_
    rw [Nat.le_div_iff_mul_le (spacing_pos n)]
    change 2 ^ 52 * 2 ^ (Nat.log2 n - 52) ≤ n
    rw [← Nat.pow_add, Nat.add_sub_cancel' (by omega)]
    exact Nat.log2_self_le fun hzero => by simp [hzero] at hpos
  rw [hround, unitsOf_significand ((roundHalfEven_le n _).trans hle)
    (hnormal.imp_right fun h => h.trans (div_le_roundHalfEven n _))]
  rfl

/-- The value at a place, in units. -/
def valueAt (key : Int) : Int := if key < 0 then -unitsOf key.natAbs else unitsOf key.natAbs

theorem valueAt_strictMono : StrictMono valueAt := by
  intro a b hab
  have hlt : ∀ {m n : Nat}, m < n → unitsOf m < unitsOf n := fun h => unitsOf_strictMono h
  have hzero : unitsOf 0 = 0 := rfl
  unfold valueAt
  split_ifs with ha hb hb
  · have := hlt (show b.natAbs < a.natAbs by omega)
    omega
  · have := hlt (show 0 < a.natAbs by omega)
    omega
  · omega
  · have := hlt (show a.natAbs < b.natAbs by omega)
    omega

theorem valueAt_natCast (n : Nat) : valueAt n = unitsOf n := by
  rw [valueAt, if_neg (by omega), Int.natAbs_natCast]

theorem valueAt_neg_natCast (n : Nat) : valueAt (-n) = -unitsOf n := by
  cases n with
  | zero => rfl
  | succ n => rw [valueAt, if_pos (by omega), Int.natAbs_neg, Int.natAbs_natCast]

/-- Two numbers are ordered by their values. -/
theorem compare_eq_compare_valueAt (x y : Binary64) :
    x.compare y = Ord.compare (valueAt x.key) (valueAt y.key) := by
  rw [compare, ← cmp_eq_compare, ← cmp_eq_compare, valueAt_strictMono.cmp_map_eq]

/-! ## Integers -/

/-- The integer with 53 significant bits that is nearest to an integer. -/
def nearestInt (i : Int) : Int := if i < 0 then -nearest i.natAbs else nearest i.natAbs

variable {a b i : Int}

theorem nearestInt_of_le (h : i.natAbs ≤ 2 ^ 53) : nearestInt i = i := by
  unfold nearestInt
  rw [nearest_of_le h]
  split_ifs <;> omega

theorem nearestInt_mono (h : a ≤ b) : nearestInt a ≤ nearestInt b := by
  unfold nearestInt
  split_ifs with ha hb hb
  · have := nearest_mono (show b.natAbs ≤ a.natAbs by omega)
    omega
  · omega
  · omega
  · have := nearest_mono (show a.natAbs ≤ b.natAbs by omega)
    omega

theorem nearestInt_near (i : Int) : 2 * i ≤ 2 * nearestInt i + spacing i.natAbs ∧
    2 * nearestInt i ≤ 2 * i + spacing i.natAbs := by
  have hnear := nearest_near i.natAbs
  unfold nearestInt
  split_ifs <;> omega

theorem natAbs_lt_of_fitsWord (h : FitsWord i) : i.natAbs < 2 ^ 64 := by
  have hlow := h.1
  have hhigh := h.2
  omega

theorem spacing_word (h : FitsWord i) : spacing i.natAbs ≤ 2048 := by
  have hlog : Nat.log2 i.natAbs < 64 := by
    by_cases hzero : i.natAbs = 0
    · rw [hzero, Nat.log2_zero]
      decide
    · exact (Nat.log2_lt hzero).2 (natAbs_lt_of_fitsWord h)
  exact Nat.pow_le_pow_right (show 0 < 2 by decide) (show _ ≤ 11 by omega)

theorem unitsOf_ofNat (h : n < 2 ^ 64) : unitsOf (ofNat n).magnitude = nearest n * one := by
  have hunits := ofUnits_word h
  unfold ofUnits at hunits
  split at hunits
  · rw [← Option.some.inj hunits, unitsOf_roundUnits]
    -- Written out, the power in `one` is too large to compute with.
    delta one
    generalize 1074 = e
    exact nearest_mul_two_pow n e
  · cases hunits

theorem one_pos : 0 < one := by
  delta one
  generalize 1074 = e
  exact Nat.two_pow_pos e

theorem key_withSign (negative : Bool) (x : Binary64) :
    (withSign negative x).key = if negative then -(x.magnitude : Int) else x.magnitude := rfl

/-- An integer is read as the number nearest to it. -/
theorem valueAt_key_ofInt (h : FitsWord i) : valueAt (ofInt i).key = nearestInt i * one := by
  have hunits := unitsOf_ofNat (natAbs_lt_of_fitsWord h)
  have hcast := Int.natCast_mul (nearest i.natAbs) one
  rw [ofInt, key_withSign, nearestInt]
  by_cases hi : i < 0
  · rw [if_pos hi, if_pos (decide_eq_true hi), valueAt_neg_natCast, hunits, hcast, Int.neg_mul]
  · rw [if_neg hi, if_neg (by simpa using hi), valueAt_natCast, hunits, hcast]

end Binary64

open Binary64 (nearestInt)

theorem compareCreatedAt_integer {a b : Int} (ha : FitsWord a) (hb : FitsWord b) :
    compareCreatedAt (some (.number (.integer a ha))) (some (.number (.integer b hb))) =
      compare (nearestInt a) (nearestInt b) := by
  have hone : StrictMono fun n : Int => n * Binary64.one := fun x y hxy =>
    Int.mul_lt_mul_of_pos_right hxy (Int.natCast_pos.2 Binary64.one_pos)
  change (Binary64.ofInt a).compare (Binary64.ofInt b) = _
  rw [Binary64.compare_eq_compare_valueAt, Binary64.valueAt_key_ofInt ha,
    Binary64.valueAt_key_ofInt hb, ← cmp_eq_compare, ← cmp_eq_compare]
  exact hone.cmp_map_eq _ _

/-! ## Integers in their order -/

section

variable {a b : Int}

theorem compare_nearestInt (a b : Int) :
    compare (nearestInt a) (nearestInt b) = compare a b ∨ nearestInt a = nearestInt b := by
  refine (eq_or_ne (nearestInt a) (nearestInt b)).symm.imp_left fun hne => ?_
  rcases lt_trichotomy a b with hlt | rfl | hgt
  · have hle := Binary64.nearestInt_mono hlt.le
    rw [compare_lt_iff_lt.2 hlt, compare_lt_iff_lt.2 (lt_of_le_of_ne hle hne)]
  · exact absurd rfl hne
  · have hle := Binary64.nearestInt_mono hgt.le
    rw [compare_gt_iff_gt.2 hgt, compare_gt_iff_gt.2 (lt_of_le_of_ne hle hne.symm)]

/-- Rounding keeps the order of two integers unless it makes them equal. -/
theorem compare_nearestInt_eq_iff : compare (nearestInt a) (nearestInt b) = compare a b ↔
    (nearestInt a = nearestInt b → a = b) := by
  refine ⟨fun h hsame => ?_, fun h => ?_⟩
  · rw [hsame, compare_eq_iff_eq.2 rfl] at h
    exact compare_eq_iff_eq.1 h.symm
  · rcases compare_nearestInt a b with heq | hsame
    · exact heq
    · rw [h hsame, compare_eq_iff_eq.2 rfl, compare_eq_iff_eq.2 rfl]

/-- Rounding keeps integers apart that are further from each other than the numbers around them. -/
theorem nearestInt_ne_of_far (ha : Binary64.spacing a.natAbs < (a - b).natAbs)
    (hb : Binary64.spacing b.natAbs < (a - b).natAbs) : nearestInt a ≠ nearestInt b := by
  have hneara := Binary64.nearestInt_near a
  have hnearb := Binary64.nearestInt_near b
  omega

end

/-- Whether a row was created at a time that is an integer. -/
def Document.IsCreatedAt (row : Document) (time : Int) : Prop :=
  ∃ h, row.createdAt? = some (.number (.integer time h))

section

variable {rows : List Document} {row other latest : Document} {t u time : Int}

theorem Document.IsCreatedAt.compare (hrow : row.IsCreatedAt t) (hother : other.IsCreatedAt u) :
    compareCreatedAt row.createdAt? other.createdAt? =
      Ord.compare (nearestInt t) (nearestInt u) := by
  obtain ⟨ht, hrow⟩ := hrow
  obtain ⟨hu, hother⟩ := hother
  rw [hrow, hother]
  exact compareCreatedAt_integer ht hu

theorem Document.IsCreatedAt.eq (h : row.IsCreatedAt t) (h' : row.IsCreatedAt u) : t = u := by
  obtain ⟨_, ht⟩ := h
  obtain ⟨_, hu⟩ := h'
  cases ht.symm.trans hu
  rfl

/-- Whether a row of a list was created later than every other one, all at times that are
integers. -/
structure IsLatest (rows : List Document) (latest : Document) (time : Int) : Prop where
  mem : latest ∈ rows
  created : latest.IsCreatedAt time
  others : ∀ other ∈ rows, other = latest ∨ ∃ t < time, other.IsCreatedAt t

/-- A row that rounding does not tell from the latest one wins where it comes first. -/
theorem IsLatest.mostRecent_cons (h : IsLatest (other :: rows) latest time)
    (hother : other.IsCreatedAt t) (hsame : nearestInt t = nearestInt time) :
    mostRecent (other :: rows) = some other := by
  have hcompare : ∀ row ∈ other :: rows,
      compareCreatedAt row.createdAt? other.createdAt? ≠ .gt := by
    intro row hrow
    obtain ⟨u, hle, hcreated⟩ : ∃ u ≤ time, row.IsCreatedAt u := by
      rcases h.others row hrow with rfl | ⟨u, hlt, hcreated⟩
      · exact ⟨time, le_rfl, h.created⟩
      · exact ⟨u, hlt.le, hcreated⟩
    rw [hcreated.compare hother, hsame, ne_eq, compare_gt_iff_gt, not_lt]
    exact Binary64.nearestInt_mono hle
  have hfirst : IsMostRecent (other :: rows) 0 other := ⟨rfl, hcompare, fun j hj => nomatch hj⟩
  exact mostRecent_eq_of_isMostRecent hfirst

/-- The latest row is the most recent one in every order of the rows just when rounding tells its
time from those of all others. -/
theorem IsLatest.mostRecent_iff (h : IsLatest rows latest time) :
    (∀ rows', rows'.Perm rows → mostRecent rows' = some latest) ↔
      ∀ other ∈ rows, ∀ t < time, other.IsCreatedAt t → nearestInt t ≠ nearestInt time := by
  refine ⟨fun hall other hmem t hlt hother hsame => ?_, fun hapart rows' hperm => ?_⟩
  · obtain ⟨before, after, rfl⟩ := List.append_of_mem hmem
    have hperm : (other :: (before ++ after)).Perm (before ++ other :: after) :=
      List.perm_middle.symm
    have hfirst : IsLatest (other :: (before ++ after)) latest time :=
      ⟨hperm.mem_iff.2 h.mem, h.created, fun row hrow => h.others row (hperm.mem_iff.1 hrow)⟩
    have hfound := hall _ hperm
    rw [hfirst.mostRecent_cons hother hsame] at hfound
    obtain rfl := Option.some.inj hfound
    exact hlt.ne (hother.eq h.created)
  · have hlatest : latest ∈ rows' := hperm.mem_iff.2 h.mem
    obtain ⟨i, row, hrow, hmost⟩ := exists_isMostRecent (List.ne_nil_of_mem hlatest)
    have hmem : row ∈ rows := hperm.mem_iff.1 (List.mem_of_getElem? hmost.place)
    rcases h.others row hmem with rfl | ⟨t, hlt, hcreated⟩
    · exact hrow
    · have hgreatest := hmost.greatest latest hlatest
      rw [h.created.compare hcreated, ne_eq, compare_gt_iff_gt, not_lt] at hgreatest
      exact absurd (le_antisymm (Binary64.nearestInt_mono hlt.le) hgreatest)
        (hapart row hmem t hlt hcreated)

end

/-- Two times that are integers compare as their nearest numbers of 53 bits do. That is their own
order just when these differ, and otherwise they count as equal. They do differ up to `2 ^ 53`, and
where the times are further apart than the numbers around them, which is never more than 2048. Of
rows with such times the latest is the most recent one in every order just when its time is told
from all others so. -/
theorem integer_times_compare_iff_told_apart {a b : Int} (ha : FitsWord a) (hb : FitsWord b) :
    let order := compareCreatedAt (some (.number (.integer a ha))) (some (.number (.integer b hb)))
    ((order = compare a b ↔ (nearestInt a = nearestInt b → a = b)) ∧
      (order = compare a b ∨ order = .eq) ∧
      (a.natAbs ≤ 2 ^ 53 → b.natAbs ≤ 2 ^ 53 → order = compare a b) ∧
      (Binary64.spacing a.natAbs < (a - b).natAbs → Binary64.spacing b.natAbs < (a - b).natAbs →
        order = compare a b) ∧
      Binary64.spacing a.natAbs ≤ 2048) ∧
    ∀ (rows : List Document) (latest : Document) (time : Int), IsLatest rows latest time →
      ((∀ rows', rows'.Perm rows → mostRecent rows' = some latest) ↔
        ∀ other ∈ rows, ∀ t < time, other.IsCreatedAt t → nearestInt t ≠ nearestInt time) := by
  intro order
  have horder : order = compare (nearestInt a) (nearestInt b) := compareCreatedAt_integer ha hb
  rw [horder]
  refine ⟨⟨compare_nearestInt_eq_iff, ?_, fun hsmall hsmall' => ?_, fun hfar hfar' => ?_,
    Binary64.spacing_word ha⟩, fun rows latest time h => h.mostRecent_iff⟩
  · exact (compare_nearestInt a b).imp_right compare_eq_iff_eq.2
  · rw [Binary64.nearestInt_of_le hsmall, Binary64.nearestInt_of_le hsmall']
  · exact compare_nearestInt_eq_iff.2 fun hsame =>
      absurd hsame (nearestInt_ne_of_far hfar hfar')

/-- Two nanosecond times 512 apart, and one that needs all 64 bits. -/
theorem latest_of_distant_nanoseconds_is_most_recent :
    let earlier : Document :=
      [("createdAt", .number (.integer 1714564800000000000 (by decide))), ("id", .string "a")]
    let later : Document :=
      [("createdAt", .number (.integer 1714564800000000512 (by decide))), ("id", .string "b")]
    let latest : Document :=
      [("createdAt", .number (.integer 18446744073709551615 (by decide))), ("id", .string "c")]
    IsLatest [earlier, latest, later] latest 18446744073709551615 ∧
    (∀ rows : List Document, rows.Perm [earlier, latest, later] → mostRecent rows = some latest) ∧
    compareCreatedAt later.createdAt? earlier.createdAt? = .gt := by
  intro earlier later latest
  have hearlier : earlier.IsCreatedAt 1714564800000000000 := ⟨by decide, rfl⟩
  have hlater : later.IsCreatedAt 1714564800000000512 := ⟨by decide, rfl⟩
  have hlatest : latest.IsCreatedAt 18446744073709551615 := ⟨by decide, rfl⟩
  have h : IsLatest [earlier, latest, later] latest 18446744073709551615 := by
    refine ⟨by simp, hlatest, fun other hother => ?_⟩
    rcases List.mem_cons.1 hother with rfl | hother
    · exact .inr ⟨_, by decide, hearlier⟩
    · rcases List.mem_cons.1 hother with rfl | hother
      · exact .inl rfl
      · exact .inr ⟨_, by decide, List.mem_singleton.1 hother ▸ hlater⟩
  obtain ⟨horder, hrows⟩ := integer_times_compare_iff_told_apart
    (a := 1714564800000000512) (b := 1714564800000000000) (by decide) (by decide)
  refine ⟨h, (hrows _ _ _ h).2 fun other hother t hlt hcreated => ?_, ?_⟩
  · rcases List.mem_cons.1 hother with rfl | hother
    · rw [hcreated.eq hearlier]
      decide
    · rcases List.mem_cons.1 hother with rfl | hother
      · exact absurd (hcreated.eq hlatest) hlt.ne
      · rw [hcreated.eq (List.mem_singleton.1 hother ▸ hlater)]
        decide
  · exact horder.2.2.2.1 (by decide) (by decide)

/-- Of two times a nanosecond apart the one that comes first is the most recent, though it is the
earlier one. -/
theorem next_nanosecond_not_told_apart :
    let earlier : Document :=
      [("createdAt", .number (.integer 1714564800000000000 (by decide))), ("id", .string "a")]
    let later : Document :=
      [("createdAt", .number (.integer 1714564800000000001 (by decide))), ("id", .string "b")]
    compareCreatedAt later.createdAt? earlier.createdAt? = .eq ∧
    IsLatest [earlier, later] later 1714564800000000001 ∧
    mostRecent [earlier, later] = some earlier := by
  intro earlier later
  have hearlier : earlier.IsCreatedAt 1714564800000000000 := ⟨by decide, rfl⟩
  have hlater : later.IsCreatedAt 1714564800000000001 := ⟨by decide, rfl⟩
  have h : IsLatest [earlier, later] later 1714564800000000001 := by
    refine ⟨by simp, hlater, fun other hother => ?_⟩
    rcases List.mem_cons.1 hother with rfl | hother
    · exact .inr ⟨_, by decide, hearlier⟩
    · exact .inl (List.mem_singleton.1 hother)
  refine ⟨?_, h, h.mostRecent_cons hearlier (by decide)⟩
  rw [hlater.compare hearlier]
  decide

end TrialBoard
