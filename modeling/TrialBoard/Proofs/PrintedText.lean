import Mathlib
import TrialBoard.Json.Printer
import TrialBoard.Json.Reader

/-!
# What printed values look like

The text of a number is a numeral: perhaps a minus, digits without a leading zero, and perhaps a
fraction and an exponent. Printed text holds no null character, and a value starts with a character
that is neither white space nor a closing bracket.

What a reader gives is nested no deeper than it has room for, and the members of a document that was
read are in the order of their keys.
-/

namespace TrialBoard

/-! ## Numerals -/

/-- Whether characters are decimal digits, the first of them a zero only if it is alone. -/
structure IsWhole (cs : List Char) : Prop where
  digits : ∀ c ∈ cs, c.isDigit = true
  nonempty : cs ≠ []
  leading : cs.head? = some '0' → cs.length = 1

/-- A number as it is written, without its sign. -/
structure Numeral where
  whole : List Char
  fraction? : Option (List Char) := none
  /-- The sign and the digits of the exponent. -/
  exponent? : Option (Char × List Char) := none
  isWhole : IsWhole whole
  fractionDigits : ∀ ds ∈ fraction?, ∀ c ∈ ds, c.isDigit = true
  exponentDigits : ∀ e ∈ exponent?, (e.1 = '+' ∨ e.1 = '-') ∧ IsWhole e.2

namespace Numeral

/-- The text of a fraction. -/
def fractionText : Option (List Char) → List Char
  | none => []
  | some ds => '.' :: ds

/-- The text of an exponent. -/
def exponentText : Option (Char × List Char) → List Char
  | none => []
  | some (sign, ds) => 'e' :: sign :: ds

/-- The text of a numeral. -/
def text (m : Numeral) : List Char :=
  m.whole ++ (fractionText m.fraction? ++ exponentText m.exponent?)

end Numeral

theorem isDigit_zero : '0'.isDigit = true := by decide

theorem digits_toDigits (n : Nat) : ∀ c ∈ Nat.toDigits 10 n, c.isDigit = true :=
  fun _ hc => Nat.isDigit_of_mem_toDigits (by decide) (by decide) hc

theorem digitChar_ne_zero : ∀ d, 0 < d → d < 10 → Nat.digitChar d ≠ '0' := by
  intro d hpos hlt
  have hall : ∀ d : Fin 10, 0 < d.val → Nat.digitChar d.val ≠ '0' := by decide
  exact hall ⟨d, hlt⟩ hpos

/-- The digits of a positive number do not begin with a zero. -/
theorem head?_toDigits {n : Nat} (hn : 0 < n) : (Nat.toDigits 10 n).head? ≠ some '0' := by
  induction n using Nat.strongRecOn with
  | ind n ih =>
    rw [Nat.toDigits_eq_if (by decide)]
    split
    · rename_i hlt
      simpa using digitChar_ne_zero n hn hlt
    · rename_i hge
      have hpos : 0 < n / 10 := by omega
      have hhead := ih (n / 10) (by omega) hpos
      rwa [List.head?_append, Option.or_of_isSome]
      simp

theorem isWhole_toDigits (n : Nat) : IsWhole (Nat.toDigits 10 n) := by
  refine ⟨digits_toDigits n, Nat.toDigits_ne_nil, fun hhead => ?_⟩
  cases n with
  | zero => rfl
  | succ n => exact absurd hhead (head?_toDigits (Nat.succ_pos n))

theorem isWhole_digit {c : Char} (h : c.isDigit = true) : IsWhole [c] :=
  ⟨by simpa using h, by simp, fun _ => rfl⟩

/-- What begins with the digits of a positive number, or some of them, has no leading zero. -/
theorem isWhole_of_head? {n : Nat} (hn : 0 < n) {cs : List Char}
    (hdigits : ∀ c ∈ cs, c.isDigit = true)
    (hhead : cs.head? = (Nat.toDigits 10 n).head?) : IsWhole cs := by
  refine ⟨hdigits, fun hnil => ?_, fun hzero => ?_⟩
  · rw [hnil, List.head?_nil, eq_comm, List.head?_eq_none_iff] at hhead
    exact Nat.toDigits_ne_nil hhead
  · rw [hhead] at hzero
    exact absurd hzero (head?_toDigits hn)

/-- A number in positional notation is a numeral. -/
theorem exists_numeral_positional {whole ds : List Char} (hwhole : IsWhole whole)
    (hds : ∀ c ∈ ds, c.isDigit = true) : ∃ m : Numeral, whole ++ '.' :: ds = m.text :=
  ⟨{ whole, fraction? := some ds, isWhole := hwhole
     fractionDigits := fun _ h => Option.some.inj h ▸ hds, exponentDigits := by simp },
    by simp [Numeral.text, Numeral.fractionText, Numeral.exponentText]⟩

/-- A number in exponent notation is a numeral. -/
theorem exists_numeral_exponential {d sign : Char} {fraction? : Option (List Char)}
    (hd : d.isDigit = true) (hfraction : ∀ ds ∈ fraction?, ∀ c ∈ ds, c.isDigit = true)
    (hsign : sign = '+' ∨ sign = '-') (n : Nat) : ∃ m : Numeral,
      d :: Numeral.fractionText fraction? ++ 'e' :: sign :: Nat.toDigits 10 n = m.text :=
  ⟨{ whole := [d], fraction?, exponent? := some (sign, Nat.toDigits 10 n)
     isWhole := isWhole_digit hd, fractionDigits := hfraction
     exponentDigits := fun _ h => Option.some.inj h ▸ ⟨hsign, isWhole_toDigits n⟩ },
    by simp [Numeral.text, Numeral.exponentText]⟩

namespace Decimal

theorem digits_pos_of_gridPoint? {i : Interval} {k : Int} {n : Nat}
    (h : i.gridPoint? k = some n) : 0 < n := by
  unfold Interval.gridPoint? at h
  generalize powerOfTen k = power at h
  obtain ⟨p, q⟩ := power
  dsimp -zeta only at h
  extract_lets below holds short long nearer farther at h
  have hpos : ∀ m, holds m = true → 0 < m := by
    intro m hm
    simp only [holds, Bool.and_eq_true, decide_eq_true_eq] at hm
    exact hm.1
  by_cases hnearer : holds nearer = true
  · rw [if_pos hnearer] at h
    exact Option.some.inj h ▸ hpos _ hnearer
  · by_cases hfarther : holds farther = true
    · rw [if_neg hnearer, if_pos hfarther] at h
      exact Option.some.inj h ▸ hpos _ hfarther
    · rw [if_neg hnearer, if_neg hfarther] at h
      cases h

theorem digits_pos_of_search {i : Interval} {n : Nat} {k : Int} {x : Decimal}
    (h : i.search n k = some x) : 0 < x.digits := by
  induction n generalizing k with
  | zero => cases h
  | succ n ih =>
    simp only [Interval.search] at h
    split at h
    · rename_i digits hdigits
      rw [← Option.some.inj h]
      exact digits_pos_of_gridPoint? hdigits
    · exact ih h

/-- A shortest decimal has digits other than zeros, or is zero. -/
theorem shortest_cases (x : Binary64) : 0 < (shortest x).digits ∨ shortest x = ⟨0, 0⟩ := by
  unfold shortest
  cases h : (Interval.around x.magnitude).search 633 308 with
  | none => exact .inr rfl
  | some d => exact .inl (digits_pos_of_search h)

theorem digits_append {ds es : List Char} (hd : ∀ c ∈ ds, c.isDigit = true)
    (he : ∀ c ∈ es, c.isDigit = true) : ∀ c ∈ ds ++ es, c.isDigit = true :=
  List.forall_mem_append.2 ⟨hd, he⟩

theorem digits_replicate (n : Nat) : ∀ c ∈ List.replicate n '0', c.isDigit = true :=
  fun _ hc => (List.eq_of_mem_replicate hc).symm ▸ isDigit_zero

theorem toList_zeros (n : Nat) : (zeros n).toList = List.replicate n '0' := by simp [zeros]

/-- The significand of exponent notation is a digit, perhaps with a point and more of them. -/
theorem exists_significand {digits : List Char} (hnil : digits ≠ [])
    (hdigits : ∀ c ∈ digits, c.isDigit = true) :
    ∃ (d : Char) (fraction? : Option (List Char)), d.isDigit = true ∧
      (∀ ds ∈ fraction?, ∀ c ∈ ds, c.isDigit = true) ∧
      (match digits with
        | [] => ""
        | [d] => String.ofList [d]
        | d :: ds => String.ofList (d :: '.' :: ds)).toList =
          d :: Numeral.fractionText fraction? := by
  cases digits with
  | nil => exact absurd rfl hnil
  | cons d ds =>
    obtain ⟨hd, hds⟩ := List.forall_mem_cons.1 hdigits
    cases ds with
    | nil => exact ⟨d, none, hd, by simp, by simp [Numeral.fractionText]⟩
    | cons e es => exact ⟨d, some (e :: es), hd, by simpa using hds, by simp [Numeral.fractionText]⟩

theorem exists_numeral_zero : ∃ m : Numeral, ['0', '.', '0'] = m.text :=
  exists_numeral_positional (isWhole_digit isDigit_zero)
    (List.forall_mem_singleton.2 isDigit_zero)

/-- A positive decimal is written as a numeral. -/
theorem exists_numeral_of_pos (x : Decimal) (hpos : 0 < x.digits) :
    ∃ m : Numeral, (Layout.interchange.format x).toList = m.text := by
  have hdigits := digits_toDigits x.digits
  unfold Layout.format
  extract_lets digits point significand exponent
  have hrepr : digits.toList = Nat.toDigits 10 x.digits := Nat.toList_repr
  have hnat : (Nat.repr exponent.natAbs).toList = Nat.toDigits 10 exponent.natAbs :=
    Nat.toList_repr
  split
  · split
    · -- Positional, without digits after the point.
      have hwhole : IsWhole (Nat.toDigits 10 x.digits ++ List.replicate x.exponent.toNat '0') := by
        refine isWhole_of_head? hpos (digits_append hdigits (digits_replicate _)) ?_
        rw [List.head?_append, Option.or_of_isSome]
        simp
      obtain ⟨m, hm⟩ := exists_numeral_positional hwhole (List.forall_mem_singleton.2 isDigit_zero)
      exact ⟨m, by rw [← hm]; simp [hrepr, toList_zeros, Layout.interchange]⟩
    · split
      · -- Positional, with the point among the digits.
        have hwhole : IsWhole ((Nat.toDigits 10 x.digits).take point.toNat) := by
          refine isWhole_of_head? hpos (fun c hc => hdigits c (List.mem_of_mem_take hc)) ?_
          rw [List.head?_take, if_neg (by omega)]
        have hrest : ∀ c ∈ (Nat.toDigits 10 x.digits).drop point.toNat, c.isDigit = true :=
          fun c hc => hdigits c (List.mem_of_mem_drop hc)
        obtain ⟨m, hm⟩ := exists_numeral_positional hwhole hrest
        exact ⟨m, by rw [← hm]; simp [hrepr]⟩
      · -- Positional, with zeros after the point.
        obtain ⟨m, hm⟩ := exists_numeral_positional (isWhole_digit isDigit_zero)
          (digits_append (digits_replicate (-point).toNat) hdigits)
        exact ⟨m, by rw [← hm]; simp [hrepr, toList_zeros]⟩
  · -- With an exponent.
    obtain ⟨d, fraction?, hd, hfraction, hsignificand⟩ :=
      exists_significand Nat.toDigits_ne_nil hdigits
    rw [← hrepr] at hsignificand
    have hsignificand : significand.toList = _ := hsignificand
    split
    · obtain ⟨m, hm⟩ := exists_numeral_exponential hd hfraction (.inr rfl) exponent.natAbs
      exact ⟨m, by rw [← hm]; simp [hsignificand, hnat, Layout.interchange]⟩
    · obtain ⟨m, hm⟩ := exists_numeral_exponential hd hfraction (.inl rfl) exponent.natAbs
      exact ⟨m, by rw [← hm]; simp [hsignificand, hnat, Layout.interchange]⟩

theorem exists_numeral_format (x : Decimal) (hx : 0 < x.digits ∨ x = ⟨0, 0⟩) :
    ∃ m : Numeral, (Layout.interchange.format x).toList = m.text := by
  rcases hx with hpos | rfl
  · exact exists_numeral_of_pos x hpos
  · exact exists_numeral_zero

end Decimal

/-- The text of a sign. -/
def signText (negative : Bool) : List Char := if negative then ['-'] else []

theorem toList_toString_ofNat (n : Nat) :
    (toString (Int.ofNat n)).toList = Nat.toDigits 10 n := by
  rw [← Nat.toList_repr]
  rfl

theorem toList_toString_negSucc (n : Nat) :
    (toString (Int.negSucc n)).toList = '-' :: Nat.toDigits 10 (n + 1) := by
  rw [← Nat.toList_repr]
  exact String.toList_append

theorem text_integer (value : Int) (h : FitsWord value) :
    (JsonNumber.integer value h).text = (toString value).toList := by
  rw [JsonNumber.text]

theorem text_real (value : Binary64) : (JsonNumber.real value).text =
    signText value.negative ++ (if value.isZero then "0.0"
      else Decimal.Layout.interchange.format (Decimal.shortest value)).toList := by
  simp only [JsonNumber.text, Decimal.Layout.formatBinary64, Decimal.Layout.interchange, if_true]
  cases value.negative <;> simp [signText]

/-- The digits of a natural number as a numeral. -/
def Numeral.ofNat (n : Nat) : Numeral where
  whole := Nat.toDigits 10 n
  isWhole := isWhole_toDigits n
  fractionDigits := by simp
  exponentDigits := by simp

theorem Numeral.text_ofNat (n : Nat) : (Numeral.ofNat n).text = Nat.toDigits 10 n :=
  List.append_nil _

/-- An integer is written with its sign and the digits of its absolute value. -/
theorem text_integer_eq (value : Int) (h : FitsWord value) :
    (JsonNumber.integer value h).text =
      signText (decide (value < 0)) ++ (Numeral.ofNat value.natAbs).text := by
  rw [text_integer, Numeral.text_ofNat]
  cases value with
  | ofNat n =>
    have hsign : decide (Int.ofNat n < 0) = false :=
      decide_eq_false (Int.not_lt.2 (Int.natCast_nonneg n))
    rw [toList_toString_ofNat, hsign]
    rfl
  | negSucc n =>
    have hsign : decide (Int.negSucc n < 0) = true := decide_eq_true (Int.negSucc_lt_zero n)
    rw [toList_toString_negSucc, hsign]
    rfl

theorem exists_numeral_real (value : Binary64) : ∃ m : Numeral, (if value.isZero then "0.0"
    else Decimal.Layout.interchange.format (Decimal.shortest value)).toList = m.text := by
  by_cases hzero : value.isZero = true
  · rw [if_pos hzero]
    exact Decimal.exists_numeral_zero
  · rw [if_neg hzero]
    exact Decimal.exists_numeral_format _ (Decimal.shortest_cases value)

/-- The text of every number is a numeral after its sign. -/
theorem exists_numeral_text (n : JsonNumber) :
    ∃ (negative : Bool) (m : Numeral), n.text = signText negative ++ m.text := by
  cases n with
  | integer value inRange => exact ⟨_, _, text_integer_eq value inRange⟩
  | real value =>
    obtain ⟨m, hm⟩ := exists_numeral_real value
    exact ⟨value.negative, m, by rw [text_real, hm]⟩

/-! ## How deep a value is nested -/

namespace Json

/-- Whether a value is nested no deeper than there is room for. -/
def FitsIn : Nat → Json → Prop
  | 0, array _ => False
  | 0, object _ => False
  | room + 1, array items => ∀ item ∈ items, FitsIn room item
  | room + 1, object members => ∀ member ∈ members, FitsIn room member.2
  | _, _ => True

theorem FitsIn.mono {room room' : Nat} {v : Json} (h : v.FitsIn room) (hle : room ≤ room') :
    v.FitsIn room' := by
  induction room generalizing room' v with
  | zero => cases v <;> first | exact h.elim | (cases room' <;> exact trivial)
  | succ room ih =>
    obtain ⟨n, rfl⟩ : ∃ n, room' = n + 1 := ⟨room' - 1, by omega⟩
    cases v with
    | array items => exact fun item hitem => ih (h item hitem) (by omega)
    | object members => exact fun member hmember => ih (h member hmember) (by omega)
    | null | bool | number | string => exact trivial

mutual

/-- Every value fits somewhere. -/
theorem exists_fitsIn : (v : Json) → ∃ room, v.FitsIn room
  | .null | .bool _ | .number _ | .string _ => ⟨0, trivial⟩
  | .array items =>
    have ⟨room, hroom⟩ := exists_fitsIn_items items
    ⟨room + 1, hroom⟩
  | .object members =>
    have ⟨room, hroom⟩ := exists_fitsIn_members members
    ⟨room + 1, hroom⟩

theorem exists_fitsIn_items : (items : List Json) → ∃ room, ∀ item ∈ items, item.FitsIn room
  | [] => ⟨0, fun _ h => absurd h List.not_mem_nil⟩
  | item :: items => by
    obtain ⟨room, hroom⟩ := exists_fitsIn item
    obtain ⟨room', hroom'⟩ := exists_fitsIn_items items
    exact ⟨max room room', List.forall_mem_cons.2 ⟨hroom.mono (le_max_left _ _),
      fun item hitem => (hroom' item hitem).mono (le_max_right _ _)⟩⟩

theorem exists_fitsIn_members : (members : List (String × Json)) →
    ∃ room, ∀ member ∈ members, member.2.FitsIn room
  | [] => ⟨0, fun _ h => absurd h List.not_mem_nil⟩
  | (name, value) :: members => by
    obtain ⟨room, hroom⟩ := exists_fitsIn value
    obtain ⟨room', hroom'⟩ := exists_fitsIn_members members
    exact ⟨max room room', List.forall_mem_cons.2 ⟨hroom.mono (le_max_left _ _),
      fun member hmember => (hroom' member hmember).mono (le_max_right _ _)⟩⟩

end

section Reading

variable {α β : Type}

theorem Reading.andThen_eq_ok {r : Reading α} {next : α → List Char → Reading β} {b : β}
    {rest : List Char} (h : r.andThen next = .ok b rest) :
    ∃ a mid, r = .ok a mid ∧ next a mid = .ok b rest := by
  cases r with
  | ok a mid => exact ⟨a, mid, rfl, h⟩
  | fault f => cases h

theorem Reading.map_eq_ok {f : α → β} {r : Reading α} {b : β} {rest : List Char}
    (h : r.map f = .ok b rest) : ∃ a, r = .ok a rest ∧ f a = b := by
  cases r with
  | ok a mid =>
    simp only [map_ok, ok.injEq] at h
    exact ⟨a, by rw [h.2], h.1⟩
  | fault e => cases h

theorem enclosed_eq_ok {close : List Char → Reading Unit} {past : List Char → List Char}
    {contents : Reading α} {a : α} {rest : List Char}
    (h : enclosed close past contents = .ok a rest) : ∃ mid, contents = .ok a mid := by
  cases contents with
  | ok b mid =>
    obtain ⟨-, -, rfl⟩ := Reading.map_eq_ok h
    exact ⟨mid, rfl⟩
  | fault f => cases h

theorem forall_of_items {item : List Char → Reading α} {p : α → Prop}
    (hitem : ∀ cs a rest, item cs = .ok a rest → p a) {fuel : Nat} {first : Bool}
    {cs rest : List Char} {as : List α} (h : items item fuel first cs = .ok as rest) :
    ∀ a ∈ as, p a := by
  induction fuel generalizing first cs as rest with
  | zero => cases h
  | succ fuel ih =>
    obtain ⟨more, mid, -, h⟩ := Reading.andThen_eq_ok h
    cases more with
    | false =>
      rw [if_neg Bool.false_ne_true] at h
      cases h
      simp
    | true =>
      rw [if_pos rfl] at h
      obtain ⟨a, mid', ha, h⟩ := Reading.andThen_eq_ok h
      obtain ⟨as', has, rfl⟩ := Reading.map_eq_ok h
      exact List.forall_mem_cons.2 ⟨hitem _ _ _ ha, ih has⟩

theorem forall_of_members {item : List Char → Reading α} {p : α → Prop}
    (hitem : ∀ cs a rest, item cs = .ok a rest → p a) {fuel : Nat} {first : Bool}
    {cs rest : List Char} {ms : List (String × α)}
    (h : members item fuel first cs = .ok ms rest) : ∀ m ∈ ms, p m.2 := by
  induction fuel generalizing first cs ms rest with
  | zero => cases h
  | succ fuel ih =>
    obtain ⟨key?, mid, -, h⟩ := Reading.andThen_eq_ok h
    cases key? with
    | none =>
      cases h
      simp
    | some key =>
      obtain ⟨-, mid', -, h⟩ := Reading.andThen_eq_ok h
      obtain ⟨a, mid'', ha, h⟩ := Reading.andThen_eq_ok h
      obtain ⟨ms', hms, rfl⟩ := Reading.map_eq_ok h
      exact List.forall_mem_cons.2 ⟨hitem _ _ _ ha, ih hms⟩

theorem fitsIn_scalar {cs rest : List Char} {v : Json} (h : scalar cs = .ok v rest)
    (room : Nat) : v.FitsIn room := by
  cases cs with
  | nil => cases h
  | cons c cs =>
    unfold scalar at h
    repeat' split at h
    all_goals first
      | (obtain ⟨a, -, rfl⟩ := Reading.map_eq_ok h; cases room <;> trivial)
      | cases h

/-- A reader gives no value that is nested deeper than it has room for. -/
theorem fitsIn_raw {room : Nat} {cs rest : List Char} {v : Json}
    (h : raw room cs = .ok v rest) : v.FitsIn room := by
  induction room generalizing cs v rest with
  | zero =>
    unfold raw at h
    split at h
    · cases h
    · cases h
    · exact fitsIn_scalar h 0
  | succ room ih =>
    unfold raw at h
    split at h
    · obtain ⟨as, has, rfl⟩ := Reading.map_eq_ok h
      obtain ⟨mid, has⟩ := enclosed_eq_ok has
      exact forall_of_items (fun _ _ _ hitem => ih hitem) has
    · obtain ⟨ms, hms, rfl⟩ := Reading.map_eq_ok h
      obtain ⟨mid, hms⟩ := enclosed_eq_ok hms
      exact forall_of_members (fun _ _ _ hitem => ih hitem) hms
    · exact fitsIn_scalar h _

end Reading

/-! ## Objects made canonical -/

theorem canonicalItems_eq_map (items : List Json) : canonicalItems items = items.map canonical := by
  induction items with
  | nil => rfl
  | cons item items ih => rw [canonicalItems, ih, List.map_cons]

theorem canonicalMembers_eq_map (members : List (String × Json)) :
    canonicalMembers members = members.map fun m => (m.1, m.2.canonical) := by
  induction members with
  | nil => rfl
  | cons m members ih => rw [canonicalMembers, ih, List.map_cons]

namespace Members

/-- Whether the keys are in order, each once. -/
def Sorted (members : Members) : Prop := members.Pairwise fun m n => m.1 < n.1

variable {key : String} {value : Json} {ms : Members} {m : String × Json}

theorem mem_insert (h : m ∈ ms.insert key value) : m = (key, value) ∨ m ∈ ms := by
  induction ms with
  | nil => exact .inl (List.mem_singleton.1 h)
  | cons n ms ih =>
    obtain ⟨k, v⟩ := n
    unfold insert at h
    split at h
    · exact (List.mem_cons.1 h).imp_right (List.mem_cons_of_mem _)
    · split at h
      · exact List.mem_cons.1 h
      · rcases List.mem_cons.1 h with rfl | h
        · exact .inr List.mem_cons_self
        · exact (ih h).imp_right (List.mem_cons_of_mem _)

theorem sorted_insert (h : Sorted ms) (key : String) (value : Json) :
    Sorted (ms.insert key value) := by
  induction ms with
  | nil => exact List.pairwise_singleton _ _
  | cons n ms ih =>
    obtain ⟨k, v⟩ := n
    obtain ⟨hk, hms⟩ := List.pairwise_cons.1 h
    unfold insert
    split
    · rename_i heq
      exact List.pairwise_cons.2 ⟨heq ▸ hk, hms⟩
    · rename_i hne
      split
      · rename_i hlt
        refine List.pairwise_cons.2 ⟨fun n hn => ?_, h⟩
        rcases List.mem_cons.1 hn with rfl | hn
        · exact hlt
        · exact String.lt_trans hlt (hk n hn)
      · rename_i hge
        refine List.pairwise_cons.2 ⟨fun n hn => ?_, ih hms⟩
        rcases mem_insert hn with rfl | hn
        · exact Classical.byContradiction fun hlt =>
            hne (String.le_antisymm (String.not_lt.1 hlt) (String.not_lt.1 hge))
        · exact hk n hn

theorem mem_ofList {l : List (String × Json)} (h : m ∈ ofList l) : m ∈ l := by
  have hall : ∀ (l : List (String × Json)) (sorted : Members),
      m ∈ l.foldl (fun sorted n => insert n.1 n.2 sorted) sorted →
        m ∈ l ∨ m ∈ sorted := by
    intro l
    induction l with
    | nil => exact fun _ h => .inr h
    | cons n l ih =>
      intro sorted h
      rcases ih _ h with h | h
      · exact .inl (List.mem_cons_of_mem _ h)
      · refine (mem_insert h).imp_left fun heq => ?_
        rw [heq]
        exact List.mem_cons_self
  exact (hall l [] h).resolve_right List.not_mem_nil

theorem sorted_ofList (l : List (String × Json)) : Sorted (ofList l) := by
  have hall : ∀ (l : List (String × Json)) (sorted : Members), Sorted sorted →
      Sorted (l.foldl (fun sorted n => insert n.1 n.2 sorted) sorted) := by
    intro l
    induction l with
    | nil => exact fun _ h => h
    | cons n l ih => exact fun sorted h => ih _ (sorted_insert h n.1 n.2)
  exact hall l [] List.Pairwise.nil

end Members

theorem FitsIn.canonical {room : Nat} {v : Json} (h : v.FitsIn room) :
    v.canonical.FitsIn room := by
  induction room generalizing v with
  | zero => cases v <;> first | exact h.elim | trivial
  | succ room ih =>
    cases v with
    | array items =>
      simp only [Json.canonical, canonicalItems_eq_map]
      intro item hitem
      obtain ⟨item, hmem, rfl⟩ := List.mem_map.1 hitem
      exact ih (h item hmem)
    | object members =>
      simp only [Json.canonical, canonicalMembers_eq_map]
      intro member hmember
      obtain ⟨m, hmem, rfl⟩ := List.mem_map.1 (Members.mem_ofList hmember)
      exact ih (h m hmem)
    | null | bool | number | string => trivial

/-- A value that is read from a text is nested no deeper than readers allow, and made canonical. -/
theorem parse_eq_ok {text : String} {v : Json} (h : parse text = .ok v) :
    ∃ w : Json, w.FitsIn maxDepth ∧ v = w.canonical := by
  unfold parse readAll at h
  cases hraw : raw maxDepth text.toList with
  | fault f => simp [hraw, Except.map] at h
  | ok w rest =>
    refine ⟨w, fitsIn_raw hraw, ?_⟩
    simp only [hraw] at h
    split at h
    · exact (Except.ok.inj h).symm
    · cases h

end Json

end TrialBoard
