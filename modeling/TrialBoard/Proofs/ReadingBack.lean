import TrialBoard.Proofs.Rereading
import TrialBoard.Proofs.TableRows

/-!
# Values that read back

A value reads back from its text if it is canonical, if readers have room for it, and if its real
numbers are read as themselves. For a row that means: its keys are in order, and each of its values
is such a value in the room that is left inside the row.
-/

namespace TrialBoard.Json

variable {room : Nat}

/-! ## Lists of values -/

theorem mapM_eq_some_iff {α β : Type} {f : α → Option β} {as : List α} {bs : List β} :
    as.mapM f = some bs ↔ List.Forall₂ (fun a b => f a = some b) as bs := by
  induction as generalizing bs with
  | nil =>
    rw [List.mapM_nil, List.forall₂_nil_left_iff]
    exact Option.some_inj.trans eq_comm
  | cons a as ih =>
    rw [List.mapM_cons, List.forall₂_cons_left_iff]
    simp only [← ih]
    cases f a with
    | none => simp
    | some b =>
      cases as.mapM f with
      | none => simp
      | some bs' => simp [eq_comm]

theorem mapM_eq_self_iff {α : Type} {f : α → Option α} {as : List α} :
    as.mapM f = some as ↔ ∀ a ∈ as, f a = some a := by
  rw [mapM_eq_some_iff, List.forall₂_same]

theorem exists_of_forall₂ {α β : Type} {R : α → β → Prop} {as : List α} {bs : List β}
    (h : List.Forall₂ R as bs) {a : α} (ha : a ∈ as) : ∃ b ∈ bs, R a b := by
  induction h with
  | nil => cases ha
  | cons hhead _ ih =>
    rcases List.mem_cons.1 ha with rfl | ha
    · exact ⟨_, List.mem_cons_self, hhead⟩
    · obtain ⟨b, hb, hR⟩ := ih ha
      exact ⟨b, List.mem_cons_of_mem _ hb, hR⟩

end TrialBoard.Json

/-! ## Canonical values -/

namespace TrialBoard.Json.Members

variable {key : String} {value : Json} {ms : Members}

theorem lookup_cons (key k : String) (v : Json) (ms : List (String × Json)) :
    List.lookup key ((k, v) :: ms) = if key = k then some v else List.lookup key ms := by
  rw [List.lookup_cons]
  by_cases h : key = k
  · rw [if_pos h, beq_iff_eq.2 h]
  · rw [if_neg h, beq_eq_false_iff_ne.2 h]

theorem get?_insert (ms : Members) (k : String) (v : Json) (key : String) :
    (ms.insert k v).get? key = if key = k then some v else ms.get? key := by
  split
  · rename_i heq
    rw [heq, get?_insert_self]
  · rename_i hne
    exact get?_insert_of_ne hne v ms

theorem insert_of_lt (h : ∀ m ∈ ms, m.1 < key) : ms.insert key value = ms ++ [(key, value)] := by
  induction ms with
  | nil => rfl
  | cons m ms ih =>
    obtain ⟨k, v⟩ := m
    obtain ⟨hk, hms⟩ := List.forall_mem_cons.1 h
    have hne : key ≠ k := by
      rintro rfl
      exact String.lt_irrefl key hk
    rw [insert, if_neg hne, if_neg (String.lt_asymm hk), ih hms, List.cons_append]

/-- Members in the order of their keys stay as they are. -/
theorem ofList_of_sorted (h : Sorted ms) : ofList ms = ms := by
  have hall : ∀ (ms sorted : Members), Sorted (sorted ++ ms) →
      ms.foldl (fun sorted m => insert m.1 m.2 sorted) sorted = sorted ++ ms := by
    intro ms
    induction ms with
    | nil => exact fun sorted _ => (List.append_nil sorted).symm
    | cons m ms ih =>
      obtain ⟨key, value⟩ := m
      intro sorted hsorted
      have hbefore : ∀ n ∈ sorted, n.1 < key :=
        fun n hn => (List.pairwise_append.1 hsorted).2.2 n hn (key, value) List.mem_cons_self
      have hstep : sorted.insert key value = sorted ++ [(key, value)] := insert_of_lt hbefore
      rw [List.foldl_cons]
      change ms.foldl _ (sorted.insert key value) = _
      rw [hstep, ih _ (by rwa [List.append_assoc]), List.append_assoc, List.singleton_append]
  exact hall ms [] h

/-- Whether keys are in order does not depend on the values. -/
theorem sorted_iff_keys : Sorted ms ↔ (ms.map Prod.fst).Pairwise (· < ·) :=
  List.pairwise_map.symm

theorem sorted_map_iff {f : Json → Json} : Sorted (ms.map fun m => (m.1, f m.2)) ↔ Sorted ms :=
  List.pairwise_map

end TrialBoard.Json.Members

namespace TrialBoard.Json

variable {room : Nat}

theorem canonical_array_iff {items : List Json} :
    (array items).canonical = array items ↔ ∀ item ∈ items, item.canonical = item := by
  rw [canonical, canonicalItems_eq_map, array.injEq]
  constructor
  · intro h item hitem
    have hfixed : items.map canonical = items.map id := by rw [h, List.map_id]
    exact List.map_inj_left.1 hfixed item hitem
  · intro h
    rw [List.map_congr_left h, List.map_id']

/-- The canonical objects have their keys in order and canonical values. -/
theorem canonical_object_iff {ms : List (String × Json)} :
    (object ms).canonical = object ms ↔
      Members.Sorted ms ∧ ∀ m ∈ ms, m.2.canonical = m.2 := by
  rw [canonical, canonicalMembers_eq_map, object.injEq]
  constructor
  · intro h
    have hsorted : Members.Sorted ms := h ▸ Members.sorted_ofList _
    rw [Members.ofList_of_sorted (Members.sorted_map_iff.2 hsorted)] at h
    have hfixed : ms.map (fun m => (m.1, m.2.canonical)) = ms.map id := by rw [h, List.map_id]
    exact ⟨hsorted, fun m hm => congrArg Prod.snd (List.map_inj_left.1 hfixed m hm)⟩
  · rintro ⟨hsorted, hvalues⟩
    have hfixed : ms.map (fun m => (m.1, m.2.canonical)) = ms := by
      refine (List.map_congr_left fun m hm => ?_).trans (List.map_id ms)
      rw [hvalues m hm]
      rfl
    rw [hfixed, Members.ofList_of_sorted hsorted]

/-- Making a value canonical twice is the same as once. -/
theorem canonical_canonical {v : Json} (h : v.FitsIn room) :
    v.canonical.canonical = v.canonical := by
  induction room generalizing v with
  | zero => cases v <;> first | exact h.elim | rfl
  | succ room ih =>
    cases v with
    | array items =>
      rw [canonical, canonical_array_iff, canonicalItems_eq_map]
      intro item hitem
      obtain ⟨item, hmem, rfl⟩ := List.mem_map.1 hitem
      exact ih (h item hmem)
    | object ms =>
      rw [canonical, canonical_object_iff, canonicalMembers_eq_map]
      refine ⟨Members.sorted_ofList _, fun m hm => ?_⟩
      obtain ⟨m, hmem, rfl⟩ := List.mem_map.1 (Members.mem_ofList hm)
      exact ih (h m hmem)
    | null | bool | number | string => rfl

theorem canonical_of_isScalar {v : Json} (hv : v.IsScalar) : v.canonical = v := by
  cases v with
  | array | object => exact hv.elim
  | null | bool | number | string => rfl

/-- A value whose canonical form is read as the value is canonical. -/
theorem canonical_of_reread {v : Json} (h : reread room v.canonical = some v) :
    v.canonical = v := by
  induction room generalizing v with
  | zero =>
    cases v with
    | array | object => cases h
    | null | bool | number | string => exact canonical_of_isScalar (by trivial)
  | succ room ih =>
    cases v with
    | array items =>
      rw [canonical, canonicalItems_eq_map, reread_array, Option.map_eq_some_iff] at h
      obtain ⟨items', hitems, heq⟩ := h
      rw [array.inj heq, mapM_eq_some_iff, List.forall₂_map_left_iff, List.forall₂_same] at hitems
      exact canonical_array_iff.2 fun item hitem => ih (hitems item hitem)
    | object ms =>
      rw [canonical, canonicalMembers_eq_map, reread_object, Option.map_eq_some_iff] at h
      obtain ⟨ms', hms, heq⟩ := h
      rw [object.inj heq, mapM_eq_some_iff] at hms
      have hkeys : (Members.ofList (ms.map fun m => (m.1, m.2.canonical))).map Prod.fst =
          ms.map Prod.fst := by
        refine List.forall₂_eq_eq_eq ▸ List.forall₂_map_left_iff.2 (List.forall₂_map_right_iff.2 ?_)
        refine hms.imp fun m n hread => ?_
        obtain ⟨value, -, rfl⟩ := Option.map_eq_some_iff.1 hread
        rfl
      have hsorted : Members.Sorted ms := by
        rw [Members.sorted_iff_keys, ← hkeys, ← Members.sorted_iff_keys]
        exact Members.sorted_ofList _
      rw [Members.ofList_of_sorted (Members.sorted_map_iff.2 hsorted), List.forall₂_map_left_iff,
        List.forall₂_same] at hms
      refine canonical_object_iff.2 ⟨hsorted, fun m hm => ?_⟩
      obtain ⟨value, hvalue, heq⟩ := Option.map_eq_some_iff.1 (hms m hm)
      obtain rfl : value = m.2 := congrArg Prod.snd heq
      exact ih hvalue
    | null | bool | number | string => exact canonical_of_isScalar (by trivial)

/-! ## Values that are read as themselves -/

/-- What the text of a value is read as, by a reader of whole texts. -/
theorem parse_render (v : Json) {w : Json} :
    parse v.render = .ok w ↔ (reread maxDepth v).map canonical = some w := by
  have hread : (raw maxDepth v.render.toList).value? = (reread maxDepth v).map (·, []) := by
    have hraw := (settles_raw maxDepth v).append ends_nil
    rw [List.append_nil] at hraw
    rw [render, String.toList_ofList, hraw]
    rfl
  unfold parse readAll
  cases hraw : raw maxDepth v.render.toList with
  | ok value rest =>
    rw [hraw] at hread
    obtain ⟨value', hvalue, heq⟩ := Option.map_eq_some_iff.1 hread.symm
    obtain ⟨rfl, rfl⟩ := Prod.mk.inj heq
    simp only [hraw, hvalue, Option.map_some, Option.some.injEq]
    exact ⟨Except.ok.inj, congrArg _⟩
  | fault f =>
    rw [hraw] at hread
    rw [Option.map_eq_none_iff.1 hread.symm]
    simp only [hraw]
    exact ⟨fun h => (by cases h), fun h => (by cases h)⟩

/-- Whether a value is canonical and its text is read as the value itself, by a reader with so
much room. -/
structure Rereads (room : Nat) (v : Json) : Prop where
  canonical : v.canonical = v
  reread : v.reread room = some v

/-- A value that is read, and made canonical, as itself. -/
theorem rereads_iff {v : Json} : (reread room v).map canonical = some v ↔ v.Rereads room := by
  rw [Option.map_eq_some_iff]
  constructor
  · rintro ⟨w, hw, rfl⟩
    have heq := canonical_of_reread hw
    exact ⟨heq.symm ▸ heq, by rwa [heq] at hw ⊢⟩
  · exact fun h => ⟨v, h.reread, h.canonical⟩

theorem parse_render_iff {v : Json} : parse v.render = .ok v ↔ v.Rereads maxDepth :=
  (parse_render v).trans rereads_iff

theorem rereads_array_iff {items : List Json} :
    (array items).Rereads (room + 1) ↔ ∀ item ∈ items, item.Rereads room := by
  have hread : (array items).reread (room + 1) = some (array items) ↔
      ∀ item ∈ items, item.reread room = some item := by
    rw [reread_array, ← mapM_eq_self_iff, Option.map_eq_some_iff]
    exact ⟨fun ⟨_, hitems, heq⟩ => array.inj heq ▸ hitems, fun hitems => ⟨_, hitems, rfl⟩⟩
  constructor
  · exact fun h item hitem =>
      ⟨canonical_array_iff.1 h.canonical item hitem, hread.1 h.reread item hitem⟩
  · exact fun h => ⟨canonical_array_iff.2 fun item hitem => (h item hitem).canonical,
      hread.2 fun item hitem => (h item hitem).reread⟩

theorem rereads_object_iff {ms : List (String × Json)} :
    (object ms).Rereads (room + 1) ↔ Members.Sorted ms ∧ ∀ m ∈ ms, m.2.Rereads room := by
  have hread : (object ms).reread (room + 1) = some (object ms) ↔
      ∀ m ∈ ms, (m.2.reread room).map (m.1, ·) = some m := by
    rw [reread_object, ← mapM_eq_self_iff, Option.map_eq_some_iff]
    exact ⟨fun ⟨_, hms, heq⟩ => object.inj heq ▸ hms, fun hms => ⟨_, hms, rfl⟩⟩
  have hvalue : ∀ m : String × Json,
      (m.2.reread room).map (m.1, ·) = some m ↔ m.2.reread room = some m.2 := by
    intro m
    rw [Option.map_eq_some_iff]
    exact ⟨fun ⟨_, hm, heq⟩ => hm.trans (congrArg _ (congrArg Prod.snd heq)),
      fun hm => ⟨_, hm, rfl⟩⟩
  constructor
  · intro h
    obtain ⟨hsorted, hcanonical⟩ := canonical_object_iff.1 h.canonical
    exact ⟨hsorted, fun m hm => ⟨hcanonical m hm, (hvalue m).1 (hread.1 h.reread m hm)⟩⟩
  · rintro ⟨hsorted, h⟩
    exact ⟨canonical_object_iff.2 ⟨hsorted, fun m hm => (h m hm).canonical⟩,
      hread.2 fun m hm => (hvalue m).2 (h m hm).reread⟩

theorem rereads_string (room : Nat) (s : String) : (string s).Rereads room :=
  ⟨rfl, reread_string room s⟩

/-- Whether a value is another or lies somewhere inside of it. -/
inductive Within (v : Json) : Json → Prop where
  | self : Within v v
  | item {items : List Json} {item : Json} (hitem : item ∈ items) (h : Within v item) :
    Within v (array items)
  | member {ms : List (String × Json)} {m : String × Json} (hm : m ∈ ms) (h : Within v m.2) :
    Within v (object ms)

/-- Whether the real numbers in a value are read as themselves from their own texts. -/
def RealsReadBack (v : Json) : Prop :=
  ∀ x, (number (.real x)).Within v → parse (number (.real x)).render = .ok (number (.real x))

theorem rereads_of_isScalar {v : Json} (hv : v.IsScalar) (hreals : v.RealsReadBack) (room : Nat) :
    v.Rereads room := by
  refine ⟨canonical_of_isScalar hv, ?_⟩
  cases v with
  | null => exact reread_of_scalar hv room
  | bool b => exact (reread_of_scalar hv room).trans (by cases b <;> rfl)
  | string s => exact reread_string room s
  | number n =>
    cases n with
    | integer value h => exact reread_integer value h room
    | real x =>
      obtain ⟨value?, hvalue⟩ := reread_number (.real x)
      have hread := (parse_render_iff.1 (hreals x .self)).reread
      rwa [hvalue] at hread ⊢
  | array | object => exact hv.elim

/-- A canonical value is read as itself where there is room for it and its real numbers are. -/
theorem rereads_of_fitsIn {v : Json} (hfits : v.FitsIn room) (hcanonical : v.canonical = v)
    (hreals : v.RealsReadBack) : v.Rereads room := by
  induction room generalizing v with
  | zero =>
    cases v with
    | array | object => exact hfits.elim
    | null | bool | number | string => exact rereads_of_isScalar (by trivial) hreals 0
  | succ room ih =>
    cases v with
    | array items =>
      refine rereads_array_iff.2 fun item hitem => ?_
      exact ih (hfits item hitem) (canonical_array_iff.1 hcanonical item hitem)
        fun x hx => hreals x (hx.item hitem)
    | object ms =>
      obtain ⟨hsorted, hvalues⟩ := canonical_object_iff.1 hcanonical
      refine rereads_object_iff.2 ⟨hsorted, fun m hm => ?_⟩
      exact ih (hfits m hm) (hvalues m hm) fun x hx => hreals x (hx.member hm)
    | null | bool | number | string => exact rereads_of_isScalar (by trivial) hreals _

/-- Only a value that there is room for is read from its text. -/
theorem fitsIn_of_reread {v w : Json} (h : reread room v = some w) : v.FitsIn room := by
  induction room generalizing v w with
  | zero =>
    cases v with
    | array | object => cases h
    | null | bool | number | string => trivial
  | succ room ih =>
    cases v with
    | array items =>
      rw [reread_array, Option.map_eq_some_iff] at h
      obtain ⟨items', hitems, -⟩ := h
      intro item hitem
      obtain ⟨item', -, hread⟩ := exists_of_forall₂ (mapM_eq_some_iff.1 hitems) hitem
      exact ih hread
    | object ms =>
      rw [reread_object, Option.map_eq_some_iff] at h
      obtain ⟨ms', hms, -⟩ := h
      intro m hm
      obtain ⟨m', -, hread⟩ := exists_of_forall₂ (mapM_eq_some_iff.1 hms) hm
      obtain ⟨value, hvalue, -⟩ := Option.map_eq_some_iff.1 hread
      exact ih hvalue
    | null | bool | number | string => trivial

/-- What lies inside a value that is read as itself is read as itself too. -/
theorem Rereads.within {v w : Json} (h : v.Rereads room) (hwithin : w.Within v) :
    ∃ room', w.Rereads room' := by
  induction hwithin generalizing room with
  | self => exact ⟨room, h⟩
  | item hitem _ ih =>
    cases room with
    | zero => exact nomatch h.reread
    | succ room => exact ih (rereads_array_iff.1 h _ hitem)
  | member hm _ ih =>
    cases room with
    | zero => exact nomatch h.reread
    | succ room => exact ih ((rereads_object_iff.1 h).2 _ hm)

theorem Rereads.realsReadBack {v : Json} (h : v.Rereads room) : v.RealsReadBack := by
  intro x hx
  obtain ⟨room', hreads⟩ := h.within hx
  obtain ⟨value?, hvalue⟩ := reread_number (.real x)
  refine parse_render_iff.2 ⟨rfl, ?_⟩
  rw [hvalue, ← hvalue room']
  exact hreads.reread

/-- What a reader gave is canonical, and it had room for it. -/
theorem fitsIn_of_parse {text : String} {v : Json} (h : parse text = .ok v) :
    v.FitsIn maxDepth ∧ v.canonical = v := by
  obtain ⟨w, hw, rfl⟩ := parse_eq_ok h
  exact ⟨hw.canonical, canonical_canonical hw⟩

/-! ## Real numbers -/

theorem ne_integer_of_scientific {negative : Bool} {n : Nat} {e : Int} {cs rest : List Char}
    {value : Int} {h : FitsWord value} :
    scientific negative n e cs ≠ .ok (.integer value h) rest := by
  unfold scientific
  split <;> intro heq <;> cases heq

theorem ne_integer_of_exponentPart {negative : Bool} {n : Nat} {start : Int} {cs rest : List Char}
    {value : Int} {h : FitsWord value} :
    exponentPart negative n start cs ≠ .ok (.integer value h) rest := by
  unfold exponentPart
  intro heq
  split at heq
  split at heq
  · cases heq
  · split at heq
    · split at heq
      · exact ne_integer_of_scientific heq
      · split at heq <;> cases heq
    · cases heq

theorem ne_integer_of_optionalExponent {negative : Bool} {n : Nat} {e : Int} {cs rest : List Char}
    {value : Int} {h : FitsWord value} :
    optionalExponent negative n e cs ≠ .ok (.integer value h) rest := by
  unfold optionalExponent
  intro heq
  split at heq
  · exact ne_integer_of_exponentPart heq
  · exact ne_integer_of_exponentPart heq
  · exact ne_integer_of_scientific heq

theorem ne_integer_of_fractionPart {negative : Bool} {n : Nat} {start : Int} {cs rest : List Char}
    {value : Int} {h : FitsWord value} :
    fractionPart negative n start cs ≠ .ok (.integer value h) rest := by
  unfold fractionPart
  intro heq
  split at heq
  · split at heq <;> cases heq
  · exact ne_integer_of_optionalExponent heq

/-- Where an integer is read, nothing but digits is. -/
theorem rest_of_afterWhole {negative : Bool} {n dropped : Nat} {cs rest : List Char}
    {value : Int} {h : FitsWord value}
    (hread : afterWhole negative n dropped cs = .ok (.integer value h) rest) : cs = rest := by
  unfold afterWhole at hread
  split at hread
  · exact absurd hread ne_integer_of_fractionPart
  · exact absurd hread ne_integer_of_exponentPart
  · exact absurd hread ne_integer_of_exponentPart
  · split at hread
    · exact (Reading.ok.inj hread).2
    · exact absurd hread ne_integer_of_scientific

theorem digits_of_takeDigits {n k : Nat} {cs : List Char}
    (h : ∀ c ∈ (takeDigits n k cs).2.2, c.isDigit = true) : ∀ c ∈ cs, c.isDigit = true := by
  induction cs generalizing n k with
  | nil => exact fun c hc => absurd hc List.not_mem_nil
  | cons c cs ih =>
    rw [takeDigits] at h
    split at h
    · rename_i hc
      exact List.forall_mem_cons.2 ⟨hc.1, ih h⟩
    · exact h

theorem digits_of_unsignedNumber {negative : Bool} {cs : List Char} {value : Int}
    {h : FitsWord value} (hread : unsignedNumber negative cs = .ok (.integer value h) []) :
    ∀ c ∈ cs, c.isDigit = true := by
  cases cs with
  | nil => exact fun c hc => absurd hc List.not_mem_nil
  | cons c cs =>
    rw [unsignedNumber] at hread
    split at hread
    · rename_i hzero
      split at hread
      · rw [rest_of_afterWhole hread, hzero]
        exact List.forall_mem_singleton.2 (by decide)
      · cases hread
    · split at hread
      · rename_i hc
        have hrest := List.dropWhile_eq_nil_iff.1 (rest_of_afterWhole hread)
        exact List.forall_mem_cons.2 ⟨hc, digits_of_takeDigits hrest⟩
      · cases hread

/-- A real number is written with a point or an exponent. -/
theorem exists_mem_format (x : Decimal) :
    ∃ c ∈ (Decimal.Layout.interchange.format x).toList, c.isDigit = false := by
  have hpoint : Char.isDigit '.' = false := by decide
  have hletter : Char.isDigit 'e' = false := by decide
  unfold Decimal.Layout.format
  dsimp only
  split
  · refine ⟨'.', ?_, hpoint⟩
    split
    · simp [Decimal.Layout.interchange]
    · split <;> simp
  · refine ⟨'e', ?_, hletter⟩
    split <;> simp [Decimal.Layout.interchange]

/-- A real number is not read as an integer. -/
theorem reread_real {room : Nat} {x : Binary64} {w : Json}
    (h : reread room (number (.real x)) = some w) : ∃ y, w = number (.real y) := by
  have htext : ∃ m : Numeral, (JsonNumber.real x).text = signText x.negative ++ m.text ∧
      ∃ c ∈ m.text, c.isDigit = false := by
    obtain ⟨m, hm⟩ := exists_numeral_real x
    refine ⟨m, (text_real x).trans (by rw [hm]), ?_⟩
    rw [← hm]
    split
    · exact ⟨'.', by decide, by decide⟩
    · exact exists_mem_format _
  obtain ⟨m, hm, c, hc, hdigit⟩ := htext
  have hnumeral := scalar_numeral x.negative m []
  rw [List.append_nil, List.append_nil] at hnumeral
  rw [reread_of_scalar (by trivial), text, hm, hnumeral, Reading.value?_map] at h
  cases hread : unsignedNumber x.negative m.text with
  | fault f =>
    rw [hread] at h
    cases h
  | ok n rest =>
    obtain ⟨value?, hvalue⟩ := settles_unsignedNumber x.negative m
    have hwhole := hvalue [] ends_nil
    rw [List.append_nil, hread] at hwhole
    obtain ⟨value, -, heq⟩ := Option.map_eq_some_iff.1 hwhole.symm
    have hrest : rest = [] := (Prod.mk.inj heq).2.symm
    rw [hread] at h
    obtain rfl := Option.some.inj h
    cases n with
    | real y => exact ⟨y, rfl⟩
    | integer value hvalue =>
      rw [hrest] at hread
      have hdigits := digits_of_unsignedNumber hread c hc
      rw [hdigit] at hdigits
      cases hdigits

/-- A value that is neither a container nor a real number is only read from its own text. -/
theorem eq_of_reread {v w : Json} (h : reread room v = some w) (hw : w.IsScalar)
    (hreal : ∀ x, w ≠ number (.real x)) : v = w := by
  cases v with
  | null => exact Option.some.inj ((reread_of_scalar (by trivial) room).symm.trans h)
  | bool b =>
    have hself : reread room (bool b) = some (bool b) :=
      (reread_of_scalar (by trivial) room).trans (by cases b <;> rfl)
    exact Option.some.inj (hself.symm.trans h)
  | string s => exact Option.some.inj ((reread_string room s).symm.trans h)
  | number n =>
    cases n with
    | integer value hvalue => exact Option.some.inj ((reread_integer value hvalue room).symm.trans h)
    | real x =>
      obtain ⟨y, rfl⟩ := reread_real h
      exact absurd rfl (hreal y)
  | array items =>
    cases room with
    | zero => cases h
    | succ room =>
      rw [reread_array, Option.map_eq_some_iff] at h
      obtain ⟨items', -, rfl⟩ := h
      exact hw.elim
  | object ms =>
    cases room with
    | zero => cases h
    | succ room =>
      rw [reread_object, Option.map_eq_some_iff] at h
      obtain ⟨ms', -, rfl⟩ := h
      exact hw.elim

end TrialBoard.Json

namespace TrialBoard.Document

open Json (Members)

variable {row : Document}

/-- A row reads back if its keys are in order and its values are read as themselves inside it. -/
theorem readsBack_iff : row.ReadsBack ↔
    Members.Sorted row ∧ ∀ m ∈ row, m.2.Rereads (Json.maxDepth - 1) :=
  Json.parse_render_iff.trans Json.rereads_object_iff

theorem readsBack_nil : ReadsBack [] :=
  readsBack_iff.2 ⟨List.Pairwise.nil, fun _ hm => absurd hm List.not_mem_nil⟩

theorem ReadsBack.insert (h : row.ReadsBack) (key : String) {value : Json}
    (hvalue : value.Rereads (Json.maxDepth - 1)) : ReadsBack (Members.insert key value row) := by
  obtain ⟨hsorted, hvalues⟩ := readsBack_iff.1 h
  refine readsBack_iff.2 ⟨Members.sorted_insert hsorted key value, fun m hm => ?_⟩
  rcases Members.mem_insert hm with rfl | hm
  · exact hvalue
  · exact hvalues m hm

/-- Giving a row an id does not keep it from reading back. -/
theorem ReadsBack.withId (h : row.ReadsBack) (id : String) : (row.withId id).ReadsBack :=
  h.insert idKey (Json.rereads_string _ id)

theorem ReadsBack.identified (h : row.ReadsBack) (fresh : String) :
    (row.identified fresh).2.ReadsBack := by
  unfold Document.identified
  split
  · exact h
  · exact h.withId fresh

end TrialBoard.Document
