import TrialBoard.Proofs.DecodedValues

/-!
# What encoded values are decoded as

A reader takes the text of a JSON value for a value of its own type, whatever comes after the text
(`Takes`). A record is taken from an object of members in any order that sets each of its fields at
most once, a tagged message from an object of its tag and its content.

A format is stable if what is decoded is decoded again from its own text (`IsStable`).
-/

namespace TrialBoard.Json

variable {α β σ : Type} {room : Nat}

/-- Whether a reader takes the text of a value for another value, whatever comes after it. -/
def Takes (read : List Char → Reading α) (v : Json) (a : α) : Prop :=
  ∀ rest, Ends rest → read (v.text ++ rest) = .ok a rest

theorem Reading.eq_ok_of_value? {r : Reading α} {a : α} {rest : List Char}
    (h : r.value? = some (a, rest)) : r = .ok a rest := by
  cases r with
  | ok b mid =>
    obtain ⟨rfl, rfl⟩ := Prod.mk.inj (Option.some.inj h)
    rfl
  | fault f => cases h

theorem takes_of_settles {read : List Char → Reading α} {v : Json} {a : α}
    (h : Settles read v.text) (hread : (read v.text).value?.map Prod.fst = some a) :
    Takes read v a := by
  intro rest hrest
  refine Reading.eq_ok_of_value? ?_
  rw [h.append hrest, hread]
  rfl

/-- A whole text that is taken is read. -/
theorem Takes.readAll {read : Nat → List Char → Reading α} {v : Json} {a : α}
    (h : Takes (read room) v a) : readAll read room v.render = .ok a := by
  have hread := h [] ends_nil
  rw [List.append_nil] at hread
  unfold Json.readAll
  rw [render, String.toList_ofList]
  simp only [hread]
  rfl

namespace Decoder

variable {d : Decoder α}

theorem takes_map {v : Json} {a : α} (h : Takes (d.read room) v a) (f : α → β) :
    Takes ((d.map f).read room) v (f a) := by
  intro rest hrest
  change (d.read room _).map f = _
  rw [h rest hrest, Reading.map_ok]

theorem skipBlank_stringText (s : String) (rest : List Char) :
    skipBlank (stringText s ++ rest) = '"' :: (written s ++ '"' :: rest) := by
  rw [stringText_append]
  rfl

theorem takes_checkedText {check : String → Except Cause α} (expected : String) {s : String} {a : α}
    (h : check s = .ok a) (room : Nat) :
    Takes ((checkedText expected check).read room) (.string s) a := by
  intro rest _
  simp only [checkedText, Json.text, skipBlank_stringText, stringBody_written, Reading.andThen_ok,
    checked, h]

theorem takes_text (expected : String) (s : String) (room : Nat) :
    Takes ((text expected).read room) (.string s) s :=
  takes_checkedText expected rfl room

theorem text_ofNat {n : Nat} (h : FitsWord n) : (Json.ofNat n).text = Nat.toDigits 10 n := by
  rw [Json.ofNat, ofNat_of_fitsWord h, Json.text]
  exact toList_toString_ofNat n

theorem takes_natural (expected : String) {max n : Nat} (hn : n ≤ max) (h : FitsWord n)
    (room : Nat) : Takes ((natural expected max).read room) (.ofNat n) n := by
  intro rest hrest
  have hlt : n < 0x10000000000000000 := by omega
  have hsettles := settles_unsignedNumber false (Numeral.ofNat n)
  rw [Numeral.text_ofNat] at hsettles
  have hnumber : unsignedNumber false (Nat.toDigits 10 n ++ rest) = .ok (.ofNat n) rest := by
    refine Reading.eq_ok_of_value? ?_
    rw [hsettles.append hrest, unsignedNumber_toDigits false hlt, signedInteger_false]
    simp only [Reading.value?, Option.map_some]
  have hnatural : natural? expected max (.ofNat n) = .ok n := by
    rw [ofNat_of_fitsWord h]
    simp [natural?, hn]
  have hskip := skipBlank_text (.ofNat n) rest
  rw [text_ofNat h] at hskip ⊢
  obtain ⟨d, ds, hcons⟩ := List.exists_cons_of_ne_nil (isWhole_toDigits n).nonempty
  have hd : d.isDigit = true := (isWhole_toDigits n).digits d (by simp [hcons])
  rw [hcons, List.cons_append] at hskip hnumber ⊢
  simp only [natural, hskip]
  rw [if_neg (digit_ne hd).2.2.2, if_pos hd, hnumber, Reading.andThen_ok, hnatural]
  rfl

theorem exists_first_of_ne_null {v : Json} (hv : v ≠ .null) :
    ∃ c cs, v.text = c :: cs ∧ c ≠ 'n' := by
  cases v with
  | null => exact absurd rfl hv
  | bool b => cases b <;> exact ⟨_, _, rfl, by decide⟩
  | string s => exact ⟨_, _, rfl, by decide⟩
  | array vs => exact ⟨_, _, rfl, by decide⟩
  | object ms => exact ⟨_, _, rfl, by decide⟩
  | number n =>
    obtain ⟨negative, m, htext⟩ := exists_numeral_text n
    obtain ⟨d, cs, hd, hm⟩ := m.exists_digit_text
    rw [Json.text, htext, hm]
    cases negative with
    | true => exact ⟨_, _, rfl, by decide⟩
    | false => exact ⟨d, cs, rfl, (digit_ne hd).1⟩

theorem takes_optional_null (d : Decoder α) (room : Nat) :
    Takes ((optional d).read room) .null none := by
  intro rest _
  rfl

theorem takes_optional {v : Json} {a : α} (hv : v ≠ .null) (h : Takes (d.read room) v a) :
    Takes ((optional d).read room) v (some a) := by
  intro rest hrest
  have hread := h rest hrest
  have hskip := skipBlank_text v rest
  obtain ⟨c, cs, htext, hc⟩ := exists_first_of_ne_null hv
  rw [htext, List.cons_append] at hread hskip ⊢
  simp only [optional, hskip]
  split
  · exact absurd (List.cons.inj ‹_›).1 hc
  · rw [hread, Reading.map_ok]

theorem takes_json {v : Json} (h : v.Rereads room) : Takes (json.read room) v v := by
  intro rest hrest
  have hraw := takes_of_settles (settles_raw room v) h.reread rest hrest
  change (raw room _).map canonical = _
  rw [hraw, Reading.map_ok, h.canonical]

theorem takes_optional_json {v? : Option Json} (h : ∀ v ∈ v?, v ≠ .null ∧ v.Rereads room) :
    Takes ((optional json).read room) (v?.getD .null) v? := by
  cases v? with
  | none => exact takes_optional_null _ _
  | some v =>
    obtain ⟨hv, hreads⟩ := h v rfl
    exact takes_optional hv (takes_json hreads)

theorem takes_enumeration {variants : List (String × α)} {name : String} {a : α}
    (h : named variants name = .ok a) (room : Nat) :
    Takes ((enumeration variants).read room) (.string name) a := by
  intro rest hrest
  have hname := takes_checkedText "variant identifier" h room rest hrest
  have hskip := skipBlank_text (.string name) rest
  rw [Json.text, stringText_append] at hname hskip ⊢
  simp only [enumeration, hskip]
  exact hname

end Decoder

/-! ## Records -/

namespace Shape

variable {shape : Shape σ α}

/-- Whether members bring what is collected from one state to another, each of them setting a field
that was not set before. -/
inductive Collects (shape : Shape σ α) (room : Nat) : σ → List (String × Json) → σ → Prop
  | nil {collected : σ} : Collects shape room collected [] collected
  | cons {field : Field σ} {key : String} {v : Json} {set : σ → σ} {ms : List (String × Json)}
      {collected collected' : σ} (hfind : shape.fields.find? (·.name == key) = some field)
      (hfree : field.isSet collected = false) (hread : Takes (field.decoder.read room) v set)
      (hrest : Collects shape room (set collected) ms collected') :
      Collects shape room collected ((key, v) :: ms) collected'

theorem Collects.append {ms ms' : List (String × Json)} {c c' c'' : σ}
    (h : shape.Collects room c ms c') (h' : shape.Collects room c' ms' c'') :
    shape.Collects room c (ms ++ ms') c'' := by
  induction h with
  | nil => exact h'
  | cons hfind hfree hread _ ih => exact .cons hfind hfree hread (ih h')

theorem Collects.readMembers {ms : List (String × Json)} {c c' : σ}
    (h : shape.Collects room c ms c') (first : Bool) (rest : List Char) {fuel : Nat}
    (hfuel : ms.length < fuel) :
    shape.readMembers room fuel first c (membersText first ms ++ '\x7d' :: rest) =
      .ok c' ('\x7d' :: rest) := by
  induction h generalizing first fuel with
  | nil =>
    obtain ⟨fuel, rfl⟩ : ∃ n, fuel = n + 1 := ⟨fuel - 1, by omega⟩
    rfl
  | @cons field key v set ms c c' hfind hfree hread _ ih =>
    rw [List.length_cons] at hfuel
    obtain ⟨fuel, rfl⟩ : ∃ n, fuel = n + 1 := ⟨fuel - 1, by omega⟩
    have hcolon (cs : List Char) : colon (':' :: cs) = .ok () cs := rfl
    rw [Shape.readMembers, nextKey_membersText, Reading.andThen_ok]
    simp only [hfind, hfree, Bool.false_eq_true, if_false, hcolon, Reading.andThen_ok,
      hread _ (ends_membersText ms rest)]
    exact ih false (Nat.lt_of_succ_lt_succ hfuel)

/-- A record is taken from the object of its members. -/
theorem Collects.takes {ms : List (String × Json)} {c : σ} {a : α}
    (h : shape.Collects room shape.start ms c) (hfinish : shape.finish c = .ok a) :
    Takes (shape.decoder.read (room + 1)) (.object ms) a := by
  intro rest _
  have hlength := length_le_membersText ms true
  have hfuel : ms.length < (membersText true ms ++ '\x7d' :: rest).length + 1 := by
    rw [List.length_append]
    omega
  have hmembers := h.readMembers true rest hfuel
  have hskip : skipBlank ('\x7b' :: (membersText true ms ++ '\x7d' :: rest)) =
      '\x7b' :: (membersText true ms ++ '\x7d' :: rest) := rfl
  rw [text_object_append]
  simp only [decoder, hskip, inObject, List.tail_cons, hmembers, Reading.andThen_ok, finished,
    hfinish, enclosed, closeObject_close, Reading.map_ok]

end Shape

/-! ## Tagged messages -/

namespace Tagged

variable {t : Tagged α}

theorem nextRelevant_tag (fuel : Nat) (first : Bool) (v : Json) (ms : List (String × Json))
    (rest : List Char) :
    t.nextRelevant (fuel + 1) first (membersText first ((t.tag, v) :: ms) ++ '\x7d' :: rest) =
      .ok (some .tag) (':' :: (v.text ++ (membersText false ms ++ '\x7d' :: rest))) := by
  rw [nextRelevant, nextKey_membersText, Reading.andThen_ok]
  exact if_pos rfl

theorem nextRelevant_content (hne : t.tag ≠ t.content) (fuel : Nat) (first : Bool) (v : Json)
    (ms : List (String × Json)) (rest : List Char) :
    t.nextRelevant (fuel + 1) first (membersText first ((t.content, v) :: ms) ++ '\x7d' :: rest) =
      .ok (some .content) (':' :: (v.text ++ (membersText false ms ++ '\x7d' :: rest))) := by
  rw [nextRelevant, nextKey_membersText, Reading.andThen_ok]
  simp only [if_neg hne.symm, if_true]

/-- A message is taken from the object of its tag and its content. -/
theorem takes_read (hne : t.tag ≠ t.content) {s : String} {d : Decoder α} {content : Json}
    {a : α} (hname : Decoder.named t.variants s = .ok d) (h : Takes (d.read room) content a) :
    Takes (t.read (room + 1)) (.object [(t.tag, .string s), (t.content, content)]) a := by
  intro rest _
  have hskip (cs : List Char) : skipBlank ('\x7b' :: cs) = '\x7b' :: cs := rfl
  have hcolon (cs : List Char) : colon (':' :: cs) = .ok () cs := rfl
  have hend (fuel : Nat) (first : Bool) (rest : List Char) :
      t.nextRelevant (fuel + 1) first (membersText false [] ++ '\x7d' :: rest) =
        .ok none (membersText false [] ++ '\x7d' :: rest) := rfl
  have htag := Decoder.takes_enumeration hname room _
    (ends_membersText [(t.content, content)] rest)
  have hcontent := h _ (ends_membersText [] rest)
  rw [text_object_append]
  simp only [read, hskip, inObject, List.tail_cons, nextRelevant_tag, Reading.andThen_ok, tagFirst,
    readTag, hcolon, htag, nextRelevant_content hne, hcontent, ended, hend]
  rfl

end Tagged

/-! ## Stable formats -/

/-- Whether the text of a value that was decoded is decoded as that value, if its real numbers are
read as themselves. -/
def IsStable (decode : String → Except Error α) (encode : α → Json) : Prop :=
  ∀ text a, decode text = .ok a → (encode a).RealsReadBack → decode (encode a).render = .ok a

/-- A format is stable if all that its reader gives is taken from its encoding. -/
theorem isStable_of_gives {read : Nat → List Char → Reading α} {encode : α → Json} {p : α → Prop}
    (hgives : ∀ cs, (read maxDepth cs).Gives p)
    (htakes : ∀ a, p a → (encode a).RealsReadBack → Takes (read maxDepth) (encode a) a) :
    IsStable (readAll read maxDepth) encode :=
  fun _ a hread hreals => (htakes a (gives_readAll hgives hread) hreals).readAll

theorem IsKept.rereads {v : Json} (h : v.IsKept room) (hreals : v.RealsReadBack) :
    v.Rereads room :=
  rereads_of_fitsIn h.fitsIn h.canonical hreals

theorem RealsReadBack.member {ms : List (String × Json)} (h : (object ms).RealsReadBack)
    {m : String × Json} (hm : m ∈ ms) : m.2.RealsReadBack :=
  fun x hx => h x (hx.member hm)

theorem RealsReadBack.item {vs : List Json} (h : (array vs).RealsReadBack) {v : Json}
    (hv : v ∈ vs) : v.RealsReadBack :=
  fun x hx => h x (hx.item hv)

theorem realsReadBack_object {ms : List (String × Json)} (h : ∀ m ∈ ms, m.2.RealsReadBack) :
    (object ms).RealsReadBack := by
  intro x hx
  cases hx with
  | member hm hx => exact h _ hm x hx

end TrialBoard.Json
