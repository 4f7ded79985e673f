import TrialBoard.Proofs.LogReplay

/-!
# Selecting rows by a value

The database looks for a key in the texts of the rows. It compares labels only up to a null
character, and takes the first member that has the label; the members of a row are in the order of
their keys, so the key itself comes before any longer one. It finds a text, a truth value or an
integer wherever a row has it, and refuses no row: an integer that does not fit its own 64 bits is
compared as the real number nearest to it, on both sides. So a selection by one of these, or by what
it does not compare at all, is answered with just the rows that have it.
-/

namespace TrialBoard

open Json (Members Lenient written seenMembers)

theorem Document.Parses.fitsIn {doc : Document} (h : doc.Parses) :
    (Json.object doc).FitsIn Json.maxDepth := by
  obtain ⟨value, hvalue⟩ := h.parses
  obtain ⟨v, hread, -⟩ := Option.map_eq_some_iff.1 ((Json.parse_render _).1 hvalue)
  exact Json.fitsIn_of_reread hread

namespace Extract

open Json.Lenient (characters decode)

/-- Whether a key can be put between the quotes of a path as it is. -/
def IsPlain (key : String) : Prop := ∀ c ∈ key.toList, c ≠ '"' ∧ c ≠ '\\' ∧ c ≠ '\x00'

variable {key k body : String} {doc : Document} {value : Json}

theorem isPlain_experimentKey : IsPlain Document.experimentKey := by
  simp [IsPlain, Document.experimentKey]

theorem toNat_ne_zero {c : Char} (h : c ≠ '\x00') : c.toNat ≠ 0 :=
  fun heq => h (Char.toNat_inj.1 heq)

theorem decode_plain {cs : List Char} (h : ∀ c ∈ cs, c ≠ '\\') {fuel : Nat}
    (hfuel : cs.length ≤ fuel) : decode fuel cs = cs.map Char.toNat := by
  induction cs generalizing fuel with
  | nil => cases fuel <;> rfl
  | cons c cs ih =>
    obtain ⟨hc, hcs⟩ := List.forall_mem_cons.1 h
    obtain ⟨n, rfl⟩ : ∃ n, fuel = n + 1 := ⟨fuel - 1, by simp at hfuel; omega⟩
    simp [decode, ih hcs (by simpa using hfuel)]

theorem label_of_isPlain (h : IsPlain key) : label key.toList = key.toList.map Char.toNat := by
  rw [label, characters, decode_plain (fun c hc => (h c hc).2.1) (Nat.le_refl _)]
  refine List.takeWhile_eq_self_iff.2 fun n hn => ?_
  obtain ⟨c, hc, rfl⟩ := List.mem_map.1 hn
  exact bne_iff_ne.2 (toNat_ne_zero (h c hc).2.2)

theorem label_written_self (h : IsPlain key) : label (written key) = label key.toList := by
  have hplain := label_of_isPlain h
  rw [label, characters, decode_plain (fun c hc => (h c hc).2.1) (Nat.le_refl _)] at hplain
  rw [label, Json.characters_written, hplain, label_of_isPlain h]

/-- A key that comes before has another label. -/
theorem label_written_of_lt (h : IsPlain key) (hlt : k < key) :
    label (written k) ≠ label key.toList := by
  rw [label, Json.characters_written, label_of_isPlain h]
  intro heq
  have hstart : key.toList.map Char.toNat <+: k.toList.map Char.toNat :=
    heq ▸ List.takeWhile_prefix _
  obtain ⟨cs, ⟨rest, hrest⟩, hcs⟩ := List.prefix_map_iff.1 hstart
  obtain rfl : key.toList = cs := List.map_inj_right (fun _ _ => Char.toNat_inj.1) |>.1 hcs
  have hle : ¬ k.toList < key.toList := by
    rw [← hrest]
    exact List.not_lt.2 List.le_append_left
  exact hle hlt

/-! ## The member of a key -/

theorem seenMembers_eq_map (members : Members) :
    seenMembers members = members.map fun m => (written m.1, m.2.seen) := by
  induction members with
  | nil => rfl
  | cons m members ih => rw [seenMembers, ih, List.map_cons]

theorem member?_ne_overlong (key : List Char) (doc : Document) :
    member? key (seenMembers doc) ≠ some .overlong := by
  intro h
  obtain ⟨m, hm, heq⟩ := Option.map_eq_some_iff.1 h
  have hmem := List.mem_of_find?_eq_some hm
  rw [seenMembers_eq_map] at hmem
  obtain ⟨n, -, rfl⟩ := List.mem_map.1 hmem
  exact n.2.seen_ne_overlong heq

theorem mem_of_get? (h : doc.get? key = some value) : (key, value) ∈ doc := by
  induction doc with
  | nil => cases h
  | cons m doc ih =>
    obtain ⟨k, v⟩ := m
    rw [Members.get?, List.lookup_cons] at h
    split at h
    · rename_i hk
      rw [beq_iff_eq.1 hk, Option.some.inj h]
      exact List.mem_cons_self
    · exact List.mem_cons_of_mem _ (ih h)

/-- The database finds the value that a row has at a key. -/
theorem member?_of_get? (hkey : IsPlain key) (hdoc : Members.Sorted doc)
    (h : doc.get? key = some value) :
    member? key.toList (seenMembers doc) = some value.seen := by
  induction doc with
  | nil => cases h
  | cons m doc ih =>
    obtain ⟨k, v⟩ := m
    obtain ⟨hk, hdoc⟩ := List.pairwise_cons.1 hdoc
    rw [Members.get?, List.lookup_cons] at h
    split at h
    · rename_i heq
      obtain rfl : key = k := beq_iff_eq.1 heq
      rw [← Option.some.inj h]
      simp [member?, seenMembers, label_written_self hkey]
    · have hlt := hk _ (mem_of_get? h)
      have hfind := ih hdoc h
      have hne := label_written_of_lt hkey hlt
      simp only [member?, seenMembers, List.find?_cons, beq_eq_false_iff_ne.2 hne] at hfind ⊢
      exact hfind

/-! ## The path to a key -/

/-- What follows the opening quote in the path to a key. -/
def quoted (key : String) : List Char := (key.toList ++ ['"']).takeWhile (· != '\x00')

theorem toList_path (key : String) : (path key).toList.drop 1 = '.' :: '"' :: quoted key := by
  have hpath : ("$.\"" ++ key ++ "\"").toList = '$' :: '.' :: '"' :: (key.toList ++ ['"']) := by
    simp
  rw [path, hpath, String.toList_ofList]
  rfl

/-- The first step of a path leads to a member by what stands before the closing quote. -/
theorem follow_path (key : String) (members : Members) (fuel : Nat) :
    follow (fuel + 1) ('.' :: '"' :: quoted key) (.object (seenMembers members)) =
      match (quoted key).dropWhile (· != '"') with
      | [] => .badPath
      | _ :: rest =>
        match member? ((quoted key).takeWhile (· != '"')) (seenMembers members) with
        | some value => follow fuel rest value
        | none => .missing := by
  rw [follow, List.span_eq_takeWhile_dropWhile]
  cases (quoted key).dropWhile (· != '"') with
  | nil => rfl
  | cons quote rest => rfl

theorem quoted_of_notMem (h : '\x00' ∉ key.toList) : quoted key = key.toList ++ ['"'] := by
  refine List.takeWhile_eq_self_iff.2 fun c hc => bne_iff_ne.2 ?_
  rintro rfl
  rcases List.mem_append.1 hc with hc | hc
  · exact h hc
  · exact absurd hc (by decide)

/-- The path to a plain key is one step by the key itself. -/
theorem quoted_of_isPlain (h : IsPlain key) :
    (quoted key).takeWhile (· != '"') = key.toList ∧
      (quoted key).dropWhile (· != '"') = ['"'] := by
  have hnull : '\x00' ∉ key.toList := fun hmem => (h _ hmem).2.2 rfl
  have hall : ∀ c ∈ key.toList, (c != '"') = true := fun c hc => bne_iff_ne.2 (h c hc).1
  rw [quoted_of_notMem hnull, List.takeWhile_append_of_pos hall, List.dropWhile_append_of_pos hall]
  exact ⟨List.append_nil _, rfl⟩

/-- What the database finds in the text of a row, if it finds a scalar. -/
def seenAt (key : String) (doc : Document) : Option Scalar :=
  (member? key.toList (seenMembers doc)).bind Scalar.ofLenient

theorem atKey_render (hkey : IsPlain key) (hdoc : doc.Parses) :
    atKey key (Json.object doc).render = .ok (seenAt key doc) := by
  have hparse := Json.parse?_render (hdoc.fitsIn.mono (show 127 ≤ 1000 by decide))
  obtain ⟨hstep, hrest⟩ := quoted_of_isPlain hkey
  rw [atKey, hparse, toList_path, Json.seen]
  dsimp only
  rw [follow_path, hstep, hrest]
  have hmember := member?_ne_overlong key.toList doc
  cases hfound : member? key.toList (seenMembers doc) with
  | none => simp [seenAt, hfound]
  | some l =>
    rw [hfound] at hmember
    cases l with
    | overlong => exact absurd rfl hmember
    | _ => simp [seenAt, hfound, follow]

/-! ## Values that are compared -/

/-- Whether a value is no number, or an integer of 64 bits with a sign. -/
def IsComparable : Json → Prop
  | .number (.integer value _) => value < 0x8000000000000000
  | .number (.real _) => False
  | _ => True

/-- Whether a value is no real number. -/
def IsNotReal : Json → Prop
  | .number (.real _) => False
  | _ => True

theorem IsComparable.isNotReal (h : IsComparable value) : IsNotReal value := by
  cases value with
  | number n =>
    cases n with
    | integer i hi => trivial
    | real x => exact h
  | null | bool | string | array | object => trivial

/-- The database compares what it finds in the text of a value as it compares the value. -/
theorem ofLenient_seen (h : IsNotReal value) : Scalar.ofLenient value.seen = Scalar.ofJson value := by
  cases value with
  | null | array | object => rfl
  | bool b => rfl
  | string s =>
    rw [Json.seen, Scalar.ofLenient, Json.characters_written]
    rfl
  | number n =>
    cases n with
    | real x => exact h.elim
    | integer i hi =>
      rw [Json.seen, Scalar.ofJson]
      by_cases hlt : i < 0x8000000000000000
      · rw [JsonNumber.seen_integer hi hlt, if_pos hlt]
        rfl
      · rw [JsonNumber.seen_integer_of_le hi (Int.not_lt.1 hlt), if_neg hlt]
        rfl

theorem same_self {scalar : Scalar} (h : Scalar.ofJson value = some scalar) :
    scalar.same scalar = true := by
  have hreal : ∀ x, (Scalar.real (some x)).same (.real (some x)) = true :=
    fun x => (Binary64.same_iff x x).2 rfl
  cases value with
  | null | array | object => cases h
  | bool b =>
    obtain rfl := Option.some.inj h
    rw [Scalar.same, beq_self_eq_true]
  | string s =>
    obtain rfl := Option.some.inj h
    rw [Scalar.same, beq_self_eq_true]
  | number n =>
    cases n with
    | real x =>
      obtain rfl := Option.some.inj h
      exact hreal x
    | integer i hi =>
      obtain rfl := Option.some.inj h
      split
      · rw [Scalar.same, beq_self_eq_true]
      · exact hreal _

/-- A value that is compared and is no real number equals nothing but itself. -/
theorem eq_of_same {scalar : Scalar} {found : Json} (hvalue : IsNotReal value)
    (hscalar : Scalar.ofJson value = some scalar) (h : Json.same found value = true) :
    found = value := by
  cases value with
  | null | array | object => cases hscalar
  | string s =>
    cases found with
    | string t => simpa [Json.same] using h
    | null | bool | number | array | object => cases h
  | bool b =>
    cases found with
    | bool b' => simpa [Json.same] using h
    | null | string | number | array | object => cases h
  | number n =>
    cases n with
    | real x => exact hvalue.elim
    | integer i hi =>
      cases found with
      | number n =>
        cases n with
        | real x => cases h
        | integer i' hi' =>
          obtain rfl : i' = i := by simpa [Json.same, JsonNumber.same] using h
          rfl
      | null | string | bool | array | object => cases h

/-! ## A selection -/

/-- Whether the database finds a scalar in the text of a row. -/
def finds (key : String) (scalar : Scalar) (doc : Document) : Bool :=
  (seenAt key doc).any (·.same scalar)

/-- Whether the database can look into a body for a value, and finds it if the row that is read from
the body has it. -/
def Searches (key : String) (value : Json) (body : String) : Prop :=
  ∀ scalar, Scalar.ofJson value = some scalar → ∃ found, matches? key scalar body = .ok found ∧
    ∀ row, TableStore.readBody body = .ok row → row.hasAt key value = true → found = true

/-- The database finds a scalar wherever a row is read with its value. -/
theorem finds_of_hasAt {scalar : Scalar} {row : Document} (hkey : IsPlain key) (hdoc : doc.Parses)
    (hvalue : IsNotReal value) (hscalar : Scalar.ofJson value = some scalar)
    (hrow : TableStore.readBody (Json.object doc).render = .ok row)
    (h : row.hasAt key value = true) : finds key scalar doc = true := by
  obtain ⟨ms, hsame, hread⟩ := hdoc.exists_members
  obtain rfl := Except.ok.inj (hread.symm.trans hrow)
  unfold Document.hasAt at h
  cases hfound : Members.get? (ms.map fun m => (m.1, m.2.canonical)) key with
  | none =>
    rw [hfound] at h
    cases h
  | some found =>
    rw [hfound] at h
    obtain rfl := eq_of_same hvalue hscalar h
    obtain ⟨v, w, hget, hreread, hcanonical⟩ := Document.exists_get?_of_reread hsame hfound
    have hw : w.IsScalar ∧ ∀ x, w ≠ .number (.real x) := by
      cases w with
      | array | object =>
        rw [← hcanonical] at hscalar
        cases hscalar
      | number n =>
        refine ⟨trivial, fun x hx => ?_⟩
        rw [← hcanonical, hx] at hvalue
        exact hvalue
      | null | bool | string => exact ⟨trivial, fun x hx => (by cases hx)⟩
    obtain rfl := Json.eq_of_reread hreread hw.1 hw.2
    rw [Json.canonical_of_isScalar hw.1] at hcanonical
    subst hcanonical
    rw [finds, seenAt, member?_of_get? hkey hdoc.sorted hget, Option.bind_some,
      ofLenient_seen hvalue, hscalar, Option.any_some, same_self hscalar]

/-- The database can look into the text of every document whose text can be read. -/
theorem searches_render (hkey : IsPlain key) (hvalue : IsNotReal value) (hdoc : doc.Parses) :
    Searches key value (Json.object doc).render := by
  intro scalar hscalar
  refine ⟨finds key scalar doc, ?_, fun row hrow h => ?_⟩
  · rw [matches?, atKey_render hkey hdoc]
    rfl
  · exact finds_of_hasAt hkey hdoc hvalue hscalar hrow h

/-- A selection keeps the bodies in which the database finds the scalar. -/
theorem exists_select {scalar : Scalar} {bodies : List String} {rows : List Document}
    (hscalar : Scalar.ofJson value = some scalar) (hread : bodies.mapM TableStore.readBody = .ok rows)
    (h : ∀ body ∈ bodies, Searches key value body) :
    ∃ kept rows', select key scalar bodies = .ok kept ∧ kept.mapM TableStore.readBody = .ok rows' ∧
      rows'.filter (·.hasAt key value) = rows.filter (·.hasAt key value) := by
  induction bodies generalizing rows with
  | nil =>
    obtain rfl := Except.ok.inj hread
    exact ⟨[], [], rfl, rfl, rfl⟩
  | cons body bodies ih =>
    obtain ⟨hbody, hbodies⟩ := List.forall_mem_cons.1 h
    rw [List.mapM_cons] at hread
    obtain ⟨row, hrow, hread⟩ := exists_of_bind_eq_ok hread
    obtain ⟨rest, hrest, hread⟩ := exists_of_bind_eq_ok hread
    obtain rfl : row :: rest = rows := Except.ok.inj hread
    obtain ⟨kept, rows', hselect, hkept, hsame⟩ := ih hrest hbodies
    obtain ⟨found, hmatches, hfound⟩ := hbody scalar hscalar
    rw [select, hmatches, hselect]
    cases found with
    | true =>
      refine ⟨body :: kept, row :: rows', rfl, ?_, ?_⟩
      · rw [List.mapM_cons, hrow, hkept]
        rfl
      · rw [List.filter_cons, List.filter_cons, hsame]
    | false =>
      refine ⟨kept, rows', rfl, hkept, ?_⟩
      have hlacks : ¬ row.hasAt key value = true := fun hhas => by cases hfound row hrow hhas
      rw [List.filter_cons, if_neg hlacks, hsame]

end Extract

namespace Document

theorem hasAt_string (doc : Document) (key s : String) :
    doc.hasAt key (.string s) = (doc.text? key == some s) := by
  unfold hasAt text?
  cases hvalue : doc.get? key with
  | none => rfl
  | some value =>
    change Json.same value (.string s) = (value.asString? == some s)
    cases value <;> simp [Json.same, Json.asString?]

end Document

namespace TableStore

open Extract (IsPlain IsNotReal Searches)

variable {s : TableStore} {c : Collection} {key : String} {value : Json}

/-- A selection answers just the rows that have a value, in their order, if the database can look
into every body for it. -/
theorem filterEq_of_searches {bodies : List String} {rows : List Document}
    (hbodies : s.database.bodies (s.tableName c) = .ok bodies)
    (hread : bodies.mapM readBody = .ok rows) (h : ∀ body ∈ bodies, Searches key value body) :
    s.filterEq c key value = .ok (rows.filter (·.hasAt key value)) := by
  cases hscalar : Scalar.ofJson value with
  | none =>
    simp only [filterEq, candidates, hscalar, hbodies, answer, readBodies, hread, bind, Except.bind,
      pure, Except.pure]
  | some scalar =>
    obtain ⟨kept, rows', hselect, hkept, hsame⟩ := Extract.exists_select hscalar hread h
    simp only [filterEq, candidates, hscalar, Database.bodiesWith, hbodies, hselect, answer,
      readBodies, hkept, hsame, bind, Except.bind, pure, Except.pure]

/-- A selection by a value answers just the rows that have it, in their order. -/
theorem filterEq_eq {rows : ByCollection (List Document)} (h : s.Holds rows) (hkey : IsPlain key)
    (hvalue : IsNotReal value) (c : Collection) :
    s.filterEq c key value = .ok ((rows.get c).filter (·.hasAt key value)) := by
  refine filterEq_of_searches (bodies_of_holds h c) (mapM_readBody_render (h.readable c)) ?_
  intro body hbody
  obtain ⟨row, hrow, rfl⟩ := List.mem_map.1 hbody
  exact Extract.searches_render hkey hvalue (h.readable c row hrow).parses

/-- A selection by a text answers just the rows that have the text, in their order. -/
theorem filterEq_of_holds {rows : ByCollection (List Document)} (h : s.Holds rows)
    (hkey : IsPlain key) (c : Collection) (text : String) :
    s.filterEq c key (.string text) =
      .ok ((rows.get c).filter fun row => row.text? key == some text) := by
  have hvalue : IsNotReal (.string text) := trivial
  rw [filterEq_eq h hkey hvalue c]
  exact congrArg _ (List.filter_congr fun row _ => row.hasAt_string key text)

end TableStore

end TrialBoard
