import TrialBoard.Json.Decoder
import TrialBoard.Proofs.ReadingBack

/-!
# What printed text is decoded as

A decoder of lists, of objects or of records takes the text of a value for one value of its type, or
refuses it, whatever comes after the text. So `Decoder.reread` can say what a text is decoded as:
a list item by item, and a record member by member. Each member adds to what was collected before
it (`Shape.take?`), and none is taken twice for one field.
-/

namespace TrialBoard.Json

variable {α β σ : Type} {room : Nat}

/-- What the text of a value is decoded as with so much room. -/
def Decoder.reread (d : Decoder α) (room : Nat) (v : Json) : Option α :=
  (d.read room v.text).value?.map Prod.fst

/-- Whether the text of every value is decoded as one value, or none, whatever comes after it. -/
def Decoder.IsSettled (d : Decoder α) : Prop :=
  ∀ (room : Nat) (v : Json), Settles (d.read room) v.text

theorem exists_first_of_not_array {v : Json} (hv : ∀ vs, v ≠ array vs) :
    ∃ c cs, v.text = c :: cs ∧ c ≠ '[' := by
  cases v with
  | array vs => exact absurd rfl (hv vs)
  | object ms => exact ⟨_, _, rfl, by decide⟩
  | null | bool | number | string =>
    obtain ⟨c, cs, htext, -, hother⟩ := exists_first_text _
    exact ⟨c, cs, htext, (hother trivial).1⟩

theorem exists_first_of_not_object {v : Json} (hv : ∀ ms, v ≠ object ms) :
    ∃ c cs, v.text = c :: cs ∧ c ≠ '\x7b' := by
  cases v with
  | object ms => exact absurd rfl (hv ms)
  | array vs => exact ⟨_, _, rfl, by decide⟩
  | null | bool | number | string =>
    obtain ⟨c, cs, htext, -, hother⟩ := exists_first_text _
    exact ⟨c, cs, htext, (hother trivial).2⟩

namespace Decoder

variable {d : Decoder α}

/-- What a text is decoded as by a reader of whole texts. -/
theorem parse_render_iff {v : Json} (h : Settles (d.read maxDepth) v.text) {value : α} :
    d.parse v.render = .ok value ↔ d.reread maxDepth v = some value := by
  have hread := h.append ends_nil
  rw [List.append_nil] at hread
  unfold Decoder.parse readAll Decoder.reread
  rw [render, String.toList_ofList]
  cases hresult : d.read maxDepth v.text with
  | ok result rest =>
    rw [hresult] at hread
    obtain rfl : rest = [] := congrArg Prod.snd (Option.some.inj hread)
    simp only [hresult]
    exact ⟨fun h => congrArg some (Except.ok.inj h), fun h => congrArg _ (Option.some.inj h)⟩
  | fault f =>
    simp only [hresult]
    exact ⟨fun h => (by cases h), fun h => (by cases h)⟩

theorem value?_refuse (expected : String) (cs : List Char) :
    (refuse expected cs : Reading α).value? = none := by
  unfold refuse
  split
  · rfl
  · rfl
  · cases scalar cs <;> rfl

/-! ## Changed values -/

theorem isSettled_map (h : d.IsSettled) (f : α → β) : (d.map f).IsSettled := by
  intro room v
  obtain ⟨value?, hvalue⟩ := h room v
  refine ⟨value?.map f, fun rest hrest => ?_⟩
  show ((d.read room _).map f).value? = _
  rw [Reading.value?_map, hvalue rest hrest, Option.map_map, Option.map_map]
  rfl

theorem reread_map (d : Decoder α) (f : α → β) (room : Nat) (v : Json) :
    (d.map f).reread room v = (d.reread room v).map f := by
  show ((d.read room v.text).map f).value?.map Prod.fst = _
  rw [Reading.value?_map, Option.map_map, Decoder.reread, Option.map_map]
  rfl

/-! ## Lists -/

theorem value?_list_array (h : d.IsSettled) (room : Nat) (vs : List Json) (rest : List Char) :
    ((list d).read (room + 1) ((array vs).text ++ rest)).value? =
      (vs.mapM (d.reread room)).map (·, rest) := by
  have hlength := length_le_itemsText vs true
  have hfuel : vs.length < (itemsText true vs ++ ']' :: rest).length + 1 := by
    rw [List.length_append]
    omega
  have hitems := items_text vs (fun v _ => h room v) true rest hfuel
  rw [text_array_append]
  exact value?_enclosed pastList (closeList_close rest) hitems

theorem value?_list_of_not_array {v : Json} (hv : ∀ vs, v ≠ array vs) (room : Nat)
    (rest : List Char) : ((list d).read room (v.text ++ rest)).value? = none := by
  have hskip := skipBlank_text v rest
  obtain ⟨c, cs, htext, hc⟩ := exists_first_of_not_array hv
  rw [htext, List.cons_append] at hskip ⊢
  unfold list
  simp only [hskip]
  split
  · exact absurd (List.cons.inj ‹_›).1 hc
  · exact value?_refuse _ _

theorem isSettled_list (h : d.IsSettled) : (list d).IsSettled := by
  intro room v
  by_cases hv : ∃ vs, v = array vs
  · obtain ⟨vs, rfl⟩ := hv
    cases room with
    | zero => exact ⟨none, fun rest _ => rfl⟩
    | succ room => exact ⟨_, fun rest _ => value?_list_array h room vs rest⟩
  · exact ⟨none, fun rest _ => value?_list_of_not_array (fun vs hvs => hv ⟨vs, hvs⟩) room rest⟩

/-- A list is decoded item by item. -/
theorem reread_list (h : d.IsSettled) (vs : List Json) :
    (list d).reread (room + 1) (array vs) = vs.mapM (d.reread room) := by
  have hread := value?_list_array h room vs []
  rw [List.append_nil] at hread
  rw [Decoder.reread, hread, Option.map_map]
  exact Option.map_id'

/-! ## Objects -/

theorem value?_object_object (room : Nat) (ms : List (String × Json)) (rest : List Char) :
    (object.read (room + 1) ((Json.object ms).text ++ rest)).value? =
      ((ms.mapM fun m => (Json.reread room m.2).map (m.1, ·)).map fun ms =>
        Members.ofList (canonicalMembers ms)).map (·, rest) := by
  have hlength := length_le_membersText ms true
  have hfuel : ms.length < (membersText true ms ++ '\x7d' :: rest).length + 1 := by
    rw [List.length_append]
    omega
  have hmembers := members_text (settles_raw room) ms true rest hfuel
  have hobject := value?_enclosed pastObject (closeObject_close rest) hmembers
  rw [text_object_append]
  refine (Reading.value?_map _ _).trans ((congrArg _ hobject).trans ?_)
  rw [Option.map_map, Option.map_map]
  rfl

theorem value?_object_of_not_object {v : Json} (hv : ∀ ms, v ≠ Json.object ms) (room : Nat)
    (rest : List Char) : (object.read room (v.text ++ rest)).value? = none := by
  have hskip := skipBlank_text v rest
  obtain ⟨c, cs, htext, hc⟩ := exists_first_of_not_object hv
  rw [htext, List.cons_append] at hskip ⊢
  unfold object
  simp only [hskip]
  split
  · exact absurd (List.cons.inj ‹_›).1 hc
  · exact value?_refuse _ _

theorem isSettled_object : object.IsSettled := by
  intro room v
  by_cases hv : ∃ ms, v = Json.object ms
  · obtain ⟨ms, rfl⟩ := hv
    cases room with
    | zero => exact ⟨none, fun rest _ => rfl⟩
    | succ room => exact ⟨_, fun rest _ => value?_object_object room ms rest⟩
  · exact ⟨none, fun rest _ => value?_object_of_not_object (fun ms hms => hv ⟨ms, hms⟩) room rest⟩

theorem reread_object (ms : List (String × Json)) :
    object.reread (room + 1) (Json.object ms) =
      (ms.mapM fun m => (Json.reread room m.2).map (m.1, ·)).map fun ms =>
        Members.ofList (canonicalMembers ms) := by
  have hread := value?_object_object room ms []
  rw [List.append_nil] at hread
  rw [Decoder.reread, hread, Option.map_map]
  exact Option.map_id'

/-- An object is decoded as itself just if it is read as itself. -/
theorem reread_object_iff {ms : Members} :
    object.reread room (Json.object ms) = some ms ↔ (Json.object ms).Rereads room := by
  rw [← rereads_iff]
  cases room with
  | zero => exact ⟨nofun, nofun⟩
  | succ room =>
    rw [reread_object, Json.reread_object, Option.map_map, Option.map_eq_some_iff,
      Option.map_eq_some_iff]
    simp only [Function.comp_apply, canonical, Json.object.injEq]

end Decoder

/-! ## Records -/

namespace Shape

variable {shape : Shape σ α} {keep : String → Json → σ → σ}

/-- What is collected once a member was taken too, if it can be taken. A member that is no field is
kept. -/
def take? (shape : Shape σ α) (room : Nat) (keep : String → Json → σ → σ) (collected : σ)
    (m : String × Json) : Option σ :=
  match shape.fields.find? (·.name == m.1) with
  | some field =>
    if field.isSet collected then none
    else (field.decoder.reread room m.2).map fun set => set collected
  | none => (Json.reread room m.2).map fun value => keep m.1 value collected

/-- The members of a printed object are taken one after the other. -/
theorem readMembers_text (hkeep : shape.keep? = some keep)
    (hfields : ∀ field ∈ shape.fields, field.decoder.IsSettled) (room : Nat)
    (ms : List (String × Json)) (first : Bool) (collected : σ) (rest : List Char) {fuel : Nat}
    (hfuel : ms.length < fuel) :
    (shape.readMembers room fuel first collected (membersText first ms ++ '\x7d' :: rest)).value? =
      (ms.foldlM (shape.take? room keep) collected).map (·, '\x7d' :: rest) := by
  induction ms generalizing first collected fuel with
  | nil =>
    obtain ⟨fuel, rfl⟩ : ∃ n, fuel = n + 1 := ⟨fuel - 1, by omega⟩
    rfl
  | cons m ms ih =>
    obtain ⟨key, v⟩ := m
    rw [List.length_cons] at hfuel
    obtain ⟨fuel, rfl⟩ : ∃ n, fuel = n + 1 := ⟨fuel - 1, by omega⟩
    have hrest := ends_membersText ms rest
    have hcolon (cs : List Char) : colon (':' :: cs) = .ok () cs := rfl
    rw [readMembers, nextKey_membersText, Reading.andThen_ok, List.foldlM_cons, take?]
    cases hfind : shape.fields.find? (·.name == key) with
    | some field =>
      simp only [hfind]
      by_cases hset : field.isSet collected
      · rw [if_pos hset, if_pos hset]
        rfl
      · have hread := (hfields field (List.mem_of_find?_eq_some hfind) room v).append hrest
        rw [if_neg hset, if_neg hset, hcolon, Reading.andThen_ok, Reading.value?_andThen, hread]
        show ((field.decoder.reread room v).map _).bind _ = _
        cases field.decoder.reread room v with
        | none => rfl
        | some set => exact ih false (set collected) (Nat.lt_of_succ_lt_succ hfuel)
    | none =>
      have hread := (settles_raw room v).append hrest
      simp only [hfind, hkeep]
      rw [hcolon, Reading.andThen_ok, Reading.value?_andThen, hread]
      show ((Json.reread room v).map _).bind _ = _
      cases Json.reread room v with
      | none => rfl
      | some value => exact ih false (keep key value collected) (Nat.lt_of_succ_lt_succ hfuel)

/-- Whether taking a member for a field sets that field, and nothing else does. -/
structure IsMarked (shape : Shape σ α) (keep : String → Json → σ → σ) : Prop where
  found : ∀ field ∈ shape.fields, shape.fields.find? (·.name == field.name) = some field
  sets : ∀ field ∈ shape.fields, ∀ other ∈ shape.fields, ∀ (room : Nat) (v : Json) (set : σ → σ),
    field.decoder.reread room v = some set →
      ∀ collected, other.isSet (set collected) = (other.isSet collected || other.name == field.name)
  keeps : ∀ field ∈ shape.fields, ∀ (key : String) (v : Json) (collected : σ),
    field.isSet (keep key v collected) = field.isSet collected

theorem IsMarked.isSet_take? (h : shape.IsMarked keep) {field : Field σ}
    (hfield : field ∈ shape.fields) {collected collected' : σ} {m : String × Json}
    (htake : shape.take? room keep collected m = some collected') :
    field.isSet collected' = (field.isSet collected || field.name == m.1) := by
  unfold take? at htake
  cases hfind : shape.fields.find? (·.name == m.1) with
  | some other =>
    have hfound : (other.name == m.1) = true :=
      List.find?_some (p := fun f : Field σ => f.name == m.1) hfind
    have hname : other.name = m.1 := beq_iff_eq.1 hfound
    simp only [hfind] at htake
    split at htake
    · cases htake
    · obtain ⟨set, hset, rfl⟩ := Option.map_eq_some_iff.1 htake
      rw [← hname]
      exact h.sets other (List.mem_of_find?_eq_some hfind) field hfield room m.2 set hset collected
  | none =>
    have hname : (field.name == m.1) = false :=
      Bool.eq_false_iff.2 (List.find?_eq_none.1 hfind field hfield)
    simp only [hfind] at htake
    obtain ⟨value, -, rfl⟩ := Option.map_eq_some_iff.1 htake
    rw [h.keeps field hfield, hname, Bool.or_false]

/-- Members that are all taken name each field at most once. -/
theorem IsMarked.count_le (h : shape.IsMarked keep) {field : Field σ}
    (hfield : field ∈ shape.fields) {ms : List (String × Json)} {collected collected' : σ}
    (htake : ms.foldlM (shape.take? room keep) collected = some collected') :
    (ms.map Prod.fst).count field.name ≤ if field.isSet collected then 0 else 1 := by
  induction ms generalizing collected with
  | nil => exact Nat.zero_le _
  | cons m ms ih =>
    rw [List.foldlM_cons] at htake
    obtain ⟨next, hnext, hrest⟩ := Option.bind_eq_some_iff.1 htake
    have hle := ih hrest
    rw [h.isSet_take? hfield hnext] at hle
    rw [List.map_cons]
    by_cases hname : field.name = m.1
    · have hfree : field.isSet collected = false := by
        unfold take? at hnext
        rw [← hname] at hnext
        simp only [h.found field hfield] at hnext
        split at hnext
        · cases hnext
        · exact Bool.eq_false_iff.2 ‹_›
      rw [← hname, beq_self_eq_true, Bool.or_true, if_pos rfl] at hle
      rw [← hname, List.count_cons_self, hfree, if_neg Bool.false_ne_true]
      omega
    · rw [beq_eq_false_iff_ne.2 hname, Bool.or_false] at hle
      rwa [List.count_cons_of_ne (Ne.symm hname)]

theorem value?_decoder_object (hkeep : shape.keep? = some keep)
    (hfields : ∀ field ∈ shape.fields, field.decoder.IsSettled) (room : Nat)
    (ms : List (String × Json)) (rest : List Char) :
    (shape.decoder.read (room + 1) ((Json.object ms).text ++ rest)).value? =
      ((ms.foldlM (shape.take? room keep) shape.start).bind fun collected =>
        (shape.finish collected).toOption).map (·, rest) := by
  have hlength := length_le_membersText ms true
  have hfuel : ms.length < (membersText true ms ++ '\x7d' :: rest).length + 1 := by
    rw [List.length_append]
    omega
  have hmembers := readMembers_text hkeep hfields room ms true shape.start rest hfuel
  rw [text_object_append]
  refine value?_enclosed pastObject (closeObject_close rest) ?_
  refine (Reading.value?_andThen _ _).trans ((congrArg (Option.bind · _) hmembers).trans ?_)
  cases ms.foldlM (shape.take? room keep) shape.start with
  | none => rfl
  | some collected =>
    show (shape.finished collected _).value? = ((shape.finish collected).toOption).map _
    unfold finished
    cases shape.finish collected <;> rfl

/-- A record is decoded from an object as the value of what its members are collected into. -/
theorem parse_render_iff (hkeep : shape.keep? = some keep)
    (hfields : ∀ field ∈ shape.fields, field.decoder.IsSettled) {ms : List (String × Json)}
    {value : α} :
    shape.decoder.parse (Json.object ms).render = .ok value ↔
      ∃ collected, ms.foldlM (shape.take? (maxDepth - 1) keep) shape.start = some collected ∧
        shape.finish collected = .ok value := by
  have hread := value?_decoder_object hkeep hfields (maxDepth - 1) ms
  have hsettled : Settles (shape.decoder.read maxDepth) (Json.object ms).text :=
    ⟨_, fun rest _ => hread rest⟩
  have halone : shape.decoder.reread maxDepth (Json.object ms) = _ :=
    congrArg (Option.map Prod.fst) (List.append_nil (Json.object ms).text ▸ hread [])
  rw [Decoder.parse_render_iff hsettled, halone, Option.map_map]
  cases ms.foldlM (shape.take? (maxDepth - 1) keep) shape.start with
  | none => exact ⟨nofun, nofun⟩
  | some collected =>
    simp only [Option.bind_some, Option.some.injEq, exists_eq_left']
    cases shape.finish collected with
    | ok result =>
      exact ⟨fun h => congrArg _ (Option.some.inj h), fun h => congrArg _ (Except.ok.inj h)⟩
    | error cause => exact ⟨nofun, nofun⟩

end Shape

end TrialBoard.Json
