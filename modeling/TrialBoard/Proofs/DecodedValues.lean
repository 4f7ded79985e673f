import TrialBoard.Proofs.DecodedText
import TrialBoard.Proofs.Failure

/-!
# What decoders give

A decoder has a property of all the values that it gives, whichever text it gives them for
(`Decoder.Gives`). For a record the property is one that each field keeps of what is collected
(`Shape.Keeps`), whatever members come in whatever order, or whatever items in an array. For a
tagged message it is one of each variant's content.
-/

namespace TrialBoard.Json

variable {α β σ : Type} {room : Nat}

/-- Whether a value is canonical and nested no deeper than there is room for. -/
structure IsKept (room : Nat) (v : Json) : Prop where
  canonical : v.canonical = v
  fitsIn : v.FitsIn room

theorem isKept_canonical {v : Json} (h : v.FitsIn room) : v.canonical.IsKept room :=
  ⟨canonical_canonical h, h.canonical⟩

/-! ## Readings -/

/-- Whether the value that was read has a property, if one was. -/
def Reading.Gives (p : α → Prop) (r : Reading α) : Prop :=
  ∀ value rest, r = .ok value rest → p value

namespace Reading

variable {p : α → Prop} {q : β → Prop} {r : Reading α}

theorem gives_fault (p : α → Prop) (f : Fault) : (fault f).Gives p := nofun

theorem gives_ok {a : α} (h : p a) (rest : List Char) : (ok a rest).Gives p := by
  intro a' rest' heq
  obtain ⟨rfl, -⟩ := ok.inj heq
  exact h

theorem Gives.mono {p' : α → Prop} (h : r.Gives p) (hp : ∀ a, p a → p' a) : r.Gives p' :=
  fun a rest ha => hp a (h a rest ha)

theorem gives_andThen {next : α → List Char → Reading β}
    (h : ∀ a rest, r = .ok a rest → (next a rest).Gives q) : (r.andThen next).Gives q := by
  intro b rest hb
  obtain ⟨a, mid, ha, hb⟩ := andThen_eq_ok hb
  exact h a mid ha b rest hb

theorem gives_map {f : α → β} (h : r.Gives fun a => q (f a)) : (r.map f).Gives q := by
  intro b rest hb
  obtain ⟨a, ha, rfl⟩ := map_eq_ok hb
  exact h a rest ha

theorem Gives.enclosed (h : r.Gives p) (close : List Char → Reading Unit)
    (past : List Char → List Char) : (enclosed close past r).Gives p := by
  intro a rest ha
  obtain ⟨mid, ha'⟩ := enclosed_eq_ok ha
  exact h a mid ha'

theorem gives_inList {contents : Nat → List Char → Reading α} (cs : List Char)
    (h : ∀ cs, (contents room cs).Gives p) : (inList (room + 1) cs contents).Gives p :=
  (h _).enclosed _ _

theorem gives_inObject {contents : Nat → List Char → Reading α} (cs : List Char)
    (h : ∀ cs, (contents room cs).Gives p) : (inObject (room + 1) cs contents).Gives p :=
  (h _).enclosed _ _

end Reading

/-! ## Decoders -/

namespace Decoder

/-- Whether all that a decoder gives has a property, from texts and from values that were read with
so much room. -/
structure Gives (d : Decoder α) (room : Nat) (p : α → Prop) : Prop where
  read : ∀ cs, (d.read room cs).Gives p
  view : ∀ v a, v.FitsIn room → d.view v = .ok a → p a

variable {d : Decoder α} {p : α → Prop}

theorem gives_refuse (p : α → Prop) (expected : String) (cs : List Char) :
    (refuse expected cs : Reading α).Gives p := by
  unfold refuse
  split
  · exact Reading.gives_fault _ _
  · exact Reading.gives_fault _ _
  · exact Reading.gives_andThen fun _ _ _ => Reading.gives_fault _ _

theorem gives_checked {result : Except Cause α} (h : ∀ a, result = .ok a → p a)
    (rest : List Char) : (checked result rest).Gives p := by
  unfold checked
  split
  · exact Reading.gives_ok (h _ rfl) _
  · exact Reading.gives_fault _ _

theorem Gives.mono {p' : α → Prop} (h : d.Gives room p) (hp : ∀ a, p a → p' a) :
    d.Gives room p' :=
  ⟨fun cs => (h.read cs).mono hp, fun v a hv ha => hp a (h.view v a hv ha)⟩

theorem gives_map {q : β → Prop} {f : α → β} (h : d.Gives room fun a => q (f a)) :
    (d.map f).Gives room q where
  read cs := Reading.gives_map (h.read cs)
  view v b hv hb := by
    obtain ⟨a, ha, rfl⟩ := exists_of_map_eq_ok hb
    exact h.view v a hv ha

theorem gives_checkedText {check : String → Except Cause α} (expected : String) (room : Nat)
    (h : ∀ s a, check s = .ok a → p a) : (checkedText expected check).Gives room p where
  read cs := by
    simp only [checkedText]
    split
    · exact Reading.gives_andThen fun s rest _ => gives_checked (h s) rest
    · exact gives_refuse _ _ _
  view v a _ ha := by
    cases v with
    | string s => exact h s a ha
    | null | bool | number | array | object => cases ha

theorem gives_text (expected : String) (room : Nat) :
    (text expected).Gives room fun _ => True :=
  gives_checkedText _ _ fun _ _ _ => trivial

theorem le_of_natural? {expected : String} {max n : Nat} {m : JsonNumber}
    (h : natural? expected max m = .ok n) : n ≤ max := by
  cases m with
  | real x => cases h
  | integer value inRange =>
    simp only [natural?] at h
    split at h
    · rename_i hrange
      obtain rfl := Except.ok.inj h
      exact hrange.2
    · cases h

theorem gives_natural (expected : String) (max room : Nat) :
    (natural expected max).Gives room (· ≤ max) where
  read cs := by
    simp only [natural]
    split
    · exact Reading.gives_fault _ _
    · split
      · exact Reading.gives_andThen fun m rest _ => gives_checked (fun _ => le_of_natural?) rest
      · split
        · exact Reading.gives_andThen fun m rest _ => gives_checked (fun _ => le_of_natural?) rest
        · exact gives_refuse _ _ _
  view v n _ hn := by
    cases v with
    | number m => exact le_of_natural? hn
    | null | bool | string | array | object => cases hn

theorem gives_optional (h : d.Gives room p) : (optional d).Gives room fun a? => ∀ a ∈ a?, p a where
  read cs := by
    simp only [optional]
    split
    · exact Reading.gives_map fun _ _ _ => nofun
    · refine Reading.gives_map ((h.read _).mono fun a ha => ?_)
      rintro b ⟨⟩
      exact ha
  view v a? hv ha := by
    have hsome : (d.view v).map some = .ok a? → ∀ a ∈ a?, p a := by
      intro hmap
      obtain ⟨a, hview, rfl⟩ := exists_of_map_eq_ok hmap
      rintro b ⟨⟩
      exact h.view v a hv hview
    cases v with
    | null =>
      obtain rfl := Except.ok.inj ha
      exact nofun
    | bool | number | string | array | object => exact hsome ha

/-! ## Values of any type -/

theorem gives_json (room : Nat) : json.Gives room (·.IsKept room) where
  read cs := Reading.gives_map fun _ _ hv => isKept_canonical (fitsIn_raw hv)
  view v w hv hw := by
    obtain rfl := Except.ok.inj hw
    exact isKept_canonical hv

theorem scalar_ne_null {cs rest : List Char} {v : Json} (hcs : cs.head? ≠ some 'n')
    (h : scalar cs = .ok v rest) : v ≠ .null := by
  cases cs with
  | nil => cases h
  | cons c cs =>
    have hc : c ≠ 'n' := fun heq => hcs (congrArg some heq)
    rw [scalar, if_neg hc] at h
    repeat' split at h
    all_goals first
      | (obtain ⟨a, -, rfl⟩ := Reading.map_eq_ok h; simp)
      | cases h

/-- Only a text that starts as that of null is read as null. -/
theorem raw_ne_null {cs rest : List Char} {v : Json} (hcs : (skipBlank cs).head? ≠ some 'n')
    (h : raw room cs = .ok v rest) : v ≠ .null := by
  unfold raw at h
  split at h
  · cases room with
    | zero => cases h
    | succ room =>
      obtain ⟨vs, -, rfl⟩ := Reading.map_eq_ok h
      exact nofun
  · cases room with
    | zero => cases h
    | succ room =>
      obtain ⟨ms, -, rfl⟩ := Reading.map_eq_ok h
      exact nofun
  · exact scalar_ne_null hcs h

theorem canonical_ne_null {v : Json} (h : v ≠ .null) : v.canonical ≠ .null := by
  cases v with
  | null => exact absurd rfl h
  | bool | number | string | array | object => exact nofun

/-- A value that may be left out is never null. -/
theorem gives_optional_json (room : Nat) :
    (optional json).Gives room fun v? => ∀ v ∈ v?, v ≠ .null ∧ v.IsKept room where
  read cs := by
    simp only [optional]
    split
    · exact Reading.gives_map fun _ _ _ => by simp
    · rename_i hnull
      refine Reading.gives_map fun v rest hv => ?_
      have hkept := (gives_json room).read _ v rest hv
      obtain ⟨w, hw, rfl⟩ := Reading.map_eq_ok hv
      rintro u ⟨⟩
      have hhead : (skipBlank (skipBlank cs)).head? ≠ some 'n' := by
        rw [skipBlank, skipBlank, List.dropWhile_idempotent]
        intro heq
        obtain ⟨rest', hrest'⟩ := List.head?_eq_some_iff.1 heq
        exact hnull rest' hrest'
      exact ⟨canonical_ne_null (raw_ne_null hhead hw), hkept⟩
  view v v? hv ha := by
    cases v with
    | null =>
      obtain rfl := Except.ok.inj ha
      simp
    | bool | number | string | array | object =>
      obtain rfl := Except.ok.inj ha
      rintro u ⟨⟩
      exact ⟨canonical_ne_null (by simp), isKept_canonical hv⟩

theorem isKept_object {ms : List (String × Json)} (h : (Json.object ms).FitsIn room) :
    (Json.object (Members.ofList (canonicalMembers ms))).IsKept room :=
  isKept_canonical h

theorem gives_object (room : Nat) :
    object.Gives (room + 1) fun ms => (Json.object ms).IsKept (room + 1) where
  read cs := by
    simp only [object]
    split
    · refine Reading.gives_map (Reading.gives_inObject _ fun cs ms rest hms => ?_)
      exact isKept_object (forall_of_members (fun _ _ _ hv => fitsIn_raw hv) hms)
    · exact gives_refuse _ _ _
  view v ms hv hms := by
    cases v with
    | object ms' =>
      obtain rfl := Except.ok.inj hms
      exact isKept_object hv
    | null | bool | number | string | array => cases hms

theorem gives_list (h : d.Gives room p) :
    (list d).Gives (room + 1) fun as => ∀ a ∈ as, p a where
  read cs := by
    simp only [list]
    split
    · refine Reading.gives_inList _ fun cs as rest has => ?_
      exact forall_of_items (fun cs a rest ha => h.read cs a rest ha) has
    · exact gives_refuse _ _ _
  view v as hv has := by
    cases v with
    | array vs => exact forall_of_mapM_eq_ok (fun v hmem a ha => h.view v a (hv v hmem) ha) has
    | null | bool | number | string | object => cases has

/-! ## Enumerations -/

theorem mem_of_named {variants : List (String × α)} {name : String} {a : α}
    (h : named variants name = .ok a) : ∃ m ∈ variants, m.2 = a := by
  unfold named at h
  split at h
  · rename_i hlookup
    obtain rfl := Except.ok.inj h
    obtain ⟨before, after, rfl, -⟩ := List.lookup_eq_some_iff.1 hlookup
    exact ⟨_, List.mem_append_right _ List.mem_cons_self, rfl⟩
  · cases h

theorem gives_name (variants : List (String × α)) (room : Nat) :
    (name variants).Gives room fun a => ∃ m ∈ variants, m.2 = a :=
  gives_checkedText _ _ fun _ _ => mem_of_named

theorem gives_enumeration (variants : List (String × α)) (room : Nat) :
    (enumeration variants).Gives room fun a => ∃ m ∈ variants, m.2 = a where
  read cs := by
    simp only [enumeration]
    split
    · exact Reading.gives_fault _ _
    · exact (gives_name variants room).read _
    · split
      · exact Reading.gives_fault _ _
      · rename_i room
        refine Reading.gives_andThen fun a rest ha => ?_
        have hmem := (gives_name variants room).read _ a rest ha
        refine Reading.gives_andThen fun _ rest _ => Reading.gives_andThen fun _ rest _ => ?_
        split
        · exact Reading.gives_fault _ _
        · split
          · exact Reading.gives_ok (p := fun a => ∃ m ∈ variants, m.2 = a) hmem _
          · exact Reading.gives_fault _ _
    · exact Reading.gives_fault _ _
  view v a _ ha := by
    simp only [enumeration] at ha
    split at ha
    · exact mem_of_named ha
    · obtain ⟨value, hvalue, ha⟩ := exists_of_bind_eq_ok ha
      obtain ⟨-, -, ha⟩ := exists_of_bind_eq_ok ha
      obtain rfl := Except.ok.inj ha
      exact mem_of_named hvalue
    · cases ha
    · cases ha

end Decoder

/-! ## Records -/

namespace Shape

variable {shape : Shape σ α} {p : σ → Prop} {q : α → Prop}

/-- Whether what is collected has a property from the start, and keeps it whatever is taken. -/
structure Keeps (shape : Shape σ α) (room : Nat) (p : σ → Prop) : Prop where
  start : p shape.start
  fields : ∀ field ∈ shape.fields,
    field.decoder.Gives room fun set => ∀ collected, p collected → p (set collected)
  others : ∀ keep ∈ shape.keep?, ∀ key v collected, (∀ field ∈ shape.fields, field.name ≠ key) →
    v.FitsIn room → p collected → p (keep key v collected)

theorem ne_of_find?_eq_none {key : String}
    (h : shape.fields.find? (·.name == key) = none) : ∀ field ∈ shape.fields, field.name ≠ key :=
  fun field hfield heq => List.find?_eq_none.1 h field hfield (beq_iff_eq.2 heq)

theorem Keeps.readMembers (h : shape.Keeps room p) (fuel : Nat) (first : Bool) {collected : σ}
    (hcollected : p collected) (cs : List Char) :
    (shape.readMembers room fuel first collected cs).Gives p := by
  induction fuel generalizing first collected cs with
  | zero => exact Reading.gives_fault _ _
  | succ fuel ih =>
    unfold Shape.readMembers
    refine Reading.gives_andThen fun key? rest _ => ?_
    cases key? with
    | none =>
      exact Reading.gives_ok hcollected _
    | some key =>
      simp only
      cases hfind : shape.fields.find? (·.name == key) with
      | some field =>
        have hfield := h.fields field (List.mem_of_find?_eq_some hfind)
        simp only
        split
        · exact Reading.gives_fault _ _
        · refine Reading.gives_andThen fun _ rest _ => Reading.gives_andThen fun set rest hset => ?_
          exact ih false (hfield.read _ set rest hset collected hcollected) rest
      | none =>
        refine Reading.gives_andThen fun _ rest _ => ?_
        cases hkeep : shape.keep? with
        | some keep =>
          refine Reading.gives_andThen fun v rest hv => ih false ?_ rest
          exact h.others keep hkeep key v collected (ne_of_find?_eq_none hfind) (fitsIn_raw hv)
            hcollected
        | none => exact Reading.gives_andThen fun _ rest _ => ih false hcollected rest

theorem Keeps.readItems (h : shape.Keeps room p) {fields : List (Field σ)}
    (hfields : ∀ field ∈ fields, field ∈ shape.fields) (place : Nat) {collected : σ}
    (hcollected : p collected) (cs : List Char) :
    (shape.readItems room fields place collected cs).Gives p := by
  induction fields generalizing place collected cs with
  | nil =>
    exact Reading.gives_ok hcollected _
  | cons field fields ih =>
    obtain ⟨hfield, hfields⟩ := List.forall_mem_cons.1 hfields
    unfold Shape.readItems
    refine Reading.gives_andThen fun more rest _ => ?_
    split
    · refine Reading.gives_andThen fun set rest hset => ?_
      exact ih hfields _ ((h.fields field hfield).read _ set rest hset collected hcollected) rest
    · split
      · exact Reading.gives_fault _ _
      · exact ih hfields _ hcollected rest

theorem Keeps.viewMembers (h : shape.Keeps room p) {ms : List (String × Json)}
    (hms : ∀ m ∈ ms, m.2.FitsIn room) {collected collected' : σ} (hcollected : p collected)
    (hview : shape.viewMembers ms collected = .ok collected') : p collected' := by
  induction ms generalizing collected with
  | nil =>
    obtain rfl := Except.ok.inj hview
    exact hcollected
  | cons m ms ih =>
    obtain ⟨key, v⟩ := m
    obtain ⟨hv, hms⟩ := List.forall_mem_cons.1 hms
    unfold Shape.viewMembers at hview
    cases hfind : shape.fields.find? (·.name == key) with
    | some field =>
      have hfield := h.fields field (List.mem_of_find?_eq_some hfind)
      simp only [hfind] at hview
      split at hview
      · cases hview
      · split at hview
        · exact ih hms (hfield.view v _ hv ‹_› collected hcollected) hview
        · cases hview
    | none =>
      simp only [hfind] at hview
      cases hkeep : shape.keep? with
      | some keep =>
        simp only [hkeep] at hview
        exact ih hms (h.others keep hkeep key v collected (ne_of_find?_eq_none hfind) hv hcollected)
          hview
      | none =>
        simp only [hkeep] at hview
        exact ih hms hcollected hview

theorem Keeps.viewItems (h : shape.Keeps room p) {fields : List (Field σ)}
    (hfields : ∀ field ∈ fields, field ∈ shape.fields) {length place : Nat} {vs : List Json}
    (hvs : ∀ v ∈ vs, v.FitsIn room) {collected collected' : σ} (hcollected : p collected)
    (hview : shape.viewItems length fields place vs collected = .ok collected') : p collected' := by
  induction fields generalizing place vs collected with
  | nil =>
    unfold Shape.viewItems at hview
    split at hview
    · obtain rfl := Except.ok.inj hview
      exact hcollected
    · cases hview
  | cons field fields ih =>
    obtain ⟨hfield, hfields⟩ := List.forall_mem_cons.1 hfields
    cases vs with
    | nil =>
      unfold Shape.viewItems at hview
      split at hview
      · cases hview
      · exact ih hfields hvs hcollected hview
    | cons v vs =>
      obtain ⟨hv, hvs⟩ := List.forall_mem_cons.1 hvs
      unfold Shape.viewItems at hview
      split at hview
      · exact ih hfields hvs ((h.fields field hfield).view v _ hv ‹_› collected hcollected) hview
      · cases hview

theorem gives_finished (hfinish : ∀ collected a, p collected →
    shape.finish collected = .ok a → q a) {collected : σ} (hcollected : p collected)
    (rest : List Char) : (shape.finished collected rest).Gives q := by
  unfold finished
  split
  · exact Reading.gives_ok (hfinish _ _ hcollected ‹_›) _
  · exact Reading.gives_fault _ _

/-- What is finished of what was collected has a property that follows from the one that is kept. -/
theorem Keeps.gives (h : shape.Keeps room p)
    (hfinish : ∀ collected a, p collected → shape.finish collected = .ok a → q a) :
    shape.decoder.Gives (room + 1) q where
  read cs := by
    simp only [decoder]
    split
    · refine Reading.gives_inObject _ fun cs => Reading.gives_andThen fun collected rest hread => ?_
      exact gives_finished hfinish (h.readMembers _ _ h.start cs collected rest hread) rest
    · split
      · refine Reading.gives_inList _ fun cs => Reading.gives_andThen fun collected rest hread => ?_
        exact gives_finished hfinish
          (h.readItems (fun _ hfield => hfield) 0 h.start cs collected rest hread) rest
      · exact Decoder.gives_refuse _ _ _
      · exact Reading.gives_inList _ fun _ => Reading.gives_fault _ _
    · exact Decoder.gives_refuse _ _ _
  view v a hv ha := by
    cases v with
    | object ms =>
      obtain ⟨collected, hview, ha⟩ := exists_of_bind_eq_ok ha
      exact hfinish collected a (h.viewMembers hv h.start hview) ha
    | array vs =>
      simp only [decoder] at ha
      split at ha
      · obtain ⟨collected, hview, ha⟩ := exists_of_bind_eq_ok ha
        exact hfinish collected a (h.viewItems (fun _ hfield => hfield) hv h.start hview) ha
      · cases ha
    | null | bool | number | string => cases ha

end Shape

/-! ## Tagged messages -/

namespace Tagged

variable {t : Tagged α} {p : α → Prop}

theorem gives_ended {a : α} (ha : p a) (cs : List Char) : (t.ended a cs).Gives p := by
  unfold ended
  refine Reading.gives_andThen fun key? rest _ => ?_
  split
  · exact Reading.gives_ok ha _
  · exact Reading.gives_fault _ _
  · exact Reading.gives_fault _ _

variable (h : ∀ m ∈ t.variants, m.2.Gives room p)

include h

theorem gives_readTag (cs : List Char) :
    (t.readTag room cs).Gives fun d => d.Gives room p := by
  refine Reading.gives_andThen fun _ rest _ => ?_
  refine ((Decoder.gives_enumeration t.variants room).read rest).mono ?_
  rintro d ⟨m, hm, rfl⟩
  exact h m hm

theorem gives_tagFirst (cs : List Char) : (t.tagFirst room cs).Gives p := by
  refine Reading.gives_andThen fun d rest hd => Reading.gives_andThen fun key? rest _ => ?_
  have hvariant := gives_readTag h cs d _ hd
  cases key? with
  | none => exact Reading.gives_fault _ _
  | some key =>
    cases key with
    | tag => exact Reading.gives_fault _ _
    | content =>
      refine Reading.gives_andThen fun _ rest _ => Reading.gives_andThen fun a rest ha => ?_
      exact gives_ended (hvariant.read _ a rest ha) rest

theorem gives_contentFirst (cs : List Char) : (t.contentFirst room cs).Gives p := by
  refine Reading.gives_andThen fun _ rest _ => Reading.gives_andThen fun content rest hcontent => ?_
  refine Reading.gives_andThen fun key? rest _ => ?_
  cases key? with
  | none => exact Reading.gives_fault _ _
  | some key =>
    cases key with
    | content => exact Reading.gives_fault _ _
    | tag =>
      refine Reading.gives_andThen fun d rest' hd => ?_
      have hvariant := gives_readTag h _ d _ hd
      split
      · exact Reading.gives_fault _ _
      · exact gives_ended (hvariant.view content _ (fitsIn_raw hcontent) ‹_›) rest'

/-- A message has a property that every content has. -/
theorem gives_read (cs : List Char) : (t.read (room + 1) cs).Gives p := by
  unfold read
  split
  · refine Reading.gives_inObject _ fun cs => Reading.gives_andThen fun key? rest _ => ?_
    cases key? with
    | none => exact Reading.gives_fault _ _
    | some key =>
      cases key with
      | tag => exact gives_tagFirst h rest
      | content => exact gives_contentFirst h rest
  · refine Reading.gives_inList _ fun cs => Reading.gives_andThen fun more rest _ => ?_
    split
    · refine Reading.gives_andThen fun d rest hd => Reading.gives_andThen fun more rest' _ => ?_
      obtain ⟨m, hm, rfl⟩ := (Decoder.gives_name t.variants room).read _ d _ hd
      split
      · exact (h m hm).read rest'
      · exact Reading.gives_fault _ _
    · exact Reading.gives_fault _ _
  · exact Decoder.gives_refuse _ _ _

end Tagged

/-- A whole text is read as a value that the reader gives. -/
theorem gives_readAll {read : Nat → List Char → Reading α} {p : α → Prop}
    (h : ∀ cs, (read room cs).Gives p) {text : String} {a : α}
    (ha : readAll read room text = .ok a) : p a := by
  unfold readAll at ha
  simp only at ha
  split at ha
  · cases ha
  · split at ha
    · obtain rfl := Except.ok.inj ha
      exact h _ _ _ ‹_›
    · cases ha

end TrialBoard.Json
