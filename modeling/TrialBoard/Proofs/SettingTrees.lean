import TrialBoard.Config.Setting
import Mathlib.Data.List.Nodup

/-!
# Layers of settings

No source sets a name twice in one table. Of such layers it can be said what stands at a path when
they are laid over one another: what the topmost layer sets there, if that is not a table, and as
long as no layer has a plain value where the path leads through.
-/

namespace TrialBoard.Setting

/-- Whether a setting is a table. -/
def isTable : Setting → Bool
  | table _ => true
  | flag _ | integer _ | real | text _ | list _ => false

/-- Whether no table sets a name twice. Nobody looks for a name in a list. -/
inductive IsDistinct : Setting → Prop where
  | plain {setting : Setting} (h : setting.isTable = false) : IsDistinct setting
  | table {entries : List (String × Setting)} (hnames : (entries.map Prod.fst).Nodup)
    (hentries : ∀ e ∈ entries, IsDistinct e.2) : IsDistinct (.table entries)

/-- Whether a path leads through tables only, as far as it leads. -/
def IsTableAlong : List String → Setting → Prop
  | [], _ => True
  | name :: path, setting =>
    ∃ entries, setting = .table entries ∧
      ∀ inner, entries.lookup name = some inner → IsTableAlong path inner

/-- A setting laid over what is below it, if anything is. -/
def atop (upper : Setting) : Option Setting → Setting
  | none => upper
  | some below => layOver upper below

/-- What two layers have at a place. -/
def over? : Option Setting → Option Setting → Option Setting
  | none, below => below
  | some upper, below => some (upper.atop below)

/-- What the topmost of some layers sets at a path, the first one lowest. -/
def topmost? (path : List String) (layers : List Setting) : Option Setting :=
  layers.reverse.findSome? (at? path)

variable {setting upper lower inner : Setting} {entries : List (String × Setting)} {name : String}
  {path : List String}

/-! ## Names that are set once -/

theorem nodup_of_isDistinct (h : (Setting.table entries).IsDistinct) :
    (entries.map Prod.fst).Nodup ∧ ∀ e ∈ entries, e.2.IsDistinct := by
  cases h with
  | plain h => cases h
  | table hnames hentries => exact ⟨hnames, hentries⟩

theorem mem_of_lookup (h : entries.lookup name = some inner) : (name, inner) ∈ entries := by
  obtain ⟨before, after, rfl, -⟩ := List.lookup_eq_some_iff.1 h
  simp

theorem isDistinct_of_lookup (h : (Setting.table entries).IsDistinct)
    (hinner : entries.lookup name = some inner) : inner.IsDistinct :=
  (nodup_of_isDistinct h).2 (name, inner) (mem_of_lookup hinner)

theorem map_fst_insert (name : String) (value : Setting) (entries : List (String × Setting)) :
    (insert name value entries).map Prod.fst =
      if name ∈ entries.map Prod.fst then entries.map Prod.fst
      else entries.map Prod.fst ++ [name] := by
  induction entries with
  | nil => rfl
  | cons e rest ih =>
    obtain ⟨n, v⟩ := e
    by_cases h : n = name
    · subst h
      simp [insert]
    · have hne : name ≠ n := Ne.symm h
      simp only [insert, if_neg h, List.map_cons, ih, List.mem_cons, hne, false_or]
      split <;> rfl

theorem mem_insert {value : Setting} {e : String × Setting} (h : e ∈ insert name value entries) :
    e = (name, value) ∨ e ∈ entries := by
  induction entries with
  | nil => exact .inl (List.mem_singleton.1 h)
  | cons other rest ih =>
    obtain ⟨n, v⟩ := other
    unfold insert at h
    split at h
    · rcases List.mem_cons.1 h with rfl | h
      · exact .inl rfl
      · exact .inr (List.mem_cons_of_mem _ h)
    · rcases List.mem_cons.1 h with rfl | h
      · exact .inr List.mem_cons_self
      · exact (ih h).imp id (List.mem_cons_of_mem _)

theorem isDistinct_insert (h : (Setting.table entries).IsDistinct) {value : Setting}
    (hvalue : value.IsDistinct) : (Setting.table (insert name value entries)).IsDistinct := by
  obtain ⟨hnames, hentries⟩ := nodup_of_isDistinct h
  refine .table ?_ fun e he => ?_
  · rw [map_fst_insert]
    split
    · exact hnames
    · rename_i hnew
      exact List.nodup_append.2 ⟨hnames, List.nodup_singleton _, fun a ha b hb heq =>
        hnew (List.mem_singleton.1 hb ▸ heq ▸ ha)⟩
  · rcases mem_insert he with rfl | he
    · exact hvalue
    · exact hentries e he

theorem isDistinct_nothing : nothing.IsDistinct := .table List.nodup_nil nofun

theorem isDistinct_under (h : setting.IsDistinct) (path : List String) :
    (under path setting).IsDistinct := by
  induction path with
  | nil => exact h
  | cons name path ih =>
    refine .table (List.nodup_singleton _) fun e he => ?_
    rw [List.mem_singleton.1 he]
    exact ih

theorem layOver_of_plain (h : upper.isTable = false) (lower : Setting) :
    layOver upper lower = upper := by
  cases upper with
  | table entries => cases h
  | flag | integer | real | text | list => simp only [layOver]

theorem layOver_table_of_plain (entries : List (String × Setting)) (h : lower.isTable = false) :
    layOver (.table entries) lower = .table entries := by
  cases lower with
  | table inner => cases h
  | flag | integer | real | text | list => simp only [layOver]

theorem layOver_tables (upper lower : List (String × Setting)) :
    layOver (.table upper) (.table lower) = .table (layEntries upper lower) := by
  simp only [layOver]

theorem layEntries_cons (name : String) (value : Setting) (upper lower : List (String × Setting)) :
    layEntries ((name, value) :: upper) lower =
      layEntries upper (insert name (value.atop (lower.lookup name)) lower) := by
  simp only [layEntries]
  cases lower.lookup name <;> rfl

/-- Entries that keep names apart stay so when such entries are laid over them. -/
theorem isDistinct_layEntries {upper lower : List (String × Setting)}
    (hupper : ∀ e ∈ upper, e.2.IsDistinct ∧
      ∀ below : Setting, below.IsDistinct → (layOver e.2 below).IsDistinct)
    (hlower : (Setting.table lower).IsDistinct) :
    (Setting.table (layEntries upper lower)).IsDistinct := by
  induction upper generalizing lower with
  | nil => exact hlower
  | cons e upper ih =>
    obtain ⟨name, value⟩ := e
    obtain ⟨⟨hvalue, hover⟩, hupper⟩ := List.forall_mem_cons.1 hupper
    rw [layEntries_cons]
    refine ih hupper (isDistinct_insert hlower ?_)
    cases hbelow : lower.lookup name with
    | none => exact hvalue
    | some below => exact hover below (isDistinct_of_lookup hlower hbelow)

theorem isDistinct_layOver (hupper : upper.IsDistinct) (hlower : lower.IsDistinct) :
    (layOver upper lower).IsDistinct := by
  induction hupper generalizing lower with
  | plain h =>
    rw [layOver_of_plain h]
    exact .plain h
  | @table upper hnames hentries ih =>
    cases lower with
    | flag | integer | real | text | list =>
      rw [layOver_table_of_plain _ rfl]
      exact .table hnames hentries
    | table lower =>
      rw [layOver_tables]
      exact isDistinct_layEntries (fun e he => ⟨hentries e he, fun _ hbelow => ih e he hbelow⟩)
        hlower

theorem isDistinct_overlay {layers : List Setting} (h : ∀ layer ∈ layers, layer.IsDistinct) :
    (overlay layers).IsDistinct := by
  unfold overlay
  refine List.foldlRecOn layers _ isDistinct_nothing fun lower hlower upper hupper => ?_
  exact isDistinct_layOver (h upper hupper) hlower

theorem exists_table_of_isTable (h : setting.isTable = true) :
    ∃ entries, setting = .table entries := by
  cases setting with
  | table entries => exact ⟨entries, rfl⟩
  | flag | integer | real | text | list => cases h

theorem isTable_under (setting : Setting) {path : List String} (h : path ≠ []) :
    (under path setting).isTable = true := by
  cases path with
  | nil => exact absurd rfl h
  | cons name path => rfl

theorem isTable_overlay {layers : List Setting} (h : ∀ layer ∈ layers, layer.isTable = true) :
    (overlay layers).isTable = true := by
  unfold overlay
  refine List.foldlRecOn (motive := fun lower : Setting => lower.isTable = true) layers _ rfl
    fun lower hlower upper hupper => ?_
  obtain ⟨above, rfl⟩ := exists_table_of_isTable (h upper hupper)
  obtain ⟨below, rfl⟩ := exists_table_of_isTable hlower
  rw [layOver_tables]
  rfl

/-! ## What stands at a path -/

theorem at?_table (name : String) (path : List String) (entries : List (String × Setting)) :
    at? (name :: path) (.table entries) = (entries.lookup name).bind (at? path) := by
  simp only [at?]

/-- Where a path leads through tables only, what it leads through is one. -/
theorem exists_table_of_at? (h : IsTableAlong (path ++ [name]) setting)
    (hat : at? path setting = some inner) : ∃ entries, inner = .table entries := by
  induction path generalizing setting with
  | nil =>
    obtain ⟨entries, rfl, -⟩ := h
    exact ⟨entries, (Option.some.inj hat).symm⟩
  | cons other path ih =>
    obtain ⟨entries, rfl, h⟩ := h
    rw [at?_table] at hat
    obtain ⟨below, hbelow, hat⟩ := Option.bind_eq_some_iff.1 hat
    exact ih (h below hbelow) hat

theorem isTableAlong_concat (h : IsTableAlong path setting)
    (htable : ∀ inner, at? path setting = some inner → inner.isTable = true) (name : String) :
    IsTableAlong (path ++ [name]) setting := by
  induction path generalizing setting with
  | nil =>
    obtain ⟨entries, rfl⟩ := exists_table_of_isTable (htable setting rfl)
    exact ⟨entries, rfl, fun _ _ => trivial⟩
  | cons other path ih =>
    obtain ⟨entries, rfl, h⟩ := h
    refine ⟨entries, rfl, fun below hbelow => ih (h below hbelow) fun inner hinner => ?_⟩
    refine htable inner ?_
    rw [at?_table, hbelow]
    exact hinner

theorem lookup_layEntries {upper : List (String × Setting)} (h : (upper.map Prod.fst).Nodup)
    (lower : List (String × Setting)) (name : String) :
    (layEntries upper lower).lookup name = over? (upper.lookup name) (lower.lookup name) := by
  induction upper generalizing lower with
  | nil => simp only [layEntries, List.lookup_nil, over?]
  | cons e upper ih =>
    obtain ⟨n, value⟩ := e
    obtain ⟨hnew, hnames⟩ := List.nodup_cons.1 h
    rw [layEntries_cons, ih hnames]
    by_cases hname : name = n
    · subst hname
      have hnone : upper.lookup name = none := by
        refine List.lookup_eq_none_iff.2 fun e he => bne_iff_ne.2 fun heq => hnew ?_
        exact List.mem_map.2 ⟨e, he, heq.symm⟩
      rw [lookup_insert_self, hnone, List.lookup_cons_self]
      rfl
    · have hne : (name == n) = false := beq_eq_false_iff_ne.2 hname
      rw [lookup_insert_of_ne hname, List.lookup_cons, hne]

/-- What stands at a path in two layers, where neither has a plain value on the way. -/
theorem at?_layOver (hupper : upper.IsDistinct) (hu : IsTableAlong path upper)
    (hl : IsTableAlong path lower) :
    at? path (layOver upper lower) = over? (at? path upper) (at? path lower) ∧
      IsTableAlong path (layOver upper lower) := by
  induction path generalizing upper lower with
  | nil => exact ⟨rfl, trivial⟩
  | cons name path ih =>
    obtain ⟨upper, rfl, hu⟩ := hu
    obtain ⟨lower, rfl, hl⟩ := hl
    obtain ⟨hnames, -⟩ := nodup_of_isDistinct hupper
    rw [layOver_tables, at?_table, at?_table, at?_table, lookup_layEntries hnames]
    have hmerged (inner : Setting) :
        (layEntries upper lower).lookup name = some inner → IsTableAlong path inner := by
      rw [lookup_layEntries hnames]
      intro hinner
      cases habove : upper.lookup name with
      | none =>
        rw [habove] at hinner
        exact hl inner hinner
      | some v =>
        cases hbelow : lower.lookup name with
        | none =>
          rw [habove, hbelow] at hinner
          exact Option.some.inj hinner ▸ hu v habove
        | some b =>
          rw [habove, hbelow] at hinner
          exact Option.some.inj hinner ▸
            (ih (isDistinct_of_lookup hupper habove) (hu v habove) (hl b hbelow)).2
    refine ⟨?_, _, rfl, hmerged⟩
    cases habove : upper.lookup name with
    | none => rfl
    | some v =>
      cases hbelow : lower.lookup name with
      | none =>
        change at? path v = over? (at? path v) none
        cases at? path v <;> rfl
      | some b =>
        exact (ih (isDistinct_of_lookup hupper habove) (hu v habove) (hl b hbelow)).1

theorem foldl_at? {layers : List Setting} (h : ∀ layer ∈ layers, layer.IsDistinct ∧
    IsTableAlong path layer) {start : Setting} (hstart : IsTableAlong path start) :
    at? path (layers.foldl (fun lower upper => layOver upper lower) start) =
      layers.foldl (fun below layer => over? (at? path layer) below) (at? path start) ∧
    IsTableAlong path (layers.foldl (fun lower upper => layOver upper lower) start) := by
  induction layers generalizing start with
  | nil => exact ⟨rfl, hstart⟩
  | cons layer layers ih =>
    obtain ⟨⟨hdistinct, hlayer⟩, h⟩ := List.forall_mem_cons.1 h
    obtain ⟨hat, halong⟩ := at?_layOver hdistinct hlayer hstart
    rw [List.foldl_cons, List.foldl_cons, ← hat]
    exact ih h halong

/-! ## The topmost layer -/

theorem over?_eq_or {above below : Option Setting}
    (h : ∀ v, over? above below = some v → v.isTable = false) :
    over? above below = above.or below := by
  cases above with
  | none => rfl
  | some v =>
    have hplain := h _ rfl
    cases below with
    | none => rfl
    | some b =>
      by_cases hv : v.isTable = false
      · exact congrArg some (layOver_of_plain hv b)
      · cases v with
        | flag | integer | real | text | list => exact absurd rfl hv
        | table entries =>
          cases b <;> simp [atop, layOver, isTable] at hplain

theorem foldl_over?_eq {layers : List Setting} {start : Option Setting}
    (h : ∀ v, layers.foldl (fun below layer => over? (at? path layer) below) start = some v →
      v.isTable = false) :
    layers.foldl (fun below layer => over? (at? path layer) below) start =
      (topmost? path layers).or start := by
  induction layers generalizing start with
  | nil => rfl
  | cons layer layers ih =>
    have htop : topmost? path (layer :: layers) = (topmost? path layers).or (at? path layer) := by
      rw [topmost?, List.reverse_cons, List.findSome?_append, List.findSome?_singleton]
      rfl
    rw [List.foldl_cons] at h ⊢
    have hrest := ih h
    rw [hrest] at h ⊢
    rw [htop]
    cases htopmost : topmost? path layers with
    | some v => rfl
    | none =>
      rw [htopmost] at h
      exact over?_eq_or h

/-- Where no table stands at a path when layers are laid over one another, it is what the topmost
one sets there. -/
theorem at?_overlay {layers : List Setting} (h : ∀ layer ∈ layers, layer.IsDistinct ∧
    IsTableAlong (name :: path) layer)
    (hplain : ∀ v, at? (name :: path) (overlay layers) = some v → v.isTable = false) :
    at? (name :: path) (overlay layers) = topmost? (name :: path) layers := by
  have hnothing : IsTableAlong (name :: path) nothing := ⟨[], rfl, nofun⟩
  have hfold := (foldl_at? h hnothing).1
  change at? (name :: path) (overlay layers) = _ at hfold
  rw [hfold] at hplain ⊢
  rw [foldl_over?_eq hplain]
  exact Option.or_none

end TrialBoard.Setting
