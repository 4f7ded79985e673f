import TrialBoard.Config.Load
import TrialBoard.Proofs.Failure
import TrialBoard.Proofs.SettingTrees

/-!
# Sources of settings

A document that can be read gives a tree in which no table sets a name twice, whatever headers,
dotted keys and inline tables build it. So do the variables of an environment: in a table between
braces, and where several variables meet, a later value takes the place of an earlier one.
-/

namespace TrialBoard

open Setting (IsDistinct)

/-! ## Tables of a document -/

namespace Toml

/-- Whether no table in a part of the tree sets a name twice. -/
def Node.IsDistinct (node : Node) : Prop := node.toSetting.IsDistinct

namespace Entries

/-- Whether entries, and no table in them, set a name twice. -/
def IsDistinct (entries : Entries) : Prop :=
  (Setting.table (Node.entriesToSettings entries)).IsDistinct

variable {entries entries' : Entries} {name : String} {setting : Setting} {path : List String}
  {origin : Origin}

theorem isDistinct_nil : IsDistinct [] := Setting.isDistinct_nothing

theorem entriesToSettings_eq_map (entries : Entries) :
    Node.entriesToSettings entries = entries.map fun e => (e.1, e.2.toSetting) := by
  induction entries with
  | nil => simp only [Node.entriesToSettings, List.map_nil]
  | cons e entries ih =>
    obtain ⟨name, node⟩ := e
    rw [Node.entriesToSettings, ih, List.map_cons]

theorem isDistinct_iff : entries.IsDistinct ↔
    (entries.map Prod.fst).Nodup ∧ ∀ e ∈ entries, e.2.IsDistinct := by
  have hnames : (entries.map fun e => (e.1, e.2.toSetting)).map Prod.fst =
      entries.map Prod.fst := by
    rw [List.map_map]
    rfl
  unfold IsDistinct
  rw [entriesToSettings_eq_map]
  constructor
  · intro h
    obtain ⟨hnodup, hentries⟩ := Setting.nodup_of_isDistinct h
    exact ⟨hnames ▸ hnodup, fun e he => hentries _ (List.mem_map_of_mem he)⟩
  · rintro ⟨hnodup, hentries⟩
    refine .table (hnames.symm ▸ hnodup) fun e he => ?_
    obtain ⟨other, hother, rfl⟩ := List.mem_map.1 he
    exact hentries other hother

theorem isDistinct_table (origin : Origin) :
    (Node.table origin entries).IsDistinct ↔ entries.IsDistinct := by
  rw [Node.IsDistinct, Node.toSetting, IsDistinct]

/-- An array of tables is no table. -/
theorem isDistinct_tables (finished : List Setting) (current : Entries) :
    (Node.tables finished current).IsDistinct := by
  rw [Node.IsDistinct, Node.toSetting]
  exact .plain rfl

theorem mem_alter {change : Option Node → Option Node}
    (h : entries.alter name change = some entries')
    {e : String × Node} (he : e ∈ entries') : e.1 = name ∨ e.1 ∈ entries.map Prod.fst := by
  induction entries generalizing entries' with
  | nil =>
    obtain ⟨node, -, rfl⟩ := Option.map_eq_some_iff.1 h
    exact .inl (congrArg Prod.fst (List.mem_singleton.1 he))
  | cons other rest ih =>
    obtain ⟨n, old⟩ := other
    unfold alter at h
    split at h
    · obtain ⟨node, -, rfl⟩ := Option.map_eq_some_iff.1 h
      rcases List.mem_cons.1 he with rfl | he
      · exact .inr List.mem_cons_self
      · exact .inr (List.mem_cons_of_mem _ (List.mem_map_of_mem he))
    · obtain ⟨rest', hrest, rfl⟩ := Option.map_eq_some_iff.1 h
      rcases List.mem_cons.1 he with rfl | he
      · exact .inr List.mem_cons_self
      · exact (ih hrest he).imp id (List.mem_cons_of_mem _)

/-- A change of one node keeps names apart if it keeps them so in that node. -/
theorem isDistinct_alter {change : Option Node → Option Node} (h : entries.IsDistinct)
    (hnew : ∀ node, change none = some node → node.IsDistinct)
    (hold : ∀ old node, old.IsDistinct → change (some old) = some node → node.IsDistinct)
    (halter : entries.alter name change = some entries') : entries'.IsDistinct := by
  induction entries generalizing entries' with
  | nil =>
    obtain ⟨node, hnode, rfl⟩ := Option.map_eq_some_iff.1 halter
    refine isDistinct_iff.2 ⟨List.nodup_singleton _, fun e he => ?_⟩
    rw [List.mem_singleton.1 he]
    exact hnew node hnode
  | cons other rest ih =>
    obtain ⟨n, old⟩ := other
    obtain ⟨hnames, hentries⟩ := isDistinct_iff.1 h
    obtain ⟨hn, hrestnames⟩ := List.nodup_cons.1 hnames
    obtain ⟨hother, hrest⟩ := List.forall_mem_cons.1 hentries
    unfold alter at halter
    split at halter
    · obtain ⟨node, hnode, rfl⟩ := Option.map_eq_some_iff.1 halter
      exact isDistinct_iff.2
        ⟨hnames, List.forall_mem_cons.2 ⟨hold old node hother hnode, hrest⟩⟩
    · rename_i hne
      obtain ⟨rest', hrest', rfl⟩ := Option.map_eq_some_iff.1 halter
      obtain ⟨hnames', hentries'⟩ :=
        isDistinct_iff.1 (ih (isDistinct_iff.2 ⟨hrestnames, hrest⟩) hrest')
      refine isDistinct_iff.2
        ⟨List.nodup_cons.2 ⟨fun hmem => ?_, hnames'⟩, List.forall_mem_cons.2 ⟨hother, hentries'⟩⟩
      obtain ⟨e, he, heq⟩ := List.mem_map.1 hmem
      rcases mem_alter hrest' he with hname | hname
      · exact hne (heq.symm.trans hname)
      · exact hn (heq ▸ hname)

theorem isDistinct_within {isDotted : Bool} {change : Origin → Entries → Option Entries}
    (hchange : ∀ origin (entries entries' : Entries), entries.IsDistinct →
      change origin entries = some entries' → entries'.IsDistinct)
    (h : entries.IsDistinct)
    (hwithin : within isDotted change path origin entries = some entries') :
    entries'.IsDistinct := by
  induction path generalizing origin entries entries' with
  | nil => exact hchange origin entries entries' h hwithin
  | cons name path ih =>
    unfold within at hwithin
    refine isDistinct_alter h (fun node hnode => ?_) (fun old node hold hnode => ?_) hwithin
    · obtain ⟨inner, hinner, rfl⟩ := Option.map_eq_some_iff.1 hnode
      exact (isDistinct_table _).2 (ih isDistinct_nil hinner)
    · cases old with
      | value setting => cases hnode
      | table origin entries =>
        simp only at hnode
        split at hnode
        · cases hnode
        · obtain ⟨inner, hinner, rfl⟩ := Option.map_eq_some_iff.1 hnode
          exact (isDistinct_table _).2 (ih ((isDistinct_table _).1 hold) hinner)
      | tables finished current =>
        obtain ⟨inner, -, rfl⟩ := Option.map_eq_some_iff.1 hnode
        exact isDistinct_tables _ _

theorem isDistinct_add (h : entries.IsDistinct) (hsetting : setting.IsDistinct)
    (hadd : entries.add name setting = some entries') : entries'.IsDistinct := by
  refine isDistinct_alter h (fun node hnode => ?_) (fun _ _ _ hnode => by cases hnode) hadd
  obtain rfl := Option.some.inj hnode
  rw [Node.IsDistinct, Node.toSetting]
  exact hsetting

theorem isDistinct_set (h : entries.IsDistinct) (hsetting : setting.IsDistinct)
    (hset : entries.set path name setting origin = some entries') : entries'.IsDistinct := by
  refine isDistinct_within (fun origin entries entries' h hchange => ?_) h hset
  split at hchange
  · cases hchange
  · exact isDistinct_add h hsetting hchange

theorem isDistinct_define (h : entries.IsDistinct)
    (hdefine : entries.define path name = some entries') : entries'.IsDistinct := by
  refine isDistinct_within (fun origin entries entries' h hchange => ?_) h hdefine
  refine isDistinct_alter h (fun node hnode => ?_) (fun old node hold hnode => ?_) hchange
  · obtain rfl := Option.some.inj hnode
    exact (isDistinct_table _).2 isDistinct_nil
  · split at hnode
    · rename_i hnone
      cases hnone
    · rename_i inner heq
      obtain rfl := Option.some.inj heq
      obtain rfl := Option.some.inj hnode
      exact (isDistinct_table _).2 ((isDistinct_table _).1 hold)
    · cases hnode

theorem isDistinct_append (h : entries.IsDistinct)
    (happend : entries.append path name = some entries') : entries'.IsDistinct := by
  refine isDistinct_within (fun origin entries entries' h hchange => ?_) h happend
  refine isDistinct_alter h (fun node hnode => ?_) (fun old node _ hnode => ?_) hchange
  · obtain rfl := Option.some.inj hnode
    exact isDistinct_tables _ _
  · split at hnode
    · rename_i hnone
      cases hnone
    · obtain rfl := Option.some.inj hnode
      exact isDistinct_tables _ _
    · cases hnode

end Entries

/-! ## Documents -/

section Words

variable {cs : List Char} {setting : Setting}

theorem time_eq (h : time cs = some setting) : setting = .table [] := by
  simp only [time, Option.ite_none_right_eq_some, Option.some.injEq] at h
  exact h.2.symm

theorem integer?_eq (h : integer? cs = some setting) : ∃ i, setting = .integer i := by
  have hfitting : ∀ i, fitting? i = some setting → setting = .integer i := by
    intro i hi
    simp only [fitting?, Option.ite_none_right_eq_some, Option.some.injEq] at hi
    exact hi.2.symm
  unfold integer? at h
  split at h
  all_goals
    obtain ⟨digits, -, hdigits⟩ := Option.bind_eq_some_iff.1 h
    exact ⟨_, hfitting _ hdigits⟩

theorem real?_eq (h : real? cs = some setting) : setting = .real := by
  have hlast : ∀ finite : Bool, (if finite then some Setting.real else none) = some setting →
      setting = .real := by
    intro finite hfinite
    cases finite with
    | true => exact (Option.some.inj hfinite).symm
    | false => cases hfinite
  unfold real? at h
  simp only [bind, pure] at h
  split at h
  · exact (Option.some.inj h).symm
  · obtain ⟨whole, -, h⟩ := Option.bind_eq_some_iff.1 h
    split at h
    · cases h
    · -- with a fraction, and without
      split at h
      all_goals
        obtain ⟨⟨fraction, rest⟩, -, h⟩ := Option.bind_eq_some_iff.1 h
        simp only at h
        split at h
        · exact hlast _ h
        · split at h
          · obtain ⟨exponent, -, h⟩ := Option.bind_eq_some_iff.1 h
            exact hlast _ h
          · cases h

/-- A word is no table, but for a time, which has no entries. -/
theorem isDistinct_word (h : word? cs = some setting) : setting.IsDistinct := by
  unfold word? at h
  split at h
  · exact Option.some.inj h ▸ .plain rfl
  · split at h
    · exact Option.some.inj h ▸ .plain rfl
    · rcases Option.or_eq_some_iff.1 h with h | ⟨-, h⟩
      · rcases Option.or_eq_some_iff.1 h with h | ⟨-, h⟩
        · exact time_eq h ▸ Setting.isDistinct_nothing
        · exact real?_eq h ▸ .plain rfl
      · obtain ⟨i, rfl⟩ := integer?_eq h
        exact .plain rfl

end Words

theorem isDistinct_scalar {cs rest : List Char} {setting : Setting}
    (h : scalar cs = .ok (setting, rest)) : setting.IsDistinct := by
  unfold scalar at h
  split at h
  · rename_i value hword
    obtain ⟨rfl, -⟩ := Prod.mk.inj (Except.ok.inj h)
    exact isDistinct_word hword
  · cases h

/-- What a reading of values gives at some fuel keeps names apart. -/
structure ReadsDistinct (fuel : Nat) : Prop where
  value : ∀ {room cs setting rest}, Toml.value fuel room cs = .ok (setting, rest) →
    setting.IsDistinct
  items : ∀ {room seen cs setting rest}, items fuel room seen cs = .ok (setting, rest) →
    setting.IsDistinct
  inlineEntries : ∀ {room entries cs setting rest}, Entries.IsDistinct entries →
    inlineEntries fuel room entries cs = .ok (setting, rest) → setting.IsDistinct
  entry : ∀ {room cs path name setting rest},
    entry fuel room cs = .ok ((path, name, setting), rest) → setting.IsDistinct

theorem isDistinct_of_eq_ok {read setting : Setting} {left rest : List Char}
    (hread : read.IsDistinct) (h : (.ok (read, left) : Scan Setting) = .ok (setting, rest)) :
    setting.IsDistinct := by
  obtain ⟨rfl, -⟩ := Prod.mk.inj (Except.ok.inj h)
  exact hread

theorem isDistinct_changed {result : Option Entries} {entries : Entries} {rest : List Char}
    (hresult : ∀ entries, result = some entries → entries.IsDistinct)
    (h : changed result rest = .ok entries) : entries.IsDistinct := by
  unfold changed at h
  split at h
  · exact Except.ok.inj h ▸ hresult _ rfl
  · cases h

namespace ReadsDistinct

variable {fuel room : Nat} {cs rest : List Char} {setting : Setting}

theorem zero : ReadsDistinct 0 := by
  refine ⟨fun h => ?_, fun h => ?_, fun _ h => ?_, fun h => ?_⟩
  · simp only [Toml.value, stuck, reduceCtorEq] at h
  · simp only [Toml.items, stuck, reduceCtorEq] at h
  · simp only [Toml.inlineEntries, stuck, reduceCtorEq] at h
  · simp only [Toml.entry, stuck, reduceCtorEq] at h

theorem value_succ (ih : ReadsDistinct fuel)
    (h : Toml.value (fuel + 1) room cs = .ok (setting, rest)) : setting.IsDistinct := by
  have hstring (h : ((string cs).map fun r => (Setting.text r.1, r.2)) = .ok (setting, rest)) :
      setting.IsDistinct := by
    obtain ⟨_, -, heq⟩ := exists_of_map_eq_ok h
    obtain ⟨rfl, -⟩ := Prod.mk.inj heq
    exact .plain rfl
  unfold Toml.value at h
  split at h
  · cases h
  · cases h
  · exact ih.items h
  · split at h
    · exact isDistinct_of_eq_ok Setting.isDistinct_nothing h
    · exact ih.inlineEntries Entries.isDistinct_nil h
  · exact hstring h
  · exact hstring h
  · exact isDistinct_scalar h

theorem items_succ (ih : ReadsDistinct fuel) {seen : List Setting}
    (h : Toml.items (fuel + 1) room seen cs = .ok (setting, rest)) : setting.IsDistinct := by
  unfold Toml.items at h
  split at h
  · exact isDistinct_of_eq_ok (.plain rfl) h
  · split at h
    · cases h
    · split at h
      · exact isDistinct_of_eq_ok (.plain rfl) h
      · exact ih.items h
      · cases h

theorem inlineEntries_succ (ih : ReadsDistinct fuel) {entries : Entries}
    (hentries : entries.IsDistinct)
    (h : Toml.inlineEntries (fuel + 1) room entries cs = .ok (setting, rest)) :
    setting.IsDistinct := by
  unfold Toml.inlineEntries at h
  split at h
  · cases h
  · rename_i hentry
    split at h
    · cases h
    · rename_i hchanged
      have hdistinct := isDistinct_changed
        (fun _ hset => Entries.isDistinct_set hentries (ih.entry hentry) hset) hchanged
      split at h
      · exact isDistinct_of_eq_ok hdistinct h
      · exact ih.inlineEntries hdistinct h
      · cases h

theorem entry_succ (ih : ReadsDistinct fuel) {path : List String} {name : String}
    (h : Toml.entry (fuel + 1) room cs = .ok ((path, name, setting), rest)) :
    setting.IsDistinct := by
  unfold Toml.entry at h
  split at h
  · cases h
  · split at h
    · cases h
    · rename_i hvalue
      obtain ⟨heq, -⟩ := Prod.mk.inj (Except.ok.inj h)
      obtain ⟨-, heq⟩ := Prod.mk.inj heq
      obtain ⟨-, rfl⟩ := Prod.mk.inj heq
      exact ih.value hvalue
  · cases h

end ReadsDistinct

theorem readsDistinct (fuel : Nat) : ReadsDistinct fuel := by
  induction fuel with
  | zero => exact .zero
  | succ fuel ih => exact ⟨ih.value_succ, ih.items_succ, ih.inlineEntries_succ, ih.entry_succ⟩

/-- A line of a document keeps the names of its draft apart. -/
theorem isDistinct_line {draft draft' : Draft} {cs rest : List Char}
    (hdraft : draft.entries.IsDistinct) (h : line draft cs = .ok (draft', rest)) :
    draft'.entries.IsDistinct := by
  unfold line at h
  split at h
  · obtain ⟨⟨⟨path, name⟩, rest⟩, -, h⟩ := exists_of_bind_eq_ok h
    obtain ⟨entries, hentries, h⟩ := exists_of_bind_eq_ok h
    obtain ⟨rfl, -⟩ := Prod.mk.inj (Except.ok.inj h)
    exact isDistinct_changed (fun _ => Entries.isDistinct_append hdraft) hentries
  · obtain ⟨⟨⟨path, name⟩, rest⟩, -, h⟩ := exists_of_bind_eq_ok h
    obtain ⟨entries, hentries, h⟩ := exists_of_bind_eq_ok h
    obtain ⟨rfl, -⟩ := Prod.mk.inj (Except.ok.inj h)
    exact isDistinct_changed (fun _ => Entries.isDistinct_define hdraft) hentries
  · obtain ⟨⟨⟨path, name, setting⟩, rest⟩, hentry, h⟩ := exists_of_bind_eq_ok h
    obtain ⟨rest, -, h⟩ := exists_of_bind_eq_ok h
    obtain ⟨entries, hentries, h⟩ := exists_of_bind_eq_ok h
    obtain ⟨rfl, -⟩ := Prod.mk.inj (Except.ok.inj h)
    have hsetting := (readsDistinct _).entry hentry
    refine isDistinct_changed (fun entries hwithin => ?_) hentries
    exact Entries.isDistinct_within
      (fun _ _ _ h hset => Entries.isDistinct_set h hsetting hset) hdraft hwithin

theorem isDistinct_lines {fuel : Nat} {draft draft' : Draft} {cs : List Char}
    (hdraft : draft.entries.IsDistinct) (h : lines fuel draft cs = .ok draft') :
    draft'.entries.IsDistinct := by
  induction fuel generalizing draft cs with
  | zero => cases h
  | succ fuel ih =>
    unfold lines at h
    split at h
    · exact Except.ok.inj h ▸ hdraft
    · split at h
      · obtain ⟨rest, -, h⟩ := exists_of_bind_eq_ok h
        exact ih hdraft h
      · split at h
        · exact ih hdraft h
        · obtain ⟨⟨next, rest⟩, hline, h⟩ := exists_of_bind_eq_ok h
          exact ih (isDistinct_line hdraft hline) h

/-- A document sets no name twice in one table. -/
theorem isDistinct_parse {text : String} {setting : Setting} (h : parse text = .ok setting) :
    setting.IsDistinct ∧ setting.isTable = true := by
  unfold parse at h
  split at h
  · rename_i draft hlines
    obtain rfl := Except.ok.inj h
    exact ⟨isDistinct_lines Entries.isDistinct_nil hlines, rfl⟩
  · cases h

end Toml

/-! ## Variables -/

namespace Literal

/-- What a reading of values gives at some fuel keeps names apart. -/
structure ReadsDistinct (fuel : Nat) : Prop where
  value : ∀ {cs setting rest}, value? fuel cs = some (setting, rest) → setting.IsDistinct
  items : ∀ {seen cs setting rest}, items? fuel seen cs = some (setting, rest) →
    setting.IsDistinct
  entries : ∀ {entries cs setting rest}, (Setting.table entries).IsDistinct →
    entries? fuel entries cs = some (setting, rest) → setting.IsDistinct

theorem isDistinct_bare (cs : List Char) : (bare cs).IsDistinct := by
  unfold bare
  split
  · exact .plain rfl
  · split <;> exact .plain rfl

theorem isDistinct_of_eq_some {read setting : Setting} {left rest : List Char}
    (hread : read.IsDistinct) (h : some (read, left) = some (setting, rest)) :
    setting.IsDistinct := by
  obtain ⟨rfl, -⟩ := Prod.mk.inj (Option.some.inj h)
  exact hread

namespace ReadsDistinct

variable {fuel : Nat} {cs rest : List Char} {setting : Setting}

theorem zero : ReadsDistinct 0 := by
  refine ⟨fun h => ?_, fun h => ?_, fun _ h => ?_⟩
  · simp only [value?, reduceCtorEq] at h
  · simp only [items?, reduceCtorEq] at h
  · simp only [entries?, reduceCtorEq] at h

theorem value_succ (ih : ReadsDistinct fuel) (h : value? (fuel + 1) cs = some (setting, rest)) :
    setting.IsDistinct := by
  unfold value? at h
  simp only at h
  split at h
  all_goals
    obtain ⟨⟨value, rest⟩, hvalue, h⟩ := Option.bind_eq_some_iff.1 h
    obtain ⟨rfl, -⟩ := Prod.mk.inj (Option.some.inj h)
  · exact isDistinct_of_eq_some (.plain rfl) hvalue
  · exact isDistinct_of_eq_some (.plain rfl) hvalue
  · exact ih.entries Setting.isDistinct_nothing hvalue
  · exact ih.items hvalue
  · obtain ⟨⟨s, rest⟩, -, heq⟩ := Option.map_eq_some_iff.1 hvalue
    obtain ⟨rfl, -⟩ := Prod.mk.inj heq
    exact .plain rfl
  · exact isDistinct_of_eq_some (.plain rfl) hvalue
  · cases hvalue
  · exact isDistinct_of_eq_some (isDistinct_bare _) hvalue

theorem items_succ (ih : ReadsDistinct fuel) {seen : List Setting}
    (h : items? (fuel + 1) seen cs = some (setting, rest)) : setting.IsDistinct := by
  unfold items? at h
  split at h
  · exact isDistinct_of_eq_some (.plain rfl) h
  · split at h
    · exact ih.items h
    · exact isDistinct_of_eq_some (.plain rfl) h
    · cases h

theorem entries_succ (ih : ReadsDistinct fuel) {entries : List (String × Setting)}
    (hentries : (Setting.table entries).IsDistinct)
    (h : entries? (fuel + 1) entries cs = some (setting, rest)) : setting.IsDistinct := by
  unfold entries? at h
  split at h
  · exact isDistinct_of_eq_some hentries h
  · split at h
    · split at h
      · rename_i hvalue
        exact ih.entries (Setting.isDistinct_insert hentries (ih.value hvalue)) h
      · rename_i hvalue
        exact isDistinct_of_eq_some (Setting.isDistinct_insert hentries (ih.value hvalue)) h
      · cases h
    · cases h

end ReadsDistinct

theorem readsDistinct (fuel : Nat) : ReadsDistinct fuel := by
  induction fuel with
  | zero => exact .zero
  | succ fuel ih => exact ⟨ih.value_succ, ih.items_succ, ih.entries_succ⟩

end Literal

theorem Setting.isDistinct_ofText (s : String) : (Setting.ofText s).IsDistinct := by
  unfold Setting.ofText
  simp only
  split
  · rename_i hvalue
    exact (Literal.readsDistinct _).value hvalue
  · exact .plain rfl

namespace Environment

/-- The trees that variables set by themselves. -/
def trees (environment : Environment) : List Setting :=
  environment.filterMap fun (name, value) =>
    (path? name).map fun path => .under path (.ofText value)

theorem isDistinct_trees (environment : Environment) :
    ∀ tree ∈ environment.trees, tree.IsDistinct := by
  intro tree htree
  obtain ⟨⟨name, value⟩, -, hpath⟩ := List.mem_filterMap.1 htree
  obtain ⟨path, -, rfl⟩ := Option.map_eq_some_iff.1 hpath
  exact Setting.isDistinct_under (Setting.isDistinct_ofText value) path

theorem parts_ne_nil (part cs : List Char) : parts part cs ≠ [] := by
  fun_induction parts part cs with
  | case1 | case2 | case3 => exact List.cons_ne_nil _ _
  | case4 _ _ _ _ _ ih => exact ih

theorem isTable_trees (environment : Environment) :
    ∀ tree ∈ environment.trees, tree.isTable = true := by
  intro tree htree
  obtain ⟨⟨name, value⟩, -, htree⟩ := List.mem_filterMap.1 htree
  obtain ⟨path, hpath, rfl⟩ := Option.map_eq_some_iff.1 htree
  refine Setting.isTable_under _ ?_
  obtain ⟨rest, -, hrest⟩ := Option.bind_eq_some_iff.1 hpath
  simp only [Option.ite_none_left_eq_some, Option.some.injEq] at hrest
  exact hrest.2 ▸ parts_ne_nil _ _

theorem isTable_setting (environment : Environment) : environment.setting.isTable = true :=
  Setting.isTable_overlay environment.isTable_trees

theorem isDistinct_setting (environment : Environment) : environment.setting.IsDistinct :=
  Setting.isDistinct_overlay environment.isDistinct_trees

end Environment

end TrialBoard
