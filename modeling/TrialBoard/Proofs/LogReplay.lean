import TrialBoard.Proofs.Isolation
import TrialBoard.Proofs.ReadingBack

/-!
# The log and the tables

A write changes one row of a table and logs the bodies before and after. So the log tells the
tables: the changes of a collection, replayed in their order, give the rows of its table in theirs,
and each change has as its old body what the change of the same row before it left.

A table that keeps its bodies is the exception. There a row that is written again stays as it is,
and the log tells what was to be written. Such a log tells the table just as long as every row that
is written again is written as it was.

`Recorded` says how rows come about by changes, one write at a time. A database that only writes and
preparations have touched keeps it for every collection, also where they fail, and what the log
tells of a table is read off from it by induction on the writes.
-/

namespace TrialBoard

open Json (Members)

/-! ## Documents whose text can be read -/

theorem Json.exists_mapM_iff {α β : Type} {f : α → Option β} {as : List α} :
    (∃ bs, as.mapM f = some bs) ↔ ∀ a ∈ as, ∃ b, f a = some b := by
  constructor
  · rintro ⟨bs, hbs⟩ a ha
    obtain ⟨b, -, hb⟩ := exists_of_forall₂ (mapM_eq_some_iff.1 hbs) ha
    exact ⟨b, hb⟩
  · intro h
    induction as with
    | nil => exact ⟨[], rfl⟩
    | cons a as ih =>
      obtain ⟨⟨b, hb⟩, has⟩ := List.forall_mem_cons.1 h
      obtain ⟨bs, hbs⟩ := ih has
      exact ⟨b :: bs, mapM_eq_some_iff.2 (.cons hb (mapM_eq_some_iff.1 hbs))⟩

namespace Document

/-- Whether the keys of a document are in order and readers take its text, though it may be for
another document: a real number can be read as one close to it. -/
structure Parses (doc : Document) : Prop where
  sorted : Members.Sorted doc
  parses : ∃ value, Json.parse (Json.object doc).render = .ok value

variable {doc : Document}

theorem reread_object (doc : Document) :
    (Json.object doc).reread Json.maxDepth = (List.mapM (fun m : String × Json =>
      (m.2.reread (Json.maxDepth - 1)).map (m.1, ·)) doc).map Json.object :=
  Json.reread_object doc

theorem parses_iff : doc.Parses ↔
    Members.Sorted doc ∧ ∀ m ∈ doc, ∃ value, m.2.reread (Json.maxDepth - 1) = some value := by
  have hread : (∃ value, Json.parse (Json.object doc).render = .ok value) ↔
      ∀ m ∈ doc, ∃ value, m.2.reread (Json.maxDepth - 1) = some value := by
    simp only [Json.parse_render, reread_object, Option.map_map, Option.map_eq_some_iff]
    rw [exists_comm]
    simp only [exists_and_left, exists_eq', and_true, Json.exists_mapM_iff, Option.map_eq_some_iff]
    exact forall₂_congr fun m _ =>
      ⟨fun ⟨_, value, hvalue, _⟩ => ⟨value, hvalue⟩, fun ⟨value, hvalue⟩ => ⟨_, value, hvalue, rfl⟩⟩
  rw [← hread]
  exact ⟨fun h => ⟨h.sorted, h.parses⟩, fun h => ⟨h.1, h.2⟩⟩

theorem ReadsBack.parses (h : doc.ReadsBack) : doc.Parses := ⟨(readsBack_iff.1 h).1, _, h⟩

theorem parses_named : Parses [("name", .string "n")] := by
  refine ReadsBack.parses ?_
  unfold ReadsBack
  cbv

/-- A document that is given an id can still be read. -/
theorem Parses.withId (h : doc.Parses) (id : String) : (doc.withId id).Parses := by
  obtain ⟨hsorted, hvalues⟩ := parses_iff.1 h
  refine parses_iff.2 ⟨Members.sorted_insert hsorted _ _, fun m hm => ?_⟩
  rcases Members.mem_insert hm with rfl | hm
  · exact ⟨_, Json.reread_string _ id⟩
  · exact hvalues m hm

theorem Parses.identified (h : doc.Parses) (fresh : String) : (doc.identified fresh).2.Parses := by
  unfold Document.identified
  split
  · exact h
  · exact h.withId fresh

/-- A text among the members is still there after they are read. -/
theorem get?_of_reread {room : Nat} {ms ms' : Members} {key text : String}
    (h : List.Forall₂ (fun m m' => (m.2.reread room).map (m.1, ·) = some m') ms ms')
    (hget : ms.get? key = some (.string text)) :
    Members.get? (ms'.map fun m => (m.1, m.2.canonical)) key = some (.string text) := by
  unfold Members.get? at hget ⊢
  induction h with
  | nil => cases hget
  | @cons m m' ms ms' hm _ ih =>
    obtain ⟨k, v⟩ := m
    obtain ⟨v', hv', rfl⟩ := Option.map_eq_some_iff.1 hm
    rw [Members.lookup_cons] at hget
    rw [List.map_cons, Members.lookup_cons]
    split at hget
    · obtain rfl := Option.some.inj hget
      obtain rfl := Option.some.inj ((Json.reread_string room text).symm.trans hv')
      rename_i heq
      rw [if_pos heq]
      rfl
    · rename_i hne
      rw [if_neg hne]
      exact ih hget

/-- What is there after the members are read was read from the text of the value at that key. -/
theorem exists_get?_of_reread {room : Nat} {ms ms' : Members} {key : String} {value : Json}
    (h : List.Forall₂ (fun m m' => (m.2.reread room).map (m.1, ·) = some m') ms ms')
    (hget : Members.get? (ms'.map fun m => (m.1, m.2.canonical)) key = some value) :
    ∃ v w, ms.get? key = some v ∧ v.reread room = some w ∧ w.canonical = value := by
  unfold Members.get? at hget ⊢
  induction h with
  | nil => cases hget
  | @cons m m' ms ms' hm _ ih =>
    obtain ⟨k, v⟩ := m
    obtain ⟨w, hw, rfl⟩ := Option.map_eq_some_iff.1 hm
    rw [Members.lookup_cons]
    rw [List.map_cons, Members.lookup_cons] at hget
    split at hget
    · rename_i heq
      exact ⟨v, w, if_pos heq, hw, Option.some.inj hget⟩
    · rename_i hne
      rw [if_neg hne]
      exact ih hget

theorem get?_of_id? {id : String} (h : doc.id? = some id) : doc.get? idKey = some (.string id) := by
  obtain ⟨value, hvalue, htext⟩ := Option.bind_eq_some_iff.1 h
  rw [hvalue]
  cases value with
  | string s => rw [Option.some.inj htext]
  | null | bool | number | array | object => cases htext

/-- What is read from the text of a document has the document's keys, each with what is read from
the text of its value. -/
theorem Parses.exists_members (h : doc.Parses) : ∃ ms : Members,
    List.Forall₂ (fun m m' => (m.2.reread (Json.maxDepth - 1)).map (m.1, ·) = some m') doc ms ∧
      TableStore.readBody (Json.object doc).render =
        .ok (ms.map fun m => (m.1, m.2.canonical)) := by
  obtain ⟨value, hvalue⟩ := h.parses
  have hread := (Json.parse_render _).1 hvalue
  rw [reread_object, Option.map_map, Option.map_eq_some_iff] at hread
  obtain ⟨ms, hms, rfl⟩ := hread
  have hsame := Json.mapM_eq_some_iff.1 hms
  have hkeys : ms.map Prod.fst = doc.map Prod.fst := by
    refine (List.forall₂_eq_eq_eq ▸ List.forall₂_map_left_iff.2
      (List.forall₂_map_right_iff.2 (hsame.imp fun m m' hm => ?_))).symm
    obtain ⟨value, -, rfl⟩ := Option.map_eq_some_iff.1 hm
    rfl
  have hsorted : Members.Sorted ms := by
    rw [Members.sorted_iff_keys, hkeys, ← Members.sorted_iff_keys]
    exact h.sorted
  refine ⟨ms, hsame, ?_⟩
  rw [TableStore.readBody, hvalue, Function.comp_apply, Json.canonical,
    Json.canonicalMembers_eq_map, Members.ofList_of_sorted (Members.sorted_map_iff.2 hsorted)]

/-- What is read from the text of a document is an object with the document's id. -/
theorem Parses.readBody {id : String} (h : doc.Parses) (hid : doc.id? = some id) :
    ∃ row, TableStore.readBody (Json.object doc).render = .ok row ∧ row.id? = some id := by
  obtain ⟨ms, hsame, hread⟩ := h.exists_members
  refine ⟨_, hread, ?_⟩
  rw [Document.id?, Document.text?, get?_of_reread hsame (get?_of_id? hid)]
  rfl

end Document

/-! ## Changes replayed -/

/-- The id of the row that a body holds. -/
def bodyId? (body : String) : Option String :=
  (TableStore.readBody body).toOption.bind Document.id?

theorem bodyId?_eq_some {body id : String} :
    bodyId? body = some id ↔ ∃ row, TableStore.readBody body = .ok row ∧ row.id? = some id := by
  unfold bodyId?
  cases TableStore.readBody body with
  | ok row => simp [Except.toOption]
  | error reason => simp [Except.toOption]

/-- Rows with one put in the place of that of its id. -/
def replaceRow (rows : List Row) (row : Row) : List Row :=
  rows.map fun r => if r.id = row.id then row else r

namespace LogRow

/-- The id of the row that a change is about: that in the new body. -/
def id? (change : LogRow) : Option String := change.new?.bind bodyId?

/-- What a change does to rows. Without an old body it adds its row. Otherwise its row comes in the
place of the one with its id, and there has to be one. -/
def replay (rows : List Row) (change : LogRow) : Option (List Row) := do
  let body ← change.new?
  let id ← bodyId? body
  match change.old? with
  | none => some (rows ++ [⟨id, body⟩])
  | some _ =>
    if (rows.find? (·.id == id)).isSome then some (replaceRow rows ⟨id, body⟩) else none

/-- Whether a change tells of a row that was written. -/
structure Tells (change : LogRow) (row : Row) : Prop where
  new : change.new? = some row.body
  id : bodyId? row.body = some row.id

theorem Tells.id? {change : LogRow} {row : Row} (h : change.Tells row) :
    change.id? = some row.id := by
  rw [LogRow.id?, h.new, Option.bind_some, h.id]

end LogRow

/-- The rows that changes make, one after the other. -/
def replay (changes : List LogRow) : Option (List Row) := changes.foldlM LogRow.replay []

/-- The body that the last change of a row has left. -/
def lastBody? (id : String) (changes : List LogRow) : Option String :=
  (changes.reverse.find? (·.id? == some id)).bind (·.new?)

/-- Whether each change has the body that the change of its row before it has left as its old
one, and none if it is the first of its row. -/
def Chained (changes : List LogRow) : Prop :=
  ∀ before change after, changes = before ++ change :: after →
    ∃ id, change.id? = some id ∧ change.old? = lastBody? id before

/-- How the rows of a table, which may keep its bodies, come about by changes. -/
inductive Recorded (keeps : Bool) : List Row → List LogRow → Prop where
  | nil : Recorded keeps [] []
  | add {rows : List Row} {changes : List LogRow} {row : Row} {change : LogRow}
    (h : Recorded keeps rows changes) (hfree : rows.find? (·.id == row.id) = none)
    (hold : change.old? = none) (htells : change.Tells row) :
    Recorded keeps (rows ++ [row]) (changes ++ [change])
  | replace {rows : List Row} {changes : List LogRow} {row old : Row} {change : LogRow}
    (hkeeps : keeps = false) (h : Recorded keeps rows changes)
    (hheld : rows.find? (·.id == row.id) = some old)
    (hold : change.old? = some old.body) (htells : change.Tells row) :
    Recorded keeps (replaceRow rows row) (changes ++ [change])
  | keep {rows : List Row} {changes : List LogRow} {row old : Row} {change : LogRow}
    (hkeeps : keeps = true) (h : Recorded keeps rows changes)
    (hheld : rows.find? (·.id == row.id) = some old)
    (hold : change.old? = some old.body) (htells : change.Tells row) :
    Recorded keeps rows (changes ++ [change])

/-- Whether every change of a row that was there has the body that was there. -/
def RepeatsBodies (changes : List LogRow) : Prop :=
  ∀ change ∈ changes, ∀ old, change.old? = some old → change.new? = some old

section Changes

variable {keeps : Bool} {rows : List Row} {row old : Row} {changes : List LogRow} {change : LogRow}

theorem replay_append_singleton (changes : List LogRow) (change : LogRow) :
    replay (changes ++ [change]) = (replay changes).bind (LogRow.replay · change) := by
  rw [replay, List.foldlM_append]
  simp only [List.foldlM_cons, List.foldlM_nil]
  exact congrArg _ (funext fun rows => bind_pure _)

/-- A change that tells a row leaves its body. -/
theorem lastBody?_append_of_tells (htells : change.Tells row) (id : String) :
    lastBody? id (changes ++ [change]) =
      if row.id = id then some row.body else lastBody? id changes := by
  rw [lastBody?, List.reverse_append, List.reverse_singleton, List.singleton_append,
    List.find?_cons, htells.id?]
  by_cases h : row.id = id
  · rw [if_pos h, h, beq_self_eq_true, Option.bind_some, htells.new]
  · rw [if_neg h, beq_eq_false_iff_ne.2 fun heq => h (Option.some.inj heq)]
    rfl

theorem map_id_replaceRow (rows : List Row) (row : Row) :
    (replaceRow rows row).map (·.id) = rows.map (·.id) := by
  rw [replaceRow, List.map_map]
  refine List.map_congr_left fun r _ => ?_
  rw [Function.comp_apply]
  split
  · rename_i heq
    exact heq.symm
  · rfl

theorem find?_replaceRow (hheld : rows.find? (·.id == row.id) = some old) (id : String) :
    (replaceRow rows row).find? (·.id == id) =
      if row.id = id then some row else rows.find? (·.id == id) := by
  have hsame : ((·.id == id) ∘ fun r : Row => if r.id = row.id then row else r) =
      (·.id == id) := by
    funext r
    by_cases hr : r.id = row.id <;> simp [hr]
  have hold : old.id = row.id := by simpa using List.find?_some hheld
  rw [replaceRow, List.find?_map, hsame]
  by_cases hid : row.id = id
  · rw [if_pos hid, ← hid, hheld, Option.map_some, if_pos hold]
  · rw [if_neg hid]
    cases hfind : rows.find? (·.id == id) with
    | none => rfl
    | some r =>
      have hr : r.id = id := by simpa using List.find?_some hfind
      rw [Option.map_some, if_neg (hr ▸ Ne.symm hid)]

theorem mem_replaceRow {r : Row} (h : r ∈ replaceRow rows row) : r = row ∨ r ∈ rows := by
  obtain ⟨r', hr', rfl⟩ := List.mem_map.1 h
  split
  · exact .inl rfl
  · exact .inr hr'

theorem find?_append_row (hfree : rows.find? (·.id == row.id) = none) (id : String) :
    (rows ++ [row]).find? (·.id == id) =
      if row.id = id then some row else rows.find? (·.id == id) := by
  rw [List.find?_append, List.find?_singleton]
  by_cases hid : row.id = id
  · rw [if_pos hid, ← hid, hfree, Option.none_or, beq_self_eq_true, if_pos rfl]
  · rw [if_neg hid, beq_eq_false_iff_ne.2 hid, if_neg Bool.false_ne_true, Option.or_none]

/-- A row that is replaced by itself stays. -/
theorem replaceRow_self (hrows : (rows.map (·.id)).Nodup)
    (hheld : rows.find? (·.id == row.id) = some row) : replaceRow rows row = rows := by
  refine (List.map_congr_left fun r hr => ?_).trans (List.map_id' rows)
  split
  · rename_i hid
    exact List.inj_on_of_nodup_map hrows (List.mem_of_find?_eq_some hheld) hr hid.symm
  · rfl

theorem nodup_append_row (hrows : (rows.map (·.id)).Nodup)
    (hfree : rows.find? (·.id == row.id) = none) : ((rows ++ [row]).map (·.id)).Nodup := by
  rw [List.map_append, List.map_singleton]
  refine List.nodup_append.2 ⟨hrows, List.nodup_singleton _, fun id hid other hother => ?_⟩
  obtain ⟨r, hr, rfl⟩ := List.mem_map.1 hid
  rw [List.mem_singleton.1 hother]
  simpa using List.find?_eq_none.1 hfree r hr

/-! ### Chains -/

theorem Chained.of_append_singleton (h : Chained (changes ++ [change])) :
    Chained changes ∧ ∃ id, change.id? = some id ∧ change.old? = lastBody? id changes := by
  refine ⟨fun before other after hsplit => ?_, h changes change [] rfl⟩
  exact h before other (after ++ [change]) (by rw [hsplit, List.append_assoc, List.cons_append])

/-- One more change keeps changes chained that has the body which is left as its old one. -/
theorem Chained.append_singleton {id : String} (h : Chained changes) (hid : change.id? = some id)
    (hold : change.old? = lastBody? id changes) : Chained (changes ++ [change]) := by
  intro before other after hsplit
  cases hafter : after.reverse with
  | nil =>
    obtain rfl := List.reverse_eq_nil_iff.1 hafter
    obtain ⟨rfl, hlast⟩ := List.append_inj' hsplit rfl
    obtain rfl := List.singleton_inj.1 hlast
    exact ⟨id, hid, hold⟩
  | cons last init =>
    obtain rfl : after = init.reverse ++ [last] := by
      rw [← List.reverse_reverse after, hafter, List.reverse_cons]
    rw [← List.cons_append, ← List.append_assoc] at hsplit
    exact h before other init.reverse (List.append_inj' hsplit rfl).1

/-- What a change replays to. -/
theorem LogRow.replay_eq_some {rows' : List Row} (h : change.replay rows = some rows') :
    ∃ row, change.Tells row ∧
      ((change.old? = none ∧ rows' = rows ++ [row]) ∨
        ∃ old, rows.find? (·.id == row.id) = some old ∧ rows' = replaceRow rows row) := by
  obtain ⟨body, hbody, h⟩ := Option.bind_eq_some_iff.1 h
  obtain ⟨id, hid, h⟩ := Option.bind_eq_some_iff.1 h
  refine ⟨⟨id, body⟩, ⟨hbody, hid⟩, ?_⟩
  split at h
  · rename_i hnone
    exact .inl ⟨hnone, (Option.some.inj h).symm⟩
  · split at h
    · rename_i hheld
      obtain ⟨old, hold⟩ := Option.isSome_iff_exists.1 hheld
      exact .inr ⟨old, hold, (Option.some.inj h).symm⟩
    · cases h

/-- Where a replay gives rows with ids of their own, the last change of a row has left its body. -/
theorem lastBody?_of_replay (h : replay changes = some rows) (hrows : (rows.map (·.id)).Nodup)
    (id : String) : lastBody? id changes = (rows.find? (·.id == id)).map (·.body) := by
  induction changes using List.reverseRecOn generalizing rows with
  | nil =>
    obtain rfl := Option.some.inj h
    rfl
  | append_singleton changes change ih =>
    rw [replay_append_singleton] at h
    obtain ⟨before, hbefore, hchange⟩ := Option.bind_eq_some_iff.1 h
    obtain ⟨row, htells, ⟨-, rfl⟩ | ⟨old, hheld, rfl⟩⟩ := LogRow.replay_eq_some hchange
    · rw [List.map_append, List.map_singleton, ← List.concat_eq_append,
        List.nodup_concat] at hrows
      have hfree : before.find? (·.id == row.id) = none := by
        refine List.find?_eq_none.2 fun r hr hid => hrows.1 ?_
        exact List.mem_map.2 ⟨r, hr, beq_iff_eq.1 hid⟩
      rw [lastBody?_append_of_tells htells, find?_append_row hfree, ih hbefore hrows.2]
      split <;> rfl
    · rw [map_id_replaceRow] at hrows
      rw [lastBody?_append_of_tells htells, find?_replaceRow hheld, ih hbefore hrows]
      split <;> rfl

/-! ### Rows that are recorded -/

namespace Recorded

theorem nodup (h : Recorded keeps rows changes) : (rows.map (·.id)).Nodup := by
  induction h with
  | nil => exact List.nodup_nil
  | add _ hfree _ _ ih => exact nodup_append_row ih hfree
  | replace _ _ _ _ _ ih => rwa [map_id_replaceRow]
  | keep _ _ _ _ _ ih => exact ih

/-- The body of a row holds the id that is its key. -/
theorem bodyId?_body (h : Recorded keeps rows changes) : ∀ r ∈ rows, bodyId? r.body = some r.id := by
  induction h with
  | nil => exact fun r hr => absurd hr List.not_mem_nil
  | add _ _ _ htells ih =>
    intro r hr
    rcases List.mem_append.1 hr with hr | hr
    · exact ih r hr
    · rw [List.mem_singleton.1 hr]
      exact htells.id
  | replace _ _ _ _ htells ih =>
    intro r hr
    rcases mem_replaceRow hr with rfl | hr
    · exact htells.id
    · exact ih r hr
  | keep _ _ _ _ _ ih => exact ih

/-- Replaying the changes of a table that lets bodies be replaced gives the rows. -/
theorem replay_eq (h : Recorded false rows changes) : replay changes = some rows := by
  induction h with
  | nil => rfl
  | add _ _ hold htells ih =>
    rw [replay_append_singleton, ih, Option.bind_some, LogRow.replay, htells.new, hold]
    simp only [Option.bind_eq_bind, Option.bind_some, htells.id]
  | replace _ _ hheld hold htells ih =>
    rw [replay_append_singleton, ih, Option.bind_some, LogRow.replay, htells.new, hold]
    simp only [Option.bind_eq_bind, Option.bind_some, htells.id, hheld, Option.isSome_some,
      if_true]
  | keep hkeeps => cases hkeeps

/-- The last change of a row has left the body that is held. -/
theorem lastBody?_eq (h : Recorded false rows changes) (id : String) :
    lastBody? id changes = (rows.find? (·.id == id)).map (·.body) :=
  lastBody?_of_replay h.replay_eq h.nodup id

theorem chained (h : Recorded false rows changes) : Chained changes := by
  induction h with
  | nil => exact fun before change after hsplit => by simp at hsplit
  | add h hfree hold htells ih =>
    refine ih.append_singleton htells.id? ?_
    rw [hold, h.lastBody?_eq, hfree, Option.map_none]
  | replace _ h hheld hold htells ih =>
    refine ih.append_singleton htells.id? ?_
    rw [hold, h.lastBody?_eq, hheld, Option.map_some]
  | keep hkeeps => cases hkeeps

/-- Where each row that is written again is written as it was, it makes no difference whether a table
keeps its bodies. -/
theorem of_repeatsBodies (h : Recorded keeps rows changes) (hrepeats : RepeatsBodies changes) :
    Recorded false rows changes := by
  induction h with
  | nil => exact .nil
  | add _ hfree hold htells ih =>
    exact (ih fun c hc => hrepeats c (List.mem_append_left _ hc)).add hfree hold htells
  | replace _ _ hheld hold htells ih =>
    exact (ih fun c hc => hrepeats c (List.mem_append_left _ hc)).replace rfl hheld hold htells
  | @keep rows changes row old change _ h hheld hold htells ih =>
    have hbody : row.body = old.body :=
      Option.some.inj (htells.new.symm.trans
        (hrepeats change (List.mem_append_right _ (List.mem_singleton_self _)) _ hold))
    have hid : old.id = row.id := by simpa using List.find?_some hheld
    have hsame : row = old := by
      cases row
      cases old
      simp_all
    have hreplaced := (ih fun c hc => hrepeats c (List.mem_append_left _ hc)).replace rfl hheld hold
      htells
    rwa [replaceRow_self h.nodup (hsame ▸ hheld)] at hreplaced

/-- In a table that keeps its bodies, a chain that ends with the bodies there are repeats them: a
change of a row is followed by one that has the body there is as its old one, or is the last. -/
theorem repeatsBodies (h : Recorded true rows changes) (hchained : Chained changes)
    (hlast : ∀ id, lastBody? id changes = (rows.find? (·.id == id)).map (·.body)) :
    RepeatsBodies changes := by
  induction h with
  | nil => exact fun change hchange => absurd hchange List.not_mem_nil
  | @add rows changes row change _ hfree hold htells ih =>
    obtain ⟨hbefore, id, hid, hchain⟩ := hchained.of_append_singleton
    obtain rfl : row.id = id := Option.some.inj (htells.id?.symm.trans hid)
    refine List.forall_mem_append.2 ⟨ih hbefore fun id => ?_, List.forall_mem_singleton.2 ?_⟩
    · by_cases hsame : row.id = id
      · rw [← hsame, ← hchain, hold, hfree, Option.map_none]
      · have hid := hlast id
        rwa [lastBody?_append_of_tells htells, find?_append_row hfree, if_neg hsame,
          if_neg hsame] at hid
    · intro old hsome
      rw [hold] at hsome
      cases hsome
  | replace hkeeps => cases hkeeps
  | @keep rows changes row old change _ h hheld hold htells ih =>
    obtain ⟨hbefore, id, hid, hchain⟩ := hchained.of_append_singleton
    obtain rfl : row.id = id := Option.some.inj (htells.id?.symm.trans hid)
    refine List.forall_mem_append.2 ⟨ih hbefore fun id => ?_, List.forall_mem_singleton.2 ?_⟩
    · by_cases hsame : row.id = id
      · rw [← hsame, ← hchain, hold, hheld, Option.map_some]
      · have hid := hlast id
        rwa [lastBody?_append_of_tells htells, if_neg hsame] at hid
    · intro body hbody
      have hleft := hlast row.id
      rw [lastBody?_append_of_tells htells, if_pos rfl, hheld, Option.map_some, ← hold,
        hbody] at hleft
      exact htells.new.trans hleft

/-- The log tells the rows just where the table lets bodies be replaced, or none was to be. -/
theorem tells_iff (h : Recorded keeps rows changes) :
    (replay changes = some rows ∧ Chained changes) ↔ keeps = false ∨ RepeatsBodies changes := by
  constructor
  · rintro ⟨hreplay, hchained⟩
    cases keeps with
    | false => exact .inl rfl
    | true => exact .inr (h.repeatsBodies hchained (lastBody?_of_replay hreplay h.nodup))
  · intro hcase
    have hrecorded : Recorded false rows changes := by
      rcases hcase with rfl | hrepeats
      · exact h
      · exact h.of_repeatsBodies hrepeats
    exact ⟨hrecorded.replay_eq, hrecorded.chained⟩

/-- A row put into its table, and logged with the body that was held under its id. -/
theorem put {t : Table} (h : Recorded (keepsBodies t.name) t.rows changes)
    (htells : change.Tells row) (hold : change.old? = (t.row? row.id).map (·.body)) :
    Recorded (keepsBodies t.name) (t.put row).rows (changes ++ [change]) := by
  rcases t.put_cases row with ⟨hfree, hput⟩ | ⟨old, hheld, ⟨hkeeps, hput⟩ | ⟨hkeeps, hput⟩⟩
  · rw [hfree] at hold
    rw [hput]
    exact h.add hfree hold htells
  · rw [hheld] at hold
    rw [hput]
    exact h.keep hkeeps hheld hold htells
  · rw [hheld] at hold
    rw [hput]
    exact h.replace hkeeps hheld hold htells

end Recorded

end Changes

/-! ## What a database has of a name -/

namespace Database

/-- The rows of a table, none if the table is not there. -/
def rowsOf (db : Database) (name : String) : List Row := ((db.table? name).map (·.rows)).getD []

/-- The changes that the log has under a name, in their order. -/
def changesOf (db : Database) (name : String) : List LogRow :=
  ((db.log?.map (·.rows)).getD []).filter (·.table == name)

variable {db db' : Database} {name : String}

theorem rowsOf_eq {t : Table} (h : db.table? name = some t) : db.rowsOf name = t.rows := by
  rw [rowsOf, h]
  rfl

theorem changesOf_eq {log : ChangeLog} (h : db.log? = some log) :
    db.changesOf name = log.rows.filter (·.table == name) := by
  rw [changesOf, h]
  rfl

/-- A table that is created has no rows, and the log stays as it is. -/
theorem createTable_frame (h : db.createTable name = .ok db') :
    db'.log? = db.log? ∧ ∀ other, db'.rowsOf other = db.rowsOf other := by
  unfold createTable at h
  split at h
  · cases h
  · split at h
    · obtain rfl := Except.ok.inj h
      exact ⟨rfl, fun _ => rfl⟩
    · split at h
      · cases h
      · obtain rfl := Except.ok.inj h
        refine ⟨rfl, fun other => ?_⟩
        unfold rowsOf table?
        rw [List.find?_append]
        cases db.tables.find? (sameName other ·.name) with
        | some t => rfl
        | none =>
          rw [Option.none_or, List.find?_singleton]
          split <;> rfl

theorem createTables_frame (db : Database) (names : List String) :
    (db.createTables names).2.log? = db.log? ∧
      ∀ other, (db.createTables names).2.rowsOf other = db.rowsOf other := by
  induction names generalizing db with
  | nil => exact ⟨rfl, fun _ => rfl⟩
  | cons name names ih =>
    unfold createTables
    split
    · rename_i created hcreate
      obtain ⟨hlog, hrows⟩ := createTable_frame hcreate
      obtain ⟨hlog', hrows'⟩ := ih created
      exact ⟨hlog'.trans hlog, fun other => (hrows' other).trans (hrows other)⟩
    · exact ⟨rfl, fun _ => rfl⟩

theorem createLog_frame (db : Database) (name : String) :
    db.createLog.2.rowsOf name = db.rowsOf name ∧
      db.createLog.2.changesOf name = db.changesOf name := by
  unfold createLog changesOf
  cases db.log? <;> split <;> exact ⟨rfl, rfl⟩

/-- A preparation leaves the rows of every table and the changes of every name, also one that fails
in the middle. -/
theorem ensure_frame (db : Database) (names : CollectionNames) (name : String) :
    (db.ensure names).2.rowsOf name = db.rowsOf name ∧
      (db.ensure names).2.changesOf name = db.changesOf name := by
  obtain ⟨hlog, hrows⟩ := createTables_frame db names.toList
  have hchanges : (db.createTables names.toList).2.changesOf name = db.changesOf name := by
    rw [changesOf, changesOf, hlog]
  unfold ensure
  split
  · rename_i created hcreated
    rw [hcreated] at hrows hchanges
    obtain ⟨hrows', hchanges'⟩ := createLog_frame created name
    exact ⟨hrows'.trans (hrows name), hchanges'.trans hchanges⟩
  · exact ⟨hrows name, hchanges⟩

end Database

/-! ## Runs -/

namespace Write

/-- The document that is written. -/
def doc : Write → Document
  | insert _ _ doc => doc
  | upsert _ _ doc => doc

theorem parses_row {w : Write} (h : w.doc.Parses) : w.row.Parses := by
  cases w with
  | insert c fresh doc => exact Document.Parses.identified h fresh
  | upsert c id doc => exact Document.Parses.withId h id

end Write

namespace TableStore

/-- The rows that a store holds of a collection, in the order of a scan. -/
def rowsOf (s : TableStore) (c : Collection) : List Row := s.database.rowsOf (s.tableName c)

/-- The changes of a collection that are in the log, in the order of their numbers. -/
def changesOf (s : TableStore) (c : Collection) : List LogRow :=
  s.database.changesOf (s.tableName c)

/-- One call that can change a database. -/
inductive Command where
  | ensure
  | write (w : Write)

/-- The store after a call. A write that fails leaves it as it is. -/
def perform (s : TableStore) : Command → TableStore
  | .ensure => s.ensure.2
  | .write w =>
    match s.write w with
    | .ok s' => s'
    | .error _ => s

/-- The store after calls, one after the other. -/
def run (s : TableStore) (commands : List Command) : TableStore := commands.foldl perform s

variable {s s' : TableStore} {c : Collection}

theorem ensure_frame (s : TableStore) (c : Collection) :
    s.ensure.2.names = s.names ∧ s.ensure.2.rowsOf c = s.rowsOf c ∧
      s.ensure.2.changesOf c = s.changesOf c := by
  obtain ⟨hrows, hchanges⟩ := s.database.ensure_frame s.names (s.tableName c)
  unfold ensure
  split <;> rename_i hensure <;> rw [hensure] at hrows hchanges <;> exact ⟨rfl, hrows, hchanges⟩

/-- A write is refused where there is no log. -/
theorem write_of_no_log (hlog : s.database.log? = none) (w : Write) :
    ∃ e, s.write w = .error e := by
  have hrefused : ∀ name row, (∃ e, s.database.insert name row = .error e) ∧
      ∃ e, s.database.upsert name row = .error e := by
    intro name row
    unfold Database.insert Database.upsert Database.addRow Database.table
    cases s.database.table? name with
    | none => exact ⟨⟨_, rfl⟩, _, rfl⟩
    | some t =>
      simp only [bind, Except.bind, pure, Except.pure, Database.appendChange, Database.log,
        Database.setTable, hlog]
      by_cases hheld : (t.row? row.id).isSome
      · simp [hheld, throw, throwThe, MonadExceptOf.throw]
      · simp [hheld]
  cases w with
  | insert c fresh doc =>
    unfold write insert
    obtain ⟨e, he⟩ := (hrefused (s.tableName c)
      (rowOf (doc.identified fresh).1 (doc.identified fresh).2)).1
    simp only [he, answer, bind, Except.bind]
    exact ⟨_, rfl⟩
  | upsert c id doc =>
    unfold write upsert
    obtain ⟨e, he⟩ := (hrefused (s.tableName c) (rowOf id (doc.withId id))).2
    simp only [he, answer, bind, Except.bind]
    exact ⟨_, rfl⟩

theorem write_of_no_table {w : Write}
    (ht : s.database.table? (s.tableName w.collection) = none) : ∃ e, s.write w = .error e := by
  cases w with
  | insert c fresh doc =>
    change s.database.table? (s.tableName c) = none at ht
    rw [write, insert_of_no_table ht]
    exact ⟨_, rfl⟩
  | upsert c id doc =>
    change s.database.table? (s.tableName c) = none at ht
    rw [write, upsert_of_no_table ht]
    exact ⟨_, rfl⟩

/-- Only a store that has the table and the log takes a write, and it puts the row into the table. -/
theorem exists_written {w : Write} (h : s.write w = .ok s') :
    ∃ t log, s.database.table? (s.tableName w.collection) = some t ∧
      s.database.log? = some log ∧ s' = s.written w.collection t log (rowOf w.id w.row) := by
  cases ht : s.database.table? (s.tableName w.collection) with
  | none =>
    obtain ⟨e, he⟩ := write_of_no_table ht
    rw [he] at h
    cases h
  | some t =>
    cases hlog : s.database.log? with
    | none =>
      obtain ⟨e, he⟩ := write_of_no_log hlog w
      rw [he] at h
      cases h
    | some log => exact ⟨t, log, rfl, rfl, write_eq_ok h ht hlog⟩

/-- A row that is written comes into the rows of its collection, and its change after the changes of
the collection. -/
theorem frame_written_self {t : Table} {log : ChangeLog}
    (ht : s.database.table? (s.tableName c) = some t) (hlog : s.database.log? = some log)
    (row : Row) :
    (s.written c t log row).rowsOf c = (t.put row).rows ∧
      (s.written c t log row).changesOf c = s.changesOf c ++
        [⟨log.lastSeq + 1, s.tableName c, (t.row? row.id).map (·.body), some row.body⟩] := by
  refine ⟨Database.rowsOf_eq (table?_written_self ht log row), ?_⟩
  rw [changesOf, changesOf, Database.changesOf_eq hlog, Database.changesOf_eq rfl]
  change List.filter (fun change : LogRow => change.table == s.tableName c) (log.rows ++ [_]) = _
  rw [List.filter_append, List.filter_singleton, beq_self_eq_true]
  rfl

/-- A row that is written to one collection touches no other. -/
theorem frame_written_of_ne {d : Collection} {t : Table} {log : ChangeLog}
    (hnames : HasDistinctTables s.names) (hne : c ≠ d)
    (ht : s.database.table? (s.tableName d) = some t) (hlog : s.database.log? = some log)
    (row : Row) :
    (s.written d t log row).rowsOf c = s.rowsOf c ∧
      (s.written d t log row).changesOf c = s.changesOf c := by
  have hother : sameName (s.tableName c) (s.tableName d) = false :=
    Bool.eq_false_iff.2 fun hsame => hne (hnames c d hsame)
  have hname : (s.tableName d == s.tableName c) = false := by
    rw [beq_eq_false_iff_ne]
    intro heq
    rw [heq, sameName, beq_self_eq_true] at hother
    cases hother
  constructor
  · rw [rowsOf, rowsOf, Database.rowsOf, Database.rowsOf, ← table?_written_of_ne ht hother log row]
    rfl
  · rw [changesOf, changesOf, Database.changesOf_eq hlog, Database.changesOf_eq rfl]
    change List.filter (fun change : LogRow => change.table == s.tableName c) (log.rows ++ [_]) = _
    rw [List.filter_append, List.filter_singleton, hname, cond_false,
      List.append_nil]

/-- Whether the rows of a collection came about by its changes. -/
def IsRecorded (s : TableStore) (c : Collection) : Prop :=
  Recorded (keepsBodies (s.tableName c)) (s.rowsOf c) (s.changesOf c)

/-- A write keeps the rows of every collection recorded by its changes. -/
theorem isRecorded_write {w : Write} (hnames : HasDistinctTables s.names) (hdoc : w.doc.Parses)
    (hwrite : s.write w = .ok s') (h : s.IsRecorded c) : s'.names = s.names ∧ s'.IsRecorded c := by
  obtain ⟨t, log, ht, hlog, rfl⟩ := exists_written hwrite
  refine ⟨rfl, ?_⟩
  unfold IsRecorded at h ⊢
  change Recorded (keepsBodies (s.tableName c)) _ _
  by_cases hc : c = w.collection
  · subst hc
    obtain ⟨hrows, hchanges⟩ := frame_written_self ht hlog (rowOf w.id w.row)
    rw [hrows, hchanges, Database.keepsBodies_of_table? ht]
    rw [rowsOf, Database.rowsOf_eq ht, Database.keepsBodies_of_table? ht] at h
    have hbody : bodyId? (rowOf w.id w.row).body = some w.id :=
      bodyId?_eq_some.2 ((w.parses_row hdoc).readBody w.id?_row)
    exact h.put ⟨rfl, hbody⟩ rfl
  · obtain ⟨hrows, hchanges⟩ := frame_written_of_ne hnames hc ht hlog (rowOf w.id w.row)
    rwa [hrows, hchanges]

/-- Every call keeps the rows of every collection recorded by its changes. -/
theorem isRecorded_perform {command : Command} (hnames : HasDistinctTables s.names)
    (hdoc : ∀ w, command = .write w → w.doc.Parses) (h : s.IsRecorded c) :
    (s.perform command).names = s.names ∧ (s.perform command).IsRecorded c := by
  cases command with
  | ensure =>
    obtain ⟨hsame, hrows, hchanges⟩ := s.ensure_frame c
    refine ⟨hsame, ?_⟩
    rw [IsRecorded, perform, hrows, hchanges, tableName, hsame]
    exact h
  | write w =>
    rw [perform]
    split
    · rename_i s' hwrite
      exact isRecorded_write hnames (hdoc w rfl) hwrite h
    · exact ⟨rfl, h⟩

theorem isRecorded_run {commands : List Command} (hnames : HasDistinctTables s.names)
    (hdocs : ∀ w, .write w ∈ commands → w.doc.Parses) (h : s.IsRecorded c) :
    (s.run commands).names = s.names ∧ (s.run commands).IsRecorded c := by
  induction commands generalizing s with
  | nil => exact ⟨rfl, h⟩
  | cons command commands ih =>
    have hdoc : ∀ w, command = .write w → w.doc.Parses :=
      fun w hw => hdocs w (hw ▸ List.mem_cons_self)
    obtain ⟨hsame, hnext⟩ := isRecorded_perform hnames hdoc h
    obtain ⟨hnames', hlast⟩ :=
      ih (hsame ▸ hnames) (fun w hw => hdocs w (List.mem_cons_of_mem _ hw)) hnext
    exact ⟨hnames'.trans hsame, hlast⟩

theorem isRecorded_of_empty (hempty : s.database = .empty) (c : Collection) : s.IsRecorded c := by
  rw [IsRecorded, rowsOf, changesOf, hempty]
  exact .nil

/-! ## What the log tells -/

/-- Whether the rows of a collection hold what their keys say, each of its own. -/
structure HoldsKeys (s : TableStore) (c : Collection) : Prop where
  /-- No two rows have one id. -/
  distinct : ((s.rowsOf c).map (·.id)).Nodup
  /-- The body of a row is that of an object with the row's id. -/
  keyed : ∀ row ∈ s.rowsOf c, ∃ doc, readBody row.body = .ok doc ∧ doc.id? = some row.id
  /-- Where the table is there, a scan lists just these rows. -/
  scanned : (s.database.table? (s.tableName c)).isSome = true → ∃ docs, s.scan c = .ok docs ∧
    (s.rowsOf c).map (fun row => readBody row.body) = docs.map .ok

/-- Whether the log tells the rows of a collection. -/
structure LogTells (s : TableStore) (c : Collection) : Prop where
  /-- The changes, replayed in their order, give the rows in theirs. -/
  replays : replay (s.changesOf c) = some (s.rowsOf c)
  /-- The old body of a change is what the change of the same row before it has left. -/
  chained : Chained (s.changesOf c)

theorem exists_readBodies {bodies : List String}
    (h : ∀ body ∈ bodies, ∃ doc, readBody body = .ok doc) (c : Collection) :
    ∃ docs, readBodies c bodies = .ok docs ∧ bodies.map readBody = docs.map .ok := by
  have hall : ∃ docs, bodies.mapM readBody = .ok docs ∧ bodies.map readBody = docs.map .ok := by
    induction bodies with
    | nil => exact ⟨[], rfl, rfl⟩
    | cons body bodies ih =>
      obtain ⟨⟨doc, hdoc⟩, hbodies⟩ := List.forall_mem_cons.1 h
      obtain ⟨docs, hdocs, hsame⟩ := ih hbodies
      refine ⟨doc :: docs, ?_, ?_⟩
      · rw [List.mapM_cons, hdoc, hdocs]
        rfl
      · rw [List.map_cons, List.map_cons, hdoc, hsame]
  obtain ⟨docs, hdocs, hsame⟩ := hall
  exact ⟨docs, by rw [readBodies, hdocs], hsame⟩

theorem IsRecorded.holdsKeys (h : s.IsRecorded c) : s.HoldsKeys c := by
  have hkeyed : ∀ row ∈ s.rowsOf c, ∃ doc, readBody row.body = .ok doc ∧ doc.id? = some row.id :=
    fun row hrow => bodyId?_eq_some.1 (h.bodyId?_body row hrow)
  refine ⟨h.nodup, hkeyed, fun htable => ?_⟩
  obtain ⟨t, ht⟩ := Option.isSome_iff_exists.1 htable
  have hrows : s.rowsOf c = t.rows := Database.rowsOf_eq ht
  have hreadable : ∀ body ∈ t.rows.map (·.body), ∃ doc, readBody body = .ok doc := by
    intro body hbody
    obtain ⟨row, hrow, rfl⟩ := List.mem_map.1 hbody
    obtain ⟨doc, hdoc, -⟩ := hkeyed row (hrows ▸ hrow)
    exact ⟨doc, hdoc⟩
  obtain ⟨docs, hdocs, hsame⟩ := exists_readBodies hreadable c
  refine ⟨docs, ?_, ?_⟩
  · simp only [scan, Database.bodies, Database.table, ht, bind, Except.bind, pure, Except.pure,
      answer]
    exact hdocs
  · rw [hrows, ← hsame, List.map_map]
    rfl

theorem IsRecorded.logTells_iff (h : s.IsRecorded c) :
    s.LogTells c ↔ keepsBodies (s.tableName c) = false ∨ RepeatsBodies (s.changesOf c) := by
  rw [← h.tells_iff]
  exact ⟨fun h => ⟨h.replays, h.chained⟩, fun h => ⟨h.1, h.2⟩⟩

/-- In a database that begins empty, preparations and writes that succeed or fail leave the rows of
every collection with the ids that are their keys. The log tells these rows just where the table of
the collection does not keep its bodies, or where every row that was written again was written as it
was. -/
theorem log_tells_rows_iff {commands : List Command} (hnames : HasDistinctTables s.names)
    (hempty : s.database = .empty) (hdocs : ∀ w, .write w ∈ commands → w.doc.Parses)
    (c : Collection) :
    (s.run commands).HoldsKeys c ∧
      ((s.run commands).LogTells c ↔
        keepsBodies (s.names.get c) = false ∨ RepeatsBodies ((s.run commands).changesOf c)) := by
  obtain ⟨hsame, hrecorded⟩ := isRecorded_run hnames hdocs (isRecorded_of_empty hempty c)
  refine ⟨hrecorded.holdsKeys, ?_⟩
  rw [hrecorded.logTells_iff, tableName, hsame]

/-- A row that is inserted, refused a second time, and written again. -/
theorem log_tells_row_written_twice :
    let s : TableStore := { path := "lab.db", names := .ofFn Collection.name }
    let commands : List Command := [.write (.insert .tests "t" []), .ensure,
      .write (.insert .tests "t" []), .write (.insert .tests "t" []),
      .write (.upsert .tests "t" [("name", .string "n")])]
    HasDistinctTables s.names ∧ keepsBodies (s.names.get .tests) = false ∧
    ((s.run commands).rowsOf .tests).length = 1 ∧ ((s.run commands).changesOf .tests).length = 2 ∧
    (s.run commands).HoldsKeys .tests ∧ (s.run commands).LogTells .tests := by
  intro s commands
  have hdocs : ∀ w, .write w ∈ commands → w.doc.Parses := by
    intro w hw
    simp only [commands, List.mem_cons, Command.write.injEq, reduceCtorEq, List.not_mem_nil,
      or_false, false_or] at hw
    rcases hw with rfl | rfl | rfl | rfl
    · exact Document.readsBack_nil.parses
    · exact Document.readsBack_nil.parses
    · exact Document.readsBack_nil.parses
    · exact Document.parses_named
  have hkeeps : keepsBodies (s.names.get .tests) = false := by decide +kernel
  obtain ⟨hkeys, hiff⟩ := log_tells_rows_iff (s := s) hasDistinctTables_usual rfl hdocs .tests
  exact ⟨hasDistinctTables_usual, hkeeps, by decide +kernel, by decide +kernel, hkeys,
    hiff.2 (.inl hkeeps)⟩

/-- A row that is written again in a table that keeps its bodies: the last change tells another body
than the one there is. -/
theorem log_tells_row_that_was_kept :
    let s : TableStore :=
      { path := "lab.db", names := ⟨"experiments", "transformations", "excluded", "analytics"⟩ }
    let commands : List Command := [.ensure, .write (.upsert .tests "t" []),
      .write (.upsert .tests "t" [("name", .string "n")])]
    s.names.fault? = none ∧ HasDistinctTables s.names ∧
    (∀ w, .write w ∈ commands → w.doc.Parses) ∧ ¬ (s.run commands).LogTells .tests := by
  intro s commands
  have hnames : HasDistinctTables s.names := by
    intro c d
    cases c <;> cases d <;> decide +kernel
  have hdocs : ∀ w, .write w ∈ commands → w.doc.Parses := by
    intro w hw
    simp only [commands, List.mem_cons, Command.write.injEq, reduceCtorEq, List.not_mem_nil,
      or_false, false_or] at hw
    rcases hw with rfl | rfl
    · exact Document.readsBack_nil.parses
    · exact Document.parses_named
  refine ⟨by decide, hnames, hdocs, fun htells => ?_⟩
  obtain ⟨-, hrecorded⟩ := isRecorded_run hnames hdocs (isRecorded_of_empty rfl .tests)
  have hchange : ((s.run commands).changesOf .tests).all
      (fun change => change.old?.all (change.new? == some ·)) = false := by decide +kernel
  rcases hrecorded.logTells_iff.1 htells with hkeeps | hrepeats
  · exact absurd hkeeps (by decide +kernel)
  · refine absurd (List.all_eq_true.2 fun change hmem => ?_) (Bool.eq_false_iff.1 hchange)
    refine (Option.all_eq_true _ _).2 fun old hold => ?_
    exact beq_iff_eq.2 (hrepeats change hmem old hold)

end TableStore

end TrialBoard
