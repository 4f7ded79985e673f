import TrialBoard.Proofs.TableRows
import TrialBoard.Proofs.TailDelivery

/-!
# Rows that are still to be applied

A client has of each collection a stream and the changes that it took from it but did not apply.
`Tail.Awaits` says that these, together, are the changes of certain rows, in their order. A write
that is logged adds its row at the end, asking the stream moves a row over to the client, and the
client takes rows off at the front.
-/

namespace TrialBoard

/-- The change that pushes a row. -/
def ChangeFeed.ofRow (c : Collection) (row : Document) : ChangeFeed := ⟨c, .object row⟩

/-- The row that an item of a stream pushes. -/
def pushedRow? : Except StoreError ChangeEvent → Option Document
  | .ok event => event.new?.bind Json.asObject?
  | .error _ => none

theorem new?_of_pushedRow? {event : ChangeEvent} {row : Document}
    (h : pushedRow? (.ok event) = some row) : event.new? = some (.object row) := by
  obtain ⟨value, hvalue, hrow⟩ := Option.bind_eq_some_iff.1 h
  cases value with
  | object members =>
    rw [hvalue]
    exact congrArg (some ∘ Json.object) (Option.some.inj hrow)
  | null | bool | number | string | array => cases hrow

theorem not_hasFailure_of_pushedRow? {results : List (Except StoreError ChangeEvent)}
    {rows : List Document} (h : results.map pushedRow? = rows.map some) : ¬ HasFailure results := by
  rintro ⟨e, he⟩
  have hmem : pushedRow? (.error e) ∈ rows.map some := h ▸ List.mem_map_of_mem he
  simp [pushedRow?] at hmem

namespace Tail

/-- Whether a client of a collection has still to apply just some rows: first those whose changes
wait, then those that its stream has still to tell. -/
structure Awaits (log : ChangeLog) (c : Collection) (table : String) (tail : Tail)
    (inbox : List ChangeFeed) (pushed : List Document) : Prop where
  follows : tail.Follows log c table
  hasEnded : tail.hasEnded = false
  parts : ∃ early late, pushed = early ++ late ∧ inbox = early.map (.ofRow c) ∧
    (tail.upcoming log).map pushedRow? = late.map some

variable {log : ChangeLog} {c : Collection} {table other : String} {tail tail' : Tail}
  {inbox : List ChangeFeed} {pushed : List Document} {row : Document} {old? : Option String}

theorem awaits_subscribe (log : ChangeLog) (c : Collection) (table : String) :
    Awaits log c table { collection := c, table, cursor := log.lastOf table } [] [] := by
  refine ⟨⟨rfl, rfl, log.lastOf_le table⟩, rfl, [], [], rfl, rfl, ?_⟩
  simp [upcoming, ahead, log.after_lastOf table, upToFailure]

theorem readChange_of_readsBack (hold : TableStore.IsReadable c old?) (hrow : row.ReadsBack) :
    ∃ event, readChange c old? (some (Json.object row).render) = .ok event ∧
      pushedRow? (.ok event) = some row := by
  obtain ⟨value?, hvalue⟩ := hold
  refine ⟨⟨value?, some (.object row)⟩, ?_, rfl⟩
  rw [readChange, hvalue, TableStore.readBody_of_readsBack c hrow]
  rfl

/-- A row that is written to the table is awaited as well, one that is written elsewhere is not. -/
theorem Awaits.append (h : Awaits log c table tail inbox pushed) (other : String)
    (hold : other = table → TableStore.IsReadable c old?) (hrow : row.ReadsBack) :
    Awaits (log.append other old? (some (Json.object row).render)) c table tail inbox
      (pushed ++ if other = table then [row] else []) := by
  obtain ⟨hfollows, hended, early, late, hpushed, hinbox, hlate⟩ := h
  refine ⟨⟨hfollows.collection, hfollows.table, Nat.le_succ_of_le hfollows.cursor⟩, hended,
    early, late ++ if other = table then [row] else [], by rw [hpushed, List.append_assoc],
    hinbox, ?_⟩
  have hupcoming : ∀ log, tail.upcoming log = upToFailure (tail.ahead log) := fun log => by
    rw [upcoming, hended, if_neg Bool.false_ne_true]
  have hwhole : ¬ HasFailure (tail.ahead log) := by
    rw [← hasFailure_upToFailure, ← hupcoming]
    exact not_hasFailure_of_pushedRow? hlate
  have hahead : tail.upcoming log = tail.ahead log := by
    have hsplit := upToFailure_of_not_hasFailure hwhole []
    rwa [List.append_nil, upToFailure, List.append_nil, ← hupcoming] at hsplit
  rw [hupcoming, upToFailure_ahead_append hfollows, upToFailure_of_not_hasFailure hwhole, ← hahead,
    List.map_append, hlate, List.map_append]
  congr 1
  unfold told
  by_cases ht : other = table
  · obtain ⟨event, hevent, hpush⟩ := readChange_of_readsBack (hold ht) hrow
    rw [if_pos ht, if_pos ht, hevent]
    simp only [upToFailure, List.map_cons, List.map_nil, hpush]
  · rw [if_neg ht, if_neg ht]
    rfl

/-- What an answer of the stream makes of the rows that are awaited. -/
theorem Awaits.next {db : Database} (hlog : db.log? = some log)
    (h : Awaits log c table tail inbox pushed) :
    (∃ tail', tail.next db = .pending tail' ∧ Awaits log c table tail' inbox pushed ∧
      (inbox = [] → pushed = [])) ∨
    (∃ event tail', tail.next db = .item (.ok event) tail' ∧ event.isHeartbeat = false ∧
      Awaits log c table tail' (inbox ++ [.ofEvent c event]) pushed) := by
  obtain ⟨hfollows, hended, early, late, hpushed, hinbox, hlate⟩ := h
  cases late with
  | nil =>
    rw [List.map_nil, List.map_eq_nil_iff] at hlate
    obtain ⟨tail', hnext, hfollows', hnone, hopen⟩ :=
      next_of_upcoming_eq_nil hlog hfollows hended hlate
    refine .inl ⟨tail', hnext, ⟨hfollows', hopen, early, [], hpushed, hinbox, by rw [hnone]; rfl⟩,
      fun hempty => ?_⟩
    rw [hempty, eq_comm, List.map_eq_nil_iff] at hinbox
    rw [hpushed, hinbox]
    rfl
  | cons row late =>
    rw [List.map_cons, List.map_eq_cons_iff] at hlate
    obtain ⟨result, results, hupcoming, hrow, hlate⟩ := hlate
    cases result with
    | error e => cases hrow
    | ok event =>
      have hnew := new?_of_pushedRow? hrow
      obtain ⟨tail', hnext, hfollows', hupcoming', hopen⟩ :=
        next_of_upcoming_eq_ok hlog hfollows hupcoming
      refine .inr ⟨event, tail', hnext, by simp [ChangeEvent.isHeartbeat, hnew], hfollows', hopen,
        early ++ [row], late, by simp [hpushed], ?_, hupcoming' ▸ hlate⟩
      rw [hinbox, List.map_append, ChangeFeed.ofEvent, hnew]
      rfl

/-- The first change that waits is that of the first row that is awaited. -/
theorem Awaits.apply {feed : ChangeFeed} (h : Awaits log c table tail (feed :: inbox) pushed) :
    ∃ row rest, feed = .ofRow c row ∧ pushed = row :: rest ∧
      Awaits log c table tail inbox rest := by
  obtain ⟨hfollows, hended, early, late, hpushed, hinbox, hlate⟩ := h
  cases early with
  | nil => cases hinbox
  | cons row early =>
    rw [List.map_cons, List.cons.injEq] at hinbox
    exact ⟨row, early ++ late, hinbox.1, hpushed,
      ⟨hfollows, hended, early, late, rfl, hinbox.2, hlate⟩⟩

end Tail

end TrialBoard
