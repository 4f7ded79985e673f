import TrialBoard.Proofs.Failure
import TrialBoard.Store.Tables

/-!
# What a tail gives

A tail reads the log past its cursor, keeps what it read until it is asked for it, and puts a
failure off until everything before it was given. `Tail.upcoming` is what it still has to give of a
log as that log stands. An item that is given is the first of `upcoming`, a poll leaves `upcoming`
as it is, and a commit extends it at its end. So what was given and what is upcoming are, together,
what the commits tell since the tail was opened.

`Tailing.run` takes commits, polls and reads in any order. A commit says what becomes of the tables
as well, since the log is all that a tail looks at.
-/

namespace TrialBoard

/-! ## The log past a cursor -/

namespace ChangeLog

theorem foldl_max_le_iff (ns : List Nat) (m k : Nat) :
    ns.foldl max m ≤ k ↔ m ≤ k ∧ ∀ n ∈ ns, n ≤ k := by
  induction ns generalizing m with
  | nil => simp
  | cons n ns ih => rw [List.foldl_cons, ih, Nat.max_le, List.forall_mem_cons, and_assoc]

theorem lastOf_le_iff (log : ChangeLog) (table : String) (k : Nat) :
    log.lastOf table ≤ k ↔ ∀ row ∈ log.rows, row.table = table → row.seq ≤ k := by
  rw [lastOf, foldl_max_le_iff, List.forall_mem_map]
  simp

theorem lastOf_le (log : ChangeLog) (table : String) : log.lastOf table ≤ log.lastSeq :=
  (log.lastOf_le_iff table _).2 fun row hrow _ => log.isNumbered.2 row hrow

/-- No change that is in the log already comes after the last one of its table. -/
theorem after_lastOf (log : ChangeLog) (table : String) :
    log.after table (log.lastOf table) = [] := by
  have hle := (log.lastOf_le_iff table _).1 (Nat.le_refl _)
  refine List.filter_eq_nil_iff.2 fun row hrow => ?_
  simp only [Bool.and_eq_true, beq_iff_eq, decide_eq_true_eq, not_and, Nat.not_lt]
  exact hle row hrow

theorem mem_after {log : ChangeLog} {table : String} {seq : Nat} {row : LogRow} :
    row ∈ log.after table seq ↔ row ∈ log.rows ∧ row.table = table ∧ seq < row.seq := by
  simp [after]

theorem after_append (log : ChangeLog) (table other : String) (old? new? : Option String)
    {seq : Nat} (h : seq ≤ log.lastSeq) :
    (log.append other old? new?).after table seq = log.after table seq ++
      if other = table then [{ seq := log.lastSeq + 1, table := other, old?, new? }] else [] := by
  have hseq : seq < log.lastSeq + 1 := by omega
  simp only [after, append, List.filter_append, List.filter_cons, List.filter_nil]
  by_cases ht : other = table <;> simp [ht, hseq]

/-- After the first of the changes past a cursor come the others. -/
theorem after_seq_of_cons {log : ChangeLog} {table : String} {seq : Nat} {row : LogRow}
    {rows : List LogRow} (h : log.after table seq = row :: rows) :
    log.after table row.seq = rows := by
  have hseq : seq < row.seq := (mem_after.1 (h ▸ List.mem_cons_self)).2.2
  have hrising : (row :: rows).Pairwise (fun a b => a.seq < b.seq) :=
    h ▸ log.isNumbered.1.sublist List.filter_sublist
  have hall : ∀ r ∈ rows, row.seq < r.seq := (List.pairwise_cons.1 hrising).1
  calc log.after table row.seq
      = (log.after table seq).filter (row.seq < ·.seq) := by
        simp only [after, List.filter_filter]
        refine List.filter_congr fun r _ => ?_
        by_cases ht : r.table = table <;> by_cases hr : row.seq < r.seq <;> simp [ht, hr]
        omega
    _ = (row :: rows).filter (row.seq < ·.seq) := by rw [h]
    _ = rows := by
        simp only [List.filter_cons, Nat.lt_irrefl, decide_false, Bool.false_eq_true, if_false]
        exact List.filter_eq_self.2 fun r hr => by simpa using hall r hr

end ChangeLog

/-! ## What a tail has still to give -/

namespace Tail

/-- What a tail that has not ended can learn from a log, whatever it may already have failed at. -/
def ahead (log : ChangeLog) (tail : Tail) : List (Except StoreError ChangeEvent) :=
  tail.waiting.map .ok ++
    match tail.failure? with
    | some e => [.error e]
    | none => (log.after tail.table tail.cursor).map (readRow tail.collection)

/-- What a tail has still to give of a log. -/
def upcoming (log : ChangeLog) (tail : Tail) : List (Except StoreError ChangeEvent) :=
  if tail.hasEnded then [] else upToFailure (tail.ahead log)

/-- Whether a tail follows a table of a collection, and has read no further than a log reaches. -/
structure Follows (log : ChangeLog) (c : Collection) (table : String) (tail : Tail) : Prop where
  collection : tail.collection = c
  table : tail.table = table
  cursor : tail.cursor ≤ log.lastSeq

variable {log : ChangeLog} {c : Collection} {table : String} {tail : Tail}

/-- Taking in the rows past the cursor gives the tail nothing that it did not have ahead of it. -/
theorem upToFailure_ahead_takeIn (rows : List LogRow) (tail : Tail) (hf : tail.failure? = none)
    (hrows : log.after tail.table tail.cursor = rows) :
    upToFailure ((takeIn rows tail).ahead log) = upToFailure (tail.ahead log) := by
  induction rows generalizing tail with
  | nil => rfl
  | cons row rows ih =>
    have hahead : tail.ahead log =
        tail.waiting.map .ok ++ (row :: rows).map (readRow tail.collection) := by
      simp only [ahead, hf, hrows]
    cases hr : readRow tail.collection row with
    | ok event =>
      simp only [takeIn, hr]
      rw [ih { tail with cursor := row.seq, waiting := tail.waiting ++ [event] } hf
        (ChangeLog.after_seq_of_cons hrows), hahead]
      simp [ahead, hf, hr, ChangeLog.after_seq_of_cons hrows]
    | error e =>
      rw [hahead]
      simp only [takeIn, hr, ahead, List.map_cons]
      rw [upToFailure_of_not_hasFailure (not_hasFailure_map_ok _),
        upToFailure_of_not_hasFailure (not_hasFailure_map_ok _)]
      rfl

theorem takeIn_hasEnded (rows : List LogRow) (tail : Tail) :
    (takeIn rows tail).hasEnded = tail.hasEnded := by
  induction rows generalizing tail with
  | nil => rfl
  | cons row rows ih =>
    simp only [takeIn]
    split
    · exact ih _
    · rfl

theorem follows_takeIn (rows : List LogRow) (tail : Tail) (h : tail.Follows log c table)
    (hrows : ∀ row ∈ rows, row ∈ log.rows) : (takeIn rows tail).Follows log c table := by
  induction rows generalizing tail with
  | nil => exact h
  | cons row rows ih =>
    simp only [takeIn]
    split
    · have hseq : row.seq ≤ log.lastSeq := log.isNumbered.2 row (hrows row List.mem_cons_self)
      exact ih _ ⟨h.collection, h.table, hseq⟩ fun r hr => hrows r (List.mem_cons_of_mem _ hr)
    · exact ⟨h.collection, h.table, h.cursor⟩

theorem poll_eq {db : Database} (hlog : db.log? = some log) (tail : Tail) :
    tail.poll db = takeIn (log.after tail.table tail.cursor) tail := by
  simp [poll, Database.log, hlog]

/-- A poll neither loses an item nor adds one. -/
theorem upcoming_poll {db : Database} (hlog : db.log? = some log) (hf : tail.failure? = none) :
    (tail.poll db).upcoming log = tail.upcoming log := by
  rw [poll_eq hlog, upcoming, upcoming, takeIn_hasEnded, upToFailure_ahead_takeIn _ _ hf rfl]

theorem follows_poll {db : Database} (hlog : db.log? = some log) (h : tail.Follows log c table) :
    (tail.poll db).Follows log c table := by
  rw [poll_eq hlog]
  exact follows_takeIn _ _ h fun row hrow => (ChangeLog.mem_after.1 hrow).1

theorem waiting_prefix_takeIn (rows : List LogRow) (tail : Tail) :
    tail.waiting <+: (takeIn rows tail).waiting := by
  induction rows generalizing tail with
  | nil => exact List.prefix_rfl
  | cons row rows ih =>
    simp only [takeIn]
    split
    · rename_i event _
      exact (List.prefix_append _ [event]).trans
        (ih { tail with cursor := row.seq, waiting := tail.waiting ++ [event] })
    · exact List.prefix_rfl

/-- Whether a tail has nothing to give without asking the log. -/
structure IsIdle (tail : Tail) : Prop where
  hasEnded : tail.hasEnded = false
  waiting : tail.waiting = []
  failure : tail.failure? = none

/-- A tail that is idle after it took in rows took in none. -/
theorem eq_nil_of_isIdle_takeIn {rows : List LogRow} (h : (takeIn rows tail).IsIdle) :
    rows = [] := by
  cases rows with
  | nil => rfl
  | cons row rows =>
    simp only [takeIn] at h
    split at h
    · rename_i event _
      have hw := waiting_prefix_takeIn rows { tail with
        cursor := row.seq, waiting := tail.waiting ++ [event] }
      rw [h.waiting] at hw
      simp at hw
    · exact absurd h.failure (by simp)

theorem give_of_isIdle (h : tail.IsIdle) : tail.give = .pending tail := by
  simp [give, h.hasEnded, h.waiting, h.failure]

/-- How an answer of a tail relates to what it had still to give. -/
def Accounts (log : ChangeLog) (c : Collection) (table : String) (tail : Tail) :
    Polled Tail → Prop
  | .item result tail' => tail.upcoming log = result :: tail'.upcoming log ∧
      tail'.Follows log c table ∧ tail.hasEnded = false ∧
      (tail'.hasEnded = true ↔ HasFailure [result])
  | .pending tail' => tail.upcoming log = [] ∧ tail'.upcoming log = [] ∧
      tail'.Follows log c table ∧ tail.hasEnded = false ∧ tail'.hasEnded = false
  | .ended => tail.hasEnded = true

/-- Only what a tail has still to give, and whether it has ended, counts for its answers. -/
theorem Accounts.of_eq {tail' : Tail} {answer : Polled Tail}
    (h : tail.Accounts log c table answer) (hup : tail.upcoming log = tail'.upcoming log)
    (hend : tail.hasEnded = tail'.hasEnded) : tail'.Accounts log c table answer := by
  cases answer <;> simpa only [Accounts, hup, hend] using h

theorem give_accounts (h : tail.Follows log c table) (hidle : ¬ tail.IsIdle) :
    tail.Accounts log c table tail.give ∧ ∀ tail', tail.give ≠ .pending tail' := by
  unfold give
  cases hend : tail.hasEnded with
  | true => exact ⟨hend, by simp⟩
  | false =>
    cases hw : tail.waiting with
    | cons event waiting =>
      refine ⟨⟨?_, ⟨h.collection, h.table, h.cursor⟩, hend, by simp [HasFailure]⟩, by simp⟩
      simp [upcoming, ahead, hend, hw, upToFailure]
    | nil =>
      cases hf : tail.failure? with
      | none => exact absurd ⟨hend, hw, hf⟩ hidle
      | some e =>
        refine ⟨⟨?_, ⟨h.collection, h.table, h.cursor⟩, hend, by simp [HasFailure]⟩, by simp⟩
        simp [upcoming, ahead, hend, hw, hf, upToFailure]

theorem next_of_not_isIdle (db : Database) (h : tail.Follows log c table)
    (hidle : ¬ tail.IsIdle) : tail.next db = tail.give := by
  unfold next
  split
  · rename_i tail' hgive
    exact absurd hgive ((give_accounts h hidle).2 tail')
  · rfl

theorem next_of_isIdle (db : Database) (hidle : tail.IsIdle) :
    tail.next db = (tail.poll db).give := by
  simp only [next, give_of_isIdle hidle]

/-- Every answer of a tail accounts for what it had still to give. -/
theorem next_accounts {db : Database} (hlog : db.log? = some log)
    (h : tail.Follows log c table) : tail.Accounts log c table (tail.next db) := by
  by_cases hidle : tail.IsIdle
  · rw [next_of_isIdle db hidle]
    have hup : (tail.poll db).upcoming log = tail.upcoming log := upcoming_poll hlog hidle.failure
    have hend : (tail.poll db).hasEnded = tail.hasEnded := by rw [poll_eq hlog, takeIn_hasEnded]
    have hfollows := follows_poll hlog h
    by_cases hidle' : (tail.poll db).IsIdle
    · rw [give_of_isIdle hidle']
      have hnil : log.after tail.table tail.cursor = [] := by
        rw [poll_eq hlog] at hidle'
        exact eq_nil_of_isIdle_takeIn hidle'
      have hempty : tail.upcoming log = [] := by
        simp [upcoming, ahead, hidle.hasEnded, hidle.waiting, hidle.failure, hnil, upToFailure]
      exact ⟨hempty, hup.trans hempty, hfollows, hidle.hasEnded, hidle'.hasEnded⟩
    · exact (give_accounts hfollows hidle').1.of_eq hup hend
  · rw [next_of_not_isIdle db h hidle]
    exact (give_accounts h hidle).1

theorem next_of_hasEnded (db : Database) (h : tail.hasEnded = true) : tail.next db = .ended := by
  simp [next, give, h]

/-- A tail that has nothing to give, and has not ended, has nothing to give yet. -/
theorem next_of_upcoming_eq_nil {db : Database} (hlog : db.log? = some log)
    (h : tail.Follows log c table) (hopen : tail.hasEnded = false) (hup : tail.upcoming log = []) :
    ∃ tail', tail.next db = .pending tail' ∧ tail'.Follows log c table ∧
      tail'.upcoming log = [] ∧ tail'.hasEnded = false := by
  have haccounts := next_accounts hlog h
  cases hnext : tail.next db with
  | item result tail' =>
    rw [hnext] at haccounts
    exact absurd (haccounts.1.symm.trans hup) (List.cons_ne_nil _ _)
  | pending tail' =>
    rw [hnext] at haccounts
    obtain ⟨-, hnil, hfollows, -, hopen'⟩ := haccounts
    exact ⟨tail', rfl, hfollows, hnil, hopen'⟩
  | ended =>
    rw [hnext] at haccounts
    exact absurd (hopen.symm.trans haccounts) Bool.false_ne_true

/-- A tail gives the first of what it has still to give. -/
theorem next_of_upcoming_eq_cons {db : Database} (hlog : db.log? = some log)
    (h : tail.Follows log c table) {result : Except StoreError ChangeEvent}
    {results : List (Except StoreError ChangeEvent)} (hup : tail.upcoming log = result :: results) :
    ∃ tail', tail.next db = .item result tail' ∧ tail'.Follows log c table ∧
      tail'.upcoming log = results ∧ (tail'.hasEnded = true ↔ HasFailure [result]) := by
  have haccounts := next_accounts hlog h
  cases hnext : tail.next db with
  | item result' tail' =>
    rw [hnext] at haccounts
    obtain ⟨hcons, hfollows, -, hend⟩ := haccounts
    obtain ⟨rfl, hresults⟩ := List.cons.inj (hcons.symm.trans hup)
    exact ⟨tail', rfl, hfollows, hresults, hend⟩
  | pending tail' =>
    rw [hnext] at haccounts
    exact absurd (hup.symm.trans haccounts.1) (List.cons_ne_nil _ _)
  | ended =>
    rw [hnext] at haccounts
    have hended : tail.hasEnded = true := haccounts
    rw [upcoming, if_pos hended] at hup
    exact absurd hup.symm (List.cons_ne_nil _ _)

/-- A tail that gives an event goes on. -/
theorem next_of_upcoming_eq_ok {db : Database} (hlog : db.log? = some log)
    (h : tail.Follows log c table) {event : ChangeEvent}
    {results : List (Except StoreError ChangeEvent)}
    (hup : tail.upcoming log = .ok event :: results) :
    ∃ tail', tail.next db = .item (.ok event) tail' ∧ tail'.Follows log c table ∧
      tail'.upcoming log = results ∧ tail'.hasEnded = false := by
  obtain ⟨tail', hnext, hfollows, hresults, hend⟩ := next_of_upcoming_eq_cons hlog h hup
  refine ⟨tail', hnext, hfollows, hresults, ?_⟩
  rw [Bool.eq_false_iff, ne_eq, hend]
  exact not_hasFailure_map_ok [event]

/-- What a change of a table tells the tails that follow it. -/
def readChange (c : Collection) (old? new? : Option String) : Except StoreError ChangeEvent := do
  return { old? := ← readBody c old?, new? := ← readBody c new? }

theorem readBody_error {c : Collection} {body? : Option String} {e : StoreError}
    (h : readBody c body? = .error e) : ∃ reason, e = .subscriptionFailed c reason := by
  cases body? with
  | none => cases h
  | some body =>
    cases hbody : Json.parse body with
    | ok value => simp [readBody, hbody] at h
    | error fault => exact ⟨fault.message, by simpa [readBody, hbody] using h.symm⟩

/-- A change can only be told if both of its bodies can be read, and tells their values. -/
theorem readChange_eq_ok_iff {c : Collection} {old? new? : Option String} {event : ChangeEvent} :
    readChange c old? new? = .ok event ↔
      readBody c old? = .ok event.old? ∧ readBody c new? = .ok event.new? := by
  obtain ⟨old', new'⟩ := event
  cases hold : readBody c old? <;> cases hnew : readBody c new? <;>
    simp [readChange, hold, hnew, bind, Except.bind, pure, Except.pure]

theorem readChange_error {c : Collection} {old? new? : Option String} {e : StoreError}
    (h : readChange c old? new? = .error e) : ∃ reason, e = .subscriptionFailed c reason := by
  cases hold : readBody c old? with
  | error e' =>
    have : e' = e := by simpa [readChange, hold, bind, Except.bind] using h
    exact this ▸ readBody_error hold
  | ok old' =>
    cases hnew : readBody c new? with
    | error e' =>
      have : e' = e := by simpa [readChange, hold, hnew, bind, Except.bind] using h
      exact this ▸ readBody_error hnew
    | ok new' => simp [readChange, hold, hnew, bind, Except.bind, pure, Except.pure] at h

/-- What a change in the log of a table tells a tail of another table, or of its own. -/
def told (c : Collection) (table other : String) (old? new? : Option String) :
    List (Except StoreError ChangeEvent) :=
  if other = table then [readChange c old? new?] else []

/-- A commit extends what a tail has ahead of it, if it has not failed. -/
theorem upToFailure_ahead_append (h : tail.Follows log c table) (other : String)
    (old? new? : Option String) :
    upToFailure (tail.ahead (log.append other old? new?)) =
      upToFailure (tail.ahead log ++ told c table other old? new?) := by
  obtain ⟨rfl, rfl, hcursor⟩ := h
  cases hf : tail.failure? with
  | some e =>
    have hahead : HasFailure (tail.ahead log) := ⟨e, by simp [ahead, hf]⟩
    rw [upToFailure_append_of_hasFailure hahead]
    simp only [ahead, hf]
  | none =>
    simp only [ahead, hf, log.after_append tail.table other old? new? hcursor, List.map_append,
      List.append_assoc, told]
    by_cases ht : other = tail.table
    · simp only [ht, if_true]
      rfl
    · simp only [ht, if_false, List.map_nil]

theorem Follows.append (h : tail.Follows log c table) (other : String) (old? new? : Option String) :
    tail.Follows (log.append other old? new?) c table :=
  ⟨h.collection, h.table, Nat.le_succ_of_le h.cursor⟩

/-- A commit extends what a tail has still to give, unless that ends with a failure. -/
theorem upcoming_append (h : tail.Follows log c table) (other : String)
    (old? new? : Option String) :
    tail.upcoming (log.append other old? new?) =
      if tail.hasEnded then []
      else upToFailure (tail.upcoming log ++ told c table other old? new?) := by
  unfold upcoming
  split
  · rfl
  · rw [upToFailure_ahead_append h, upToFailure_append_left]

/-- A commit to another table tells a tail nothing. -/
theorem upcoming_append_of_ne (h : tail.Follows log c table) {other : String} (hne : other ≠ table)
    (old? new? : Option String) :
    tail.upcoming (log.append other old? new?) = tail.upcoming log := by
  unfold upcoming
  split
  · rfl
  · rw [upToFailure_ahead_append h, told, if_neg hne, List.append_nil]

/-- A tail that starts at the last change of its table has nothing to give. -/
theorem upcoming_lastOf (log : ChangeLog) (c : Collection) (table : String) :
    upcoming log { collection := c, table, cursor := log.lastOf table } = [] := by
  simp [upcoming, ahead, log.after_lastOf, upToFailure]

end Tail

namespace TableStore

/-- A subscription opens a tail at the last change of its table, and changes nothing. -/
theorem subscribe_eq_ok {s s' : TableStore} {c : Collection} {tail : Tail}
    (h : s.subscribe c = .ok (tail, s')) : ∃ log, s.database.log? = some log ∧
      tail = { collection := c, table := s.tableName c, cursor := log.lastOf (s.tableName c) } ∧
      s = s' := by
  unfold subscribe at h
  cases hlog : s.database.log? with
  | none => simp [Database.log, hlog] at h
  | some log =>
    simp only [Database.log, hlog, Except.ok.injEq, Prod.mk.injEq] at h
    exact ⟨log, rfl, h.1.symm, h.2⟩

end TableStore

/-! ## Runs -/

/-- A tail and the database it follows, with what the tail has given so far. -/
structure Tailing where
  database : Database
  tail : Tail
  given : List (Except StoreError ChangeEvent) := []

namespace Tailing

/-- What can happen to a tail and its database. -/
inductive Step where
  /-- A change of a table is logged, and the tables are others afterwards. -/
  | commit (tables : List Table) (table : String) (old? new? : Option String)
  /-- The tail reads the log, if it has nothing to give. -/
  | poll
  /-- The tail is asked for an item. -/
  | ask

/-- One step. -/
def step (x : Tailing) : Step → Tailing
  | .commit tables table old? new? =>
    match x.database.appendChange table old? new? with
    | .ok database => { x with database := { database with tables } }
    | .error _ => x
  | .poll =>
    match x.tail.give with
    | .pending tail => { x with tail := tail.poll x.database }
    | _ => x
  | .ask =>
    match x.tail.next x.database with
    | .item result tail => { x with tail, given := x.given ++ [result] }
    | .pending tail => { x with tail }
    | .ended => x

/-- Steps one after the other. -/
def run (x : Tailing) (steps : List Step) : Tailing := steps.foldl step x

/-- What a step tells a tail that follows a table. -/
def Step.told (c : Collection) (table : String) : Step → List (Except StoreError ChangeEvent)
  | .commit _ other old? new? => Tail.told c table other old? new?
  | .poll => []
  | .ask => []

variable {c : Collection} {table : String} {all : List (Except StoreError ChangeEvent)}
  {x : Tailing}

/-- What a run keeps: what was given and what is upcoming are, together, what was told, and the tail
has ended once a failure was given. -/
structure Balanced (c : Collection) (table : String) (all : List (Except StoreError ChangeEvent))
    (x : Tailing) : Prop where
  balance : ∃ log, x.database.log? = some log ∧ x.tail.Follows log c table ∧
    x.given ++ x.tail.upcoming log = upToFailure all
  ended : x.tail.hasEnded = true ↔ HasFailure x.given

theorem balanced_commit (h : x.Balanced c table all) (tables : List Table) (other : String)
    (old? new? : Option String) :
    (x.step (.commit tables other old? new?)).Balanced c table
      (all ++ Tail.told c table other old? new?) := by
  obtain ⟨⟨log, hlog, hfollows, hbalance⟩, hended⟩ := h
  have hstep : x.step (.commit tables other old? new?) =
      { x with database := { tables, log? := some (log.append other old? new?) } } := by
    simp [step, Database.appendChange, Database.log, hlog, bind, Except.bind, pure, Except.pure]
  rw [hstep]
  refine ⟨⟨_, rfl, ⟨hfollows.collection, hfollows.table, Nat.le_succ_of_le hfollows.cursor⟩, ?_⟩,
    hended⟩
  cases hend : x.tail.hasEnded with
  | true =>
    have hall : HasFailure all := by
      rw [← hasFailure_upToFailure, ← hbalance, hasFailure_append]
      exact .inl (hended.1 hend)
    rw [upToFailure_append_of_hasFailure hall, ← hbalance]
    simp [Tail.upcoming, hend]
  | false =>
    have hgiven : ¬ HasFailure x.given := fun hf => by simp [hended.2 hf] at hend
    simp only [Tail.upcoming, hend, Bool.false_eq_true, if_false] at hbalance ⊢
    calc x.given ++ upToFailure (x.tail.ahead (log.append other old? new?))
        = upToFailure (x.given ++ x.tail.ahead log ++ Tail.told c table other old? new?) := by
          rw [Tail.upToFailure_ahead_append hfollows, List.append_assoc,
            upToFailure_of_not_hasFailure hgiven]
      _ = upToFailure (x.given ++ upToFailure (x.tail.ahead log) ++
            Tail.told c table other old? new?) := by
          rw [← upToFailure_append_left, upToFailure_of_not_hasFailure hgiven]
      _ = upToFailure (all ++ Tail.told c table other old? new?) := by
          rw [hbalance, upToFailure_append_left]

theorem balanced_poll (h : x.Balanced c table all) : (x.step .poll).Balanced c table all := by
  obtain ⟨⟨log, hlog, hfollows, hbalance⟩, hended⟩ := h
  simp only [step]
  split
  · rename_i tail hgive
    have hidle : x.tail.IsIdle := Classical.byContradiction fun hidle =>
      (Tail.give_accounts hfollows hidle).2 tail hgive
    obtain rfl : x.tail = tail := by simpa [Tail.give_of_isIdle hidle] using hgive
    refine ⟨⟨log, hlog, Tail.follows_poll hlog hfollows, ?_⟩, ?_⟩
    · rw [← hbalance]
      exact congrArg (x.given ++ ·) (Tail.upcoming_poll hlog hidle.failure)
    · rw [← hended, Tail.poll_eq hlog, Tail.takeIn_hasEnded]
  · exact ⟨⟨log, hlog, hfollows, hbalance⟩, hended⟩

theorem balanced_ask (h : x.Balanced c table all) : (x.step .ask).Balanced c table all := by
  obtain ⟨⟨log, hlog, hfollows, hbalance⟩, hended⟩ := h
  have haccounts := Tail.next_accounts hlog hfollows
  simp only [step]
  split
  · rename_i result tail hnext
    rw [hnext] at haccounts
    obtain ⟨hup, hfollows', hend, hend'⟩ := haccounts
    refine ⟨⟨log, hlog, hfollows', ?_⟩, ?_⟩
    · rw [← hbalance, hup, List.append_assoc, List.singleton_append]
    · have hgiven : ¬ HasFailure x.given := fun hf => by simp [hended.2 hf] at hend
      rw [hend', hasFailure_append]
      exact ⟨.inr, fun hf => hf.resolve_left hgiven⟩
  · rename_i tail hnext
    rw [hnext] at haccounts
    obtain ⟨hup, hup', hfollows', hend, hend'⟩ := haccounts
    refine ⟨⟨log, hlog, hfollows', by rw [← hbalance, hup, hup']⟩, ?_⟩
    rw [← hended, hend, hend']
  · exact ⟨⟨log, hlog, hfollows, hbalance⟩, hended⟩

theorem balanced_step (h : x.Balanced c table all) (step : Step) :
    (x.step step).Balanced c table (all ++ step.told c table) := by
  cases step with
  | commit tables other old? new? => exact balanced_commit h tables other old? new?
  | poll => simpa [Step.told] using balanced_poll h
  | ask => simpa [Step.told] using balanced_ask h

theorem balanced_run (h : x.Balanced c table all) (steps : List Step) :
    (x.run steps).Balanced c table (all ++ steps.flatMap (Step.told c table)) := by
  induction steps generalizing x all with
  | nil => simpa [run] using h
  | cons step steps ih => simpa [run] using ih (balanced_step h step)

/-- A tail that was just opened has nothing to give. -/
theorem balanced_open {db : Database} {log : ChangeLog} (hlog : db.log? = some log)
    (c : Collection) (table : String) :
    Balanced c table []
      { database := db, tail := { collection := c, table, cursor := log.lastOf table } } := by
  refine ⟨⟨log, hlog, ⟨rfl, rfl, log.lastOf_le _⟩, ?_⟩, by simp [HasFailure]⟩
  rw [Tail.upcoming_lastOf]
  rfl

/-- A tail that ended gave everything, and will not give anything more. -/
theorem given_of_hasFailure (h : x.Balanced c table all) (hf : HasFailure x.given) :
    x.given = upToFailure all := by
  obtain ⟨⟨log, -, -, hbalance⟩, hended⟩ := h
  simp [← hbalance, Tail.upcoming, hended.2 hf]

theorem next_eq_ended_iff (h : x.Balanced c table all) :
    x.tail.next x.database = .ended ↔ HasFailure x.given := by
  obtain ⟨⟨log, hlog, hfollows, -⟩, hended⟩ := h
  constructor
  · intro hnext
    have haccounts := Tail.next_accounts hlog hfollows
    rw [hnext] at haccounts
    exact hended.1 haccounts
  · intro hf
    simp [Tail.next, Tail.give, hended.2 hf]

theorem given_of_pending (h : x.Balanced c table all) {tail : Tail}
    (hnext : x.tail.next x.database = .pending tail) : x.given = upToFailure all := by
  obtain ⟨⟨log, hlog, hfollows, hbalance⟩, -⟩ := h
  have haccounts := Tail.next_accounts hlog hfollows
  rw [hnext] at haccounts
  rw [← hbalance, haccounts.1, List.append_nil]

/-- Asking gives one more item, unless everything was given. -/
theorem ask_progress (h : x.Balanced c table all) :
    x.given = upToFailure all ∨ (x.step .ask).given.length = x.given.length + 1 := by
  cases hnext : x.tail.next x.database with
  | item result tail => exact .inr (by simp [step, hnext])
  | pending tail => exact .inl (given_of_pending h hnext)
  | ended => exact .inl (given_of_hasFailure h ((next_eq_ended_iff h).1 hnext))

theorem prefix_of_balanced (h : x.Balanced c table all) : x.given <+: upToFailure all := by
  obtain ⟨⟨log, -, -, hbalance⟩, -⟩ := h
  exact hbalance ▸ List.prefix_append _ _

/-- Asking often enough gives everything. -/
theorem given_of_asks (h : x.Balanced c table all) {n : Nat}
    (hn : (upToFailure all).length ≤ x.given.length + n) :
    (x.run (List.replicate n .ask)).given = upToFailure all := by
  induction n generalizing x with
  | zero => exact (prefix_of_balanced h).eq_of_length_le hn
  | succ n ih =>
    have hask : (x.step .ask).Balanced c table all := balanced_ask h
    refine ih hask ?_
    rcases ask_progress h with hdone | hmore
    · have : (x.step .ask).given.length ≤ (upToFailure all).length :=
        (prefix_of_balanced hask).length_le
      have hle : x.given.length ≤ (x.step .ask).given.length := by
        simp only [step]
        split <;> simp
      rw [hdone] at hle
      omega
    · omega

/-- The rows that the commits of a run append to the log, and what they tell. -/
theorem log_run (x : Tailing) (steps : List Step) {log : ChangeLog}
    (hlog : x.database.log? = some log) (c : Collection) (table : String) :
    ∃ log' since, (x.run steps).database.log? = some log' ∧ log'.rows = log.rows ++ since ∧
      (since.filter (·.table == table)).map (Tail.readRow c) =
        steps.flatMap (Step.told c table) := by
  induction steps generalizing x log with
  | nil => exact ⟨log, [], hlog, by simp, rfl⟩
  | cons step steps ih =>
    cases step with
    | commit tables other old? new? =>
      have hstep : (x.step (.commit tables other old? new?)).database.log? =
          some (log.append other old? new?) := by
        simp [step, Database.appendChange, Database.log, hlog, bind, Except.bind, pure,
          Except.pure]
      obtain ⟨log', since, hlog', hrows, htold⟩ := ih _ hstep
      refine ⟨log', { seq := log.lastSeq + 1, table := other, old?, new? } :: since, hlog', ?_, ?_⟩
      · simp [hrows, ChangeLog.append]
      · simp only [List.flatMap_cons, ← htold, Step.told, Tail.told, List.filter_cons]
        by_cases ht : other = table
        · simp only [ht, beq_self_eq_true, if_true, List.map_cons, List.singleton_append]
          rfl
        · simp [ht]
    | poll =>
      refine ih (x.step .poll) ?_
      simp only [step]
      split <;> exact hlog
    | ask =>
      refine ih (x.step .ask) ?_
      simp only [step]
      split <;> exact hlog

end Tailing

/-- A tail that was opened over a log gives what the log tells of its table from then on: item by
item in the order of the log, up to the first change that cannot be read, whose failure comes last.
It has nothing to give just when it gave all of that, it ends just when it gave a failure, and
asking it often enough gives all of it. -/
theorem tail_gives_each_change_once {s s' : TableStore} {c : Collection} {tail : Tail}
    (h : s.subscribe c = .ok (tail, s')) (steps : List Tailing.Step) :
    let x := Tailing.run { database := s'.database, tail } steps
    ∃ log log' since, s.database.log? = some log ∧ x.database.log? = some log' ∧
      log'.rows = log.rows ++ since ∧
      let all := upToFailure ((since.filter (·.table == s.tableName c)).map (Tail.readRow c))
      x.given <+: all ∧
      (∀ e, .error e ∈ x.given → ∃ reason, e = .subscriptionFailed c reason) ∧
      (∀ tail', x.tail.next x.database = .pending tail' → x.given = all) ∧
      (x.tail.next x.database = .ended ↔ HasFailure x.given) ∧
      (HasFailure x.given → x.given = all) ∧
      (x.run (List.replicate all.length .ask)).given = all := by
  obtain ⟨log, hlog, rfl, rfl⟩ := TableStore.subscribe_eq_ok h
  intro x
  obtain ⟨log', since, hlog', hrows, htold⟩ :=
    Tailing.log_run { database := s.database, tail := _ } steps hlog c (s.tableName c)
  refine ⟨log, log', since, hlog, hlog', hrows, ?_⟩
  rw [htold]
  have hx : x.Balanced c (s.tableName c) ([] ++ steps.flatMap (Tailing.Step.told c _)) :=
    Tailing.balanced_run (Tailing.balanced_open hlog c _) steps
  rw [List.nil_append] at hx
  refine ⟨Tailing.prefix_of_balanced hx, fun e he => ?_, fun _ => Tailing.given_of_pending hx,
    Tailing.next_eq_ended_iff hx, Tailing.given_of_hasFailure hx,
    Tailing.given_of_asks hx (Nat.le_add_left _ _)⟩
  have htold' := (upToFailure_isPrefix_self _).subset ((Tailing.prefix_of_balanced hx).subset he)
  rw [← htold] at htold'
  obtain ⟨row, -, hrow⟩ := List.mem_map.1 htold'
  exact Tail.readChange_error hrow

/-- A tail opened after one change of its table. Two more follow, one before and one after a change
of another table; the second cannot be read. -/
theorem tail_gives_change_before_broken_one :
    let s : TableStore :=
      { path := "lab.db", names := .ofFn Collection.name
        database := { log? := some (ChangeLog.append {} "tests" none (some "0")) } }
    let tail : Tail := { collection := .tests, table := "tests", cursor := 1 }
    let x := Tailing.run { database := s.database, tail }
      [.commit [] "tests" none (some "1"), .poll, .commit [] "analytics" none (some "2"),
        .commit [] "tests" (some "1") (some "["), .ask]
    s.subscribe .tests = .ok (tail, s) ∧
    ∃ log log' since, s.database.log? = some log ∧ x.database.log? = some log' ∧
      log'.rows = log.rows ++ since ∧
      let all := upToFailure ((since.filter (·.table == s.tableName .tests)).map
        (Tail.readRow .tests))
      x.given <+: all ∧
      (∀ e, .error e ∈ x.given → ∃ reason, e = .subscriptionFailed .tests reason) ∧
      (∀ tail', x.tail.next x.database = .pending tail' → x.given = all) ∧
      (x.tail.next x.database = .ended ↔ HasFailure x.given) ∧
      (HasFailure x.given → x.given = all) ∧
      (x.run (List.replicate all.length .ask)).given = all :=
  ⟨rfl, tail_gives_each_change_once rfl _⟩

end TrialBoard
