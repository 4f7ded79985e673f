import TrialBoard.Proofs.RelayRun
import TrialBoard.Proofs.TailDelivery

/-!
# Streams that break

A stream that has given an error is broken: it is to give nothing more and to say that it has ended
(`Reading.EndsOnceBroken`).

The tail of a log does, whatever becomes of its database in the meantime. A reader of a feed does
not. An injected failure is one of the items it reads; it never ends, and it has another item to
give as soon as one is published past it.
-/

namespace TrialBoard

/-- A stream that is read while its store changes, with what it has given so far. -/
structure Reading (σ τ : Type) where
  store : σ
  stream : τ
  given : List (Except StoreError ChangeEvent) := []

namespace Reading

/-- What can happen to a stream and its store. -/
inductive Step (σ : Type) where
  /-- The store changes. -/
  | change (f : σ → σ)
  /-- The stream is asked for an item. -/
  | ask

section Runs

variable {σ τ : Type} [DocumentStore σ τ]

/-- One step. -/
def step (x : Reading σ τ) : Step σ → Reading σ τ
  | .change f => { x with store := f x.store }
  | .ask =>
    match DocumentStore.next x.store x.stream with
    | .item result stream => { x with stream, given := x.given ++ [result] }
    | .pending stream => { x with stream }
    | .ended => x

/-- Steps one after the other. -/
def run (x : Reading σ τ) (steps : List (Step σ)) : Reading σ τ := steps.foldl step x

/-- Whether a stream, once it has given an error, gives nothing more and says that it has ended,
whatever happens. -/
def EndsOnceBroken (x : Reading σ τ) : Prop :=
  HasFailure x.given → ∀ steps, (x.run steps).given = x.given ∧
    DocumentStore.next (x.run steps).store (x.run steps).stream = .ended

end Runs

/-! ## Tails -/

section Tails

variable {x : Reading TableStore Tail}

/-- A tail that gives an error has ended. -/
theorem hasEnded_of_give {tail tail' : Tail} {e : StoreError}
    (h : tail.give = .item (.error e) tail') : tail'.hasEnded = true := by
  unfold Tail.give at h
  split at h
  · cases h
  · split at h
    · cases h
    · split at h
      · cases h
        rfl
      · cases h

theorem hasEnded_of_next {db : Database} {tail tail' : Tail} {e : StoreError}
    (h : tail.next db = .item (.error e) tail') : tail'.hasEnded = true := by
  unfold Tail.next at h
  split at h
  · exact hasEnded_of_give h
  · exact hasEnded_of_give h

/-- Nothing happens any more to a tail that has ended. -/
theorem step_of_hasEnded (h : x.stream.hasEnded = true) (step : Step TableStore) :
    (x.step step).stream = x.stream ∧ (x.step step).given = x.given := by
  cases step with
  | change f => exact ⟨rfl, rfl⟩
  | ask =>
    have hnext : DocumentStore.next x.store x.stream = .ended :=
      Tail.next_of_hasEnded x.store.database h
    rw [Reading.step, hnext]
    exact ⟨rfl, rfl⟩

theorem run_of_hasEnded (h : x.stream.hasEnded = true) (steps : List (Step TableStore)) :
    (x.run steps).stream = x.stream ∧ (x.run steps).given = x.given := by
  induction steps generalizing x with
  | nil => exact ⟨rfl, rfl⟩
  | cons step steps ih =>
    obtain ⟨hstream, hgiven⟩ := step_of_hasEnded h step
    obtain ⟨hstream', hgiven'⟩ := ih (hstream.symm ▸ h)
    exact ⟨hstream'.trans hstream, hgiven'.trans hgiven⟩

/-- A tail that gives an error ends with it. -/
theorem hasEnded_step (h : HasFailure x.given → x.stream.hasEnded = true) (step : Step TableStore) :
    HasFailure (x.step step).given → (x.step step).stream.hasEnded = true := by
  cases step with
  | change f => exact h
  | ask =>
    have hnext : DocumentStore.next x.store x.stream = x.stream.next x.store.database := rfl
    rw [Reading.step, hnext]
    cases hanswer : x.stream.next x.store.database with
    | item result tail =>
      intro hfailure
      rcases hasFailure_append.1 hfailure with hbefore | ⟨e, he⟩
      · have hended := Tail.next_of_hasEnded x.store.database (h hbefore)
        rw [hended] at hanswer
        cases hanswer
      · rw [← List.mem_singleton.1 he] at hanswer
        exact hasEnded_of_next hanswer
    | pending tail =>
      intro hfailure
      have hended := Tail.next_of_hasEnded x.store.database (h hfailure)
      rw [hended] at hanswer
      cases hanswer
    | ended => exact h

theorem hasEnded_run (h : HasFailure x.given → x.stream.hasEnded = true)
    (steps : List (Step TableStore)) :
    HasFailure (x.run steps).given → (x.run steps).stream.hasEnded = true := by
  induction steps generalizing x with
  | nil => exact h
  | cons step steps ih => exact ih (hasEnded_step h step)

theorem endsOnceBroken_of_hasEnded (h : HasFailure x.given → x.stream.hasEnded = true) :
    x.EndsOnceBroken := by
  intro hfailure steps
  obtain ⟨hstream, hgiven⟩ := run_of_hasEnded (h hfailure) steps
  refine ⟨hgiven, ?_⟩
  rw [hstream]
  exact Tail.next_of_hasEnded _ (h hfailure)

end Tails

end Reading

/-! ## Readers of a feed -/

namespace MemoryStore

/-- What can be done to a store in memory, in a session or behind the back of all of them. -/
inductive Operation where
  | openSession
  | closeSession
  | ensure
  | insert (c : Collection) (fresh : String) (doc : Document)
  | upsert (c : Collection) (id : String) (doc : Document)
  | subscribe (c : Collection)
  | dropStream (stream : FeedReader)
  | put (c : Collection) (fresh : String) (value : Json)
  | emit (c : Collection) (event : ChangeEvent)
  | failStream (c : Collection) (reason : String)
  | setUnavailable (value : Bool)
  | failQueries (c : Collection)
  | failSubscriptions (c : Collection)
  | clearFaults

/-- What an operation leaves, the store as it was if it is refused. -/
def orUnchanged {ε α : Type} (s : MemoryStore) : Except ε (α × MemoryStore) → MemoryStore
  | .ok (_, changed) => changed
  | .error _ => s

/-- The store after an operation. -/
def Operation.apply : Operation → MemoryStore → MemoryStore
  | openSession, s => s.orUnchanged (s.openSession.map ((), ·))
  | closeSession, s => s.closeSession
  | ensure, s => s.ensure.2
  | insert c fresh doc, s => s.orUnchanged (s.insert c fresh doc)
  | upsert c id doc, s => s.orUnchanged ((s.upsert c id doc).map ((), ·))
  | subscribe c, s => s.orUnchanged (s.subscribe c)
  | dropStream stream, s => DocumentStore.dropStream s stream
  | put c fresh value, s => (s.put c fresh value).2
  | emit c event, s => (s.emit c event).2
  | failStream c reason, s => (s.failStream c reason).2
  | setUnavailable value, s => s.setUnavailable value
  | failQueries c, s => s.failQueries c
  | failSubscriptions c, s => s.failSubscriptions c
  | clearFaults, s => s.clearFaults

end MemoryStore

/-- What one operation can do to a feed: its readers are counted anew, or an item is published. -/
inductive Feed.Goes (f : Feed) : Feed → Prop
  | counted (readers : Nat) : Goes f { f with readers }
  | published (item : FeedItem) : Goes f (f.publish item)

theorem Feed.Goes.serves {f f' : Feed} {position : Nat} (h : f.Goes f') (hf : f.Serves position) :
    f'.Serves position := by
  cases h with
  | counted readers => exact ⟨hf.reached, hf.kept⟩
  | published item => exact Feed.serves_publish hf item

namespace MemoryStore

theorem goes_publish (s : MemoryStore) (c d : Collection) (item : FeedItem) :
    (s.feeds.get c).Goes ((s.publish d item).feeds.get c) := by
  by_cases h : c = d
  · subst h
    rw [publish, ByCollection.get_set_self]
    exact .published item
  · rw [publish, ByCollection.get_set_of_ne _ h]
    exact .counted (s.feeds.get c).readers

theorem goes_countReaders (s : MemoryStore) (c d : Collection) (f : Nat → Nat) :
    (s.feeds.get c).Goes ((s.countReaders d f).feeds.get c) := by
  obtain ⟨n, hn⟩ := Delivery.feeds_countReaders s d c f
  rw [hn]
  exact .counted n

/-- A request that is refused leaves every feed, and so does one that touches none. -/
theorem goes_orUnchanged {ε α : Type} (s : MemoryStore) (c : Collection)
    (result : Except ε (α × MemoryStore))
    (h : ∀ a s', result = .ok (a, s') → (s.feeds.get c).Goes (s'.feeds.get c)) :
    (s.feeds.get c).Goes ((s.orUnchanged result).feeds.get c) := by
  cases result with
  | error e => exact .counted (s.feeds.get c).readers
  | ok changed => exact h changed.1 changed.2 rfl

theorem goes_apply (op : Operation) (s : MemoryStore) (c : Collection) :
    (s.feeds.get c).Goes ((op.apply s).feeds.get c) := by
  have hsame : (s.feeds.get c).Goes (s.feeds.get c) := .counted (s.feeds.get c).readers
  cases op with
  | openSession =>
    refine goes_orUnchanged s c _ fun a s' h => ?_
    obtain ⟨opened, hopen, heq⟩ := exists_of_map_eq_ok h
    obtain rfl := (Prod.mk.inj heq).2
    unfold MemoryStore.openSession at hopen
    split at hopen
    · cases hopen
    · rw [← Except.ok.inj hopen]
      exact hsame
  | insert d fresh doc =>
    refine goes_orUnchanged s c _ fun a s' h => ?_
    obtain rfl := (Prod.mk.inj (Delivery.query_eq_ok h)).2
    exact goes_publish _ c d _
  | upsert d id doc =>
    refine goes_orUnchanged s c _ fun a s' h => ?_
    obtain ⟨replaced, hreplace, heq⟩ := exists_of_map_eq_ok h
    obtain rfl := (Prod.mk.inj heq).2
    rw [← Delivery.query_eq_ok hreplace]
    exact goes_publish _ c d _
  | subscribe d =>
    refine goes_orUnchanged s c _ fun a s' h => ?_
    unfold MemoryStore.subscribe at h
    split at h
    · cases h
    · obtain rfl := (Prod.mk.inj (Except.ok.inj h)).2
      exact goes_countReaders s c d _
  | dropStream stream => exact goes_countReaders s c stream.collection _
  | put d fresh value => exact goes_publish _ c d _
  | emit d event => exact goes_publish s c d _
  | failStream d reason => exact goes_publish s c d _
  | closeSession | ensure | setUnavailable | failQueries | failSubscriptions | clearFaults =>
    exact hsame

end MemoryStore

namespace Reading

variable {x : Reading MemoryStore FeedReader}

/-- Whether a step is an operation of the store, or asks the stream. -/
def Step.IsOperation : Step MemoryStore → Prop
  | .change f => ∃ op : MemoryStore.Operation, f = op.apply
  | .ask => True

/-- The feed that a stream reads. -/
def feed (x : Reading MemoryStore FeedReader) : Feed := x.store.feeds.get x.stream.collection

/-- A reader has an item to give just when one was published past it. -/
theorem exists_next_iff (h : x.feed.Serves x.stream.position) :
    (∃ result stream, DocumentStore.next x.store x.stream = .item result stream) ↔
      x.stream.position < x.feed.published := by
  have hnext : DocumentStore.next x.store x.stream = x.store.next x.stream := rfl
  have hfeed : x.store.feeds.get x.stream.collection = x.feed := rfl
  rw [hnext, MemoryStore.next, hfeed]
  cases hread : x.feed.read x.stream.position with
  | none =>
    have hunread := Feed.unread_of_read_eq_none h hread
    have hcapacity : 0 < Feed.capacity := by decide
    unfold Feed.unread at hunread
    refine ⟨fun ⟨_, _, hitem⟩ => (by cases hitem), fun hlt => ?_⟩
    omega
  | some next =>
    obtain ⟨item, position⟩ := next
    have hunread := (Feed.ahead_of_read_eq_some hread).2.1
    unfold Feed.unread at hunread
    exact ⟨fun _ => by omega, fun _ => ⟨_, _, rfl⟩⟩

theorem serves_step (h : x.feed.Serves x.stream.position) {step : Step MemoryStore}
    (hstep : step.IsOperation) : (x.step step).feed.Serves (x.step step).stream.position := by
  cases step with
  | change f =>
    obtain ⟨op, rfl⟩ := hstep
    exact (MemoryStore.goes_apply op x.store x.stream.collection).serves h
  | ask =>
    rw [Reading.step]
    cases hnext : DocumentStore.next x.store x.stream with
    | item result stream =>
      obtain ⟨item, hread, hstream, -⟩ := Delivery.next_eq_item hnext
      have hcollection : stream.collection = x.stream.collection := by rw [hstream]
      change (x.store.feeds.get stream.collection).Serves stream.position
      rw [hcollection]
      exact Feed.serves_of_read_eq_some h hread
    | pending stream =>
      rw [Delivery.next_eq_pending hnext]
      exact h
    | ended => exact h

theorem serves_run (h : x.feed.Serves x.stream.position) {steps : List (Step MemoryStore)}
    (hsteps : ∀ step ∈ steps, step.IsOperation) :
    (x.run steps).feed.Serves (x.run steps).stream.position := by
  induction steps generalizing x with
  | nil => exact h
  | cons step steps ih =>
    obtain ⟨hstep, hsteps⟩ := List.forall_mem_cons.1 hsteps
    exact ih (serves_step h hstep) hsteps

/-- A stream that never ends keeps the promise only as long as it has given no error. -/
theorem endsOnceBroken_iff (x : Reading MemoryStore FeedReader) :
    x.EndsOnceBroken ↔ ¬ HasFailure x.given := by
  refine ⟨fun h hfailure => ?_, fun h hfailure => absurd hfailure h⟩
  exact Delivery.next_ne_ended _ _ (h hfailure []).2

/-- A reader starts at the end of its feed. -/
theorem serves_subscribe {s s' : MemoryStore} {c : Collection} {reader : FeedReader}
    (h : s.subscribe c = .ok (reader, s')) :
    (s'.feeds.get reader.collection).Serves reader.position := by
  unfold MemoryStore.subscribe at h
  split at h
  · cases h
  · obtain ⟨rfl, rfl⟩ := Prod.mk.inj (Except.ok.inj h)
    exact (MemoryStore.goes_countReaders s c c (· + 1)).serves (Feed.serves_published _)

/-- The tail of a log ends once it has given an error, whatever becomes of its database. A reader of
a feed never ends: after any operations on its store it has another item to give just when one was
published past it, so it is not the broken stream it says it is once it has given an error. -/
theorem tails_end_readers_go_on (c : Collection) :
    (∀ (s s' : TableStore) (tail : Tail), s.subscribe c = .ok (tail, s') →
      ∀ steps, (run { store := s', stream := tail } steps).EndsOnceBroken) ∧
    ∀ (s s' : MemoryStore) (reader : FeedReader), s.subscribe c = .ok (reader, s') →
      ∀ steps : List (Step MemoryStore), (∀ step ∈ steps, step.IsOperation) →
      let x := run { store := s', stream := reader } steps
      DocumentStore.next x.store x.stream ≠ .ended ∧
      ((∃ result stream, DocumentStore.next x.store x.stream = .item result stream) ↔
        x.stream.position < x.feed.published) ∧
      (x.EndsOnceBroken ↔ ¬ HasFailure x.given) := by
  constructor
  · intro s s' tail h steps
    let opened : Reading TableStore Tail := { store := s', stream := tail }
    have hnothing : HasFailure opened.given → opened.stream.hasEnded = true := by
      rintro ⟨e, he⟩
      cases he
    exact endsOnceBroken_of_hasEnded (hasEnded_run hnothing steps)
  · intro s s' reader h steps hsteps x
    have hserves : x.feed.Serves x.stream.position :=
      serves_run (x := { store := s', stream := reader }) (serves_subscribe h) hsteps
    exact ⟨Delivery.next_ne_ended _ _, exists_next_iff hserves, endsOnceBroken_iff x⟩

/-- A tail that meets a change it cannot read, and a reader that meets an injected failure. -/
theorem tail_ends_at_unreadable_change :
    let tables : TableStore :=
      { path := "lab.db", names := .ofFn Collection.name, database := { log? := some {} } }
    let tail : Tail := { collection := .tests, table := "tests", cursor := 0 }
    let broken : Step TableStore := .change fun s =>
      { s with database := { log? := some (ChangeLog.append {} "tests" none (some "[")) } }
    let memory : MemoryStore := .empty
    let reader : FeedReader := ⟨.tests, 0⟩
    let opened := memory.countReaders .tests (· + 1)
    let fail : Step MemoryStore := .change (MemoryStore.Operation.failStream .tests "boom").apply
    let x := run { store := opened, stream := reader } [fail, .ask]
    tables.subscribe .tests = .ok (tail, tables) ∧
    (run { store := tables, stream := tail } [broken, .ask]).EndsOnceBroken ∧
    memory.subscribe .tests = .ok (reader, opened) ∧
    DocumentStore.next x.store x.stream ≠ .ended ∧
    ((∃ result stream, DocumentStore.next x.store x.stream = .item result stream) ↔
      x.stream.position < x.feed.published) ∧
    (x.EndsOnceBroken ↔ ¬ HasFailure x.given) := by
  refine ⟨rfl, (tails_end_readers_go_on .tests).1
    { path := "lab.db", names := .ofFn Collection.name, database := { log? := some {} } }
    _ _ rfl _, rfl, ?_⟩
  refine (tails_end_readers_go_on .tests).2 .empty _ ⟨.tests, 0⟩ rfl _ fun step hstep => ?_
  rcases List.mem_pair.1 hstep with rfl | rfl
  · exact ⟨_, rfl⟩
  · trivial

/-- A reader of the tests that met an injected failure gives the row that is put there next. -/
theorem reader_goes_on_after_failure :
    let reader : FeedReader := ⟨.tests, 0⟩
    let opened := MemoryStore.empty.countReaders .tests (· + 1)
    let fail : Step MemoryStore := .change (MemoryStore.Operation.failStream .tests "boom").apply
    let put : Step MemoryStore :=
      .change (MemoryStore.Operation.put .tests "u" (.object [("id", .string "t")])).apply
    let x := run { store := opened, stream := reader } [fail, .ask]
    MemoryStore.empty.subscribe .tests = .ok (reader, opened) ∧
    x.given = [.error (.subscriptionFailed .tests "boom")] ∧
    (x.run [put, .ask]).given = [.error (.subscriptionFailed .tests "boom"),
      .ok (.inserted [("id", .string "t")])] ∧
    ¬ x.EndsOnceBroken := by
  intro reader opened fail put x
  have hgiven : x.given = [.error (.subscriptionFailed .tests "boom")] := rfl
  refine ⟨rfl, hgiven, rfl, fun h => ?_⟩
  have hfailure : HasFailure x.given := ⟨_, hgiven ▸ List.mem_singleton_self _⟩
  have hlonger := congrArg List.length (h hfailure [put, .ask]).1
  exact absurd hlonger (by decide)

end Reading

end TrialBoard
