import TrialBoard.Change
import TrialBoard.Store.Error

/-!
# What a store does

A store hands out sessions and change streams. It is a value: reads are functions of it, and a
write gives the store after the write. Opening and closing a session, and opening and dropping a
stream, give a new store too, because a store may count them.

A stream is a value of its own. `next` asks it, and the store it belongs to, for one more item.
-/

namespace TrialBoard

/-- Why a request to a store came to nothing. -/
inductive Failure where
  | error (error : StoreError)
  /-- The store broke down, perhaps with a message. -/
  | crash (message? : Option String)
deriving DecidableEq

/-- What a stream answers when it is asked for an item. -/
inductive Polled (τ : Type) where
  /-- There is no item yet. -/
  | pending (stream : τ)
  /-- An event, or the reason why the stream broke. -/
  | item (result : Except StoreError ChangeEvent) (stream : τ)
  /-- There will be no more items. -/
  | ended

/-- A store of documents `σ` whose change streams are values of `τ`. -/
class DocumentStore (σ : Type) (τ : outParam Type) where
  /-- The short name of the kind of store. -/
  backend : σ → String
  openSession : σ → Except Failure σ
  closeSession : σ → σ
  /-- Creates the collections that are missing, up to the first that cannot be created. -/
  ensure : σ → Except StoreError Unit × σ
  /-- Every row of a collection, in the store's order. -/
  scan : σ → Collection → Except StoreError (List Document)
  /-- The row with an id. -/
  get : σ → Collection → String → Except StoreError (Option Document)
  /-- The rows that have a value at a key, in the store's order. -/
  filterEq : σ → Collection → String → Json → Except StoreError (List Document)
  /-- Adds a row. The first text is the row's id if the row brings none. -/
  insert : σ → Collection → String → Document → Except StoreError (String × σ)
  /-- Adds a row under an id, or replaces the one there is. -/
  upsert : σ → Collection → String → Document → Except StoreError σ
  /-- A stream of the changes from now on. -/
  subscribe : σ → Collection → Except StoreError (τ × σ)
  next : σ → τ → Polled τ
  /-- How many items `next` gives at most before it has none. -/
  backlog : σ → τ → Nat
  /-- Gives a stream back. -/
  dropStream : σ → τ → σ

namespace DocumentStore

variable {σ τ α : Type} [DocumentStore σ τ]

/-- Asks something of a store in a session of its own, which is closed again in any case. -/
def inSession (s : σ) (ask : σ → Except StoreError α) : Except Failure α × σ :=
  match openSession s with
  | .error failure => (.error failure, s)
  | .ok opened =>
    match ask opened with
    | .ok answer => (.ok answer, closeSession opened)
    | .error e => (.error (.error e), closeSession opened)

/-- Changes a store in a session of its own. A change that fails leaves the store as it was. -/
def changeInSession (s : σ) (change : σ → Except StoreError (α × σ)) : Except Failure α × σ :=
  match openSession s with
  | .error failure => (.error failure, s)
  | .ok opened =>
    match change opened with
    | .ok (answer, changed) => (.ok answer, closeSession changed)
    | .error e => (.error (.error e), closeSession opened)

/-- Creates the collections that are missing, in a session of its own. -/
def prepare (s : σ) : Except Failure Unit × σ :=
  match openSession s with
  | .error failure => (.error failure, s)
  | .ok opened =>
    let (result, prepared) := ensure opened
    (result.mapError .error, closeSession prepared)

end DocumentStore

end TrialBoard
