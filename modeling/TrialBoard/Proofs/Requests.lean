import Mathlib.Data.List.Forall2
import TrialBoard.Store.Interface

/-!
# Clients of a store

A client asks a store one request after the other and keeps the streams that were opened, numbered
in each collection in the order of their opening. Since nothing else tells sessions of one store
apart, a client stands for all of them together, and a run of requests for any way in which they
take turns.
-/

namespace TrialBoard

/-- A store, and the streams that were opened on it. -/
structure Client (σ τ : Type) where
  store : σ
  streams : ByCollection (List τ) := .ofFn fun _ => []

namespace Client

/-- What is asked of a store. -/
inductive Request where
  | scan (c : Collection)
  | get (c : Collection) (id : String)
  | filterEq (c : Collection) (key : String) (value : Json)
  /-- Adds a row. The text is its id if the document brings none. -/
  | insert (c : Collection) (fresh : String) (doc : Document)
  | upsert (c : Collection) (id : String) (doc : Document)
  | subscribe (c : Collection)
  /-- Asks the stream of a number for an item. -/
  | next (c : Collection) (stream : Nat)

namespace Request

/-- The collection that a request is about. -/
def collection : Request → Collection
  | scan c => c
  | get c _ => c
  | filterEq c _ _ => c
  | insert c _ _ => c
  | upsert c _ _ => c
  | subscribe c => c
  | next c _ => c

/-- Whether a request is an insert or an upsert. -/
def IsWrite : Request → Prop
  | insert _ _ _ => True
  | upsert _ _ _ => True
  | _ => False

end Request

/-- What a store answers. -/
inductive Answer where
  | rows (result : Except StoreError (List Document))
  | row (result : Except StoreError (Option Document))
  | inserted (result : Except StoreError String)
  | upserted (result : Except StoreError Unit)
  | subscribed (result : Except StoreError Unit)
  | item (result : Except StoreError ChangeEvent)
  /-- The stream has no item yet. -/
  | pending
  /-- The stream has ended. -/
  | ended
  /-- There is no stream of the number. -/
  | noStream

section Runs

variable {σ τ : Type} [DocumentStore σ τ]

/-- Puts a stream in the place of the one of its number. -/
def keep (x : Client σ τ) (c : Collection) (n : Nat) (stream : τ) : Client σ τ :=
  { x with streams := x.streams.set c ((x.streams.get c).set n stream) }

/-- One request. One that fails leaves the store as it was. -/
def perform (x : Client σ τ) : Request → Answer × Client σ τ
  | .scan c => (.rows (DocumentStore.scan x.store c), x)
  | .get c id => (.row (DocumentStore.get x.store c id), x)
  | .filterEq c key value => (.rows (DocumentStore.filterEq x.store c key value), x)
  | .insert c fresh doc =>
    match DocumentStore.insert x.store c fresh doc with
    | .ok (id, store) => (.inserted (.ok id), { x with store })
    | .error e => (.inserted (.error e), x)
  | .upsert c id doc =>
    match DocumentStore.upsert x.store c id doc with
    | .ok store => (.upserted (.ok ()), { x with store })
    | .error e => (.upserted (.error e), x)
  | .subscribe c =>
    match DocumentStore.subscribe x.store c with
    | .ok (stream, store) =>
      (.subscribed (.ok ()), { store, streams := x.streams.set c (x.streams.get c ++ [stream]) })
    | .error e => (.subscribed (.error e), x)
  | .next c n =>
    match (x.streams.get c)[n]? with
    | none => (.noStream, x)
    | some stream =>
      match DocumentStore.next x.store stream with
      | .item result stream => (.item result, x.keep c n stream)
      | .pending stream => (.pending, x.keep c n stream)
      | .ended => (.ended, x)

/-- The client after requests. -/
def run (x : Client σ τ) (requests : List Request) : Client σ τ :=
  requests.foldl (fun x request => (x.perform request).2) x

/-- The requests of a run, each with its answer. -/
def answers (x : Client σ τ) : List Request → List (Request × Answer)
  | [] => []
  | request :: requests =>
    (request, (x.perform request).1) :: (x.perform request).2.answers requests

/-- The requests on a collection, each with its answer. -/
def answersOn (c : Collection) (x : Client σ τ) (requests : List Request) :
    List (Request × Answer) :=
  (x.answers requests).filter (·.1.collection == c)

theorem run_cons (x : Client σ τ) (request : Request) (requests : List Request) :
    x.run (request :: requests) = (x.perform request).2.run requests := rfl

end Runs

/-! ## Streams side by side -/

section Streams

variable {τ τ' : Type} {R : τ → τ' → Prop} {streams : List τ} {streams' : List τ'}

theorem forall₂_set (h : List.Forall₂ R streams streams') {stream : τ} {stream' : τ'}
    (hR : R stream stream') (n : Nat) :
    List.Forall₂ R (streams.set n stream) (streams'.set n stream') := by
  induction h generalizing n with
  | nil => exact .nil
  | cons hhead htail ih =>
    cases n with
    | zero => exact .cons hR htail
    | succ n => exact .cons hhead (ih n)

theorem forall₂_getElem? (h : List.Forall₂ R streams streams') (n : Nat) :
    (streams[n]? = none ∧ streams'[n]? = none) ∨
      ∃ stream stream', streams[n]? = some stream ∧ streams'[n]? = some stream' ∧
        R stream stream' := by
  induction h generalizing n with
  | nil => exact .inl ⟨rfl, rfl⟩
  | cons hhead htail ih =>
    cases n with
    | zero => exact .inr ⟨_, _, rfl, rfl, hhead⟩
    | succ n => exact ih n

end Streams

end Client

end TrialBoard
