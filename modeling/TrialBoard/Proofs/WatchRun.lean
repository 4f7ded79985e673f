import Mathlib
import TrialBoard.Cli.Watch
import TrialBoard.Proofs.TableRows
import TrialBoard.Proofs.Views

/-!
# A client that follows a store while others write

The client subscribes to the collections one after the other, lists the experiments, and, if the
listing selects one, reads its detail: the experiment's row and then the rows of each collection
that belong to it. Each of these is a step of its own, so that writes fall between any two of them.
A stream may be asked at any time; what it told is applied when the client has its listing and
detail, in order within a collection and in any order across collections.

Steps of the client that nothing interrupts subscribe as `Relay.subscribeAll` does, and then load
what `Cli.Watch.load` does.
-/

namespace TrialBoard

/-- How far a client has come. -/
inductive Stage where
  /-- These collections are still to be subscribed to. -/
  | subscribing (left : List Collection)
  | listing
  /-- The listing selected an experiment, whose detail is to be read. -/
  | fetching (id : String)
  /-- The experiment's row was read, and of these collections the rows that belong to it are still
  to be read. -/
  | gathering (detail : Detail) (id : String) (left : List Collection)
  /-- The changes are applied. The experiment is the one whose detail the listing asked for. -/
  | following (asked? : Option String)
  /-- A read failed. -/
  | failed

/-- The collections that are still to be subscribed to. -/
def Stage.unsubscribed : Stage → List Collection
  | .subscribing left => left
  | _ => []

/-- A store that is written to, and a client of it. -/
structure Watching where
  store : TableStore
  tails : ByCollection (Option Tail) := .ofFn fun _ => none
  /-- What the streams told and was not applied yet. -/
  inbox : ByCollection (List ChangeFeed) := .ofFn fun _ => []
  stage : Stage := .subscribing Collection.all
  dashboard : Dashboard := .empty

namespace Watching

/-- What can happen next. -/
inductive Step where
  /-- Somebody writes. A write that is refused changes nothing. -/
  | write (write : Write)
  /-- The stream of a collection is asked for an item. -/
  | ask (c : Collection)
  /-- The client takes its next step towards following the changes. -/
  | proceed
  /-- The client applies the first change of a collection that waits. -/
  | apply (c : Collection)

/-- The rows of a collection that were read for a detail. -/
def gathered (detail : Detail) (c : Collection) (rows : List Document) : Detail :=
  match c with
  | .experiments => detail
  | .transformations => { detail with transformations := rows }
  | .tests => { detail with tests := rows }
  | .analytics => { detail with analytics := rows }

/-- The client subscribes to a collection. One that refuses is passed over. -/
def subscribe (w : Watching) (c : Collection) (left : List Collection) : Watching :=
  match DocumentStore.subscribe w.store c with
  | .ok (tail, store) =>
    { w with store, tails := w.tails.set c (some tail), stage := .subscribing left }
  | .error _ => { w with stage := .subscribing left }

/-- The client lists the experiments, and loads them into its dashboard. -/
def list (w : Watching) : Watching :=
  match (Query.list w.store).1 with
  | .ok experiments =>
    let (asked?, dashboard) := w.dashboard.load experiments
    match asked? with
    | some id => { w with dashboard, stage := .fetching id }
    | none => { w with dashboard, stage := .following none }
  | .error _ => { w with stage := .failed }

/-- The client opens a session, and reads the row of an experiment. -/
def fetch (w : Watching) (id : String) : Watching :=
  match (DocumentStore.inSession w.store fun s => DocumentStore.get s .experiments id).1 with
  | .ok (some experiment) =>
    { w with
      stage := .gathering ⟨experiment, [], [], []⟩ id [.transformations, .tests, .analytics] }
  | .ok none => { w with stage := .following (some id) }
  | .error _ => { w with stage := .failed }

/-- The client reads the rows of a collection that belong to an experiment. -/
def gather (w : Watching) (detail : Detail) (id : String) (c : Collection)
    (left : List Collection) : Watching :=
  match DocumentStore.filterEq w.store c Document.experimentKey (.string id) with
  | .ok rows => { w with stage := .gathering (gathered detail c rows) id left }
  | .error _ => { w with stage := .failed }

/-- The client's next step towards following the changes. -/
def proceed (w : Watching) : Watching :=
  match w.stage with
  | .subscribing [] => { w with stage := .listing }
  | .subscribing (c :: left) => w.subscribe c left
  | .listing => w.list
  | .fetching id => w.fetch id
  | .gathering detail id (c :: left) => w.gather detail id c left
  | .gathering detail id [] =>
    { w with dashboard := (w.dashboard.applyDetail detail).2, stage := .following (some id) }
  | .following _ => w
  | .failed => w

/-- A stream is asked for an item. A broken stream is given up; heartbeats are dropped. -/
def ask (w : Watching) (c : Collection) : Watching :=
  match w.tails.get c with
  | none => w
  | some tail =>
    match DocumentStore.next w.store tail with
    | .pending tail => { w with tails := w.tails.set c (some tail) }
    | .ended => { w with tails := w.tails.set c none }
    | .item (.error _) _ => { w with tails := w.tails.set c none }
    | .item (.ok event) tail =>
      { w with
        tails := w.tails.set c (some tail)
        inbox :=
          if event.isHeartbeat then w.inbox
          else w.inbox.set c (w.inbox.get c ++ [.ofEvent c event]) }

/-- A client that follows the changes applies one. -/
def apply (w : Watching) (c : Collection) : Watching :=
  match w.stage, w.inbox.get c with
  | .following _, feed :: feeds =>
    { w with inbox := w.inbox.set c feeds, dashboard := (w.dashboard.applyChange feed).2 }
  | _, _ => w

/-- What a step makes of a store and its client. -/
def step (w : Watching) : Step → Watching
  | .write write =>
    match w.store.write write with
    | .ok store => { w with store }
    | .error _ => w
  | .ask c => w.ask c
  | .proceed => w.proceed
  | .apply c => w.apply c

/-- Steps taken one after the other. -/
def run (w : Watching) (steps : List Step) : Watching := steps.foldl step w

@[simp] theorem run_nil (w : Watching) : w.run [] = w := rfl

@[simp] theorem run_cons (w : Watching) (step : Step) (steps : List Step) :
    w.run (step :: steps) = (w.step step).run steps := rfl

theorem run_append (w : Watching) (steps later : List Step) :
    w.run (steps ++ later) = (w.run steps).run later := List.foldl_append

/-- Whether a step is one of the client, and no write. -/
def Step.IsOwn : Step → Prop
  | .write _ => False
  | _ => True

/-- Whether a write leaves a child with the experiment it belongs to. -/
def KeepsExperiment (store : TableStore) : Write → Prop
  | .insert _ _ _ => True
  | .upsert c id doc => c ≠ .experiments →
    ∀ old, store.get c id = .ok (some old) → (doc.withId id).experiment? = old.experiment?

/-- Whether writes keep to the rules: the text of a row reads back as the row, and no child goes
over to another experiment. -/
def Allows (w : Watching) : List Step → Prop
  | [] => True
  | .write write :: steps => write.row.ReadsBack ∧ KeepsExperiment w.store write ∧
    (w.step (.write write)).Allows steps
  | step :: steps => (w.step step).Allows steps

/-- Whether a client that follows the changes has applied all there are. -/
structure IsCaughtUp (w : Watching) : Prop where
  inbox : ∀ c, w.inbox.get c = []
  streams : ∀ c tail, w.tails.get c = some tail →
    ∃ tail', DocumentStore.next w.store tail = .pending tail'

/-- Whether a collection is one of those of which a view has many rows. -/
def IsListed (c : Collection) : Prop := c = .transformations ∨ c = .tests

/-- Whether a client shows what the store holds, in the store's order and each row once: all
experiments, and the rows that belong to the experiment whose detail was asked for. -/
structure ShowsStore (w : Watching) (asked? : Option String) : Prop where
  experiments : w.store.scan .experiments = .ok (w.dashboard.views.map (·.experiment))
  distinct : (w.dashboard.views.map (·.id?)).Nodup
  detail : ∀ id, asked? = some id → ∃ view, w.dashboard.experiment? id = some view ∧
    ∀ c, IsListed c → ∃ rows, view.rows? c = some rows ∧
      w.store.filterEq c Document.experimentKey (.string id) = .ok rows ∧
      (rows.map Document.id?).Nodup

/-- What a client may be expected to come to, wherever it is: it works, has given up no stream, and
shows the store when it follows the changes and has applied all there are. Left to itself, it gets
there. -/
structure Converges (w : Watching) : Prop where
  works : w.stage ≠ .failed
  streams : ∀ c, c ∉ w.stage.unsubscribed → (w.tails.get c).isSome
  shows : ∀ asked?, w.stage = .following asked? → w.IsCaughtUp → w.ShowsStore asked?
  catchesUp : ∃ (own : List Step) (asked? : Option String), (∀ step ∈ own, step.IsOwn) ∧
    (w.run own).store = w.store ∧ (w.run own).stage = .following asked? ∧
    (w.run own).IsCaughtUp ∧ (w.run own).ShowsStore asked?

/-! ## Steps of the client alone -/

theorem stage_ask (w : Watching) (c : Collection) : (w.ask c).stage = w.stage := by
  unfold ask
  split
  · rfl
  · split <;> rfl

theorem stage_apply (w : Watching) (c : Collection) : (w.apply c).stage = w.stage := by
  unfold apply
  split <;> rfl

theorem store_subscribe (w : Watching) (c : Collection) (left : List Collection) :
    (w.subscribe c left).store = w.store := by
  have hsubscribe : DocumentStore.subscribe w.store c = w.store.subscribe c := rfl
  unfold subscribe
  rw [hsubscribe, TableStore.subscribe]
  cases w.store.database.log <;> rfl

/-- The client only reads. -/
theorem store_of_isOwn {step : Step} (h : step.IsOwn) (w : Watching) :
    (w.step step).store = w.store := by
  cases step with
  | write write => exact h.elim
  | ask c =>
    rw [Watching.step, ask]
    split
    · rfl
    · split <;> rfl
  | apply c =>
    rw [Watching.step, apply]
    split <;> rfl
  | proceed =>
    rw [Watching.step, proceed]
    split
    · rfl
    · exact w.store_subscribe _ _
    · rw [list]
      split
      · dsimp only
        split <;> rfl
      · rfl
    · rw [fetch]
      split <;> rfl
    · rw [gather]
      split <;> rfl
    · rfl
    · rfl
    · rfl

theorem store_run_of_isOwn {steps : List Step} (h : ∀ step ∈ steps, step.IsOwn) (w : Watching) :
    (w.run steps).store = w.store := by
  induction steps generalizing w with
  | nil => rfl
  | cons step steps ih =>
    obtain ⟨hstep, hsteps⟩ := List.forall_mem_cons.1 h
    rw [run_cons, ih hsteps, store_of_isOwn hstep]

theorem isOwn_replicate_proceed (n : Nat) :
    ∀ step ∈ List.replicate n Step.proceed, step.IsOwn := by
  intro step hstep
  rw [List.eq_of_mem_replicate hstep]
  trivial

/-! ## What is allowed -/

theorem allows_append {w : Watching} {steps later : List Step} :
    w.Allows (steps ++ later) ↔ w.Allows steps ∧ (w.run steps).Allows later := by
  induction steps generalizing w with
  | nil => exact ⟨fun h => ⟨trivial, h⟩, fun h => h.2⟩
  | cons step steps ih =>
    rw [run_cons, List.cons_append]
    cases step with
    | write write => simp only [Allows, ih, and_assoc]
    | ask c => exact ih
    | proceed => exact ih
    | apply c => exact ih

theorem allows_of_isOwn {steps : List Step} (h : ∀ step ∈ steps, step.IsOwn) (w : Watching) :
    w.Allows steps := by
  induction steps generalizing w with
  | nil => trivial
  | cons step steps ih =>
    obtain ⟨hstep, hsteps⟩ := List.forall_mem_cons.1 h
    cases step with
    | write write => exact hstep.elim
    | ask c => exact ih hsteps _
    | proceed => exact ih hsteps _
    | apply c => exact ih hsteps _

/-! ## A client that nobody interrupts -/

/-- The dashboard that a client has when it starts to follow the changes. -/
def loaded? (w : Watching) : Option Dashboard :=
  match w.stage with
  | .following _ => some w.dashboard
  | _ => none

theorem run_proceed_of_settled {w : Watching} (h : w.proceed = w) (n : Nat) :
    w.run (List.replicate n .proceed) = w := by
  induction n with
  | zero => rfl
  | succ n ih =>
    rw [List.replicate_succ, run_cons, step, h]
    exact ih

theorem run_proceed_succ (w : Watching) (n : Nat) :
    w.run (List.replicate (n + 1) .proceed) = w.proceed.run (List.replicate n .proceed) := rfl

/-- The streams of forwarders, in the place of those that there were. -/
def takeStreams (tails : ByCollection (Option Tail)) (forwarders : List (Forwarder Tail)) :
    ByCollection (Option Tail) :=
  forwarders.foldl (fun tails f => tails.set f.collection (some f.stream)) tails

/-- A client that nobody interrupts subscribes as a relay does. -/
theorem run_subscribing (w : Watching) {cs : List Collection} (hstage : w.stage = .subscribing cs) :
    w.run (List.replicate cs.length .proceed) =
      { w with
        store := (Relay.subscribeAll w.store cs).2
        tails := takeStreams w.tails (Relay.subscribeAll w.store cs).1
        stage := .subscribing [] } := by
  induction cs generalizing w with
  | nil =>
    rw [List.length_nil, List.replicate_zero, run_nil, ← hstage]
    rfl
  | cons c cs ih =>
    rw [List.length_cons, run_proceed_succ, proceed, hstage]
    simp only [subscribe, Relay.subscribeAll]
    cases hsubscribe : DocumentStore.subscribe w.store c with
    | ok opened =>
      obtain ⟨tail, store⟩ := opened
      simp only
      rw [ih _ rfl]
      rfl
    | error e =>
      simp only
      rw [ih _ rfl]

/-- The dashboard with a detail, if all of it could be read. -/
def withDetail (d : Dashboard) : Except StoreError (Option Detail) → Option Dashboard
  | .ok (some detail) => some (d.applyDetail detail).2
  | .ok none => some d
  | .error _ => none

theorem run_gather (w : Watching) {detail : Detail} {id : String} {c : Collection}
    {left : List Collection} (hstage : w.stage = .gathering detail id (c :: left)) (n : Nat) :
    w.run (List.replicate (n + 1) .proceed) =
      match w.store.filterEq c Document.experimentKey (.string id) with
      | .ok rows => { w with stage := .gathering (gathered detail c rows) id left }.run
          (List.replicate n .proceed)
      | .error _ => { w with stage := .failed } := by
  rw [run_proceed_succ, proceed, hstage]
  simp only [gather]
  change Watching.run (match w.store.filterEq c Document.experimentKey (.string id) with
    | .ok rows => { w with stage := .gathering (gathered detail c rows) id left }
    | .error _ => { w with stage := .failed }) _ = _
  cases w.store.filterEq c Document.experimentKey (.string id) with
  | ok rows => rfl
  | error e => exact run_proceed_of_settled rfl n

/-- Reads of a detail that nothing comes between are the reads of one question. -/
theorem loaded?_fetch (w : Watching) {id : String} (hstage : w.stage = .fetching id)
    (hopen : w.store.blocked? = none) :
    (w.run (List.replicate 5 .proceed)).loaded? =
      withDetail w.dashboard (Query.join (w.store.get .experiments id) fun c =>
        w.store.filterEq c Document.experimentKey (.string id)) := by
  rw [run_proceed_succ, proceed, hstage]
  simp only [fetch, TableStore.inSession_of_open hopen]
  change Watching.loaded? (Watching.run
    (match (w.store.get .experiments id).mapError Failure.error with
      | .ok (some experiment) => _
      | .ok none => _
      | .error _ => _) _) = _
  cases w.store.get .experiments id with
  | error e =>
    simp only [Except.mapError]
    rw [run_proceed_of_settled rfl]
    rfl
  | ok experiment? =>
    cases experiment? with
    | none =>
      simp only [Except.mapError]
      rw [run_proceed_of_settled rfl]
      rfl
    | some experiment =>
      simp only [Except.mapError, Query.join]
      rw [run_gather _ rfl]
      cases w.store.filterEq .transformations Document.experimentKey (.string id) with
      | error e => rfl
      | ok transformations =>
        simp only
        rw [run_gather _ rfl]
        simp only
        cases w.store.filterEq .tests Document.experimentKey (.string id) with
        | error e => rfl
        | ok tests =>
          simp only
          rw [run_gather _ rfl]
          simp only
          cases w.store.filterEq .analytics Document.experimentKey (.string id) with
          | error e => rfl
          | ok analytics => rfl

/-- From the listing on, a client that nobody interrupts loads what `Cli.Watch.load` loads. -/
theorem loaded?_proceed (w : Watching) (hstage : w.stage = .listing)
    (hdashboard : w.dashboard = .empty) :
    (w.run (List.replicate 6 .proceed)).loaded? = (Cli.Watch.load w.store).toOption := by
  rw [run_proceed_succ]
  simp only [proceed, hstage, list, hdashboard, Cli.Watch.load]
  cases hlist : (Query.list w.store).1 with
  | error failure =>
    rw [run_proceed_of_settled rfl]
    rfl
  | ok experiments =>
    have hopen : w.store.blocked? = none := by
      cases hblocked : w.store.blocked? with
      | none => rfl
      | some reason =>
        obtain ⟨failure, hfailure⟩ := TableStore.inSession_of_blocked hblocked
          fun s => DocumentStore.scan s .experiments
        exact absurd (hlist.symm.trans hfailure) nofun
    simp only [bind, Except.bind]
    cases hload : Dashboard.empty.load experiments with
    | mk asked? dashboard =>
      cases asked? with
      | none =>
        simp only
        rw [run_proceed_of_settled rfl]
        rfl
      | some id =>
        simp only
        have hfetch := loaded?_fetch { w with dashboard, stage := .fetching id } rfl hopen
        rw [hfetch]
        have hdetail : (Query.detail w.store id).1 =
            (Query.join (w.store.get .experiments id) fun c =>
              w.store.filterEq c Document.experimentKey (.string id)).mapError .error :=
          TableStore.inSession_of_open hopen _
        rw [hdetail]
        cases Query.join (w.store.get .experiments id) fun c =>
          w.store.filterEq c Document.experimentKey (.string id) with
        | error e => rfl
        | ok detail? => cases detail? <;> rfl

end Watching

end TrialBoard
