import TrialBoard.Proofs.RelayProgress

/-!
# A relay delivers what is published

`Delivery.Delivered` says what a relay owes its receiver in any run. `Delivery.relay_delivers` shows
that a relay attached to a store in memory keeps to it, whatever the store, the room in the channel
and the order of the steps.
-/

namespace TrialBoard

namespace Delivery

variable {x : Delivery} {c : Collection} {accepted : List Collection}

/-! ## Settling and receiving as runs -/

theorem run_append (x : Delivery) (steps more : List Step) :
    x.run (steps ++ more) = (x.run steps).run more := List.foldl_append ..

theorem step_act_of_eq_some {relay : Relay FeedReader} {store : MemoryStore}
    (h : x.relay.act x.store c = some (relay, store)) :
    (x.step (.act c)).relay = relay ∧ (x.step (.act c)).store = store ∧
      (x.step (.act c)).received = x.received := by
  simp only [step, h, and_self]

/-- Settling is a run of steps of the forwarders. -/
theorem exists_run_settleFor (fuel : Nat) (x : Delivery) : ∃ steps : List Step,
    (∀ step ∈ steps, step.IsQuiet) ∧
    Relay.settleFor fuel x.store x.relay = ((x.run steps).relay, (x.run steps).store) ∧
    (x.run steps).received = x.received := by
  induction fuel generalizing x with
  | zero => exact ⟨[], by simp, rfl, rfl⟩
  | succ fuel ih =>
    simp only [Relay.settleFor]
    cases hany : x.relay.actAny x.store Collection.all with
    | none => exact ⟨[], by simp, rfl, rfl⟩
    | some out =>
      obtain ⟨c, hact⟩ := Relay.act_of_actAny hany
      obtain ⟨hrelay, hstore, hreceived⟩ := step_act_of_eq_some hact
      obtain ⟨steps, hquiet, hsettle, hsame⟩ := ih (x.step (.act c))
      refine ⟨.act c :: steps, List.forall_mem_cons.2 ⟨rfl, hquiet⟩, ?_, hsame.trans hreceived⟩
      rw [hrelay, hstore] at hsettle
      exact hsettle

/-- Receiving is a run of steps of the forwarders and receives. -/
theorem exists_run_receiveUpTo (n : Nat) (x : Delivery) : ∃ steps : List Step,
    (∀ step ∈ steps, step.IsQuiet) ∧
    let out := Relay.receiveUpTo n x.store x.relay
    (x.run steps).relay = out.2.1 ∧ (x.run steps).store = out.2.2 ∧
      (x.run steps).received = x.received ++ out.1 := by
  induction n generalizing x with
  | zero => exact ⟨[], by simp, rfl, rfl, (List.append_nil _).symm⟩
  | succ n ih =>
    obtain ⟨steps, hquiet, hsettle, hreceived⟩ :=
      exists_run_settleFor (x.relay.stepBound x.store) x
    simp only [Relay.receiveUpTo, Relay.settle, hsettle]
    cases hreceive : (x.run steps).relay.receive with
    | none => exact ⟨steps, hquiet, rfl, rfl, by simp [hreceived]⟩
    | some out =>
      obtain ⟨feed, relay⟩ := out
      have hstep : (x.run steps).step .receive =
          { x.run steps with relay, received := (x.run steps).received ++ [feed] } := by
        simp only [step, hreceive]
      obtain ⟨more, hquiet', hrelay, hstore, hreceived'⟩ := ih ((x.run steps).step .receive)
      rw [hstep] at hrelay hstore hreceived'
      refine ⟨steps ++ .receive :: more, ?_, ?_⟩
      · exact List.forall_mem_append.2 ⟨hquiet, List.forall_mem_cons.2 ⟨rfl, hquiet'⟩⟩
      · have hrun : x.run (steps ++ .receive :: more) =
            Delivery.run { x.run steps with relay, received := (x.run steps).received ++ [feed] }
              more := by
          rw [run_append, ← hstep]
          rfl
        rw [hrun]
        refine ⟨hrelay, hstore, ?_⟩
        rw [hreceived', hreceived, List.append_assoc]
        rfl

/-! ## What every run keeps, and what only some steps end -/

theorem run_induction {p : Delivery → Prop} {steps : List Step} (h : p x)
    (hstep : ∀ y, ∀ step ∈ steps, p y → p (y.step step)) : p (x.run steps) := by
  induction steps generalizing x with
  | nil => exact h
  | cons step steps ih =>
    exact ih (hstep x step List.mem_cons_self h) fun y step' hmem =>
      hstep y step' (List.mem_cons_of_mem _ hmem)

theorem orderly_step (h : x.relay.Orderly) (step : Step) : (x.step step).relay.Orderly := by
  cases step with
  | publish | inject => exact h
  | dropReceiver => exact ⟨h.live, h.waiting, h.mem_waiting⟩
  | act c =>
    simp only [Delivery.step]
    cases hact : x.relay.act x.store c with
    | none => exact h
    | some out => exact (Relay.orderly_act h hact).1
  | receive =>
    simp only [Delivery.step, Relay.receive]
    cases x.relay.channel.queue with
    | nil => exact h
    | cons feed queue => exact ⟨h.live, h.waiting, h.mem_waiting⟩
  | close =>
    simp only [Delivery.step, Relay.close]
    cases x.relay.state with
    | closed => exact h
    | subscribed =>
      exact ⟨List.nodup_nil, List.nodup_nil, fun c => by simp [Relay.inHand?, Relay.forwarder?]⟩

theorem orderly_attach (s : MemoryStore) (capacity : Nat) :
    (attach s capacity).relay.Orderly := by
  have hlive : (attach s capacity).relay.live.Nodup := by
    rw [live_attach]
    exact List.Nodup.sublist List.filter_sublist (by decide)
  have hheld : ∀ f ∈ (attach s capacity).relay.forwarders, f.held? = none := by
    cases h : s.faults.unavailable with
    | true => simp [attach_of_unavailable h]
    | false =>
      rw [attach_of_available h]
      exact fun f hf => ((subscribeAll_spec _ Collection.all).2.1 f hf).1
  have hwaiting : (attach s capacity).relay.channel.waiting = [] := by
    cases h : s.faults.unavailable <;> simp [attach_of_unavailable, attach_of_available, h]
  refine ⟨hlive, hwaiting ▸ List.nodup_nil, fun c => ?_⟩
  rw [hwaiting, Relay.inHand?]
  cases hf : (attach s capacity).relay.forwarder? c with
  | none => simp
  | some f => simp [hheld f (Relay.mem_forwarders hf)]

theorem channel_attach (s : MemoryStore) (capacity : Nat) :
    (attach s capacity).relay.channel = { capacity } := by
  cases h : s.faults.unavailable <;> simp [attach_of_unavailable, attach_of_available, h]

theorem capacity_step (x : Delivery) (step : Step) :
    (x.step step).relay.channel.capacity = x.relay.channel.capacity := by
  cases step with
  | publish | inject | dropReceiver => rfl
  | act c => exact (frame_act x c).capacity
  | receive =>
    simp only [Delivery.step, Relay.receive]
    cases x.relay.channel.queue <;> rfl
  | close =>
    simp only [Delivery.step, Relay.close]
    cases x.relay.state <;> rfl

theorem state_step {step : Step} (x : Delivery) (h : step ≠ .close) :
    (x.step step).relay.state = x.relay.state := by
  cases step with
  | publish | inject | dropReceiver => rfl
  | act c => exact (frame_act x c).state
  | receive =>
    simp only [Delivery.step, Relay.receive]
    cases x.relay.channel.queue <;> rfl
  | close => exact absurd rfl h

theorem state_close (x : Delivery) : (x.step .close).relay.state = .closed := by
  cases h : x.relay.state <;> simp [step, Relay.close, h]

theorem hasReceiver_step {step : Step} (x : Delivery) (h : step ≠ .dropReceiver) :
    (x.step step).relay.channel.hasReceiver = x.relay.channel.hasReceiver := by
  cases step with
  | publish | inject => rfl
  | dropReceiver => exact absurd rfl h
  | act c => exact (frame_act x c).hasReceiver
  | receive =>
    simp only [Delivery.step, Relay.receive]
    cases x.relay.channel.queue <;> rfl
  | close =>
    simp only [Delivery.step, Relay.close]
    cases x.relay.state <;> rfl

theorem state_run {steps : List Step} (x : Delivery) (h : .close ∉ steps) :
    (x.run steps).relay.state = x.relay.state :=
  run_induction (p := fun y => y.relay.state = x.relay.state) rfl fun y _ hmem hy =>
    (state_step y fun heq => h (heq ▸ hmem)).trans hy

theorem hasReceiver_run {steps : List Step} (x : Delivery) (h : .dropReceiver ∉ steps) :
    (x.run steps).relay.channel.hasReceiver = x.relay.channel.hasReceiver :=
  run_induction (p := fun y => y.relay.channel.hasReceiver = x.relay.channel.hasReceiver) rfl
    fun y _ hmem hy => (hasReceiver_step y fun heq => h (heq ▸ hmem)).trans hy

theorem closed_run {steps : List Step} (h : x.relay.state = .closed) :
    (x.run steps).relay.state = .closed := by
  refine run_induction (p := fun y => y.relay.state = .closed) h fun y step _ hy => ?_
  by_cases hclose : step = .close
  · exact hclose ▸ state_close y
  · exact (state_step y hclose).trans hy

theorem state_run_eq_subscribed_iff {steps : List Step} (x : Delivery) :
    (x.run steps).relay.state = .subscribed ↔
      x.relay.state = .subscribed ∧ .close ∉ steps := by
  constructor
  · intro hopen
    have hnot : .close ∉ steps := fun hmem => by
      obtain ⟨before, after, rfl⟩ := List.append_of_mem hmem
      rw [run_append] at hopen
      have hclosed : (((x.run before).step .close).run after).relay.state = .closed :=
        closed_run (state_close _)
      exact absurd (hclosed.symm.trans hopen) (by decide)
    exact ⟨(state_run x hnot).symm.trans hopen, hnot⟩
  · rintro ⟨hopen, hnot⟩
    exact (state_run x hnot).trans hopen

/-! ## After the end of the relay -/

/-- Whether a step is a receive. -/
def Step.isReceive : Step → Bool
  | .receive => true
  | _ => false

/-- A relay without forwarders puts nothing more into its channel. -/
theorem step_of_ended (h : x.relay.forwarders = []) {step : Step} (hdrop : step ≠ .dropReceiver) :
    (x.step step).relay.forwarders = [] ∧
      (x.step step).received =
        x.received ++ x.relay.channel.queue.take (if step.isReceive then 1 else 0) ∧
      (x.step step).relay.channel.queue =
        x.relay.channel.queue.drop (if step.isReceive then 1 else 0) := by
  cases step with
  | publish | inject => exact ⟨h, by simp [Delivery.step, Step.isReceive], rfl⟩
  | act c =>
    have hact : x.relay.act x.store c = none := by simp [Relay.act, Relay.forwarder?, h]
    simp [Delivery.step, hact, h, Step.isReceive]
  | receive =>
    simp only [Delivery.step, Relay.receive]
    cases hq : x.relay.channel.queue with
    | nil => simp [h, hq]
    | cons feed queue => simp [h, Step.isReceive]
  | dropReceiver => exact absurd rfl hdrop
  | close =>
    simp only [Delivery.step, Relay.close]
    cases x.relay.state <;> simp [h, Step.isReceive]

theorem run_of_ended (h : x.relay.forwarders = []) {steps : List Step}
    (hdrop : .dropReceiver ∉ steps) :
    (x.run steps).relay.forwarders = [] ∧
      (x.run steps).received =
        x.received ++ x.relay.channel.queue.take (steps.countP Step.isReceive) ∧
      (x.run steps).relay.channel.queue =
        x.relay.channel.queue.drop (steps.countP Step.isReceive) := by
  induction steps generalizing x with
  | nil => simpa [run] using h
  | cons step steps ih =>
    have hstep : step ≠ .dropReceiver := fun heq => hdrop (heq ▸ List.mem_cons_self)
    obtain ⟨hforwarders, hreceived, hqueue⟩ := step_of_ended h hstep
    obtain ⟨hforwarders', hreceived', hqueue'⟩ :=
      ih hforwarders fun hmem => hdrop (List.mem_cons_of_mem _ hmem)
    have hcount : (step :: steps).countP Step.isReceive =
        (if step.isReceive then 1 else 0) + steps.countP Step.isReceive := by
      rw [List.countP_cons]
      omega
    refine ⟨hforwarders', ?_, ?_⟩
    · change ((x.step step).run steps).received = _
      rw [hreceived', hreceived, hqueue, hcount, List.take_add, List.append_assoc]
    · change ((x.step step).run steps).relay.channel.queue = _
      rw [hqueue', hqueue, hcount, List.drop_drop]

/-! ## Everything published is delivered -/

/-- At rest no forwarder has a feed in hand, as there is room for the one whose turn it is. -/
theorem held_of_atRest (h : x.relay.Orderly) (hcapacity : 0 < x.relay.channel.capacity)
    (hrest : x.relay.AtRest x.store) (hqueue : x.relay.channel.queue = []) (c : Collection) :
    x.held c = [] := by
  have hwaiting : x.relay.channel.waiting = [] := by
    cases hturn : x.relay.channel.waiting with
    | nil => rfl
    | cons d waiting =>
      have hd := (h.mem_waiting d).1 (hturn ▸ List.mem_cons_self)
      obtain ⟨feed, hfeed⟩ := Option.isSome_iff_exists.1 hd
      obtain ⟨f, hf, hheld⟩ := Option.bind_eq_some_iff.1 hfeed
      have hroom : x.relay.channel.queue.length < x.relay.channel.capacity := by simpa [hqueue]
      exact absurd (hrest d) (Relay.act_ne_none_of_turn hf hheld hturn hroom)
  have hnone : x.relay.inHand? c = none := by
    rw [← Option.not_isSome_iff_eq_none, ← h.mem_waiting, hwaiting]
    exact List.not_mem_nil
  exact congrArg Option.toList hnone

theorem ahead_of_atRest {told : List (Except StoreError ChangeEvent)}
    (hlawful : x.Lawful accepted told c) (hrest : x.relay.AtRest x.store) (hheld : x.held c = []) :
    x.ahead c = [] := by
  cases hf : x.relay.forwarder? c with
  | none => simp [ahead, hf]
  | some f =>
    obtain ⟨-, hcol, hserves, -⟩ := hlawful.reads f hf
    have hhand : f.held? = none := by simpa [held, hf] using hheld
    obtain ⟨stream, hnext⟩ := Relay.pending_of_act_eq_none (hrest c) hf hhand
    have hread : (x.store.feeds.get c).read f.stream.position = none := by
      change x.store.next f.stream = _ at hnext
      unfold MemoryStore.next at hnext
      rw [hcol] at hnext
      split at hnext
      · assumption
      · cases hnext
    simp [ahead, hf, Feed.ahead_eq_nil (Feed.unread_of_read_eq_none hserves hread)]

/-- What a receiver got of a collection. -/
def receivedOf (x : Delivery) (c : Collection) : List ChangeFeed :=
  x.received.filter (·.table = c)

/-- When a relay that keeps up is at rest and its channel empty, the receiver has everything. -/
theorem receivedOf_of_atRest {told : List (Except StoreError ChangeEvent)}
    (hlawful : x.Lawful accepted told c) (hwhole : x.Whole accepted told c)
    (horderly : x.relay.Orderly) (hcapacity : 0 < x.relay.channel.capacity)
    (hreceiver : x.relay.channel.hasReceiver = true) (hstate : x.relay.state = .subscribed)
    (hacc : c ∈ accepted) (hrest : x.relay.AtRest x.store)
    (hqueue : x.relay.channel.queue = []) : x.receivedOf c = feedsOf c told := by
  have hheld : x.held c = [] := held_of_atRest horderly hcapacity hrest hqueue c
  have hahead : x.ahead c = [] := ahead_of_atRest hlawful hrest hheld
  have hall : upToFailure (x.yielded.get c) = upToFailure told := by
    simpa [hahead] using hwhole hreceiver hstate hacc
  calc x.receivedOf c
      = x.sent c ++ x.held c := by simp [receivedOf, sent, hqueue, hheld]
    _ = feedsOf c (x.yielded.get c) := hlawful.flows hreceiver hstate
    _ = feedsOf c told := by rw [← feedsOf_upToFailure, hall, feedsOf_upToFailure]

/-! ## What a relay owes its receiver -/

/-- What a relay owes its receiver in the course of some steps. -/
structure Delivered (start : Delivery) (steps : List Step) : Prop where
  /-- What is received of a collection are the feeds of what its stream gave, up to some of them, in
  their order. -/
  inOrder : ∀ c, (start.run steps).receivedOf c <+: feedsOf c ((start.run steps).yielded.get c)
  /-- A stream gives only what was published since the start, in the same order. -/
  genuine : ∀ c, ((start.run steps).yielded.get c).Sublist (steps.flatMap (Step.told c))
  /-- Nothing is received of a collection that refused. -/
  silent : ∀ c, c ∉ start.relay.live → (start.run steps).receivedOf c = []
  /-- Only closing ends the relay. -/
  stays : (start.run steps).relay.state = .subscribed ↔
    start.relay.state = .subscribed ∧ .close ∉ steps
  /-- Only a failure of its own stream stops a forwarder of an open relay with a receiver. -/
  stops : .close ∉ steps → .dropReceiver ∉ steps → ∀ c,
    c ∈ (start.run steps).relay.live ↔
      c ∈ start.relay.live ∧ ¬ HasFailure ((start.run steps).yielded.get c)
  /-- After a close the receiver gets what was queued, and then the end. -/
  ends : ∀ before after, steps = before ++ .close :: after → .dropReceiver ∉ after →
    let queue := (start.run before).relay.channel.queue
    let receives := after.countP Step.isReceive
    (start.run steps).relay.live = [] ∧
      (start.run steps).received = (start.run before).received ++ queue.take receives ∧
      (start.run steps).relay.channel.queue = queue.drop receives ∧
      ((start.run steps).relay.isExhausted = true ↔ queue.length ≤ receives)
  /-- If the relay stays open, the receiver is kept and the forwarders keep up, everything that was
  published before the first failure is received in the end, and receiving all there is suffices. -/
  complete : .close ∉ steps → .dropReceiver ∉ steps →
    (∀ before, before <+: steps → (start.run before).KeepsUp) → ∀ c ∈ start.relay.live,
      ((start.run steps).relay.AtRest (start.run steps).store →
        (start.run steps).relay.channel.queue = [] →
        (start.run steps).receivedOf c = feedsOf c (steps.flatMap (Step.told c))) ∧
      ((start.run steps).received ++
          ((start.run steps).relay.receiveAll (start.run steps).store).1).filter (·.table = c) =
        feedsOf c (steps.flatMap (Step.told c))

theorem told_eq_nil_of_quiet {steps : List Step} (h : ∀ step ∈ steps, step.IsQuiet = true)
    (c : Collection) : steps.flatMap (Step.told c) = [] := by
  refine List.flatMap_eq_nil_iff.2 fun step hmem => ?_
  have hquiet := h step hmem
  cases step with
  | act | receive => rfl
  | publish | inject | dropReceiver | close => cases hquiet

section Attached

variable (s : MemoryStore) (capacity : Nat)

theorem lawful_of_attach (steps : List Step) (c : Collection) :
    ((attach s capacity).run steps).Lawful (attach s capacity).relay.live
      (steps.flatMap (Step.told c)) c := by
  simpa using lawful_run (fun _ => []) (fun c => (lawful_attach s capacity c).1) steps c

theorem orderly_of_attach (steps : List Step) :
    ((attach s capacity).run steps).relay.Orderly :=
  run_induction (p := fun y => y.relay.Orderly) (orderly_attach s capacity)
    fun _ step _ hy => orderly_step hy step

theorem capacity_of_attach (steps : List Step) :
    ((attach s capacity).run steps).relay.channel.capacity = capacity :=
  run_induction (p := fun y => y.relay.channel.capacity = capacity)
    (by rw [channel_attach]) fun y step _ hy => (capacity_step y step).trans hy

theorem receivedOf_isPrefix_sent (x : Delivery) (c : Collection) :
    x.receivedOf c <+: x.sent c := by
  rw [receivedOf, sent, List.filter_append]
  exact List.prefix_append _ _

/-- Closing a relay at any moment of a run leaves the receiver what is queued. -/
theorem ends_of_attach (before after : List Step) (hdrop : .dropReceiver ∉ after) :
    let closed := (attach s capacity).run before
    let x := (attach s capacity).run (before ++ .close :: after)
    let receives := after.countP Step.isReceive
    x.relay.forwarders = [] ∧
      x.received = closed.received ++ closed.relay.channel.queue.take receives ∧
      x.relay.channel.queue = closed.relay.channel.queue.drop receives := by
  intro closed x receives
  have hlawful : ∀ c, (closed.step .close).relay.forwarder? c = none := by
    have hrun : closed.step .close = (attach s capacity).run (before ++ [.close]) := by
      rw [run_append]
      rfl
    intro c
    have hclosed := state_close closed
    rw [hrun] at hclosed ⊢
    exact (lawful_of_attach s capacity _ c).closed hclosed
  have hforwarders : (closed.step .close).relay.forwarders = [] := by
    refine List.eq_nil_iff_forall_not_mem.2 fun f hmem => ?_
    have hlive : f.collection ∈ (closed.step .close).relay.live :=
      List.mem_map.2 ⟨f, hmem, rfl⟩
    exact Relay.forwarder?_eq_none_iff.1 (hlawful f.collection) hlive
  have hx : x = (closed.step .close).run after := run_append _ _ _
  have hclose : (closed.step .close).received = closed.received ∧
      (closed.step .close).relay.channel.queue = closed.relay.channel.queue := by
    simp only [step, Relay.close]
    cases closed.relay.state <;> simp
  rw [hx, ← hclose.1, ← hclose.2]
  exact run_of_ended hforwarders hdrop

variable {s capacity}

theorem subscribed_of_mem_live (h : c ∈ (attach s capacity).relay.live) :
    (attach s capacity).relay.state = .subscribed := by
  rw [state_attach]
  rw [live_attach] at h
  cases hun : s.faults.unavailable with
  | false => rfl
  | true => simp [hun] at h

/-- After steps in which the forwarders kept up, some of their own steps and receives are enough,
once they lead to rest and an empty channel. -/
theorem receivedOf_quiet_run (hcapacity : 0 < capacity) (steps more : List Step)
    (hkeeps : ∀ before, before <+: steps → ((attach s capacity).run before).KeepsUp)
    (hopen : ((attach s capacity).run steps).relay.state = .subscribed)
    (hreceiver : ((attach s capacity).run steps).relay.channel.hasReceiver = true)
    (hquiet : ∀ step ∈ more, step.IsQuiet = true) (hacc : c ∈ (attach s capacity).relay.live)
    (hrest : (((attach s capacity).run steps).run more).relay.AtRest
      (((attach s capacity).run steps).run more).store)
    (hqueue : (((attach s capacity).run steps).run more).relay.channel.queue = []) :
    (((attach s capacity).run steps).run more).receivedOf c =
      feedsOf c (steps.flatMap (Step.told c)) := by
  have hlawful := lawful_of_attach s capacity steps
  have hwhole : ∀ c, ((attach s capacity).run steps).Whole (attach s capacity).relay.live
      (steps.flatMap (Step.told c)) c := by
    simpa using whole_run (fun _ => []) (fun c => (lawful_attach s capacity c).1)
      (fun c => (lawful_attach s capacity c).2) steps fun before step hbefore =>
        .inr (hkeeps _ hbefore)
  have hquiet' : ∀ before step, before ++ [step] <+: more → step.IsQuiet = true :=
    fun before step hbefore => hquiet step (hbefore.subset (by simp))
  have hlawful' := lawful_run _ hlawful more c
  have hwhole' := whole_run _ hlawful hwhole more
    (fun before step hbefore => .inl (hquiet' before step hbefore)) c
  rw [told_eq_nil_of_quiet hquiet, List.append_nil] at hlawful' hwhole'
  have hnot : ∀ step : Step, step.IsQuiet = false → step ∉ more := fun step hstep hmem => by
    simp [hquiet step hmem] at hstep
  rw [← run_append] at hrest hqueue hlawful' hwhole' ⊢
  refine receivedOf_of_atRest hlawful' hwhole' (orderly_of_attach s capacity _) ?_ ?_ ?_ hacc hrest
    hqueue
  · rw [capacity_of_attach]
    exact hcapacity
  · rw [run_append, hasReceiver_run _ (hnot _ rfl)]
    exact hreceiver
  · rw [run_append, state_run _ (hnot _ rfl)]
    exact hopen

/-- A relay over a store in memory delivers: it subscribes to the collections that do not refuse,
and in every run its receiver gets what it is owed. -/
theorem relay_delivers (s : MemoryStore) {capacity : Nat} (hcapacity : 0 < capacity)
    (steps : List Step) :
    ((attach s capacity).relay.state = .subscribed ↔ s.faults.unavailable = false) ∧
    (attach s capacity).relay.live = Collection.all.filter (fun c =>
      !(s.faults.unavailable || s.faults.failingSubscriptions.get c)) ∧
    Delivered (attach s capacity) steps := by
  refine ⟨state_attach s capacity, live_attach s capacity, ?_⟩
  have hlawful := lawful_of_attach s capacity steps
  have hchannel := channel_attach s capacity
  refine ⟨fun c => (receivedOf_isPrefix_sent _ c).trans (hlawful c).sends, fun c => ?_,
    fun c hc => ?_, state_run_eq_subscribed_iff _, fun hclose hdrop c => ?_, ?_, ?_⟩
  · exact (List.sublist_append_left _ _).trans (hlawful c).learns
  · have hsends := (receivedOf_isPrefix_sent _ c).trans (hlawful c).sends
    rw [(hlawful c).silent hc] at hsends
    exact List.prefix_nil.1 hsends
  · have hreceiver := hasReceiver_run (attach s capacity) hdrop
    rw [hchannel] at hreceiver
    constructor
    · intro hlive
      obtain ⟨f, hf⟩ := Relay.mem_live_iff.1 hlive
      obtain ⟨hacc, -, -, hunfailed⟩ := (hlawful c).reads f hf
      exact ⟨hacc, hunfailed⟩
    · rintro ⟨hacc, hunfailed⟩
      have hopen := (state_run_eq_subscribed_iff (attach s capacity)).2
        ⟨subscribed_of_mem_live hacc, hclose⟩
      refine Classical.byContradiction fun hnot => hunfailed ?_
      exact (hlawful c).stops hreceiver hopen hacc (Relay.forwarder?_eq_none_iff.2 hnot)
  · rintro before after rfl hdrop queue receives
    obtain ⟨hforwarders, hreceived, hqueue⟩ := ends_of_attach s capacity before after hdrop
    refine ⟨by rw [Relay.live, hforwarders]; rfl, hreceived, hqueue, ?_⟩
    rw [Relay.isExhausted, hforwarders, hqueue]
    simp [queue, receives]
  · intro hclose hdrop hkeeps c hacc
    have hopen : ((attach s capacity).run steps).relay.state = .subscribed :=
      (state_run_eq_subscribed_iff _).2 ⟨subscribed_of_mem_live hacc, hclose⟩
    have hreceiver : ((attach s capacity).run steps).relay.channel.hasReceiver = true := by
      rw [hasReceiver_run _ hdrop, channel_attach]
    have hall := fun more hquiet => receivedOf_quiet_run hcapacity steps more hkeeps hopen
      hreceiver hquiet hacc
    refine ⟨hall [] (by simp), ?_⟩
    obtain ⟨more, hquiet, hrelay, hstore, hreceived⟩ := exists_run_receiveUpTo
      (((attach s capacity).run steps).relay.receivable ((attach s capacity).run steps).store)
      ((attach s capacity).run steps)
    obtain ⟨-, hrest, hqueue⟩ := Relay.receiveUpTo_atRest (orderly_of_attach s capacity steps)
      (Relay.pending_le_receivable _ _)
    have hdone := hall more hquiet (hrelay ▸ hstore ▸ hrest) (hrelay ▸ hqueue)
    rw [← hdone, receivedOf, hreceived]
    rfl

end Attached

/-- The tests refuse, the experiments fail after an event and a heartbeat, and the one place in the
channel is taken by a transformation when the relay is closed. -/
theorem relay_delivers_from_refusing_store :
    let s := MemoryStore.empty.failSubscriptions .tests
    let row (id : String) : FeedItem := .ok (.inserted [("id", .string id)])
    let steps : List Step :=
      [.publish s.rows .experiments (row "e1"), .publish s.rows .experiments (.ok ⟨none, none⟩),
        .publish s.rows .experiments (.error "broken"), .act .experiments, .act .experiments,
        .receive, .act .experiments, .publish s.rows .transformations (row "t1"),
        .act .experiments, .act .transformations, .act .transformations, .close, .receive]
    0 < 1 ∧ ((attach s 1).relay.state = .subscribed ↔ s.faults.unavailable = false) ∧
    (attach s 1).relay.live = Collection.all.filter (fun c =>
      !(s.faults.unavailable || s.faults.failingSubscriptions.get c)) ∧
    Delivered (attach s 1) steps :=
  ⟨by decide, relay_delivers _ (by decide) _⟩

end Delivery

end TrialBoard
