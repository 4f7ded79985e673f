import TrialBoard.Proofs.RelayRest

/-!
# Relays over one store

Any number of relays share a store in memory. Each has its own place in the feeds and its own
channel, and nothing that is done with one of them changes what a stream of another gives. So what a
relay does is told by what is published, how the store fails, and what is done with the relay itself,
each at a moment when its forwarders are at rest.
-/

namespace TrialBoard

/-- A relay, with what its receiver got. -/
structure Party where
  relay : Relay FeedReader
  received : List ChangeFeed := []

/-- What can be done with one relay. -/
inductive Deed where
  /-- The forwarder of a collection takes a step, if it can. -/
  | act (c : Collection)
  | receive
  | dropReceiver
  | close
  /-- The relay is given up, which closes it. -/
  | drop

/-- The step that a deed is for its relay. -/
def Deed.step : Deed → Delivery.Step
  | act c => .act c
  | receive => .receive
  | dropReceiver => .dropReceiver
  | close | drop => .close

/-- Whether a deed is a step that a forwarder takes by itself. -/
def Deed.isOwn : Deed → Bool
  | act _ => true
  | _ => false

/-- A store in memory and the relays over it, by their names. -/
structure Switchboard (ν : Type) where
  store : MemoryStore
  party? : ν → Option Party := fun _ => none

namespace Party

/-- A deed with a relay over a store. -/
def perform (s : MemoryStore) (p : Party) (deed : Deed) : Party × MemoryStore :=
  let x := Delivery.step { store := s, relay := p.relay, received := p.received } deed.step
  ({ relay := x.relay, received := x.received }, x.store)

variable {s s' : MemoryStore} {p : Party} {deed : Deed} {c : Collection}

theorem perform_act (s : MemoryStore) (p : Party) (c : Collection) :
    (p.perform s (.act c)).1 = { p with relay := Relay.advance s p.relay c } := by
  simp only [perform, Deed.step, Delivery.step, Relay.advance]
  cases p.relay.act s c <;> rfl

theorem perform_receive (s : MemoryStore) (p : Party) :
    p.perform s .receive = match p.relay.receive with
      | some (feed, relay) => ({ relay, received := p.received ++ [feed] }, s)
      | none => (p, s) := by
  simp only [perform, Deed.step, Delivery.step]
  cases p.relay.receive <;> rfl

theorem alike_close (s : MemoryStore) (r : Relay FeedReader) : s.Alike (r.close s).2 := by
  unfold Relay.close
  cases r.state with
  | closed => exact .refl s
  | subscribed =>
    have hdropped := MemoryStore.alike_dropStreams s r.forwarders
    exact ⟨hdropped.faults, hdropped.feeds⟩

/-- No deed changes what the streams of the store give. -/
theorem alike_perform (s : MemoryStore) (p : Party) (deed : Deed) :
    s.Alike (p.perform s deed).2 := by
  cases deed with
  | act c =>
    simp only [perform, Deed.step, Delivery.step]
    cases hact : p.relay.act s c with
    | none => exact .refl s
    | some out => exact Relay.alike_of_act hact
  | receive =>
    rw [perform_receive]
    cases p.relay.receive <;> exact .refl s
  | dropReceiver => exact .refl s
  | close | drop => exact alike_close s p.relay

/-- A deed is the same over stores that read alike. -/
theorem perform_of_alike (h : s.Alike s') (p : Party) (deed : Deed) :
    (p.perform s' deed).1 = (p.perform s deed).1 := by
  cases deed with
  | act c =>
    rw [perform_act, perform_act, Relay.advance, Relay.advance, Relay.act_of_next h.next]
  | receive =>
    rw [perform_receive, perform_receive]
    cases p.relay.receive <;> rfl
  | dropReceiver => rfl
  | close | drop =>
    simp only [perform, Deed.step, Delivery.step, Relay.close]
    cases p.relay.state <;> rfl

/-- Whether the forwarders of a relay keep their turns and read what they should. -/
structure IsSound (p : Party) : Prop where
  orderly : p.relay.Orderly
  aligned : p.relay.Aligned

theorem aligned_update {r : Relay FeedReader} {f : Forwarder FeedReader} (h : r.Aligned)
    (hf : f.stream.collection = f.collection) : (r.update f).Aligned := by
  intro g hg
  obtain ⟨g', hg', rfl⟩ := List.mem_map.1 hg
  split
  · exact hf
  · exact h g' hg'

theorem aligned_remove {r : Relay FeedReader} (h : r.Aligned) (c : Collection) :
    (r.remove c).Aligned := fun g hg => h g (List.mem_filter.1 hg).1

theorem aligned_of_acts {r : Relay FeedReader} {f : Forwarder FeedReader}
    {out : Relay FeedReader × MemoryStore} (h : r.Aligned) (hf : f ∈ r.forwarders)
    (hacts : r.Acts s f out) : out.1.Aligned := by
  have hread : ∀ {result : Except StoreError ChangeEvent} {stream : FeedReader},
      DocumentStore.next s f.stream = .item result stream → stream.collection = f.collection := by
    intro result stream hnext
    obtain ⟨-, -, hstream, -⟩ := Delivery.next_eq_item hnext
    rw [hstream]
    exact h f hf
  cases hacts with
  | lost | ended | failed => exact aligned_remove h _
  | sent => exact aligned_update (f := { f with held? := none }) h (h f hf)
  | @skipped event stream hheld hnext =>
    exact aligned_update (f := { f with stream }) h (hread hnext)
  | @took event stream hheld hnext =>
    exact aligned_update (f := { f with stream, held? := _ }) h (hread hnext)

theorem IsSound.perform (h : p.IsSound) (s : MemoryStore) (deed : Deed) :
    (p.perform s deed).1.IsSound := by
  refine ⟨Delivery.orderly_step h.orderly deed.step, ?_⟩
  cases deed with
  | act c =>
    rw [perform_act, Relay.advance]
    cases hact : p.relay.act s c with
    | none => exact h.aligned
    | some out =>
      obtain ⟨f, hf, hacts⟩ := Relay.acts_of_act hact
      exact aligned_of_acts h.aligned (Relay.mem_forwarders hf) hacts
  | receive =>
    rw [perform_receive]
    cases hreceive : p.relay.receive with
    | none => exact h.aligned
    | some out =>
      unfold Relay.receive at hreceive
      split at hreceive
      · obtain rfl := Option.some.inj hreceive
        exact h.aligned
      · cases hreceive
  | dropReceiver => exact h.aligned
  | close | drop =>
    simp only [Party.perform, Deed.step, Delivery.step, Relay.close]
    cases p.relay.state with
    | closed => exact h.aligned
    | subscribed => exact fun f hf => absurd hf List.not_mem_nil

/-- A deed with a relay at rest leads to one rest only. -/
theorem determinate_perform (h : p.IsSound) (hrest : Relay.AtRest s p.relay)
    (hdeed : deed.isOwn = false) :
    Relay.Determinate (p.perform s deed).2 (p.perform s deed).1.relay := by
  refine Relay.determinate_of_alike (alike_perform s p deed) ?_
  cases deed with
  | act c => cases hdeed
  | receive =>
    rw [perform_receive]
    cases hreceive : p.relay.receive with
    | none => exact Relay.determinate_of_atRest hrest
    | some out => exact Relay.determinate_receive h.orderly hrest hreceive
  | dropReceiver => exact Relay.determinate_dropReceiver h.orderly hrest
  | close | drop =>
    refine Relay.determinate_of_atRest ?_
    simp only [Party.perform, Deed.step, Delivery.step, Relay.close]
    cases p.relay.state with
    | closed => exact hrest
    | subscribed => exact fun c => rfl

end Party

namespace Switchboard

variable {ν : Type} [DecidableEq ν]

/-- What can happen at a switchboard. -/
inductive Event (ν : Type) where
  /-- An item is published, and the rows are others afterwards. -/
  | publish (rows : ByCollection (List Document)) (c : Collection) (item : FeedItem)
  /-- The store is told to fail in other ways. -/
  | inject (faults : Faults)
  /-- A relay is attached, under a name that is free. -/
  | attach (name : ν) (capacity : Nat)
  | deed (name : ν) (deed : Deed)

/-- Whether an event is to be told for a relay: what is published, how the store fails, and all that
is done with the relay from outside. -/
def Event.concerns (b : ν) : Event ν → Bool
  | .publish _ _ _ | .inject _ => true
  | .attach name _ => name = b
  | .deed name d => name = b && !d.isOwn

/-- The relay of a name, after a change of it and of the store. -/
def put (x : Switchboard ν) (name : ν) (party : Party × MemoryStore) : Switchboard ν :=
  { store := party.2, party? := Function.update x.party? name (some party.1) }

/-- A relay that was just attached to a store. -/
def newParty (s : MemoryStore) (capacity : Nat) : Party × MemoryStore :=
  ({ relay := (Relay.attach s capacity).1 }, (Relay.attach s capacity).2)

/-- One event. -/
def step (x : Switchboard ν) : Event ν → Switchboard ν
  | .publish rows c item => { x with store := { x.store with rows }.publish c item }
  | .inject faults => { x with store := { x.store with faults } }
  | .attach name capacity =>
    match x.party? name with
    | some _ => x
    | none => x.put name (newParty x.store capacity)
  | .deed name deed =>
    match x.party? name with
    | some p => x.put name (p.perform x.store deed)
    | none => x

/-- Events one after the other. -/
def run (x : Switchboard ν) (events : List (Event ν)) : Switchboard ν := events.foldl step x

/-- Whether no forwarder of a relay can take a step. -/
def IsAtRest (x : Switchboard ν) (b : ν) : Prop :=
  ∀ p, x.party? b = some p → Relay.AtRest x.store p.relay

/-- Whether a relay is at rest whenever something happens that concerns it, and in the end. -/
def RestsFor (b : ν) : Switchboard ν → List (Event ν) → Prop
  | x, [] => x.IsAtRest b
  | x, event :: events =>
    (event.concerns b = true → x.IsAtRest b) ∧ RestsFor b (x.step event) events

instance (x : Switchboard ν) (b : ν) : Decidable (x.IsAtRest b) :=
  inferInstanceAs (Decidable (∀ p ∈ x.party? b, Relay.AtRest x.store p.relay))

instance decidableRestsFor (b : ν) : (x : Switchboard ν) → (events : List (Event ν)) →
    Decidable (RestsFor b x events)
  | x, [] => inferInstanceAs (Decidable (x.IsAtRest b))
  | x, event :: events =>
    have := decidableRestsFor b (x.step event) events
    inferInstanceAs (Decidable ((event.concerns b = true → x.IsAtRest b) ∧ _))

variable {x x' : Switchboard ν} {b : ν} {event : Event ν} {events : List (Event ν)}

theorem run_append_cons (x : Switchboard ν) (before : List (Event ν)) (event : Event ν)
    (after : List (Event ν)) :
    x.run (before ++ event :: after) = ((x.run before).step event).run after := List.foldl_append

theorem restsFor_append {before after : List (Event ν)}
    (h : RestsFor b x (before ++ event :: after)) (hevent : event.concerns b = true) :
    RestsFor b x before ∧ RestsFor b ((x.run before).step event) after := by
  induction before generalizing x with
  | nil => exact ⟨h.1 hevent, h.2⟩
  | cons first before ih => exact ⟨⟨h.1, (ih h.2).1⟩, (ih h.2).2⟩

theorem isAtRest_run (h : RestsFor b x events) : (x.run events).IsAtRest b := by
  induction events generalizing x with
  | nil => exact h
  | cons event events ih => exact ih h.2

/-! ## Relays that were just attached -/

theorem alike_of_subscribe {s s' : MemoryStore} {c : Collection} {stream : FeedReader}
    (h : DocumentStore.subscribe s c = .ok (stream, s')) : s.Alike s' := by
  change s.subscribe c = _ at h
  rw [Delivery.subscribe_eq] at h
  split at h
  · cases h
  · obtain ⟨-, rfl⟩ := Prod.mk.inj (Except.ok.inj h)
    exact MemoryStore.alike_countReaders s c _

theorem alike_subscribeAll (s : MemoryStore) (cs : List Collection) :
    s.Alike (Relay.subscribeAll s cs).2 := by
  induction cs generalizing s with
  | nil => exact .refl s
  | cons c cs ih =>
    rw [Relay.subscribeAll]
    cases hsub : DocumentStore.subscribe s c with
    | error e => exact ih s
    | ok out => exact (alike_of_subscribe hsub).trans (ih out.2)

theorem forwarders_subscribeAll (s : MemoryStore) (cs : List Collection) :
    (Relay.subscribeAll s cs).1 =
      (cs.filter fun c => !(s.faults.unavailable || s.faults.failingSubscriptions.get c)).map
        fun c => { collection := c, stream := ⟨c, (s.feeds.get c).published⟩ } := by
  obtain ⟨hcols, hall, -⟩ := Delivery.subscribeAll_spec s cs
  rw [← hcols, List.map_map]
  refine (List.map_id _).symm.trans (List.map_congr_left fun f hf => ?_)
  obtain ⟨hheld, hcol, hposition⟩ := hall f hf
  obtain ⟨collection, ⟨streamCollection, position⟩, held?⟩ := f
  simp only at hheld hcol hposition
  subst hheld hcol hposition
  rfl

/-- What a relay subscribes to, and from where, is the same over stores that read alike. -/
theorem newParty_of_alike {s s' : MemoryStore} (h : s.Alike s') (capacity : Nat) :
    (newParty s' capacity).1 = (newParty s capacity).1 := by
  have hpublished : ∀ c, (s'.feeds.get c).published = (s.feeds.get c).published := fun c => by
    obtain ⟨n, hn⟩ := h.feeds c
    rw [hn]
  change ({ relay := (Delivery.attach s' capacity).relay } : Party) =
    { relay := (Delivery.attach s capacity).relay }
  cases havailable : s.faults.unavailable with
  | true =>
    rw [Delivery.attach_of_unavailable havailable,
      Delivery.attach_of_unavailable (h.faults ▸ havailable)]
  | false =>
    rw [Delivery.attach_of_available havailable,
      Delivery.attach_of_available (h.faults ▸ havailable)]
    simp only [forwarders_subscribeAll, h.faults, hpublished]

theorem alike_newParty (s : MemoryStore) (capacity : Nat) :
    s.Alike (newParty s capacity).2 := by
  change s.Alike (Delivery.attach s capacity).store
  cases h : s.faults.unavailable with
  | true =>
    rw [Delivery.attach_of_unavailable h]
    exact .refl s
  | false =>
    rw [Delivery.attach_of_available h]
    have hopened : s.Alike { s with openSessions := s.openSessions + 1 } := ⟨rfl, fun _ => ⟨_, rfl⟩⟩
    exact hopened.trans (alike_subscribeAll _ _)

theorem isSound_newParty (s : MemoryStore) (capacity : Nat) :
    (newParty s capacity).1.IsSound := by
  refine ⟨Delivery.orderly_attach s capacity, fun f hf => ?_⟩
  change f ∈ (Delivery.attach s capacity).relay.forwarders at hf
  cases h : s.faults.unavailable with
  | true => simp [Delivery.attach_of_unavailable h] at hf
  | false =>
    rw [Delivery.attach_of_available h] at hf
    exact ((Delivery.subscribeAll_spec _ Collection.all).2.1 f hf).2.1

/-- A relay begins at rest: its streams begin at the end. -/
theorem atRest_newParty (s : MemoryStore) (capacity : Nat) :
    Relay.AtRest (newParty s capacity).2 (newParty s capacity).1.relay := by
  refine Relay.atRest_of_next (alike_newParty s capacity).next (Relay.atRest_of_idles fun f hf => ?_)
  change f ∈ (Delivery.attach s capacity).relay.forwarders at hf
  cases h : s.faults.unavailable with
  | true => simp [Delivery.attach_of_unavailable h] at hf
  | false =>
    rw [Delivery.attach_of_available h] at hf
    obtain ⟨hheld, hcol, hposition⟩ := (Delivery.subscribeAll_spec _ Collection.all).2.1 f hf
    refine ⟨hheld, f.stream, ?_⟩
    change s.next f.stream = _
    rw [MemoryStore.next, hcol, hposition, Feed.read_of_ahead_eq_nil (Feed.ahead_published _)]

/-! ## What concerns a relay, and what does not -/

theorem party?_put_self (x : Switchboard ν) (b : ν) (party : Party × MemoryStore) :
    (x.put b party).party? b = some party.1 := Function.update_self ..

theorem party?_put_of_ne (x : Switchboard ν) {name : ν} (h : b ≠ name)
    (party : Party × MemoryStore) : (x.put name party).party? b = x.party? b :=
  Function.update_of_ne h ..

/-- What does not concern a relay leaves its store as it reads, and lets its forwarders do no more
than go on. -/
theorem step_of_not_concerns (h : event.concerns b = false) (x : Switchboard ν) :
    x.store.Alike (x.step event).store ∧ ∃ cs, (x.step event).party? b =
      (x.party? b).map fun p => { p with relay := Relay.advanceAll x.store p.relay cs } := by
  have hsame : x.party? b = (x.party? b).map fun p =>
      { p with relay := Relay.advanceAll x.store p.relay [] } := by
    simp [Relay.advanceAll]
  cases event with
  | publish | inject => cases h
  | attach name capacity =>
    have hne : b ≠ name := fun heq => by simp [Event.concerns, heq] at h
    simp only [step]
    cases x.party? name with
    | some p => exact ⟨.refl _, [], hsame⟩
    | none => exact ⟨alike_newParty x.store capacity, [], (party?_put_of_ne x hne _).trans hsame⟩
  | deed name d =>
    simp only [step]
    cases hp : x.party? name with
    | none => exact ⟨.refl _, [], hsame⟩
    | some p =>
      refine ⟨Party.alike_perform x.store p d, ?_⟩
      by_cases hb : b = name
      · subst hb
        cases d with
        | act c =>
          refine ⟨[c], ?_⟩
          simp only [party?_put_self, Party.perform_act, hp, Option.map_some]
          rfl
        | receive | dropReceiver | close | drop => simp [Event.concerns, Deed.isOwn] at h
      · exact ⟨[], (party?_put_of_ne x hb _).trans hsame⟩

theorem run_of_not_concerns (h : ∀ event ∈ events, event.concerns b = false)
    (x : Switchboard ν) :
    x.store.Alike (x.run events).store ∧ ∃ cs, (x.run events).party? b =
      (x.party? b).map fun p => { p with relay := Relay.advanceAll x.store p.relay cs } := by
  induction events generalizing x with
  | nil => exact ⟨.refl _, [], by simp [run, Relay.advanceAll]⟩
  | cons event events ih =>
    obtain ⟨hevent, hevents⟩ := List.forall_mem_cons.1 h
    obtain ⟨halike, cs, hstep⟩ := step_of_not_concerns hevent x
    obtain ⟨halike', ds, hrun⟩ := ih hevents (x.step event)
    refine ⟨halike.trans halike', cs ++ ds, ?_⟩
    rw [run, List.foldl_cons]
    refine hrun.trans ?_
    rw [hstep, Option.map_map]
    refine congrArg (Option.map · _) (funext fun p => ?_)
    simp only [Function.comp_apply, Relay.advanceAll_of_next halike.next, Relay.advanceAll_append]

/-- What concerns a relay does the same to it at any two switchboards where it is the same and the
stores read alike. -/
theorem step_of_concerns (h : event.concerns b = true) (halike : x.store.Alike x'.store)
    (hparty : x'.party? b = x.party? b) :
    (x.step event).store.Alike (x'.step event).store ∧
      (x'.step event).party? b = (x.step event).party? b := by
  cases event with
  | publish rows c item => exact ⟨halike.publish rows rows c item, hparty⟩
  | inject faults => exact ⟨⟨rfl, halike.feeds⟩, hparty⟩
  | attach name capacity =>
    obtain rfl : name = b := by simpa [Event.concerns] using h
    simp only [step, hparty]
    cases hp : x.party? name with
    | some p => exact ⟨halike, hparty⟩
    | none =>
      refine ⟨(alike_newParty x.store capacity).symm.trans
        (halike.trans (alike_newParty x'.store capacity)), ?_⟩
      rw [party?_put_self, party?_put_self, newParty_of_alike halike]
  | deed name d =>
    obtain ⟨rfl, -⟩ : name = b ∧ d.isOwn = false := by simpa [Event.concerns] using h
    simp only [step, hparty]
    cases hp : x.party? name with
    | none => exact ⟨halike, hparty⟩
    | some p =>
      refine ⟨(Party.alike_perform x.store p d).symm.trans
        (halike.trans (Party.alike_perform x'.store p d)), ?_⟩
      rw [party?_put_self, party?_put_self, Party.perform_of_alike halike]

/-! ## Rest after an event -/

/-- Whether the relay of a name, if there is one, is sound. -/
def IsSoundAt (x : Switchboard ν) (b : ν) : Prop := ∀ p, x.party? b = some p → p.IsSound

theorem IsSoundAt.step (h : x.IsSoundAt b) (event : Event ν) : (x.step event).IsSoundAt b := by
  cases event with
  | publish | inject => exact h
  | attach name capacity =>
    simp only [Switchboard.step]
    cases x.party? name with
    | some p => exact h
    | none =>
      intro p hp
      by_cases hb : b = name
      · subst hb
        obtain rfl := Option.some.inj ((party?_put_self x b _).symm.trans hp)
        exact isSound_newParty x.store capacity
      · exact h p ((party?_put_of_ne x hb _).symm.trans hp)
  | deed name d =>
    simp only [Switchboard.step]
    cases hq : x.party? name with
    | none => exact h
    | some q =>
      intro p hp
      by_cases hb : b = name
      · subst hb
        obtain rfl := Option.some.inj ((party?_put_self x b _).symm.trans hp)
        exact (h q hq).perform x.store d
      · exact h p ((party?_put_of_ne x hb _).symm.trans hp)

theorem IsSoundAt.run (h : x.IsSoundAt b) (events : List (Event ν)) :
    (x.run events).IsSoundAt b := by
  induction events generalizing x with
  | nil => exact h
  | cons event events ih => exact ih (h.step event)

/-- What happens at a moment of rest leads a relay to one rest only. -/
theorem determinate_step (hsound : x.IsSoundAt b) (hrest : x.IsAtRest b)
    (h : event.concerns b = true) {p : Party} (hp : (x.step event).party? b = some p) :
    Relay.Determinate (x.step event).store p.relay := by
  cases event with
  | publish rows c item =>
    obtain ⟨horderly, haligned⟩ := hsound p hp
    exact Relay.determinate_publish horderly haligned (hrest p hp) rows c item
  | inject faults =>
    have hbefore : Relay.AtRest x.store p.relay := hrest p hp
    refine Relay.determinate_of_atRest (Relay.atRest_of_next ?_ hbefore)
    exact fun _ => rfl
  | attach name capacity =>
    obtain rfl : name = b := by simpa [Event.concerns] using h
    simp only [step] at hp ⊢
    cases hq : x.party? name with
    | some q =>
      simp only [hq] at hp ⊢
      exact Relay.determinate_of_atRest (hrest p (hq.trans hp))
    | none =>
      simp only [hq, party?_put_self] at hp ⊢
      obtain rfl := Option.some.inj hp
      exact Relay.determinate_of_atRest (atRest_newParty x.store capacity)
  | deed name d =>
    obtain ⟨rfl, hd⟩ : name = b ∧ d.isOwn = false := by simpa [Event.concerns] using h
    simp only [step] at hp ⊢
    cases hq : x.party? name with
    | none => simp [hq] at hp
    | some q =>
      simp only [hq, party?_put_self] at hp ⊢
      obtain rfl := Option.some.inj hp
      exact Party.determinate_perform (hsound q hq) (hrest q hq) hd

/-! ## Two runs -/

/-- Where a relay comes to one rest only, it is the same at rest after anything that does not
concern it. -/
theorem party?_of_not_concerns {events' : List (Event ν)} (halike : x.store.Alike x'.store)
    (hparty : x'.party? b = x.party? b)
    (hone : ∀ p, x.party? b = some p → Relay.Determinate x.store p.relay)
    (h : ∀ event ∈ events, event.concerns b = false)
    (h' : ∀ event ∈ events', event.concerns b = false)
    (hrest : (x.run events).IsAtRest b) (hrest' : (x'.run events').IsAtRest b) :
    (x.run events).store.Alike (x'.run events').store ∧
      (x'.run events').party? b = (x.run events).party? b := by
  obtain ⟨hkept, cs, hrun⟩ := run_of_not_concerns h x
  obtain ⟨hkept', ds, hrun'⟩ := run_of_not_concerns h' x'
  refine ⟨hkept.symm.trans (halike.trans hkept'), ?_⟩
  rw [hparty] at hrun'
  rw [hrun, hrun']
  cases hp : x.party? b with
  | none => rfl
  | some p =>
    rw [hp, Option.map_some] at hrun hrun'
    have hcs := Relay.atRest_of_next hkept.symm.next (hrest _ hrun)
    have hds := Relay.atRest_of_next (halike.trans hkept').symm.next (hrest' _ hrun')
    simp only [Relay.advanceAll_of_next halike.next] at hds ⊢
    simp only [Option.map_some, hone p hp cs ds hcs hds]

theorem exists_last_of_filter {α : Type} {p : α → Bool} {a : α} {as bs : List α}
    (h : as.filter p = bs ++ [a]) : ∃ before after, as = before ++ a :: after ∧
      before.filter p = bs ∧ p a = true ∧ ∀ e ∈ after, p e = false := by
  obtain ⟨first, last, rfl, hfirst, hlast⟩ := List.filter_eq_append_iff.1 h
  obtain ⟨quiet, after, rfl, hquiet, ha, hafter⟩ := List.filter_eq_cons_iff.1 hlast
  refine ⟨first ++ quiet, after, by simp, ?_, ha, fun e he => ?_⟩
  · rw [List.filter_append, hfirst, List.filter_eq_nil_iff.2 hquiet, List.append_nil]
  · simpa using List.filter_eq_nil_iff.1 hafter e he

/-- After the same that concerns it, a relay is the same at rest in any two runs, and the stores
read alike. -/
theorem party?_of_sameConcerns {told events' : List (Event ν)} (hsound : x.IsSoundAt b)
    (hrest : x.IsAtRest b) (hevents : events.filter (Event.concerns b) = told)
    (hevents' : events'.filter (Event.concerns b) = told)
    (hrests : RestsFor b x events) (hrests' : RestsFor b x events') :
    (x.run events).store.Alike (x.run events').store ∧
      (x.run events').party? b = (x.run events).party? b := by
  induction told using List.reverseRecOn generalizing events events' with
  | nil =>
    refine party?_of_not_concerns (.refl _) rfl
      (fun p hp => Relay.determinate_of_atRest (hrest p hp)) ?_ ?_ (isAtRest_run hrests)
      (isAtRest_run hrests')
    · simpa using List.filter_eq_nil_iff.1 hevents
    · simpa using List.filter_eq_nil_iff.1 hevents'
  | append_singleton told event ih =>
    obtain ⟨before, after, rfl, hbefore, hconcerns, hafter⟩ := exists_last_of_filter hevents
    obtain ⟨before', after', rfl, hbefore', -, hafter'⟩ := exists_last_of_filter hevents'
    obtain ⟨hrests₁, hrests₂⟩ := restsFor_append hrests hconcerns
    obtain ⟨hrests₁', hrests₂'⟩ := restsFor_append hrests' hconcerns
    obtain ⟨halike, hparty⟩ := ih hbefore hbefore' hrests₁ hrests₁'
    obtain ⟨halike', hparty'⟩ := step_of_concerns hconcerns halike hparty
    have hone : ∀ p, ((x.run before).step event).party? b = some p →
        Relay.Determinate ((x.run before).step event).store p.relay := fun p hp =>
      determinate_step (hsound.run before) (isAtRest_run hrests₁) hconcerns hp
    rw [run_append_cons, run_append_cons]
    exact party?_of_not_concerns halike' hparty' hone hafter hafter' (isAtRest_run hrests₂)
      (isAtRest_run hrests₂')

/-- The relays over a store do not interfere: in any two runs in which the same is published, the
store fails in the same ways and the same is done with a relay, in the same order and each at a
moment when its own forwarders are at rest, that relay comes to be the same, and its receiver got the
same. What else happens, and to how many others, makes no difference. -/
theorem relays_do_not_interfere (s : MemoryStore) (b : ν) {events events' : List (Event ν)}
    (hsame : events.filter (Event.concerns b) = events'.filter (Event.concerns b))
    (hrests : RestsFor b { store := s } events) (hrests' : RestsFor b { store := s } events') :
    (run { store := s } events).party? b = (run { store := s } events').party? b :=
  have hnone : ∀ p, ({ store := s } : Switchboard ν).party? b ≠ some p := by simp
  (party?_of_sameConcerns (fun p hp => absurd hp (hnone p)) (fun p hp => absurd hp (hnone p)) rfl
    hsame.symm hrests hrests').2.symm

/-- Another relay has room for one feed, is full, and is dropped or loses its receiver. -/
theorem relays_do_not_interfere_with_full_one :
    let told (c : Collection) : Event Bool :=
      .publish (.ofFn fun _ => []) c (.ok (.inserted [("id", .string c.name)]))
    let act (name : Bool) (c : Collection) : Event Bool := .deed name (.act c)
    let events : List (Event Bool) :=
      [.attach true 2, told .tests, act true .tests, act true .tests, told .analytics,
        act true .analytics, act true .analytics, .deed true .receive]
    let events' : List (Event Bool) :=
      [.attach false 1, .attach true 2, told .tests, act false .tests, act true .tests,
        act false .tests, act true .tests, told .analytics, act false .analytics,
        act true .analytics, .deed false .dropReceiver, act true .analytics, act false .analytics,
        .deed false .drop, .deed true .receive]
    (events.filter (Event.concerns true) = events'.filter (Event.concerns true) ∧
      RestsFor true { store := .empty } events ∧ RestsFor true { store := .empty } events') ∧
    (run { store := .empty } events).party? true = (run { store := .empty } events').party? true ∧
    ((run { store := .empty } events').party? true).map (·.received.map (·.table)) =
      some [.tests] := by
  intro told act events events'
  have hsame : events.filter (Event.concerns true) = events'.filter (Event.concerns true) := rfl
  have hrests : RestsFor true { store := .empty } events := by decide +kernel
  have hrests' : RestsFor true { store := .empty } events' := by decide +kernel
  exact ⟨⟨hsame, hrests, hrests'⟩, relays_do_not_interfere .empty true hsame hrests hrests',
    by decide +kernel⟩

end Switchboard

end TrialBoard
