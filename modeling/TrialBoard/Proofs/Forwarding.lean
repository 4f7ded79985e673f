import TrialBoard.Relay

/-!
# The steps of a forwarder

What an update and a removal make of the forwarders of a relay, and what a step of a forwarder can
do at all: `Relay.Acts` has one case for each outcome of `Relay.act`.
-/

namespace TrialBoard

namespace Relay

section Forwarders

variable {τ : Type} {r : Relay τ} {f f' : Forwarder τ} {c : Collection}

theorem collection_of_forwarder? (h : r.forwarder? c = some f) : f.collection = c := by
  simpa using List.find?_some h

theorem mem_forwarders (h : r.forwarder? c = some f) : f ∈ r.forwarders :=
  List.mem_of_find?_eq_some h

theorem forwarder?_eq_none_iff : r.forwarder? c = none ↔ c ∉ r.live := by
  simp [forwarder?, live]

theorem mem_live_iff : c ∈ r.live ↔ ∃ f, r.forwarder? c = some f := by
  rw [← Option.isSome_iff_exists, Option.isSome_iff_ne_none, ne_eq, forwarder?_eq_none_iff,
    Classical.not_not]

@[simp] theorem live_update (r : Relay τ) (f : Forwarder τ) : (r.update f).live = r.live := by
  simp only [live, update, List.map_map]
  refine List.map_congr_left fun other _ => ?_
  by_cases h : other.collection = f.collection <;> simp [h]

@[simp] theorem live_remove (r : Relay τ) (c : Collection) :
    (r.remove c).live = r.live.filter (· != c) := by
  simp only [live, remove, List.filter_map]
  rfl

theorem forwarder?_update_self (h : r.forwarder? f.collection = some f') :
    (r.update f).forwarder? f.collection = some f := by
  have hcomp : ((fun g : Forwarder τ => g.collection == f.collection) ∘ fun other =>
      if other.collection = f.collection then f else other) =
      fun other => other.collection == f.collection := by
    funext other
    by_cases h : other.collection = f.collection <;> simp [h]
  have hcol : f'.collection = f.collection := collection_of_forwarder? h
  simp only [forwarder?, update, List.find?_map] at h ⊢
  rw [hcomp, h]
  simp [hcol]

theorem forwarder?_update_of_ne (r : Relay τ) (h : c ≠ f.collection) :
    (r.update f).forwarder? c = r.forwarder? c := by
  have hcomp : ((fun g : Forwarder τ => g.collection == c) ∘ fun other =>
      if other.collection = f.collection then f else other) =
      fun other => other.collection == c := by
    funext other
    by_cases hother : other.collection = f.collection
    · simp [hother]
    · simp [hother]
  simp only [forwarder?, update, List.find?_map, hcomp]
  cases hfind : r.forwarders.find? (·.collection == c) with
  | none => rfl
  | some other =>
    have hcol : other.collection = c := by simpa using List.find?_some hfind
    simp [hcol, h]

theorem forwarder?_remove_self (r : Relay τ) (c : Collection) :
    (r.remove c).forwarder? c = none := by
  rw [forwarder?_eq_none_iff, live_remove]
  simp

theorem forwarder?_remove_of_ne (r : Relay τ) {d : Collection} (h : d ≠ c) :
    (r.remove c).forwarder? d = r.forwarder? d := by
  simp only [forwarder?, remove, List.find?_filter]
  congr 1
  funext other
  by_cases hother : other.collection = d <;> simp [hother, h]

end Forwarders

section Acts

variable {σ τ : Type} [DocumentStore σ τ]

/-- What one step of a forwarder can do. -/
inductive Acts (s : σ) (r : Relay τ) (f : Forwarder τ) : Relay τ × σ → Prop
  /-- There is no receiver for what it holds. -/
  | lost {feed : ChangeFeed} (held : f.held? = some feed)
      (receiver : r.channel.hasReceiver = false) : Acts s r f (r.stop s f)
  /-- It sends what it holds. -/
  | sent {feed : ChangeFeed} {waiting : List Collection} (held : f.held? = some feed)
      (receiver : r.channel.hasReceiver = true)
      (turn : r.channel.waiting = f.collection :: waiting)
      (room : r.channel.queue.length < r.channel.capacity) :
      Acts s r f ({ r.update { f with held? := none } with
        channel := { r.channel with queue := r.channel.queue ++ [feed], waiting } }, s)
  /-- Its stream is over. -/
  | ended (held : f.held? = none) (next : DocumentStore.next s f.stream = .ended) :
      Acts s r f (r.stop s f)
  /-- Its stream fails. -/
  | failed {e : StoreError} {stream : τ} (held : f.held? = none)
      (next : DocumentStore.next s f.stream = .item (.error e) stream) :
      Acts s r f (r.stop s { f with stream })
  /-- It drops a heartbeat. -/
  | skipped {event : ChangeEvent} {stream : τ} (held : f.held? = none)
      (next : DocumentStore.next s f.stream = .item (.ok event) stream)
      (heartbeat : event.isHeartbeat = true) : Acts s r f (r.update { f with stream }, s)
  /-- It takes an event in hand. -/
  | took {event : ChangeEvent} {stream : τ} (held : f.held? = none)
      (next : DocumentStore.next s f.stream = .item (.ok event) stream)
      (heartbeat : event.isHeartbeat = false) :
      Acts s r f ({ r.update { f with stream, held? := some (.ofEvent f.collection event) } with
        channel := { r.channel with waiting := r.channel.waiting ++ [f.collection] } }, s)

theorem acts_of_act {s : σ} {r : Relay τ} {c : Collection} {out : Relay τ × σ}
    (h : r.act s c = some out) : ∃ f, r.forwarder? c = some f ∧ r.Acts s f out := by
  unfold act at h
  split at h
  · cases h
  · rename_i f hf
    refine ⟨f, hf, ?_⟩
    split at h
    · rename_i feed hheld
      unfold send at h
      split at h
      · rename_i hreceiver
        exact Option.some.inj h ▸ .lost hheld hreceiver
      · rename_i hreceiver
        split at h
        · rename_i d waiting hwaiting
          split at h
          · rename_i hturn
            obtain ⟨rfl, hroom⟩ := hturn
            exact Option.some.inj h ▸ .sent hheld (by simpa using hreceiver) hwaiting hroom
          · cases h
        · cases h
    · rename_i hheld
      unfold take at h
      split at h
      · cases h
      · rename_i hnext
        exact Option.some.inj h ▸ .ended hheld hnext
      · rename_i hnext
        exact Option.some.inj h ▸ .failed hheld hnext
      · rename_i event stream hnext
        split at h
        · rename_i hbeat
          exact Option.some.inj h ▸ .skipped hheld hnext hbeat
        · rename_i hbeat
          exact Option.some.inj h ▸ .took hheld hnext (by simpa using hbeat)

/-- A forwarder with empty hands that can take no step waits for its stream. -/
theorem pending_of_act_eq_none {s : σ} {r : Relay τ} {c : Collection} {f : Forwarder τ}
    (h : r.act s c = none) (hf : r.forwarder? c = some f) (hheld : f.held? = none) :
    ∃ stream, DocumentStore.next s f.stream = .pending stream := by
  simp only [act, hf, hheld, take] at h
  split at h
  · rename_i stream hnext
    exact ⟨stream, hnext⟩
  · cases h
  · cases h
  · split at h <;> cases h

/-- While there is room and a receiver, the forwarder whose turn it is can send what it holds. -/
theorem act_ne_none_of_turn {s : σ} {r : Relay τ} {c : Collection} {f : Forwarder τ}
    {feed : ChangeFeed} {waiting : List Collection} (hf : r.forwarder? c = some f)
    (hheld : f.held? = some feed) (hturn : r.channel.waiting = c :: waiting)
    (hroom : r.channel.queue.length < r.channel.capacity) : r.act s c ≠ none := by
  obtain rfl := collection_of_forwarder? hf
  simp only [act, hf, hheld, send, hturn, hroom, and_self, if_true]
  split <;> simp

end Acts

end Relay

end TrialBoard
