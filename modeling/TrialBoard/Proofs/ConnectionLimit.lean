import TrialBoard.Proofs.PushRun

/-!
# The limit of connections

A registry gives a number to each connection it takes, and gets it back once. What it has given is
what it got back and what it holds, each number once, so it can be told from the calls alone which
connections it holds; and there are never more of them than its limit.

A client over the limit is told so and let go. Neither the store nor the registry hears of it, and
all other clients are sent what they are sent in the run without it: leaving its socket out of the
hub, and the events about it out of the run, changes nothing for the others.
-/

namespace TrialBoard.Gateway

/-! ## Calls of a registry -/

namespace Registry

/-- What is asked of a registry. -/
inductive Call where
  | add (now : Nat)
  | remove (id : Nat)
  | touch (id now : Nat)

/-- The registry after a call. -/
def perform (r : Registry) : Call → Registry
  | .add now => (r.add now).2
  | .remove id => (r.remove id).2
  | .touch id now => r.touch id now

/-- The registry after calls, one after the other. -/
def run (r : Registry) (calls : List Call) : Registry := calls.foldl perform r

/-- The number that a call gives to a connection. -/
def granted? (r : Registry) : Call → Option Nat
  | .add now => (r.add now).1
  | _ => none

/-- The number that a call takes back from a connection. -/
def released? (r : Registry) : Call → Option Nat
  | .remove id => if (r.remove id).1 then some id else none
  | _ => none

/-- The numbers that calls give, in their order. -/
def granted (r : Registry) : List Call → List Nat
  | [] => []
  | call :: calls => (r.granted? call).toList ++ (r.perform call).granted calls

/-- The numbers that calls take back, in their order. -/
def released (r : Registry) : List Call → List Nat
  | [] => []
  | call :: calls => (r.released? call).toList ++ (r.perform call).released calls

/-- How a registry keeps its limit in a run of calls. -/
structure KeepsLimit (limit : Nat) (calls : List Call) : Prop where
  within : (run { limit } calls).count ≤ limit
  /-- A connection is refused just when there are as many as there may be, and then nothing
  changes. -/
  refuses : ∀ now, ((run { limit } calls).add now).1 = none ↔ (run { limit } calls).count = limit
  refusal : ∀ now, ((run { limit } calls).add now).1 = none →
    ((run { limit } calls).add now).2 = run { limit } calls
  /-- A connection that is taken takes one place. -/
  takes : ∀ now, ((run { limit } calls).add now).1.isSome = true →
    ((run { limit } calls).add now).2.count = (run { limit } calls).count + 1
  /-- No number is given twice. -/
  distinct : (granted { limit } calls).Nodup
  /-- What was given was taken back once, or is still held. -/
  accounts : (granted { limit } calls).Perm (released { limit } calls ++ (run { limit } calls).ids)
  /-- A number is taken back if it was given and not taken back before. -/
  removes : ∀ id, ((run { limit } calls).remove id).1 = true ↔
    id ∈ granted { limit } calls ∧ id ∉ released { limit } calls
  /-- A connection that is removed frees one place. -/
  frees : ∀ id, ((run { limit } calls).remove id).1 = true →
    ((run { limit } calls).remove id).2.count + 1 = (run { limit } calls).count
  /-- A number that is not held changes nothing. -/
  ignores : ∀ id, ((run { limit } calls).remove id).1 = false →
    ((run { limit } calls).remove id).2 = run { limit } calls ∧
      ∀ now, (run { limit } calls).touch id now = run { limit } calls

variable {r : Registry} {id : Nat} {calls : List Call}

theorem contains_iff : r.contains id = true ↔ id ∈ r.ids := by
  simp [contains, ids]

theorem remove_of_not_mem (h : id ∉ r.ids) : (r.remove id).2 = r := by
  have hkept : r.connections.filter (·.1 != id) = r.connections := by
    refine List.filter_eq_self.2 fun c hc => bne_iff_ne.2 fun heq => h ?_
    exact heq ▸ List.mem_map_of_mem hc
  simp only [remove, hkept]

theorem touch_of_not_mem (h : id ∉ r.ids) (now : Nat) : r.touch id now = r := by
  have hkept : r.connections.map (fun c =>
      (c.1, if c.1 = id then { c.2 with lastActivity := now } else c.2)) = r.connections := by
    refine (List.map_congr_left fun c hc => ?_).trans (List.map_id _)
    have hne : c.1 ≠ id := fun heq => h (heq ▸ List.mem_map_of_mem hc)
    simp only [if_neg hne, id_eq]
  exact congrArg (fun connections => { r with connections }) hkept

theorem count_remove_of_mem (hsound : r.IsSound) (h : id ∈ r.ids) :
    (r.remove id).2.count + 1 = r.count := by
  rw [← length_ids, ids_remove hsound, ← length_ids]
  exact List.length_erase_add_one h

theorem IsSound.perform (h : r.IsSound) (call : Call) : (r.perform call).IsSound := by
  cases call with
  | add now => exact h.add now
  | remove id => exact h.remove id
  | touch id now => exact h.touch id now

theorem IsSound.run (h : r.IsSound) (calls : List Call) : (r.run calls).IsSound := by
  induction calls generalizing r with
  | nil => exact h
  | cons call calls ih => exact ih (h.perform call)

theorem isSound_new (limit : Nat) : ({ limit } : Registry).IsSound :=
  ⟨List.nodup_nil, fun _ hid => absurd hid List.not_mem_nil, Nat.zero_le _⟩

theorem limit_perform (r : Registry) (call : Call) : (r.perform call).limit = r.limit := by
  cases call with
  | add now => exact limit_add r now
  | remove | touch => rfl

theorem limit_run (r : Registry) (calls : List Call) : (r.run calls).limit = r.limit := by
  induction calls generalizing r with
  | nil => rfl
  | cons call calls ih => exact (ih (r.perform call)).trans (r.limit_perform call)

/-- The numbers before a call, with the one that it gives, are those after it, with the one that it
takes back. -/
theorem perm_perform (h : r.IsSound) (call : Call) :
    (r.ids ++ (r.granted? call).toList).Perm
      ((r.released? call).toList ++ (r.perform call).ids) := by
  cases call with
  | add now =>
    change (r.ids ++ (r.add now).1.toList).Perm (r.add now).2.ids
    by_cases hroom : r.count < r.limit
    · rw [ids_add_of_room hroom, add_of_room hroom]
      exact .refl _
    · rw [add_of_full (Nat.not_lt.1 hroom), Option.toList_none, List.append_nil]
  | remove id =>
    change (r.ids ++ []).Perm ((if r.contains id then some id else none).toList ++
      (r.remove id).2.ids)
    rw [List.append_nil]
    by_cases hmem : id ∈ r.ids
    · rw [if_pos (contains_iff.2 hmem), ids_remove h]
      exact List.perm_cons_erase hmem
    · rw [if_neg fun hheld => hmem (contains_iff.1 hheld), remove_of_not_mem hmem]
      exact .refl _
  | touch id now =>
    change (r.ids ++ []).Perm (r.touch id now).ids
    rw [List.append_nil, ids_touch]

theorem nextId_perform (r : Registry) (call : Call) : r.nextId ≤ (r.perform call).nextId := by
  cases call with
  | add now =>
    change _ ≤ (r.add now).2.nextId
    unfold add
    split
    · exact Nat.le_refl _
    · exact Nat.le_succ _
  | remove | touch => exact Nat.le_refl _

theorem granted?_eq_some {call : Call} (h : r.granted? call = some id) :
    id = r.nextId ∧ (r.perform call).nextId = r.nextId + 1 := by
  cases call with
  | add now =>
    change (r.add now).1 = some id at h
    by_cases hroom : r.count < r.limit
    · rw [add_of_room hroom] at h
      refine ⟨(Option.some.inj h).symm, ?_⟩
      change (r.add now).2.nextId = _
      rw [add_of_room hroom]
    · rw [add_of_full (Nat.not_lt.1 hroom)] at h
      cases h
  | remove | touch => cases h

/-- Numbers are given in rising order. -/
theorem le_of_mem_granted (h : id ∈ granted r calls) : r.nextId ≤ id := by
  induction calls generalizing r with
  | nil => cases h
  | cons call calls ih =>
    rcases List.mem_append.1 h with hnow | hlater
    · exact Nat.le_of_eq (granted?_eq_some (Option.mem_toList.1 hnow)).1.symm
    · exact Nat.le_trans (r.nextId_perform call) (ih hlater)

theorem nodup_granted (r : Registry) (calls : List Call) : (granted r calls).Nodup := by
  induction calls generalizing r with
  | nil => exact List.nodup_nil
  | cons call calls ih =>
    rw [granted]
    cases hgrant : r.granted? call with
    | none => exact ih (r.perform call)
    | some id =>
      obtain ⟨rfl, hnext⟩ := granted?_eq_some hgrant
      refine List.nodup_cons.2 ⟨fun hagain => ?_, ih (r.perform call)⟩
      have hle := le_of_mem_granted hagain
      omega

/-- What is held at the start and given in a run is taken back in the run or held at its end. -/
theorem perm_run (h : r.IsSound) (calls : List Call) :
    (r.ids ++ granted r calls).Perm (released r calls ++ (r.run calls).ids) := by
  induction calls generalizing r with
  | nil => simp [granted, released, run]
  | cons call calls ih =>
    rw [granted, released, ← List.append_assoc]
    refine ((perm_perform h call).append_right _).trans ?_
    rw [List.append_assoc, List.append_assoc]
    exact (ih (h.perform call)).append_left _

theorem keepsLimit (limit : Nat) (calls : List Call) : KeepsLimit limit calls := by
  have hsound : (run { limit } calls).IsSound := (isSound_new limit).run calls
  have hlimit : (run { limit } calls).limit = limit := limit_run { limit } calls
  have hdistinct : (granted { limit } calls).Nodup := nodup_granted _ calls
  have haccounts : (granted { limit } calls).Perm
      (released { limit } calls ++ (run { limit } calls).ids) := perm_run (isSound_new limit) calls
  have hwithin := hsound.within
  have hremove : ∀ id, ((run { limit } calls).remove id).1 = true ↔
      id ∈ (run { limit } calls).ids := fun id => contains_iff
  rw [hlimit] at hwithin
  refine ⟨hwithin, fun now => ?_, fun now => ?_, fun now => ?_, hdistinct, haccounts, fun id => ?_,
    fun id hid => count_remove_of_mem hsound ((hremove id).1 hid), fun id hid => ?_⟩
  · by_cases hroom : (run { limit } calls).count < (run { limit } calls).limit
    · rw [add_of_room hroom]
      refine ⟨nofun, fun hfull => ?_⟩
      omega
    · rw [add_of_full (Nat.not_lt.1 hroom)]
      refine ⟨fun _ => ?_, fun _ => rfl⟩
      omega
  · by_cases hroom : (run { limit } calls).count < (run { limit } calls).limit
    · rw [add_of_room hroom]
      exact nofun
    · rw [add_of_full (Nat.not_lt.1 hroom)]
      exact fun _ => rfl
  · by_cases hroom : (run { limit } calls).count < (run { limit } calls).limit
    · rw [count_add, if_pos hroom]
      exact fun _ => rfl
    · rw [add_of_full (Nat.not_lt.1 hroom)]
      exact nofun
  · have happart := List.nodup_append.1 (haccounts.nodup hdistinct)
    rw [hremove, haccounts.mem_iff, List.mem_append]
    refine ⟨fun hheld => ⟨.inr hheld, fun hback => happart.2.2 id hback id hheld rfl⟩, ?_⟩
    rintro ⟨hback | hheld, hnot⟩
    · exact absurd hback hnot
    · exact hheld
  · have hnot : id ∉ (run { limit } calls).ids := fun hheld => by
      simp [(hremove id).2 hheld] at hid
    exact ⟨remove_of_not_mem hnot, touch_of_not_mem hnot⟩

end Registry

/-! ## What clients are sent -/

/-- The number of a connection once the one of the number `k` is left out. -/
def numberWithout (k n : Nat) : Option Nat :=
  if n < k then some n else if n = k then none else some (n - 1)

namespace HubEvent

variable {σ : Type}

/-- An event once the connection of a number is left out: it is gone if it is about that one. -/
def without (k : Nat) : HubEvent σ → Option (HubEvent σ)
  | .connect now => some (.connect now)
  | .socket n event => (numberWithout k n).map (.socket · event)
  | .store s => some (.store s)

end HubEvent

namespace Hub

variable {σ τ : Type}

/-- The hub without the connection of a number. -/
def leaveOut (hub : Hub σ τ) (k : Nat) : Hub σ τ :=
  { hub with sockets := hub.sockets.eraseIdx k }

variable [DocumentStore σ τ]

/-- What reaches the client of a connection when something happens to it. -/
def framesAt (hub : Hub σ τ) (socket : Socket τ) (event : SocketEvent) : List Frame :=
  match socket with
  | .ended => []
  | .serving id relay => (hub.server.turn id relay true event).sent

/-- What reaches clients in an event, with the numbers of their connections. -/
def sends (hub : Hub σ τ) : HubEvent σ → List (Nat × Frame)
  | .connect now => (hub.server.connect now).2.1.map (hub.sockets.length, ·)
  | .socket n event =>
    match hub.sockets[n]? with
    | none => []
    | some socket => (hub.framesAt socket event).map (n, ·)
  | .store _ => []

/-- What reaches clients in a run. -/
def transcript (hub : Hub σ τ) : List (HubEvent σ) → List (Nat × Frame)
  | [] => []
  | event :: events => hub.sends event ++ (hub.step event).transcript events

/-- The part of a transcript that is for others than the connection of a number. -/
def transcriptWithout (k : Nat) (sent : List (Nat × Frame)) : List (Nat × Frame) :=
  sent.filterMap fun (n, frame) => (numberWithout k n).map (·, frame)

/-- What it means that a client is refused. -/
structure Refuses (hub : Hub σ τ) (now : Nat) : Prop where
  /-- It is told so, and its connection is closed. -/
  told : hub.sends (.connect now) =
    [ (hub.sockets.length, .text (.error "CAPACITY_FULL" "Server at maximum connections")),
      (hub.sockets.length, .close) ]
  /-- Nothing changes but that there is one more connection that has ended; neither the store nor
  the registry is touched. -/
  untouched : hub.step (.connect now) = { hub with sockets := hub.sockets ++ [.ended] }
  /-- It is sent nothing else, whatever happens. -/
  silent : ∀ events, ∀ sent ∈ (hub.step (.connect now)).transcript events,
    sent.1 ≠ hub.sockets.length
  /-- The others are sent what they are sent without it, and all is as it is without it. -/
  unseen : ∀ events,
    transcriptWithout hub.sockets.length ((hub.step (.connect now)).transcript events) =
        hub.transcript (events.filterMap (HubEvent.without hub.sockets.length)) ∧
      ((hub.step (.connect now)).run events).leaveOut hub.sockets.length =
        hub.run (events.filterMap (HubEvent.without hub.sockets.length))

/-- How a server keeps its limit at some moment of its run. -/
structure KeepsLimit (limit : Nat) (hub : Hub σ τ) : Prop where
  within : hub.server.registry.count ≤ limit
  /-- A client is registered just as long as there are fewer than there may be. -/
  takes_iff : ∀ now, hub.server.takes now = true ↔ hub.server.registry.count ≠ limit
  /-- One that is registered takes one place, and is sent nothing yet. -/
  takes : ∀ now, hub.server.takes now = true → hub.sends (.connect now) = [] ∧
    (hub.step (.connect now)).server.registry.count = hub.server.registry.count + 1
  refuses : ∀ now, hub.server.takes now = false → hub.Refuses now
  /-- One that was served and goes away frees one place. -/
  frees : ∀ n id relay, hub.sockets[n]? = some (.serving id relay) →
    (hub.step (.socket n .gone)).server.registry.count + 1 = hub.server.registry.count

end Hub

/-! ## A connection that has ended -/

section Numbers

variable {α : Type} {k n : Nat}

theorem numberWithout_self (k : Nat) : numberWithout k k = none := by
  simp [numberWithout]

theorem exists_numberWithout (h : n ≠ k) : ∃ m, numberWithout k n = some m := by
  unfold numberWithout
  by_cases hlt : n < k
  · exact ⟨n, if_pos hlt⟩
  · exact ⟨n - 1, (if_neg hlt).trans (if_neg h)⟩

theorem numberWithout_of_lt (h : k < n) : numberWithout k n = some (n - 1) := by
  have hnot : ¬ n < k := by omega
  have hne : n ≠ k := by omega
  exact (if_neg hnot).trans (if_neg hne)

theorem getElem?_eraseIdx_numberWithout {m : Nat} (h : numberWithout k n = some m) (as : List α) :
    (as.eraseIdx k)[m]? = as[n]? := by
  unfold numberWithout at h
  rw [List.getElem?_eraseIdx]
  split at h
  · rename_i hlt
    obtain rfl := Option.some.inj h
    rw [if_pos hlt]
  · split at h
    · cases h
    · obtain rfl := Option.some.inj h
      have hnot : ¬ n - 1 < k := by omega
      have hpos : n - 1 + 1 = n := by omega
      rw [if_neg hnot, hpos]

theorem eraseIdx_set_numberWithout {m : Nat} (h : numberWithout k n = some m) (as : List α)
    (a : α) : (as.set n a).eraseIdx k = (as.eraseIdx k).set m a := by
  unfold numberWithout at h
  split at h
  · rename_i hlt
    obtain rfl := Option.some.inj h
    exact List.eraseIdx_set_gt hlt
  · split at h
    · cases h
    · obtain rfl := Option.some.inj h
      exact List.eraseIdx_set_lt (by omega)

end Numbers

namespace Hub

variable {σ τ : Type} {k n m : Nat} {hub : Hub σ τ} {socket : Socket τ}

theorem leaveOut_put (h : numberWithout k n = some m) (hub : Hub σ τ) (socket : Socket τ)
    (server : Server σ) : (hub.put n socket server).leaveOut k =
      (hub.leaveOut k).put m socket server := by
  unfold put leaveOut
  rw [eraseIdx_set_numberWithout h]

/-- The connection of a number that is being served has its place. -/
theorem Consistent.mem_ids {limit id : Nat} {relay : Relay τ} (h : hub.Consistent limit)
    (hsocket : hub.sockets[n]? = some (.serving id relay)) : id ∈ hub.server.registry.ids := by
  refine h.taken.mem_iff.2 (List.mem_append_left _ ?_)
  exact List.mem_filterMap.2 ⟨_, List.mem_of_getElem? hsocket, rfl⟩

/-- A connection is taken just when there are not as many as there may be. -/
theorem Consistent.takes_iff {limit : Nat} (h : hub.Consistent limit) (now : Nat) :
    hub.server.takes now = true ↔ hub.server.registry.count ≠ limit := by
  have hlimit : hub.server.registry.limit = limit := h.limited
  have hwithin := h.sound.within
  unfold Server.takes
  by_cases hroom : hub.server.registry.count < hub.server.registry.limit
  · rw [Registry.add_of_room hroom]
    refine ⟨fun _ => ?_, fun _ => rfl⟩
    omega
  · rw [Registry.add_of_full (Nat.not_lt.1 hroom)]
    refine ⟨nofun, fun hne => ?_⟩
    omega

variable [DocumentStore σ τ]

/-- What happens to another connection is the same without the one that is left out. -/
theorem leaveOut_stepAt (h : numberWithout k n = some m) (hub : Hub σ τ) (socket : Socket τ)
    (event : SocketEvent) : (hub.stepAt n socket event).leaveOut k =
      (hub.leaveOut k).stepAt m socket event := by
  cases socket with
  | ended => rfl
  | serving id relay => exact leaveOut_put h hub _ _

/-- An event on another connection leaves this one as it is. -/
theorem getElem?_stepAt_of_ne (h : n ≠ k) (hub : Hub σ τ) (socket : Socket τ)
    (event : SocketEvent) : (hub.stepAt n socket event).sockets[k]? = hub.sockets[k]? := by
  cases socket with
  | ended => rfl
  | serving id relay => exact List.getElem?_set_ne h

theorem run_append (hub : Hub σ τ) (before after : List (HubEvent σ)) :
    hub.run (before ++ after) = (hub.run before).run after := List.foldl_append

theorem transcript_append (hub : Hub σ τ) (before after : List (HubEvent σ)) :
    hub.transcript (before ++ after) =
      hub.transcript before ++ (hub.run before).transcript after := by
  induction before generalizing hub with
  | nil => rfl
  | cons event before ih =>
    rw [List.cons_append, transcript, transcript, ih, List.append_assoc]
    rfl

theorem transcriptWithout_append (k : Nat) (sent later : List (Nat × Frame)) :
    transcriptWithout k (sent ++ later) = transcriptWithout k sent ++ transcriptWithout k later :=
  List.filterMap_append

theorem transcriptWithout_map (h : numberWithout k n = some m) (frames : List Frame) :
    transcriptWithout k (frames.map (n, ·)) = frames.map (m, ·) := by
  induction frames with
  | nil => rfl
  | cons frame frames ih =>
    unfold transcriptWithout at ih ⊢
    rw [List.map_cons, List.filterMap_cons]
    simp only [h, Option.map_some, ih, List.map_cons]

/-- What is seen of a connection that has ended in what happens next: nothing. -/
structure HidesEnded (hub : Hub σ τ) (k : Nat) (event : HubEvent σ) : Prop where
  ended : (hub.step event).sockets[k]? = some .ended
  silent : ∀ sent ∈ hub.sends event, sent.1 ≠ k
  left : (hub.step event).leaveOut k = (hub.leaveOut k).run (event.without k).toList
  sent : transcriptWithout k (hub.sends event) =
    (hub.leaveOut k).transcript (event.without k).toList

theorem hidesEnded_connect (h : hub.sockets[k]? = some .ended) (now : Nat) :
    hub.HidesEnded k (.connect now) := by
  obtain ⟨hlt, hget⟩ := List.getElem?_eq_some_iff.1 h
  have hlength : (hub.leaveOut k).sockets.length = hub.sockets.length - 1 :=
    List.length_eraseIdx_of_lt hlt
  refine ⟨?_, fun sent hsent => ?_, ?_, ?_⟩
  · exact (List.getElem?_append_left hlt).trans h
  · obtain ⟨frame, -, rfl⟩ := List.mem_map.1 hsent
    exact Nat.ne_of_gt hlt
  · change (hub.step (.connect now)).leaveOut k = (hub.leaveOut k).step (.connect now)
    unfold step leaveOut
    simp only [List.eraseIdx_append_of_lt_length hlt]
    rfl
  · change _ = (hub.leaveOut k).sends (.connect now) ++ []
    rw [List.append_nil, sends, sends, hlength]
    exact transcriptWithout_map (numberWithout_of_lt hlt) _

theorem step_of_none (h : hub.sockets[n]? = none) (event : SocketEvent) :
    hub.step (.socket n event) = hub ∧ hub.sends (.socket n event) = [] := by
  unfold step sends
  simp only [h, and_self]

theorem step_of_some (h : hub.sockets[n]? = some socket) (event : SocketEvent) :
    hub.step (.socket n event) = hub.stepAt n socket event ∧
      hub.sends (.socket n event) = (hub.framesAt socket event).map (n, ·) := by
  unfold step sends
  simp only [h, and_self]

/-- Nothing happens to a connection that has ended, and nothing is sent to it. -/
theorem step_of_ended (h : hub.sockets[k]? = some .ended) (event : SocketEvent) :
    hub.step (.socket k event) = hub ∧ hub.sends (.socket k event) = [] :=
  step_of_some h event

theorem hidesEnded_self (h : hub.sockets[k]? = some .ended) (event : SocketEvent) :
    hub.HidesEnded k (.socket k event) := by
  obtain ⟨hstep, hsends⟩ := step_of_ended h event
  have hnone : (HubEvent.socket k event : HubEvent σ).without k = none := by
    rw [HubEvent.without, numberWithout_self, Option.map_none]
  refine ⟨by rw [hstep, h], by simp [hsends], ?_, ?_⟩
  · rw [hstep, hnone]
    rfl
  · rw [hsends, hnone]
    rfl

theorem hidesEnded_other (h : hub.sockets[k]? = some .ended) (hn : n ≠ k) (event : SocketEvent) :
    hub.HidesEnded k (.socket n event) := by
  obtain ⟨m, hm⟩ := exists_numberWithout hn
  have hevent : (HubEvent.socket n event : HubEvent σ).without k = some (.socket m event) := by
    rw [HubEvent.without, hm, Option.map_some]
  have hat : (hub.leaveOut k).sockets[m]? = hub.sockets[n]? :=
    getElem?_eraseIdx_numberWithout hm hub.sockets
  have hrun : (hub.leaveOut k).run [.socket m event] = (hub.leaveOut k).step (.socket m event) :=
    rfl
  have htranscript : (hub.leaveOut k).transcript [.socket m event] =
      (hub.leaveOut k).sends (.socket m event) := List.append_nil _
  cases hsocket : hub.sockets[n]? with
  | none =>
    obtain ⟨hstep, hsends⟩ := step_of_none hsocket event
    obtain ⟨hstep', hsends'⟩ := step_of_none (hat.trans hsocket) event
    refine ⟨by rw [hstep, h], by simp [hsends], ?_, ?_⟩
    · rw [hstep, hevent, Option.toList_some, hrun, hstep']
    · rw [hsends, hevent, Option.toList_some, htranscript, hsends']
      rfl
  | some socket =>
    obtain ⟨hstep, hsends⟩ := step_of_some hsocket event
    obtain ⟨hstep', hsends'⟩ := step_of_some (hat.trans hsocket) event
    refine ⟨by rw [hstep, getElem?_stepAt_of_ne hn, h], fun sent hsent => ?_, ?_, ?_⟩
    · obtain ⟨frame, -, rfl⟩ := List.mem_map.1 (hsends ▸ hsent)
      exact hn
    · rw [hstep, hevent, Option.toList_some, hrun, hstep', leaveOut_stepAt hm]
    · rw [hsends, hevent, Option.toList_some, htranscript, hsends', transcriptWithout_map hm]
      rfl

/-- What happens to a connection that has ended changes nothing, and what else happens is the same
without it. -/
theorem hidesEnded (h : hub.sockets[k]? = some .ended) (event : HubEvent σ) :
    hub.HidesEnded k event := by
  cases event with
  | connect now => exact hidesEnded_connect h now
  | store s => exact ⟨h, fun _ hsent => absurd hsent List.not_mem_nil, rfl, rfl⟩
  | socket n event =>
    by_cases hn : n = k
    · exact hn ▸ hidesEnded_self (hn ▸ h) event
    · exact hidesEnded_other h hn event

theorem silent_run (h : hub.sockets[k]? = some .ended) (events : List (HubEvent σ)) :
    ∀ sent ∈ hub.transcript events, sent.1 ≠ k := by
  induction events generalizing hub with
  | nil => exact fun _ hsent => absurd hsent List.not_mem_nil
  | cons event events ih =>
    have hhidden := hidesEnded h event
    intro sent hsent
    rcases List.mem_append.1 hsent with hnow | hlater
    · exact hhidden.silent sent hnow
    · exact ih hhidden.ended sent hlater

theorem filterMap_without_cons (k : Nat) (event : HubEvent σ) (events : List (HubEvent σ)) :
    (event :: events).filterMap (HubEvent.without k) =
      (event.without k).toList ++ events.filterMap (HubEvent.without k) := by
  cases hevent : event.without k with
  | none => exact List.filterMap_cons_none hevent
  | some other => exact List.filterMap_cons_some hevent

/-- A run without a connection that has ended. -/
theorem unseen_run (h : hub.sockets[k]? = some .ended) (events : List (HubEvent σ)) :
    transcriptWithout k (hub.transcript events) =
        (hub.leaveOut k).transcript (events.filterMap (HubEvent.without k)) ∧
      (hub.run events).leaveOut k =
        (hub.leaveOut k).run (events.filterMap (HubEvent.without k)) := by
  induction events generalizing hub with
  | nil => exact ⟨rfl, rfl⟩
  | cons event events ih =>
    have hhidden := hidesEnded h event
    obtain ⟨hsent, hleft⟩ := ih hhidden.ended
    rw [filterMap_without_cons, transcript_append, run_append, ← hhidden.left, transcript,
      transcriptWithout_append, hhidden.sent, hsent]
    exact ⟨rfl, hleft⟩

/-! ## Clients over the limit -/

theorem connect_of_full {server : Server σ}
    (h : server.registry.limit ≤ server.registry.count) (now : Nat) :
    server.connect now = (.ended, [.text Server.capacityError, .close], server) := by
  unfold Server.connect
  rw [Registry.add_of_full h]

theorem sends_connect_of_takes {now : Nat} (h : hub.server.takes now = true) :
    hub.sends (.connect now) = [] := by
  have hframes : (hub.server.connect now).2.1 = [] := by
    unfold Server.takes at h
    unfold Server.connect
    split
    · rename_i hadd
      simp [hadd] at h
    · split <;> rfl
  rw [sends, hframes, List.map_nil]

/-- A client over the limit is refused. -/
theorem refuses_of_full (h : hub.server.registry.limit ≤ hub.server.registry.count) (now : Nat) :
    hub.Refuses now := by
  have hconnect := connect_of_full (τ := τ) h now
  have hlosing : hub.losing? now = none := by
    rw [losing?, Registry.add_of_full h, ite_self]
  have huntouched : hub.step (.connect now) = { hub with sockets := hub.sockets ++ [.ended] } := by
    rw [step, hconnect, hlosing]
    simp only [Option.toList_none, List.append_nil]
  have hended : (hub.step (.connect now)).sockets[hub.sockets.length]? = some .ended := by
    rw [huntouched]
    exact List.getElem?_concat_length
  have hback : (hub.step (.connect now)).leaveOut hub.sockets.length = hub := by
    rw [huntouched]
    unfold leaveOut
    simp only [List.eraseIdx_append_of_length_le (Nat.le_refl _), Nat.sub_self,
      List.eraseIdx_cons_zero, List.append_nil]
  refine ⟨?_, huntouched, silent_run hended, fun events => ?_⟩
  · rw [sends, hconnect]
    rfl
  · have hunseen := unseen_run hended events
    rwa [hback] at hunseen

theorem Consistent.keepsLimit {limit : Nat} (h : hub.Consistent limit) : hub.KeepsLimit limit := by
  have hlimit : hub.server.registry.limit = limit := h.limited
  have hwithin : hub.server.registry.count ≤ limit := hlimit ▸ h.sound.within
  have hregistry : ∀ now, (hub.step (.connect now)).server.registry =
      (hub.server.registry.add now).2 := hub.server.registry_connect
  refine ⟨hwithin, h.takes_iff, fun now hnow => ⟨sends_connect_of_takes hnow, ?_⟩,
    fun now hnow => ?_, fun n id relay hsocket => ?_⟩
  · have hne : hub.server.registry.count ≠ limit := (h.takes_iff now).1 hnow
    have hroom : hub.server.registry.count < hub.server.registry.limit := by omega
    rw [hregistry, Registry.count_add, if_pos hroom]
  · refine refuses_of_full ?_ now
    have hfull : hub.server.registry.count = limit := by
      by_contra hne
      rw [(h.takes_iff now).2 hne] at hnow
      cases hnow
    exact Nat.le_of_eq (hlimit.trans hfull.symm)
  · rw [(step_of_some hsocket .gone).1]
    exact Registry.count_remove_of_mem h.sound (h.mem_ids hsocket)

/-- The limit of connections is kept by a registry in every run of calls, and by a server at every
moment of every run, whatever becomes of its connections and of its store. -/
theorem connection_limit_is_kept (store : σ) (settings : ServerSettings) :
    (∀ calls, Registry.KeepsLimit settings.maxConnections calls) ∧
      ∀ events, ((start store settings : Hub σ τ).run events).KeepsLimit
        settings.maxConnections :=
  ⟨Registry.keepsLimit settings.maxConnections,
    fun events => (consistent_run (consistent_start store settings) events).keepsLimit⟩

end Hub

end TrialBoard.Gateway
