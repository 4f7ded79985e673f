import TrialBoard.Proofs.RelayLaws

/-!
# The forwarders come to rest

A step of a forwarder lessens the work there is: two for each item ahead, one for a feed in hand and
one for the forwarder itself. So `settle` takes enough steps until none is possible. It does not add
to what can be received, and a receive takes one off that. So `receiveAll` leaves nothing to
receive.

Then no forwarder holds anything: the one whose turn it is could send it, as there is room.
-/

namespace TrialBoard

namespace Relay

/-! ## Sums over the forwarders -/

section weigh

variable {τ : Type} {r : Relay τ} {c : Collection} {f f' : Forwarder τ}

/-- The sum of a measure over the forwarders. -/
def weigh (r : Relay τ) (w : Forwarder τ → Nat) : Nat := (r.forwarders.map w).sum

theorem sum_map_update {l : List (Forwarder τ)} (hl : (l.map (·.collection)).Nodup)
    (hmem : f' ∈ l) (hcol : f'.collection = f.collection) (w : Forwarder τ → Nat) :
    ((l.map fun other => if other.collection = f.collection then f else other).map w).sum + w f' =
      (l.map w).sum + w f := by
  induction l with
  | nil => cases hmem
  | cons other l ih =>
    rw [List.map_cons, List.nodup_cons] at hl
    by_cases hother : other.collection = f.collection
    · have hsame : (l.map fun o => if o.collection = f.collection then f else o) = l := by
        have hid : ∀ o ∈ l, (if o.collection = f.collection then f else o) = id o := fun o ho =>
          if_neg fun heq => hl.1 (List.mem_map.2 ⟨o, ho, heq.trans hother.symm⟩)
        rw [List.map_congr_left hid, List.map_id]
      obtain rfl : f' = other := by
        rcases List.mem_cons.1 hmem with rfl | hmem
        · rfl
        · exact absurd (List.mem_map.2 ⟨f', hmem, hcol.trans hother.symm⟩) hl.1
      simp only [List.map_cons, hother, if_true, hsame, List.sum_cons]
      omega
    · have hmem' : f' ∈ l := (List.mem_cons.1 hmem).resolve_left fun heq => hother (heq ▸ hcol)
      have ih := ih hl.2 hmem'
      simp only [List.map_cons, hother, if_false, List.sum_cons]
      omega

theorem sum_map_remove {l : List (Forwarder τ)} (hl : (l.map (·.collection)).Nodup)
    (hmem : f' ∈ l) (hcol : f'.collection = c) (w : Forwarder τ → Nat) :
    ((l.filter (·.collection != c)).map w).sum + w f' = (l.map w).sum := by
  induction l with
  | nil => cases hmem
  | cons other l ih =>
    rw [List.map_cons, List.nodup_cons] at hl
    by_cases hother : other.collection = c
    · have hsame : l.filter (·.collection != c) = l := by
        refine List.filter_eq_self.2 fun o ho => ?_
        have hne : o.collection ≠ c := fun heq =>
          hl.1 (List.mem_map.2 ⟨o, ho, heq.trans hother.symm⟩)
        simpa using hne
      obtain rfl : f' = other := by
        rcases List.mem_cons.1 hmem with rfl | hmem
        · rfl
        · exact absurd (List.mem_map.2 ⟨f', hmem, hcol.trans hother.symm⟩) hl.1
      simp only [List.filter_cons, hother, bne_self_eq_false, Bool.false_eq_true, if_false, hsame,
        List.map_cons, List.sum_cons]
      omega
    · have hmem' : f' ∈ l := (List.mem_cons.1 hmem).resolve_left fun heq => hother (heq ▸ hcol)
      have ih := ih hl.2 hmem'
      have hbne : (other.collection != c) = true := by simpa using hother
      simp only [List.filter_cons, hbne, if_true, List.map_cons, List.sum_cons]
      omega

theorem weigh_update (hr : r.live.Nodup) (hf : r.forwarder? f.collection = some f')
    (w : Forwarder τ → Nat) : (r.update f).weigh w + w f' = r.weigh w + w f :=
  sum_map_update hr (mem_forwarders hf) (collection_of_forwarder? hf) w

theorem weigh_update_lt (hr : r.live.Nodup) (hf : r.forwarder? f.collection = some f')
    {w : Forwarder τ → Nat} (h : w f < w f') : (r.update f).weigh w < r.weigh w := by
  have hsum := weigh_update hr hf w
  omega

theorem weigh_update_le (hr : r.live.Nodup) (hf : r.forwarder? f.collection = some f')
    {w : Forwarder τ → Nat} (h : w f ≤ w f') : (r.update f).weigh w ≤ r.weigh w := by
  have hsum := weigh_update hr hf w
  omega

theorem weigh_remove (hr : r.live.Nodup) (hf : r.forwarder? c = some f')
    (w : Forwarder τ → Nat) : (r.remove c).weigh w + w f' = r.weigh w :=
  sum_map_remove hr (mem_forwarders hf) (collection_of_forwarder? hf) w

end weigh

/-! ## The turns -/

section Orderly

variable {σ τ : Type} [DocumentStore σ τ] {s : σ} {r : Relay τ} {c : Collection}
  {f f' : Forwarder τ}

/-- What the forwarder of a collection has in hand. -/
def inHand? (r : Relay τ) (c : Collection) : Option ChangeFeed := (r.forwarder? c).bind (·.held?)

/-- Whether each collection has one forwarder, and those that hold a feed wait in turn, once. -/
structure Orderly (r : Relay τ) : Prop where
  live : r.live.Nodup
  waiting : r.channel.waiting.Nodup
  mem_waiting : ∀ c, c ∈ r.channel.waiting ↔ (r.inHand? c).isSome

theorem inHand?_of (hf : r.forwarder? c = some f) : r.inHand? c = f.held? := by
  simp [inHand?, hf]

theorem inHand?_update_of_ne (r : Relay τ) (hc : c ≠ f.collection) :
    (r.update f).inHand? c = r.inHand? c := by
  simp only [inHand?, forwarder?_update_of_ne r hc]

theorem inHand?_update_self (hf : r.forwarder? f.collection = some f') :
    (r.update f).inHand? f.collection = f.held? := by
  simp only [inHand?, forwarder?_update_self hf, Option.bind_some]

theorem orderly_remove (h : r.Orderly) (c : Collection) : (r.remove c).Orderly := by
  refine ⟨?_, h.waiting.sublist List.filter_sublist, fun d => ?_⟩
  · rw [live_remove]
    exact h.live.sublist List.filter_sublist
  · have hmem : d ∈ (r.remove c).channel.waiting ↔ d ∈ r.channel.waiting ∧ d ≠ c := by
      simp [remove]
    rw [hmem, h.mem_waiting]
    by_cases hd : d = c
    · subst hd
      simp [inHand?, forwarder?_remove_self]
    · simp [inHand?, forwarder?_remove_of_ne r hd, hd]

/-- Every step of a forwarder keeps the turns. -/
theorem orderly_of_acts {out : Relay τ × σ} (h : r.Orderly)
    (hf : r.forwarder? f.collection = some f) (hacts : r.Acts s f out) : out.1.Orderly := by
  have hin := inHand?_of hf
  cases hacts with
  | lost | ended | failed => exact orderly_remove h _
  | @sent feed waiting hheld hreceiver hturn hroom =>
    have hnodup := h.waiting
    rw [hturn, List.nodup_cons] at hnodup
    refine ⟨(live_update r _).symm ▸ h.live, hnodup.2, fun d => ?_⟩
    change d ∈ waiting ↔ ((r.update { f with held? := none }).inHand? d).isSome
    by_cases hd : d = f.collection
    · subst hd
      rw [inHand?_update_self (f := { f with held? := none }) hf]
      simp [hnodup.1]
    · rw [inHand?_update_of_ne (f := { f with held? := none }) r hd, ← h.mem_waiting, hturn]
      simp [hd]
  | @skipped event stream hheld hnext hbeat =>
    refine ⟨(live_update r _).symm ▸ h.live, h.waiting, fun d => ?_⟩
    change d ∈ r.channel.waiting ↔ ((r.update { f with stream }).inHand? d).isSome
    rw [h.mem_waiting]
    by_cases hd : d = f.collection
    · subst hd
      rw [inHand?_update_self (f := { f with stream }) hf, hin]
    · rw [inHand?_update_of_ne (f := { f with stream }) r hd]
  | @took event stream hheld hnext hbeat =>
    have hfree : f.collection ∉ r.channel.waiting := by
      rw [h.mem_waiting, hin, hheld]
      simp
    refine ⟨(live_update r _).symm ▸ h.live, ?_, fun d => ?_⟩
    · refine List.nodup_append.2 ⟨h.waiting, by simp, fun a ha b hb heq => ?_⟩
      obtain rfl := List.mem_singleton.1 hb
      exact hfree (heq ▸ ha)
    · change d ∈ r.channel.waiting ++ [f.collection] ↔
        ((r.update { f with stream, held? := some _ }).inHand? d).isSome
      by_cases hd : d = f.collection
      · subst hd
        rw [inHand?_update_self (f := { f with stream, held? := some _ }) hf]
        simp
      · rw [inHand?_update_of_ne (f := { f with stream, held? := some _ }) r hd, ← h.mem_waiting]
        simp [hd]

end Orderly

/-! ## Work -/

section Work

variable {s : MemoryStore} {r : Relay FeedReader} {f : Forwarder FeedReader} {c : Collection}

/-- How many feeds a forwarder can still send. -/
def toSend (s : MemoryStore) (f : Forwarder FeedReader) : Nat :=
  DocumentStore.backlog s f.stream + if f.held?.isSome then 1 else 0

/-- The steps that a forwarder can still take, and one. -/
def toDo (s : MemoryStore) (f : Forwarder FeedReader) : Nat :=
  DocumentStore.backlog s f.stream + toSend s f + 1

/-- How many feeds can still be received. -/
def pending (s : MemoryStore) (r : Relay FeedReader) : Nat :=
  r.channel.queue.length + r.weigh (toSend s)

theorem backlog_dropStream (s : MemoryStore) (stream other : FeedReader) :
    DocumentStore.backlog (DocumentStore.dropStream s stream) other =
      DocumentStore.backlog s other := by
  obtain ⟨n, hn⟩ := Delivery.feeds_countReaders s stream.collection other.collection (· - 1)
  change ((s.countReaders _ _).feeds.get _).unread _ = _
  rw [hn]
  rfl

theorem toSend_dropStream (s : MemoryStore) (stream : FeedReader) :
    toSend (DocumentStore.dropStream s stream) = toSend s :=
  funext fun f => by simp only [toSend, backlog_dropStream]

theorem toDo_dropStream (s : MemoryStore) (stream : FeedReader) :
    toDo (DocumentStore.dropStream s stream) = toDo s :=
  funext fun f => by simp only [toDo, toSend_dropStream, backlog_dropStream]

theorem backlog_of_next {stream stream' : FeedReader} {result : Except StoreError ChangeEvent}
    (h : DocumentStore.next s stream = .item result stream') :
    DocumentStore.backlog s stream = DocumentStore.backlog s stream' + 1 := by
  obtain ⟨item, hread, hstream, -⟩ := Delivery.next_eq_item h
  have hunread := (Feed.ahead_of_read_eq_some hread).2.1
  rw [hstream]
  exact hunread

/-- A forwarder that stops takes its work with it. -/
theorem work_remove (hr : r.live.Nodup) (hf : r.forwarder? c = some f) (stream : FeedReader) :
    (r.remove c).weigh (toDo (DocumentStore.dropStream s stream)) < r.weigh (toDo s) ∧
      (r.remove c).weigh (toSend (DocumentStore.dropStream s stream)) ≤ r.weigh (toSend s) := by
  rw [toDo_dropStream, toSend_dropStream]
  have hdo := weigh_remove hr hf (toDo s)
  have hsend := weigh_remove hr hf (toSend s)
  have hpos : 0 < toDo s f := Nat.succ_pos _
  omega

/-- A forwarder that is left with less to read, or as much and less in hand, has less to do. -/
theorem toDo_lt {f' : Forwarder FeedReader}
    (hback : DocumentStore.backlog s f'.stream ≤ DocumentStore.backlog s f.stream)
    (hsend : toSend s f' ≤ toSend s f)
    (hless : DocumentStore.backlog s f'.stream < DocumentStore.backlog s f.stream ∨
      toSend s f' < toSend s f) : toDo s f' < toDo s f := by
  unfold toDo
  omega

/-- Every step of a forwarder lessens the work, and none adds to what can be received. -/
theorem work_of_acts {out : Relay FeedReader × MemoryStore} (hr : r.live.Nodup)
    (hf : r.forwarder? f.collection = some f) (hacts : r.Acts s f out) :
    out.1.weigh (toDo out.2) < r.weigh (toDo s) ∧ pending out.2 out.1 ≤ pending s r := by
  cases hacts with
  | lost | ended =>
    obtain ⟨hdo, hsend⟩ := work_remove (s := s) hr hf f.stream
    exact ⟨hdo, Nat.add_le_add_left hsend _⟩
  | @failed e stream hheld hnext =>
    obtain ⟨hdo, hsend⟩ := work_remove (s := s) hr hf stream
    exact ⟨hdo, Nat.add_le_add_left hsend _⟩
  | @sent feed waiting hheld hreceiver hturn hroom =>
    have hone : toSend s f = toSend s { f with held? := none } + 1 := by simp [toSend, hheld]
    have hdo : toDo s { f with held? := none } < toDo s f :=
      toDo_lt (Nat.le_refl _) (by omega) (.inr (by omega))
    refine ⟨weigh_update_lt (f := { f with held? := none }) hr hf hdo, ?_⟩
    have hsend := weigh_update (f := { f with held? := none }) hr hf (toSend s)
    change (r.channel.queue ++ [feed]).length +
      (r.update { f with held? := none }).weigh (toSend s) ≤ pending s r
    rw [List.length_append, List.length_singleton, pending]
    omega
  | @skipped event stream hheld hnext hbeat =>
    have hback := backlog_of_next hnext
    have hsend : toSend s { f with stream } ≤ toSend s f := by simp [toSend, hheld, hback]
    have hdo : toDo s { f with stream } < toDo s f :=
      toDo_lt (by dsimp only; omega) hsend (.inl (by dsimp only; omega))
    exact ⟨weigh_update_lt (f := { f with stream }) hr hf hdo,
      Nat.add_le_add_left (weigh_update_le (f := { f with stream }) hr hf hsend) _⟩
  | @took event stream hheld hnext hbeat =>
    have hback := backlog_of_next hnext
    let taken := { f with stream, held? := some (.ofEvent f.collection event) }
    have hsend : toSend s taken ≤ toSend s f := by simp [taken, toSend, hheld, hback]
    have hdo : toDo s taken < toDo s f :=
      toDo_lt (by dsimp only [taken]; omega) hsend (.inl (by dsimp only [taken]; omega))
    exact ⟨weigh_update_lt (f := taken) hr hf hdo,
      Nat.add_le_add_left (weigh_update_le (f := taken) hr hf hsend) _⟩

end Work

/-! ## Rest -/

section Rest

variable {s : MemoryStore} {r : Relay FeedReader} {c : Collection}

/-- Whether no forwarder can take a step. -/
def AtRest (s : MemoryStore) (r : Relay FeedReader) : Prop := ∀ c, r.act s c = none

theorem actAny_eq_none {cs : List Collection} (h : r.actAny s cs = none) :
    ∀ c ∈ cs, r.act s c = none := by
  induction cs with
  | nil => simp
  | cons c cs ih =>
    simp only [actAny] at h
    split at h
    · cases h
    · rename_i hnone
      exact List.forall_mem_cons.2 ⟨hnone, ih h⟩

theorem act_of_actAny {cs : List Collection} {out : Relay FeedReader × MemoryStore}
    (h : r.actAny s cs = some out) : ∃ c, r.act s c = some out := by
  induction cs with
  | nil => cases h
  | cons c cs ih =>
    simp only [actAny] at h
    split at h
    · rename_i hact
      exact ⟨c, hact.trans h⟩
    · exact ih h

/-- A step of a forwarder keeps the turns, lessens the work and does not add to what can be
received. -/
theorem orderly_act (h : r.Orderly) {out : Relay FeedReader × MemoryStore}
    (hact : r.act s c = some out) :
    out.1.Orderly ∧ out.1.weigh (toDo out.2) < r.weigh (toDo s) ∧
      pending out.2 out.1 ≤ pending s r := by
  obtain ⟨f, hf, hacts⟩ := acts_of_act hact
  obtain rfl := collection_of_forwarder? hf
  exact ⟨orderly_of_acts h hf hacts, work_of_acts h.live hf hacts⟩

theorem settleFor_atRest {fuel : Nat} (h : r.Orderly) (hfuel : r.weigh (toDo s) ≤ fuel) :
    let out := settleFor fuel s r
    out.1.Orderly ∧ AtRest out.2 out.1 ∧ pending out.2 out.1 ≤ pending s r := by
  induction fuel generalizing s r with
  | zero =>
    refine ⟨h, fun c => ?_, Nat.le_refl _⟩
    cases hact : r.act s c with
    | none => exact hact
    | some out => exact absurd (orderly_act h hact).2.1 (by omega)
  | succ fuel ih =>
    simp only [settleFor]
    cases hany : r.actAny s Collection.all with
    | none =>
      exact ⟨h, fun c => actAny_eq_none hany c (Collection.mem_all c), Nat.le_refl _⟩
    | some out =>
      obtain ⟨c, hact⟩ := act_of_actAny hany
      obtain ⟨horderly, hless, hpending⟩ := orderly_act h hact
      have hfuel' : out.1.weigh (toDo out.2) ≤ fuel := by omega
      obtain ⟨horderly', hrest, hpending'⟩ := ih horderly hfuel'
      exact ⟨horderly', hrest, Nat.le_trans hpending' hpending⟩

theorem work_le_stepBound (s : MemoryStore) (r : Relay FeedReader) :
    r.weigh (toDo s) ≤ r.stepBound s := by
  rw [stepBound, ← List.sum_eq_foldl_nat, weigh]
  induction r.forwarders with
  | nil => exact Nat.le_refl _
  | cons f forwarders ih =>
    simp only [List.map_cons, List.sum_cons, toDo, toSend] at ih ⊢
    split <;> omega

theorem pending_le_receivable (s : MemoryStore) (r : Relay FeedReader) :
    pending s r ≤ r.receivable s := by
  rw [receivable, ← List.sum_eq_foldl_nat, pending, weigh]
  refine Nat.add_le_add_left ?_ _
  induction r.forwarders with
  | nil => exact Nat.le_refl _
  | cons f forwarders ih =>
    simp only [List.map_cons, List.sum_cons, toSend] at ih ⊢
    split <;> omega

/-- When nothing can be received any more the relay is at rest. -/
theorem atRest_of_pending_eq_zero (h : r.Orderly) (hpending : pending s r = 0) : AtRest s r := by
  intro c
  cases hact : r.act s c with
  | none => rfl
  | some out =>
    obtain ⟨f, hf, hacts⟩ := acts_of_act hact
    have hzero : toSend s f = 0 := by
      have hsend := weigh_remove h.live hf (toSend s)
      rw [pending] at hpending
      omega
    rw [toSend] at hzero
    cases hacts with
    | lost hheld | sent hheld => simp [hheld] at hzero
    | ended hheld hnext => exact absurd hnext (Delivery.next_ne_ended _ _)
    | failed hheld hnext | skipped hheld hnext | took hheld hnext =>
      have hback := backlog_of_next hnext
      omega

/-- Receiving often enough leaves nothing to receive. -/
theorem receiveUpTo_atRest {n : Nat} (h : r.Orderly) (hn : pending s r ≤ n) :
    let out := receiveUpTo n s r
    out.2.1.Orderly ∧ AtRest out.2.2 out.2.1 ∧ out.2.1.channel.queue = [] := by
  induction n generalizing s r with
  | zero =>
    have hzero : pending s r = 0 := by omega
    refine ⟨h, atRest_of_pending_eq_zero h hzero, List.eq_nil_of_length_eq_zero ?_⟩
    rw [pending] at hzero
    simp only [receiveUpTo]
    omega
  | succ n ih =>
    obtain ⟨horderly, hrest, hpending⟩ := settleFor_atRest h (work_le_stepBound s r)
    simp only [receiveUpTo, settle]
    generalize settleFor (r.stepBound s) s r = settled at horderly hrest hpending
    obtain ⟨r', s'⟩ := settled
    simp only at horderly hrest hpending ⊢
    cases hq : r'.channel.queue with
    | nil => simpa [receive, hq] using ⟨horderly, hrest⟩
    | cons feed queue =>
      simp only [receive, hq]
      refine ih ⟨horderly.live, horderly.waiting, horderly.mem_waiting⟩ ?_
      rw [pending, hq, List.length_cons] at hpending
      change queue.length + r'.weigh (toSend s') ≤ n
      omega

end Rest

end Relay

end TrialBoard
