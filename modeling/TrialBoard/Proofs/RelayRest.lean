import TrialBoard.Proofs.RelayDelivery

/-!
# The rest that a relay comes to

The forwarders of a relay take their steps in any order until none is possible. After one event at a
relay at rest it makes no difference in which. An event that is published, or a receive, sets only
one forwarder going, for the others wait for a turn that does not come or for an item. When the
receiver is dropped every forwarder that holds a feed stops, and they do not wait for one another.

What is said of the store here is only what its streams give, so it is the same for any store that
reads alike (`MemoryStore.Alike`).
-/

namespace TrialBoard

/-! ## Stores that read alike -/

/-- Whether the streams of two stores give the same items, and both fail in the same ways. -/
structure MemoryStore.Alike (s s' : MemoryStore) : Prop where
  faults : s'.faults = s.faults
  feeds : ∀ c, ∃ n, s'.feeds.get c = { s.feeds.get c with readers := n }

namespace MemoryStore

variable {s s' t t' : MemoryStore}

theorem Alike.refl (s : MemoryStore) : s.Alike s := ⟨rfl, fun _ => ⟨_, rfl⟩⟩

theorem Alike.symm (h : s.Alike s') : s'.Alike s := by
  refine ⟨h.faults.symm, fun c => ?_⟩
  obtain ⟨n, hn⟩ := h.feeds c
  exact ⟨(s.feeds.get c).readers, by rw [hn]⟩

theorem Alike.trans (h : s.Alike s') (h' : s'.Alike t) : s.Alike t := by
  refine ⟨h'.faults.trans h.faults, fun c => ?_⟩
  obtain ⟨n, hn⟩ := h.feeds c
  obtain ⟨m, hm⟩ := h'.feeds c
  exact ⟨m, by rw [hm, hn]⟩

theorem alike_countReaders (s : MemoryStore) (c : Collection) (f : Nat → Nat) :
    s.Alike (s.countReaders c f) :=
  ⟨rfl, fun d => Delivery.feeds_countReaders s c d f⟩

theorem alike_dropStream (s : MemoryStore) (stream : FeedReader) :
    s.Alike (DocumentStore.dropStream s stream) :=
  alike_countReaders s stream.collection (· - 1)

theorem alike_dropStreams (s : MemoryStore) (forwarders : List (Forwarder FeedReader)) :
    s.Alike (forwarders.foldl (fun s f => DocumentStore.dropStream s f.stream) s) := by
  induction forwarders generalizing s with
  | nil => exact .refl s
  | cons f forwarders ih => exact (alike_dropStream s f.stream).trans (ih _)

theorem Alike.publish (h : s.Alike s') (rows rows' : ByCollection (List Document))
    (c : Collection) (item : FeedItem) :
    ({ s with rows }.publish c item).Alike ({ s' with rows := rows' }.publish c item) := by
  refine ⟨h.faults, fun d => ?_⟩
  obtain ⟨n, hn⟩ := h.feeds d
  by_cases hd : d = c
  · subst hd
    refine ⟨n, ?_⟩
    simp only [MemoryStore.publish, ByCollection.get_set_self, hn]
    rfl
  · refine ⟨n, ?_⟩
    simp only [MemoryStore.publish, ByCollection.get_set_of_ne _ hd, hn]

theorem Alike.next (h : s.Alike s') (stream : FeedReader) :
    DocumentStore.next s' stream = DocumentStore.next s stream := by
  obtain ⟨n, hn⟩ := h.feeds stream.collection
  change s'.next stream = s.next stream
  rw [MemoryStore.next, MemoryStore.next, hn]
  rfl

end MemoryStore

namespace Relay

variable {s s' : MemoryStore} {r : Relay FeedReader} {c d : Collection}

instance (s : MemoryStore) (r : Relay FeedReader) : Decidable (AtRest s r) :=
  decidable_of_iff (∀ c ∈ Collection.all, (r.act s c).isNone = true)
    ⟨fun h c => Option.isNone_iff_eq_none.1 (h c (Collection.mem_all c)),
      fun h c _ => Option.isNone_iff_eq_none.2 (h c)⟩

/-! ## Steps in any order -/

/-- A relay after a step of the forwarder of a collection, if it can take one. -/
def advance (s : MemoryStore) (r : Relay FeedReader) (c : Collection) : Relay FeedReader :=
  ((r.act s c).map Prod.fst).getD r

/-- A relay after steps of its forwarders. -/
def advanceAll (s : MemoryStore) (r : Relay FeedReader) (cs : List Collection) :
    Relay FeedReader :=
  cs.foldl (advance s) r

theorem advance_of_act_eq_none (h : r.act s c = none) : advance s r c = r := by
  simp [advance, h]

theorem advanceAll_append (s : MemoryStore) (r : Relay FeedReader) (cs ds : List Collection) :
    advanceAll s r (cs ++ ds) = advanceAll s (advanceAll s r cs) ds := List.foldl_append

theorem advanceAll_of_atRest (h : AtRest s r) (cs : List Collection) : advanceAll s r cs = r := by
  induction cs with
  | nil => rfl
  | cons c cs ih =>
    rw [advanceAll, List.foldl_cons, advance_of_act_eq_none (h c)]
    exact ih

section Reads

variable (h : ∀ stream, DocumentStore.next s' stream = DocumentStore.next s stream)

include h

/-- All that a step asks of a store is what its streams give. -/
theorem act_of_next (r : Relay FeedReader) (c : Collection) :
    (r.act s' c).map Prod.fst = (r.act s c).map Prod.fst := by
  unfold act
  cases r.forwarder? c with
  | none => rfl
  | some f =>
    cases hheld : f.held? with
    | some feed =>
      simp only [hheld, send]
      split
      · rfl
      · split
        · split <;> rfl
        · rfl
    | none =>
      simp only [hheld, take, h f.stream]
      cases DocumentStore.next s f.stream with
      | pending stream => rfl
      | ended => rfl
      | item result stream =>
        cases result with
        | error e => rfl
        | ok event => simp only []; split <;> rfl

theorem atRest_of_next (hrest : AtRest s r) : AtRest s' r := by
  intro c
  have hact := act_of_next h r c
  rw [hrest c] at hact
  exact Option.map_eq_none_iff.1 hact

theorem advanceAll_of_next (r : Relay FeedReader) (cs : List Collection) :
    advanceAll s' r cs = advanceAll s r cs := by
  have hsame : advance s' = advance s := by
    funext r c
    rw [advance, advance, act_of_next h]
  rw [advanceAll, advanceAll, hsame]

end Reads

theorem alike_of_act {out : Relay FeedReader × MemoryStore} (h : r.act s c = some out) :
    s.Alike out.2 := by
  obtain ⟨f, -, hacts⟩ := acts_of_act h
  cases hacts with
  | lost | ended | failed => exact MemoryStore.alike_dropStream s _
  | sent | skipped | took => exact .refl s

/-! ## One rest -/

/-- Whether a relay comes to the same rest whatever the order of the steps. -/
def Determinate (s : MemoryStore) (r : Relay FeedReader) : Prop :=
  ∀ cs ds, AtRest s (advanceAll s r cs) → AtRest s (advanceAll s r ds) →
    advanceAll s r cs = advanceAll s r ds

theorem determinate_of_atRest (h : AtRest s r) : Determinate s r := fun cs ds _ _ => by
  rw [advanceAll_of_atRest h, advanceAll_of_atRest h]

theorem determinate_of_alike (h : s.Alike s') (hr : Determinate s r) : Determinate s' r := by
  intro cs ds hcs hds
  rw [advanceAll_of_next h.next] at hcs hds ⊢
  rw [advanceAll_of_next h.next]
  exact hr cs ds (atRest_of_next h.symm.next hcs) (atRest_of_next h.symm.next hds)

/-- It does if one forwarder is all that ever moves. -/
theorem determinate_of_sole {p : Relay FeedReader → Prop} (hr : p r)
    (hsole : ∀ r, p r → ∀ d, d ≠ c → r.act s d = none)
    (hstep : ∀ r, p r → p (advance s r c)) : Determinate s r := by
  -- All that counts of the steps is then how many of them are the forwarder's.
  have hcount : ∀ cs r, p r →
      advanceAll s r cs = advanceAll s r (List.replicate (cs.count c) c) := by
    intro cs
    induction cs with
    | nil => exact fun _ _ => rfl
    | cons d cs ih =>
      intro r hr
      by_cases hd : d = c
      · subst hd
        rw [List.count_cons_self, List.replicate_succ]
        exact ih _ (hstep r hr)
      · rw [List.count_cons_of_ne hd, ← ih r hr, advanceAll, List.foldl_cons,
          advance_of_act_eq_none (hsole r hr d hd)]
        rfl
  have hmore : ∀ m n, m ≤ n → AtRest s (advanceAll s r (List.replicate m c)) →
      advanceAll s r (List.replicate n c) = advanceAll s r (List.replicate m c) := by
    intro m n hmn hrest
    obtain ⟨k, rfl⟩ := Nat.exists_eq_add_of_le hmn
    rw [List.replicate_add, advanceAll_append, advanceAll_of_atRest hrest]
  intro cs ds hcs hds
  rw [hcount cs r hr] at hcs ⊢
  rw [hcount ds r hr] at hds ⊢
  rcases Nat.le_total (cs.count c) (ds.count c) with hle | hle
  · exact (hmore _ _ hle hcs).symm
  · exact hmore _ _ hle hds

/-! ## Only one forwarder moves -/

/-- Whether a forwarder has nothing before it. -/
def Idles (s : MemoryStore) (f : Forwarder FeedReader) : Prop :=
  ∃ stream, DocumentStore.next s f.stream = .pending stream

/-- Whether only the forwarder of a collection can move, now or after it has: the others that hold
a feed wait for a turn that does not come. -/
structure OnlyMoves (s : MemoryStore) (r : Relay FeedReader) (c : Collection) : Prop where
  orderly : r.Orderly
  idle : ∀ d, d ≠ c → ∀ f, r.forwarder? d = some f → f.held? = none → Idles s f
  turns : (∀ d ∈ r.channel.waiting, d = c) ∨
    r.channel.hasReceiver = true ∧ r.channel.capacity ≤ r.channel.queue.length ∨
    r.channel.hasReceiver = true ∧ r.channel.waiting.head? = some c ∧
      r.channel.capacity ≤ r.channel.queue.length + 1

theorem mem_waiting_of_held (h : r.Orderly) {f : Forwarder FeedReader} {feed : ChangeFeed}
    (hf : r.forwarder? c = some f) (hheld : f.held? = some feed) : c ∈ r.channel.waiting := by
  rw [h.mem_waiting, inHand?_of hf, hheld]
  rfl

theorem not_mem_waiting_of_free (h : r.Orderly) {f : Forwarder FeedReader}
    (hf : r.forwarder? c = some f) (hheld : f.held? = none) : c ∉ r.channel.waiting := by
  rw [h.mem_waiting, inHand?_of hf, hheld]
  exact Bool.false_ne_true

/-- A forwarder with empty hands that stops leaves the turns as they are. -/
theorem filter_waiting_of_free (h : r.Orderly) {f : Forwarder FeedReader}
    (hf : r.forwarder? c = some f) (hheld : f.held? = none) :
    r.channel.waiting.filter (· != c) = r.channel.waiting := by
  refine List.filter_eq_self.2 fun d hd => ?_
  have hne : d ≠ c := fun heq => not_mem_waiting_of_free h hf hheld (heq ▸ hd)
  simpa using hne

/-- With no receiver there is no turn that others could wait for. -/
theorem OnlyMoves.sole_of_lost (h : OnlyMoves s r c) (hreceiver : r.channel.hasReceiver = false) :
    ∀ d ∈ r.channel.waiting, d = c := by
  rcases h.turns with hsole | ⟨hhas, -⟩ | ⟨hhas, -⟩
  · exact hsole
  · exact absurd hreceiver (by simp [hhas])
  · exact absurd hreceiver (by simp [hhas])

theorem OnlyMoves.act_eq_none (h : OnlyMoves s r c) (hd : d ≠ c) : r.act s d = none := by
  cases hact : r.act s d with
  | none => rfl
  | some out =>
    obtain ⟨f, hf, hacts⟩ := acts_of_act hact
    obtain rfl := collection_of_forwarder? hf
    have hidle : f.held? = none → Idles s f := h.idle _ hd f hf
    cases hacts with
    | lost hheld hreceiver =>
      exact absurd (h.sole_of_lost hreceiver _ (mem_waiting_of_held h.orderly hf hheld)) hd
    | sent hheld hreceiver hturn hroom =>
      have hmem := mem_waiting_of_held h.orderly hf hheld
      rcases h.turns with hsole | ⟨-, hfull⟩ | ⟨-, hhead, -⟩
      · exact absurd (hsole _ hmem) hd
      · omega
      · rw [hturn] at hhead
        exact absurd (Option.some.inj hhead) hd
    | ended hheld hnext | failed hheld hnext | skipped hheld hnext | took hheld hnext =>
      obtain ⟨stream, hpending⟩ := hidle hheld
      rw [hpending] at hnext
      cases hnext

theorem OnlyMoves.idle_update (h : OnlyMoves s r c) {g : Forwarder FeedReader}
    (hg : g.collection = c) :
    ∀ d, d ≠ c → ∀ f, (r.update g).forwarder? d = some f → f.held? = none → Idles s f := by
  intro d hd f hf
  rw [forwarder?_update_of_ne r (hg ▸ hd)] at hf
  exact h.idle d hd f hf

theorem OnlyMoves.idle_remove (h : OnlyMoves s r c) :
    ∀ d, d ≠ c → ∀ f, (r.remove c).forwarder? d = some f → f.held? = none → Idles s f := by
  intro d hd f hf
  rw [forwarder?_remove_of_ne r hd] at hf
  exact h.idle d hd f hf

theorem OnlyMoves.of_acts {f : Forwarder FeedReader} {out : Relay FeedReader × MemoryStore}
    (h : OnlyMoves s r f.collection) (hf : r.forwarder? f.collection = some f)
    (hacts : r.Acts s f out) : OnlyMoves s out.1 f.collection := by
  have horderly := orderly_of_acts h.orderly hf hacts
  cases hacts with
  | lost hheld hreceiver =>
    exact ⟨horderly, h.idle_remove,
      .inl fun d hd => h.sole_of_lost hreceiver d (List.mem_filter.1 hd).1⟩
  | ended hheld | failed hheld =>
    have hturns := h.turns
    rw [← filter_waiting_of_free h.orderly hf hheld] at hturns
    exact ⟨horderly, h.idle_remove, hturns⟩
  | @sent feed waiting hheld hreceiver hturn hroom =>
    refine ⟨horderly, h.idle_update (g := { f with held? := none }) rfl, ?_⟩
    rcases h.turns with hsole | ⟨hhas, hfull⟩ | ⟨hhas, -, hfull⟩
    · exact .inl fun d hd => hsole d (hturn ▸ List.mem_cons_of_mem _ hd)
    · omega
    · exact .inr (.inl ⟨hhas, by rw [List.length_append]; exact hfull⟩)
  | @skipped event stream hheld =>
    exact ⟨horderly, h.idle_update (g := { f with stream }) rfl, h.turns⟩
  | @took event stream hheld =>
    refine ⟨horderly, h.idle_update (g := { f with stream, held? := _ }) rfl, ?_⟩
    rcases h.turns with hsole | ⟨hhas, hfull⟩ | ⟨hhas, hhead, hfull⟩
    · refine .inl fun d hd => ?_
      rcases List.mem_append.1 hd with hd | hd
      · exact hsole d hd
      · exact List.mem_singleton.1 hd
    · exact .inr (.inl ⟨hhas, hfull⟩)
    · exact absurd (List.mem_of_mem_head? hhead) (not_mem_waiting_of_free h.orderly hf hheld)

theorem OnlyMoves.advance (h : OnlyMoves s r c) : OnlyMoves s (advance s r c) c := by
  unfold Relay.advance
  cases hact : r.act s c with
  | none => exact h
  | some out =>
    obtain ⟨f, hf, hacts⟩ := acts_of_act hact
    obtain rfl := collection_of_forwarder? hf
    exact h.of_acts hf hacts

theorem OnlyMoves.determinate (h : OnlyMoves s r c) : Determinate s r :=
  determinate_of_sole (p := fun r => OnlyMoves s r c) h (fun _ hr _ hd => hr.act_eq_none hd)
    fun _ hr => hr.advance

/-! ## Events at a relay at rest -/

theorem atRest_of_idles (h : ∀ f ∈ r.forwarders, f.held? = none ∧ Idles s f) : AtRest s r := by
  intro c
  unfold act
  cases hf : r.forwarder? c with
  | none => rfl
  | some f =>
    obtain ⟨hheld, stream, hstream⟩ := h f (mem_forwarders hf)
    simp only [hheld, take, hstream]

theorem idles_of_atRest (h : AtRest s r) {f : Forwarder FeedReader} (hf : r.forwarder? c = some f)
    (hheld : f.held? = none) : Idles s f :=
  pending_of_act_eq_none (h c) hf hheld

/-- At rest those who hold a feed wait because there is no room. -/
theorem full_of_atRest (horderly : r.Orderly) (h : AtRest s r) :
    r.channel.waiting = [] ∨
      r.channel.hasReceiver = true ∧ r.channel.capacity ≤ r.channel.queue.length := by
  cases hwaiting : r.channel.waiting with
  | nil => exact .inl rfl
  | cons c waiting =>
    have hin : (r.inHand? c).isSome := by
      rw [← horderly.mem_waiting, hwaiting]
      exact List.mem_cons_self
    obtain ⟨feed, hfeed⟩ := Option.isSome_iff_exists.1 hin
    obtain ⟨f, hf, hheld⟩ := Option.bind_eq_some_iff.1 hfeed
    have hact := h c
    refine .inr ⟨?_, ?_⟩
    · cases hreceiver : r.channel.hasReceiver with
      | true => rfl
      | false => simp [act, hf, hheld, send, hreceiver] at hact
    · refine Nat.le_of_not_lt fun hroom => ?_
      exact act_ne_none_of_turn hf hheld hwaiting hroom hact

/-- Whether the stream of every forwarder is one of its collection. -/
def Aligned (r : Relay FeedReader) : Prop := ∀ f ∈ r.forwarders, f.stream.collection = f.collection

/-- Something published sets only the forwarder of its collection going. -/
theorem determinate_publish (horderly : r.Orderly) (haligned : r.Aligned) (h : AtRest s r)
    (rows : ByCollection (List Document)) (c : Collection) (item : FeedItem) :
    Determinate ({ s with rows }.publish c item) r := by
  refine OnlyMoves.determinate (c := c) ⟨horderly, fun d hd f hf hheld => ?_, ?_⟩
  · obtain ⟨stream, hstream⟩ := idles_of_atRest h hf hheld
    have hcol : f.stream.collection ≠ c := by
      rw [haligned f (mem_forwarders hf), collection_of_forwarder? hf]
      exact hd
    refine ⟨stream, ?_⟩
    change ({ s with rows }.publish c item).next f.stream = _
    rw [← hstream]
    change _ = s.next f.stream
    simp only [MemoryStore.next, MemoryStore.publish, ByCollection.get_set_of_ne _ hcol]
  · rcases full_of_atRest horderly h with hnone | hfull
    · exact .inl (by simp [hnone])
    · exact .inr (.inl hfull)

/-- A receive makes room for the one whose turn it is. -/
theorem determinate_receive (horderly : r.Orderly) (h : AtRest s r) {feed : ChangeFeed}
    {r' : Relay FeedReader} (hreceive : r.receive = some (feed, r')) : Determinate s r' := by
  unfold receive at hreceive
  split at hreceive
  · rename_i queue hqueue
    obtain ⟨rfl, rfl⟩ := Prod.mk.inj (Option.some.inj hreceive)
    have horderly' : Orderly { r with channel := { r.channel with queue } } :=
      ⟨horderly.live, horderly.waiting, horderly.mem_waiting⟩
    have hidle : ∀ c, ∀ f, r.forwarder? c = some f → f.held? = none → Idles s f :=
      fun c f hf hheld => idles_of_atRest h hf hheld
    cases hwaiting : r.channel.waiting with
    | nil =>
      refine OnlyMoves.determinate (c := .tests) ⟨horderly', fun d _ => hidle d, .inl ?_⟩
      simp [hwaiting]
    | cons c waiting =>
      refine OnlyMoves.determinate (c := c) ⟨horderly', fun d _ => hidle d, .inr (.inr ?_)⟩
      rcases full_of_atRest horderly h with hnone | ⟨hhas, hfull⟩
      · rw [hnone] at hwaiting
        cases hwaiting
      · rw [hqueue, List.length_cons] at hfull
        exact ⟨hhas, by simp [hwaiting], hfull⟩
  · cases hreceive

/-! ## Without a receiver -/

theorem forwarder?_of_mem (hlive : r.live.Nodup) {f : Forwarder FeedReader}
    (hf : f ∈ r.forwarders) : r.forwarder? f.collection = some f := by
  obtain ⟨g, hg⟩ := mem_live_iff.1 (List.mem_map_of_mem hf : f.collection ∈ r.live)
  rw [hg, List.inj_on_of_nodup_map hlive hf (mem_forwarders hg) (collection_of_forwarder? hg).symm]

/-- A relay without what its forwarders hold. -/
def emptied (r : Relay FeedReader) : Relay FeedReader :=
  { r with
    forwarders := r.forwarders.filter (·.held?.isNone)
    channel := { r.channel with waiting := [] } }

/-- Whether the only steps of a relay are those of forwarders that stop with what they hold. -/
structure Empties (s : MemoryStore) (r : Relay FeedReader) : Prop where
  orderly : r.Orderly
  receiver : r.channel.hasReceiver = false
  idle : ∀ c f, r.forwarder? c = some f → f.held? = none → Idles s f

theorem emptied_remove {f : Forwarder FeedReader} {feed : ChangeFeed} (horderly : r.Orderly)
    (hf : r.forwarder? c = some f) (hheld : f.held? = some feed) :
    (r.remove c).emptied = r.emptied := by
  have hother : ∀ g ∈ r.forwarders, (g.held?.isNone && g.collection != c) = g.held?.isNone := by
    intro g hg
    by_cases hcol : g.collection = c
    · have hfind := forwarder?_of_mem horderly.live hg
      rw [hcol, hf] at hfind
      obtain rfl := Option.some.inj hfind
      simp [hheld]
    · simp [hcol]
  simp only [emptied, remove, List.filter_filter, List.filter_congr hother]

theorem Empties.advance (h : Empties s r) (c : Collection) :
    Empties s (advance s r c) ∧ (Relay.advance s r c).emptied = r.emptied := by
  unfold Relay.advance
  cases hact : r.act s c with
  | none => exact ⟨h, rfl⟩
  | some out =>
    obtain ⟨f, hf, hacts⟩ := acts_of_act hact
    obtain rfl := collection_of_forwarder? hf
    cases hacts with
    | lost hheld =>
      refine ⟨⟨orderly_remove h.orderly _, h.receiver, fun d g hg hnone => ?_⟩,
        emptied_remove h.orderly hf hheld⟩
      by_cases hd : d = f.collection
      · subst hd
        simp [stop, forwarder?_remove_self] at hg
      · exact h.idle d g ((forwarder?_remove_of_ne r hd).symm.trans hg) hnone
    | sent hheld hreceiver => exact absurd hreceiver (by simp [h.receiver])
    | ended hheld hnext | failed hheld hnext | skipped hheld hnext | took hheld hnext =>
      obtain ⟨stream, hpending⟩ := h.idle _ f hf hheld
      rw [hpending] at hnext
      cases hnext

theorem Empties.advanceAll (h : Empties s r) (cs : List Collection) :
    Empties s (advanceAll s r cs) ∧ (Relay.advanceAll s r cs).emptied = r.emptied := by
  induction cs generalizing r with
  | nil => exact ⟨h, rfl⟩
  | cons c cs ih =>
    obtain ⟨hnext, hsame⟩ := h.advance c
    obtain ⟨hlast, hsame'⟩ := ih hnext
    exact ⟨hlast, hsame'.trans hsame⟩

/-- No forwarder holds anything at rest. -/
theorem Empties.emptied_eq (h : Empties s r) (hrest : AtRest s r) : r.emptied = r := by
  have hempty : ∀ f ∈ r.forwarders, f.held? = none := by
    intro f hf
    cases hheld : f.held? with
    | none => rfl
    | some feed =>
      have hact := hrest f.collection
      simp [act, forwarder?_of_mem h.orderly.live hf, hheld, send, h.receiver] at hact
  have hwaiting : r.channel.waiting = [] := by
    refine List.eq_nil_iff_forall_not_mem.2 fun c hc => ?_
    rw [h.orderly.mem_waiting, inHand?] at hc
    cases hf : r.forwarder? c with
    | none => simp [hf] at hc
    | some f => simp [hf, hempty f (mem_forwarders hf)] at hc
  have hforwarders : r.forwarders.filter (·.held?.isNone) = r.forwarders :=
    List.filter_eq_self.2 fun f hf => by simp [hempty f hf]
  rw [emptied, hforwarders, ← hwaiting]

/-- A dropped receiver stops all that hold a feed. -/
theorem determinate_dropReceiver (horderly : r.Orderly) (h : AtRest s r) :
    Determinate s r.dropReceiver := by
  have hempties : Empties s r.dropReceiver :=
    ⟨⟨horderly.live, horderly.waiting, horderly.mem_waiting⟩, rfl,
      fun c f hf hheld => idles_of_atRest h hf hheld⟩
  intro cs ds hcs hds
  obtain ⟨hlast, hsame⟩ := hempties.advanceAll cs
  obtain ⟨hlast', hsame'⟩ := hempties.advanceAll ds
  rw [← hlast.emptied_eq hcs, ← hlast'.emptied_eq hds, hsame, hsame']

end Relay

end TrialBoard
