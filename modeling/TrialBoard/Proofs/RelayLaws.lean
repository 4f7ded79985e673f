import TrialBoard.Proofs.RelayRun

/-!
# What the run of a relay keeps

`Delivery.Lawful` says of one collection what holds at any time: what was sent is a part of what its
stream gave, and this a part of what was published. As long as there is a receiver and the relay is
open, what was sent and what is in hand are all that the stream gave, and only a failure stops the
forwarder. Nothing in it depends on the other collections.

`Delivery.Whole` adds that nothing published is lost, which needs a forwarder that keeps up.
-/

namespace TrialBoard

namespace Delivery

variable {x x' : Delivery} {c d : Collection} {accepted : List Collection}

/-- What holds of a collection at any time, when the relay was accepted for some collections and
`told` was published in this one since. -/
structure Lawful (accepted : List Collection) (told : List (Except StoreError ChangeEvent))
    (c : Collection) (x : Delivery) : Prop where
  reads : ∀ f, x.relay.forwarder? c = some f → c ∈ accepted ∧ f.stream.collection = c ∧
    (x.store.feeds.get c).Serves f.stream.position ∧ ¬ HasFailure (x.yielded.get c)
  held : ∀ feed ∈ x.held c, feed.table = c
  silent : c ∉ accepted → x.yielded.get c = []
  learns : (x.yielded.get c ++ x.ahead c).Sublist told
  sends : x.sent c <+: feedsOf c (x.yielded.get c)
  closed : x.relay.state = .closed → x.relay.forwarder? c = none
  flows : x.relay.channel.hasReceiver = true → x.relay.state = .subscribed →
    x.sent c ++ x.held c = feedsOf c (x.yielded.get c)
  stops : x.relay.channel.hasReceiver = true → x.relay.state = .subscribed → c ∈ accepted →
    x.relay.forwarder? c = none → HasFailure (x.yielded.get c)

/-- Whether all that concerns a collection is the same in two states. -/
structure SameAt (c : Collection) (x x' : Delivery) : Prop where
  forwarder : x'.relay.forwarder? c = x.relay.forwarder? c
  yielded : x'.yielded.get c = x.yielded.get c
  sent : x'.sent c = x.sent c
  feed : ∃ n, x'.store.feeds.get c = { x.store.feeds.get c with readers := n }
  state : x'.relay.state = x.relay.state
  hasReceiver : x'.relay.channel.hasReceiver = x.relay.channel.hasReceiver

variable {told : List (Except StoreError ChangeEvent)}

theorem held_congr (h : x'.relay.forwarder? c = x.relay.forwarder? c) : x'.held c = x.held c := by
  simp only [held, h]

theorem ahead_congr (h : x'.relay.forwarder? c = x.relay.forwarder? c)
    (hfeed : ∃ n, x'.store.feeds.get c = { x.store.feeds.get c with readers := n }) :
    x'.ahead c = x.ahead c := by
  obtain ⟨n, hn⟩ := hfeed
  simp only [ahead, h, hn]
  rfl

theorem lawful_of_sameAt (h : x.Lawful accepted told c) (hsame : SameAt c x x') :
    x'.Lawful accepted told c := by
  obtain ⟨hforwarder, hyielded, hsent, hfeed, hstate, hreceiver⟩ := hsame
  have hheld := held_congr hforwarder
  have hahead := ahead_congr hforwarder hfeed
  refine ⟨?_, hheld ▸ h.held, hyielded ▸ h.silent, by rw [hyielded, hahead]; exact h.learns,
    by rw [hsent, hyielded]; exact h.sends, by rw [hstate, hforwarder]; exact h.closed,
    by rw [hreceiver, hstate, hsent, hheld, hyielded]; exact h.flows,
    by rw [hreceiver, hstate, hforwarder, hyielded]; exact h.stops⟩
  obtain ⟨n, hn⟩ := hfeed
  intro f hf
  obtain ⟨hacc, hcol, hserves, hunfailed⟩ := h.reads f (hforwarder ▸ hf)
  exact ⟨hacc, hcol, hn ▸ ⟨hserves.reached, hserves.kept⟩, hyielded ▸ hunfailed⟩

/-- A collection whose forwarder has stopped needs no care any more. -/
theorem lawful_of_stopped (h : x.Lawful accepted told c)
    (hforwarder : x'.relay.forwarder? c = none) (hyielded : x'.yielded.get c = x.yielded.get c)
    (hsent : x'.sent c <+: x.sent c)
    (hover : x'.relay.channel.hasReceiver = false ∨ x'.relay.state = .closed) :
    x'.Lawful accepted told c := by
  have hheld : x'.held c = [] := by simp [held, hforwarder]
  have hahead : x'.ahead c = [] := by simp [ahead, hforwarder]
  have hnot : x'.relay.channel.hasReceiver = true → x'.relay.state = .subscribed → False := by
    intro hreceiver hstate
    rcases hover with hover | hover <;> simp_all
  refine ⟨by simp [hforwarder], by simp [hheld], hyielded ▸ h.silent, ?_, ?_, fun _ => hforwarder,
    fun hr hs => (hnot hr hs).elim, fun hr hs => (hnot hr hs).elim⟩
  · rw [hyielded, hahead, List.append_nil]
    exact (List.sublist_append_left _ _).trans h.learns
  · rw [hyielded]
    exact hsent.trans h.sends

theorem sameAt_publish (rows : ByCollection (List Document)) (item : FeedItem) (h : c ≠ d) :
    SameAt c x (x.step (.publish rows d item)) :=
  ⟨rfl, rfl, rfl, ⟨_, ByCollection.get_set_of_ne _ h _⟩, rfl, rfl⟩

theorem lawful_publish_self (h : x.Lawful accepted told c)
    (rows : ByCollection (List Document)) (item : FeedItem) :
    (x.step (.publish rows c item)).Lawful accepted (told ++ [asResult c item]) c := by
  have hfeed : (x.step (.publish rows c item)).store.feeds.get c =
      (x.store.feeds.get c).publish item := ByCollection.get_set_self _ _ _
  refine ⟨fun f hf => ?_, h.held, h.silent, ?_, h.sends, h.closed, h.flows, h.stops⟩
  · obtain ⟨hacc, hcol, hserves, hunfailed⟩ := h.reads f hf
    exact ⟨hacc, hcol, hfeed ▸ Feed.serves_publish hserves item, hunfailed⟩
  · have hlearns := h.learns
    have hfor : (x.step (.publish rows c item)).relay.forwarder? c = x.relay.forwarder? c := rfl
    have hyie : (x.step (.publish rows c item)).yielded.get c = x.yielded.get c := rfl
    simp only [ahead, hfor, hyie, hfeed] at hlearns ⊢
    cases hf : x.relay.forwarder? c with
    | none =>
      simp only [hf] at hlearns ⊢
      exact hlearns.trans (List.sublist_append_left _ _)
    | some f =>
      simp only [hf] at hlearns ⊢
      obtain ⟨-, -, hserves, -⟩ := h.reads f hf
      have hahead := (Feed.ahead_publish_sublist hserves.reached item).map (asResult c)
      rw [List.map_append] at hahead
      refine ((List.Sublist.refl _).append hahead).trans ?_
      rw [← List.append_assoc]
      exact hlearns.append_right _

theorem sameAt_inject (faults : Faults) : SameAt c x (x.step (.inject faults)) :=
  ⟨rfl, rfl, rfl, ⟨_, rfl⟩, rfl, rfl⟩

theorem sameAt_receive : SameAt c x (x.step .receive) := by
  simp only [step, Relay.receive]
  cases hq : x.relay.channel.queue with
  | nil => exact ⟨rfl, rfl, rfl, ⟨_, rfl⟩, rfl, rfl⟩
  | cons feed queue => exact ⟨rfl, rfl, by simp [sent, hq], ⟨_, rfl⟩, rfl, rfl⟩

theorem sameAt_act (h : c ≠ d) (htable : ∀ feed ∈ x.held d, feed.table = d) :
    SameAt c x (x.step (.act d)) := by
  obtain ⟨hforwarder, hyielded, hsent⟩ := act_other h htable
  have hframe := frame_act x d
  exact ⟨hforwarder, hyielded, hsent, hframe.feeds c, hframe.state, hframe.hasReceiver⟩

theorem told_publish (rows : ByCollection (List Document)) (d : Collection) (item : FeedItem) :
    Step.told c (.publish rows d item) = if d = c then [asResult c item] else [] := rfl

theorem lawful_dropReceiver (h : x.Lawful accepted told c) :
    (x.step .dropReceiver).Lawful accepted told c := by
  have hsent : (x.step .dropReceiver).sent c <+: x.sent c := by
    simp only [sent, step, Relay.dropReceiver, List.append_nil, List.filter_append]
    exact List.prefix_append _ _
  refine ⟨h.reads, h.held, h.silent, h.learns, hsent.trans h.sends, h.closed,
    fun hr => (Bool.false_ne_true hr).elim, fun hr => (Bool.false_ne_true hr).elim⟩

theorem lawful_close (h : x.Lawful accepted told c) : (x.step .close).Lawful accepted told c := by
  cases hstate : x.relay.state with
  | closed =>
    have hclose : x.step .close = x := by simp [step, Relay.close, hstate]
    exact hclose.symm ▸ h
  | subscribed =>
    refine lawful_of_stopped h ?_ rfl ?_ (.inr ?_)
    · simp [step, Relay.close, hstate, Relay.forwarder?]
    · simp [step, Relay.close, hstate, sent]
    · simp [step, Relay.close, hstate]

section Learnt

/-! A forwarder with nothing in hand reads an item. -/

variable {f : Forwarder FeedReader} {item : FeedItem} {position : Nat}

theorem learns_learnt (h : x.Lawful accepted told c) (hf : x.relay.forwarder? c = some f)
    (hread : (x.store.feeds.get c).read f.stream.position = some (item, position))
    (hyielded : x'.yielded.get c = x.yielded.get c ++ [asResult c item]) :
    (x'.yielded.get c ++ ((x.store.feeds.get c).ahead position).map (asResult c)).Sublist told := by
  have hlearns := h.learns
  obtain ⟨hahead, -, -⟩ := Feed.ahead_of_read_eq_some hread
  simp only [ahead, hf, hahead, List.map_cons] at hlearns
  rwa [List.append_cons, ← hyielded] at hlearns

theorem feedsOf_learnt (h : x.Lawful accepted told c) (hf : x.relay.forwarder? c = some f)
    (hyielded : x'.yielded.get c = x.yielded.get c ++ [asResult c item]) :
    feedsOf c (x'.yielded.get c) = feedsOf c (x.yielded.get c) ++ feedsOf c [asResult c item] := by
  obtain ⟨-, -, -, hunfailed⟩ := h.reads f hf
  rw [hyielded, feedsOf_append hunfailed]

theorem sent_learnt (h : x.Lawful accepted told c) (hf : x.relay.forwarder? c = some f)
    (hframe : x.Frame x') (hheld : f.held? = none) (hsent : x'.sent c = x.sent c)
    (hreceiver : x'.relay.channel.hasReceiver = true) (hstate : x'.relay.state = .subscribed) :
    x'.sent c = feedsOf c (x.yielded.get c) := by
  have hempty : x.held c = [] := by simp [held, hf, hheld]
  have hflows := h.flows (hframe.hasReceiver ▸ hreceiver) (hframe.state ▸ hstate)
  rwa [hempty, List.append_nil, ← hsent] at hflows

theorem lawful_learnt_error {reason : String} (h : x.Lawful accepted told c)
    (hf : x.relay.forwarder? c = some f) (hframe : x.Frame x') (hheld : f.held? = none)
    (hread : (x.store.feeds.get c).read f.stream.position = some (.error reason, position))
    (hafter : x'.relay.forwarder? c = none)
    (hyielded : x'.yielded.get c = x.yielded.get c ++ [asResult c (.error reason)])
    (hsent : x'.sent c = x.sent c) : x'.Lawful accepted told c := by
  obtain ⟨hacc, -, -, -⟩ := h.reads f hf
  have hnone : x'.held c = [] := by simp [held, hafter]
  have hfeeds : feedsOf c (x'.yielded.get c) = feedsOf c (x.yielded.get c) := by
    rw [feedsOf_learnt h hf hyielded]
    exact List.append_nil _
  refine ⟨by simp [hafter], by simp [hnone], fun hno => absurd hacc hno, ?_, ?_, fun _ => hafter,
    fun hr hs => ?_, fun _ _ _ _ => ?_⟩
  · simp only [ahead, hafter, List.append_nil]
    exact (List.sublist_append_left _ _).trans (learns_learnt h hf hread hyielded)
  · rw [hsent, hfeeds]
    exact h.sends
  · rw [hnone, List.append_nil, hfeeds]
    exact sent_learnt h hf hframe hheld hsent hr hs
  · rw [hyielded]
    exact ⟨_, List.mem_append_right _ List.mem_cons_self⟩

theorem lawful_learnt_ok {event : ChangeEvent} (h : x.Lawful accepted told c)
    (hf : x.relay.forwarder? c = some f) (hframe : x.Frame x') (hheld : f.held? = none)
    (hread : (x.store.feeds.get c).read f.stream.position = some (.ok event, position))
    (hafter : x'.relay.forwarder? c = afterReading f position (.ok event))
    (hyielded : x'.yielded.get c = x.yielded.get c ++ [asResult c (.ok event)])
    (hsent : x'.sent c = x.sent c) : x'.Lawful accepted told c := by
  obtain ⟨hacc, hcol, hserves, hunfailed⟩ := h.reads f hf
  obtain ⟨n, hn⟩ := hframe.feeds c
  have hserves' := Feed.serves_of_read_eq_some hserves hread
  have hheld' : x'.held c = feedsOf c [asResult c (.ok event)] := by
    simp only [held, hafter, afterReading, Option.bind_some, asResult, Except.mapError, feedsOf,
      Relay.collection_of_forwarder? hf]
    split <;> rfl
  refine ⟨fun f' hf' => ?_, fun feed hfeed => ?_, fun hno => absurd hacc hno, ?_, ?_,
    fun hstate => ?_, fun hr hs => ?_, fun _ _ _ hnone => ?_⟩
  · obtain rfl : _ = f' := Option.some.inj (hafter ▸ hf')
    refine ⟨hacc, hcol, hn ▸ ⟨hserves'.reached, hserves'.kept⟩, ?_⟩
    rw [hyielded, hasFailure_append]
    rintro (hfail | ⟨e, he⟩)
    · exact hunfailed hfail
    · simp [asResult, Except.mapError] at he
  · exact table_of_mem_feedsOf (hheld' ▸ hfeed)
  · simp only [ahead, hafter, afterReading, hn]
    exact learns_learnt h hf hread hyielded
  · rw [hsent, feedsOf_learnt h hf hyielded]
    exact h.sends.trans (List.prefix_append _ _)
  · simp [h.closed (hframe.state ▸ hstate)] at hf
  · rw [hheld', feedsOf_learnt h hf hyielded, sent_learnt h hf hframe hheld hsent hr hs]
  · simp [hafter, afterReading] at hnone

end Learnt

theorem lawful_act_self (h : x.Lawful accepted told c) :
    (x.step (.act c)).Lawful accepted told c := by
  rcases act_self x c with hsame | ⟨f, hf, hmoved⟩
  · exact hsame.symm ▸ h
  · have hframe := frame_act x c
    obtain ⟨hacc, hcol, hserves, hunfailed⟩ := h.reads f hf
    cases hmoved with
    | dropped hreceiver hafter hyielded hsent =>
      exact lawful_of_stopped h hafter hyielded (hsent ▸ List.prefix_rfl)
        (.inl (hframe.hasReceiver.trans hreceiver))
    | @passed feed hreceiver hheld hafter hyielded hsent =>
      have hopen : x.relay.state = .subscribed := by
        cases hstate : x.relay.state with
        | subscribed => rfl
        | closed => simp [h.closed hstate] at hf
      have hin : x.held c = [feed] := by simp [held, hf, hheld]
      have htable : feed.table = c := h.held feed (by simp [hin])
      have hsent' : (x.step (.act c)).sent c = x.sent c ++ x.held c := by
        simp [hsent, hin, htable]
      have hall : (x.step (.act c)).sent c = feedsOf c ((x.step (.act c)).yielded.get c) := by
        rw [hsent', hyielded, h.flows hreceiver hopen]
      have hempty : (x.step (.act c)).held c = [] := by simp [held, hafter]
      obtain ⟨n, hn⟩ := hframe.feeds c
      have hahead : (x.step (.act c)).ahead c = x.ahead c := by
        simp only [ahead, hafter, hf, hn]
        rfl
      refine ⟨?_, by simp [hempty], fun hno => absurd hacc hno,
        by rw [hyielded, hahead]; exact h.learns, hall ▸ List.prefix_rfl, ?_, fun _ _ => ?_, ?_⟩
      · intro f' hf'
        obtain rfl : _ = f' := Option.some.inj (hafter ▸ hf')
        exact ⟨hacc, hcol, hn ▸ ⟨hserves.reached, hserves.kept⟩, hyielded ▸ hunfailed⟩
      · intro hc
        simp [hframe.state, hopen] at hc
      · rw [hempty, List.append_nil, hall]
      · intro _ _ _ hnone
        simp [hafter] at hnone
    | @learnt item position hheld hread hafter hyielded hsent =>
      rw [hcol] at hread hyielded
      cases item with
      | error reason => exact lawful_learnt_error h hf hframe hheld hread hafter hyielded hsent
      | ok event => exact lawful_learnt_ok h hf hframe hheld hread hafter hyielded hsent

theorem lawful_step {told : Collection → List (Except StoreError ChangeEvent)}
    (h : ∀ c, x.Lawful accepted (told c) c) (step : Step) :
    ∀ c, (x.step step).Lawful accepted (told c ++ step.told c) c := by
  intro c
  cases step with
  | publish rows d item =>
    rw [told_publish]
    by_cases hd : d = c
    · subst hd
      rw [if_pos rfl]
      exact lawful_publish_self (h d) rows item
    · rw [if_neg hd, List.append_nil]
      exact lawful_of_sameAt (h c) (sameAt_publish rows item (Ne.symm hd))
  | inject faults => simpa [Step.told] using lawful_of_sameAt (h c) (sameAt_inject faults)
  | act d =>
    simp only [Step.told, List.append_nil]
    by_cases hd : c = d
    · subst hd
      exact lawful_act_self (h c)
    · exact lawful_of_sameAt (h c) (sameAt_act hd (h d).held)
  | receive => simpa [Step.told] using lawful_of_sameAt (h c) sameAt_receive
  | dropReceiver => simpa [Step.told] using lawful_dropReceiver (h c)
  | close => simpa [Step.told] using lawful_close (h c)

theorem lawful_run (told : Collection → List (Except StoreError ChangeEvent))
    (h : ∀ c, x.Lawful accepted (told c) c) (steps : List Step) :
    ∀ c, (x.run steps).Lawful accepted (told c ++ steps.flatMap (Step.told c)) c := by
  induction steps generalizing x told with
  | nil => simpa [run] using h
  | cons step steps ih => simpa [run] using ih _ (lawful_step h step)

/-! ## Forwarders that keep up -/

/-- Whether no forwarder is further behind than the feeds keep items. -/
def KeepsUp (x : Delivery) : Prop := ∀ c f, x.relay.forwarder? c = some f →
  (x.store.feeds.get c).published - f.stream.position ≤ Feed.capacity

/-- Whether what the stream of a collection gave and has before it is all that was told, up to the
first failure. -/
def Whole (accepted : List Collection) (told : List (Except StoreError ChangeEvent))
    (c : Collection) (x : Delivery) : Prop :=
  x.relay.channel.hasReceiver = true → x.relay.state = .subscribed → c ∈ accepted →
    upToFailure (x.yielded.get c ++ x.ahead c) = upToFailure told

theorem whole_of_sameAt (h : x.Whole accepted told c) (hsame : SameAt c x x') :
    x'.Whole accepted told c := by
  obtain ⟨hforwarder, hyielded, -, hfeed, hstate, hreceiver⟩ := hsame
  unfold Whole
  rw [hreceiver, hstate, hyielded, ahead_congr hforwarder hfeed]
  exact h

theorem whole_publish_self (hlawful : x.Lawful accepted told c) (h : x.Whole accepted told c)
    (rows : ByCollection (List Document)) (item : FeedItem)
    (hkeeps : (x.step (.publish rows c item)).KeepsUp) :
    (x.step (.publish rows c item)).Whole accepted (told ++ [asResult c item]) c := by
  intro hreceiver hstate hacc
  have hall := h hreceiver hstate hacc
  have hfeed : (x.step (.publish rows c item)).store.feeds.get c =
      (x.store.feeds.get c).publish item := ByCollection.get_set_self _ _ _
  have hfor : (x.step (.publish rows c item)).relay.forwarder? c = x.relay.forwarder? c := rfl
  have hyie : (x.step (.publish rows c item)).yielded.get c = x.yielded.get c := rfl
  simp only [ahead, hfor, hyie, hfeed] at hall ⊢
  cases hf : x.relay.forwarder? c with
  | none =>
    simp only [hf, List.append_nil] at hall ⊢
    have hfail : HasFailure told := by
      rw [← hasFailure_upToFailure, ← hall, hasFailure_upToFailure]
      exact hlawful.stops hreceiver hstate hacc hf
    rw [upToFailure_append_of_hasFailure hfail, hall]
  | some f =>
    simp only [hf] at hall ⊢
    have hreached : f.stream.position ≤ (x.store.feeds.get c).published :=
      (hlawful.reads f hf).2.2.1.reached
    have hbehind : (x.store.feeds.get c).published + 1 - f.stream.position ≤ Feed.capacity := by
      have hbehind := hkeeps c f (hfor ▸ hf)
      rwa [hfeed] at hbehind
    rw [Feed.ahead_publish hreached item (by omega), List.map_append, ← List.append_assoc,
      List.map_singleton, ← upToFailure_append_left, hall, upToFailure_append_left]

theorem whole_act_self (hlawful : x.Lawful accepted told c) (h : x.Whole accepted told c) :
    (x.step (.act c)).Whole accepted told c := by
  rcases act_self x c with hsame | ⟨f, hf, hmoved⟩
  · exact hsame.symm ▸ h
  · have hframe := frame_act x c
    obtain ⟨-, hcol, -, hunfailed⟩ := hlawful.reads f hf
    obtain ⟨n, hn⟩ := hframe.feeds c
    intro hreceiver hstate hacc
    have hall := h (hframe.hasReceiver ▸ hreceiver) (hframe.state ▸ hstate) hacc
    rw [← hall]
    cases hmoved with
    | dropped hnone =>
      rw [hframe.hasReceiver, hnone] at hreceiver
      cases hreceiver
    | passed hreceiver' hheld hafter hyielded hsent =>
      simp only [ahead, hafter, hf, hn, hyielded]
      rfl
    | @learnt item position hheld hread hafter hyielded hsent =>
      rw [hcol] at hread hyielded
      obtain ⟨hahead, -, -⟩ := Feed.ahead_of_read_eq_some hread
      simp only [ahead, hafter, hf, hn, hyielded, hahead, List.map_cons, afterReading]
      rw [List.append_assoc, upToFailure_of_not_hasFailure hunfailed,
        upToFailure_of_not_hasFailure hunfailed]
      cases item <;> rfl

/-- Only a publication can take something away from a forwarder. -/
theorem whole_step {told : Collection → List (Except StoreError ChangeEvent)}
    (hlawful : ∀ c, x.Lawful accepted (told c) c) (h : ∀ c, x.Whole accepted (told c) c)
    (step : Step) (hkeeps : step.IsQuiet ∨ (x.step step).KeepsUp) :
    ∀ c, (x.step step).Whole accepted (told c ++ step.told c) c := by
  intro c
  cases step with
  | publish rows d item =>
    have hkeeps : (x.step (.publish rows d item)).KeepsUp :=
      hkeeps.resolve_left Bool.false_ne_true
    rw [told_publish]
    by_cases hd : d = c
    · subst hd
      rw [if_pos rfl]
      exact whole_publish_self (hlawful d) (h d) rows item hkeeps
    · rw [if_neg hd, List.append_nil]
      exact whole_of_sameAt (h c) (sameAt_publish rows item (Ne.symm hd))
  | inject faults => simpa [Step.told] using whole_of_sameAt (h c) (sameAt_inject faults)
  | act d =>
    simp only [Step.told, List.append_nil]
    by_cases hd : c = d
    · subst hd
      exact whole_act_self (hlawful c) (h c)
    · exact whole_of_sameAt (h c) (sameAt_act hd (hlawful d).held)
  | receive => simpa [Step.told] using whole_of_sameAt (h c) sameAt_receive
  | dropReceiver => exact fun hreceiver => (Bool.false_ne_true hreceiver).elim
  | close =>
    intro _ hstate
    cases hopen : x.relay.state <;> simp [step, Delivery.step, Relay.close, hopen] at hstate

theorem whole_run (told : Collection → List (Except StoreError ChangeEvent))
    (hlawful : ∀ c, x.Lawful accepted (told c) c) (h : ∀ c, x.Whole accepted (told c) c)
    (steps : List Step) (hkeeps : ∀ before step, before ++ [step] <+: steps →
      step.IsQuiet ∨ (x.run (before ++ [step])).KeepsUp) :
    ∀ c, (x.run steps).Whole accepted (told c ++ steps.flatMap (Step.told c)) c := by
  induction steps generalizing x told with
  | nil => simpa [run] using h
  | cons step steps ih =>
    have hfirst : step.IsQuiet ∨ (x.step step).KeepsUp := hkeeps [] step ⟨steps, rfl⟩
    have hrest : ∀ before next, before ++ [next] <+: steps →
        next.IsQuiet ∨ ((x.step step).run (before ++ [next])).KeepsUp := fun before next hbefore =>
      hkeeps (step :: before) next ((List.prefix_cons_inj step).2 hbefore)
    simpa [run] using ih _ (lawful_step hlawful step) (whole_step hlawful h step hfirst) hrest

/-! ## The relay that was just attached -/

theorem subscribe_eq (s : MemoryStore) (c : Collection) : s.subscribe c =
    if s.faults.unavailable || s.faults.failingSubscriptions.get c then
      .error (.subscriptionFailed c "subscription refused")
    else .ok (⟨c, (s.feeds.get c).published⟩, s.countReaders c (· + 1)) := rfl

/-- A relay subscribes to the collections that do not refuse, each from the end of its feed. -/
theorem subscribeAll_spec (s : MemoryStore) (cs : List Collection) :
    (Relay.subscribeAll s cs).1.map (·.collection) =
      cs.filter (fun c => !(s.faults.unavailable || s.faults.failingSubscriptions.get c)) ∧
    (∀ f ∈ (Relay.subscribeAll s cs).1, f.held? = none ∧ f.stream.collection = f.collection ∧
      f.stream.position = (s.feeds.get f.collection).published) ∧
    ∀ d, ∃ n, (Relay.subscribeAll s cs).2.feeds.get d = { s.feeds.get d with readers := n } := by
  induction cs generalizing s with
  | nil => exact ⟨rfl, fun f hf => absurd hf List.not_mem_nil, fun d => ⟨_, rfl⟩⟩
  | cons c cs ih =>
    have hsub : DocumentStore.subscribe s c = s.subscribe c := rfl
    cases hrefused : s.faults.unavailable || s.faults.failingSubscriptions.get c with
    | true =>
      have herr : DocumentStore.subscribe s c =
          .error (.subscriptionFailed c "subscription refused") := by
        rw [hsub, subscribe_eq, if_pos hrefused]
      simpa only [Relay.subscribeAll, herr, List.filter_cons, hrefused, Bool.not_true,
        Bool.false_eq_true, if_false] using ih s
    | false =>
      have hok : DocumentStore.subscribe s c =
          .ok (⟨c, (s.feeds.get c).published⟩, s.countReaders c (· + 1)) := by
        rw [hsub, subscribe_eq, if_neg (by simp [hrefused])]
      obtain ⟨hcols, hall, hfeeds⟩ := ih (s.countReaders c (· + 1))
      simp only [Relay.subscribeAll, hok, List.filter_cons, hrefused, Bool.not_false, if_true]
      refine ⟨congrArg (c :: ·) hcols, fun f hf => ?_, fun d => ?_⟩
      · rcases List.mem_cons.1 hf with rfl | hf
        · exact ⟨rfl, rfl, rfl⟩
        · obtain ⟨hheld, hcol, hposition⟩ := hall f hf
          obtain ⟨n, hn⟩ := feeds_countReaders s c f.collection (· + 1)
          exact ⟨hheld, hcol, by rw [hposition, hn]⟩
      · obtain ⟨n, hn⟩ := hfeeds d
        obtain ⟨m, hm⟩ := feeds_countReaders s c d (· + 1)
        exact ⟨n, by rw [hn, hm]⟩

theorem attach_of_unavailable {s : MemoryStore} (h : s.faults.unavailable = true)
    (capacity : Nat) :
    attach s capacity = { store := s, relay := { state := .closed, channel := { capacity } } } := by
  have hopen : DocumentStore.openSession s =
      (.error (.error (.unavailable "connection refused")) : Except Failure MemoryStore) :=
    if_pos h
  simp only [attach, Relay.attach, hopen]

theorem attach_of_available {s : MemoryStore} (h : s.faults.unavailable = false)
    (capacity : Nat) :
    attach s capacity =
      let opened := { s with openSessions := s.openSessions + 1 }
      { store := (Relay.subscribeAll opened Collection.all).2
        relay :=
          { state := .subscribed
            forwarders := (Relay.subscribeAll opened Collection.all).1
            channel := { capacity } } } := by
  have hopen : DocumentStore.openSession s =
      .ok { s with openSessions := s.openSessions + 1 } := if_neg (by simp [h])
  simp only [attach, Relay.attach, hopen]

/-- A relay is subscribed unless the store is not available, and then to all collections but those
that refuse. -/
theorem live_attach (s : MemoryStore) (capacity : Nat) :
    (attach s capacity).relay.live =
      Collection.all.filter fun c =>
        !(s.faults.unavailable || s.faults.failingSubscriptions.get c) := by
  cases h : s.faults.unavailable with
  | true =>
    rw [attach_of_unavailable h]
    exact (List.filter_eq_nil_iff.2 (by simp)).symm
  | false =>
    rw [attach_of_available h]
    simpa only [h, Relay.live] using
      (subscribeAll_spec { s with openSessions := s.openSessions + 1 } Collection.all).1

theorem state_attach (s : MemoryStore) (capacity : Nat) :
    (attach s capacity).relay.state = .subscribed ↔ s.faults.unavailable = false := by
  cases h : s.faults.unavailable with
  | true => simp [attach_of_unavailable h]
  | false => simp [attach_of_available h]

/-- A relay that was just attached is lawful, and nothing is lost yet. -/
theorem lawful_attach (s : MemoryStore) (capacity : Nat) (c : Collection) :
    (attach s capacity).Lawful (attach s capacity).relay.live [] c ∧
      (attach s capacity).Whole (attach s capacity).relay.live [] c := by
  have hreads : ∀ f, (attach s capacity).relay.forwarder? c = some f → f.held? = none ∧
      f.stream.collection = c ∧
      f.stream.position = ((attach s capacity).store.feeds.get c).published := by
    intro f hf
    obtain rfl := Relay.collection_of_forwarder? hf
    have hmem := Relay.mem_forwarders hf
    cases h : s.faults.unavailable with
    | true => simp [attach_of_unavailable h] at hmem
    | false =>
      rw [attach_of_available h] at hmem ⊢
      obtain ⟨-, hall, hfeeds⟩ :=
        subscribeAll_spec { s with openSessions := s.openSessions + 1 } Collection.all
      obtain ⟨hheld, hcol, hposition⟩ := hall f hmem
      obtain ⟨n, hn⟩ := hfeeds f.collection
      exact ⟨hheld, hcol, by simp only [hn, hposition]⟩
  have hyielded : (attach s capacity).yielded.get c = [] := by
    cases h : s.faults.unavailable <;>
      simp [attach_of_unavailable, attach_of_available, h]
  have hsent : (attach s capacity).sent c = [] := by
    cases h : s.faults.unavailable <;>
      simp [attach_of_unavailable, attach_of_available, h, sent]
  have hheld : (attach s capacity).held c = [] := by
    cases hf : (attach s capacity).relay.forwarder? c with
    | none => simp [held, hf]
    | some f => simp [held, hf, (hreads f hf).1]
  have hahead : (attach s capacity).ahead c = [] := by
    cases hf : (attach s capacity).relay.forwarder? c with
    | none => simp [ahead, hf]
    | some f => simp [ahead, hf, (hreads f hf).2.2, Feed.ahead_published]
  refine ⟨⟨fun f hf => ?_, by simp [hheld], fun _ => hyielded, by simp [hyielded, hahead],
    by simp [hsent], fun hstate => ?_, fun _ _ => by simp [hsent, hheld, hyielded, feedsOf],
    fun _ _ hacc hnone => ?_⟩, fun _ _ _ => by rw [hyielded, hahead]; rfl⟩
  · obtain ⟨-, hcol, hposition⟩ := hreads f hf
    exact ⟨Relay.mem_live_iff.2 ⟨f, hf⟩, hcol, hposition ▸ Feed.serves_published _,
      fun hfailure => by simp [hyielded, HasFailure] at hfailure⟩
  · have hun : s.faults.unavailable = true := by
      cases h : s.faults.unavailable with
      | true => rfl
      | false => simp [(state_attach s capacity).2 h] at hstate
    simp [attach_of_unavailable hun, Relay.forwarder?]
  · exact absurd hacc (Relay.forwarder?_eq_none_iff.1 hnone)

end Delivery

end TrialBoard
