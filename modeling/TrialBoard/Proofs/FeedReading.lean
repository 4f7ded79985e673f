import TrialBoard.Store.Memory

/-!
# What a reader has before it

`Feed.ahead` is what a reader of a feed can still get of it. Reading takes the first of these items,
publishing adds one at the end. Only a reader that 256 items wait for loses the first of them then.
-/

namespace TrialBoard

namespace Feed

/-- The items that a reader has before it, the oldest first. -/
def ahead (f : Feed) (position : Nat) : List FeedItem :=
  (f.recent.take (f.unread position)).reverse

/-- Whether a reader is at an item of a feed, or at its end, and the feed keeps what it says is
unread. -/
structure Serves (f : Feed) (position : Nat) : Prop where
  reached : position ≤ f.published
  kept : f.unread position ≤ f.recent.length

variable {f : Feed} {position position' : Nat} {item : FeedItem}

theorem ahead_eq_nil (h : f.unread position = 0) : f.ahead position = [] := by
  simp [ahead, h]

/-- A reader that starts at the end has nothing before it. -/
theorem serves_published (f : Feed) : f.Serves f.published :=
  ⟨Nat.le_refl _, by simp [unread]⟩

theorem ahead_published (f : Feed) : f.ahead f.published = [] :=
  ahead_eq_nil (by simp [unread])

theorem unread_of_read_eq_none (h : f.Serves position) (hread : f.read position = none) :
    f.unread position = 0 := by
  have hkept := h.kept
  unfold unread at hkept ⊢
  unfold read at hread
  split at hread
  · rename_i hlt
    rw [Option.map_eq_none_iff, List.getElem?_eq_none_iff] at hread
    have hcap : 0 < capacity := by decide
    omega
  · omega

/-- Reading takes the first of the items ahead. -/
theorem ahead_of_read_eq_some (hread : f.read position = some (item, position')) :
    f.ahead position = item :: f.ahead position' ∧
      f.unread position = f.unread position' + 1 ∧ position' ≤ f.published := by
  unfold read at hread
  split at hread
  · rename_i hlt
    generalize hage : min (f.published - 1 - position) (capacity - 1) = age at hread
    obtain ⟨item', hitem, heq⟩ := Option.map_eq_some_iff.1 hread
    obtain ⟨rfl, rfl⟩ := Prod.mk.injEq .. ▸ heq
    have hcap : 0 < capacity := by decide
    have hunread : f.unread position = age + 1 := by unfold unread; omega
    have hunread' : f.unread (f.published - age) = age := by unfold unread; omega
    refine ⟨?_, by rw [hunread, hunread'], Nat.sub_le _ _⟩
    rw [ahead, ahead, hunread, hunread', List.take_add_one, hitem]
    simp
  · cases hread

theorem serves_of_read_eq_some (h : f.Serves position)
    (hread : f.read position = some (item, position')) : f.Serves position' := by
  obtain ⟨-, hunread, hreached⟩ := ahead_of_read_eq_some hread
  have hkept := h.kept
  exact ⟨hreached, by omega⟩

theorem read_of_ahead_eq_nil (h : f.ahead position = []) : f.read position = none := by
  cases hread : f.read position with
  | none => rfl
  | some next =>
    rw [(ahead_of_read_eq_some hread).1] at h
    exact absurd h (List.cons_ne_nil _ _)

theorem read_of_ahead_eq_cons {items : List FeedItem} (h : f.Serves position)
    (hahead : f.ahead position = item :: items) :
    ∃ position', f.read position = some (item, position') ∧ f.Serves position' ∧
      f.ahead position' = items := by
  cases hread : f.read position with
  | none =>
    rw [ahead_eq_nil (unread_of_read_eq_none h hread)] at hahead
    exact absurd hahead.symm (List.cons_ne_nil _ _)
  | some next =>
    obtain ⟨item', position'⟩ := next
    obtain ⟨rfl, hitems⟩ := List.cons.inj ((ahead_of_read_eq_some hread).1.symm.trans hahead)
    exact ⟨position', rfl, serves_of_read_eq_some h hread, hitems⟩

theorem recent_publish_take (f : Feed) (item : FeedItem) {n : Nat} (hn : n < capacity) :
    (f.publish item).recent.take (n + 1) = item :: f.recent.take n := by
  have hmin : min (n + 1) capacity = n + 1 := by omega
  simp only [publish, List.take_take, hmin, List.take_succ_cons]

theorem unread_publish (h : position ≤ f.published) (item : FeedItem) :
    (f.publish item).unread position = min (f.published - position) (capacity - 1) + 1 := by
  have hcap : 0 < capacity := by decide
  simp only [unread, publish]
  omega

/-- Publishing adds an item after those ahead, and may take the first of these away. -/
theorem ahead_publish_sublist (h : position ≤ f.published) (item : FeedItem) :
    ((f.publish item).ahead position).Sublist (f.ahead position ++ [item]) := by
  have hcap : 0 < capacity := by decide
  have hlt : min (f.published - position) (capacity - 1) < capacity := by omega
  have hle : min (f.published - position) (capacity - 1) ≤ f.unread position := by
    unfold unread
    omega
  rw [ahead, ahead, unread_publish h, recent_publish_take _ _ hlt, List.reverse_cons]
  exact ((List.take_prefix_take_left hle).sublist.reverse).append_right [item]

/-- Publishing takes nothing away from a reader that keeps up. -/
theorem ahead_publish (h : position ≤ f.published) (item : FeedItem)
    (hkeeps : f.published - position < capacity) :
    (f.publish item).ahead position = f.ahead position ++ [item] := by
  have hmin : min (f.published - position) (capacity - 1) = f.unread position := by
    unfold unread
    omega
  rw [ahead, ahead, unread_publish h, hmin, recent_publish_take _ _ (by unfold unread; omega),
    List.reverse_cons]

theorem serves_publish (h : f.Serves position) (item : FeedItem) :
    (f.publish item).Serves position := by
  have hkept := h.kept
  refine ⟨Nat.le_succ_of_le h.reached, ?_⟩
  rw [unread_publish h.reached]
  simp only [unread] at hkept
  simp only [publish, List.length_take, List.length_cons]
  have hcap : 0 < capacity := by decide
  omega

end Feed

end TrialBoard
