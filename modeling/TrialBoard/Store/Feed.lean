import TrialBoard.Change

/-!
# The feed of a collection

A feed keeps the last 256 items that were published, and counts all of them. A reader is the number
of the item it reads next. One that has fallen further behind goes on with the oldest item kept; what
it missed is lost to it.
-/

namespace TrialBoard

/-- What is published: an event, or the reason why the streams break. -/
abbrev FeedItem := Except String ChangeEvent

/-- The items published last, and how many there were in all. -/
structure Feed where
  published : Nat := 0
  /-- The items kept, the newest first. -/
  recent : List FeedItem := []
  /-- How many streams read the feed. -/
  readers : Nat := 0

namespace Feed

/-- How many items are kept. -/
def capacity : Nat := 256

/-- Publishes an item. -/
def publish (f : Feed) (item : FeedItem) : Feed :=
  { f with published := f.published + 1, recent := (item :: f.recent).take capacity }

/-- The next item for a reader, and the reader after it. -/
def read (f : Feed) (position : Nat) : Option (FeedItem × Nat) :=
  if position < f.published then
    let age := min (f.published - 1 - position) (capacity - 1)
    f.recent[age]?.map fun item => (item, f.published - age)
  else none

/-- How many items a reader has before it. -/
def unread (f : Feed) (position : Nat) : Nat := min (f.published - position) capacity

end Feed

end TrialBoard
