import TrialBoard.Json.Basic

/-!
# Documents

A row is a JSON object. Only three of its members are ever interpreted: its id, the time of its
creation, and, for a row that belongs to an experiment, that experiment's id.
-/

namespace TrialBoard

/-- A row: the members of an object, its keys in order and each once. -/
abbrev Document := Json.Members

namespace Document

/-- The key of a row's id. -/
def idKey : String := "id"

/-- The key of the time of a row's creation. -/
def createdAtKey : String := "createdAt"

/-- The key of the experiment a row belongs to. -/
def experimentKey : String := "experiment_id"

/-- The text at a key, if there is a text. -/
def text? (doc : Document) (key : String) : Option String := (doc.get? key).bind Json.asString?

/-- A row's id. -/
def id? (doc : Document) : Option String := text? doc idKey

/-- The experiment a row belongs to. -/
def experiment? (doc : Document) : Option String := text? doc experimentKey

/-- What a row says of its creation. -/
def createdAt? (doc : Document) : Option Json := doc.get? createdAtKey

/-- Gives a row an id. -/
def withId (doc : Document) (id : String) : Document := doc.insert idKey (.string id)

/-- Whether a row has the id. -/
def hasId (id : String) (doc : Document) : Bool := id? doc == some id

/-- Whether a row has the value at a key. -/
def hasAt (doc : Document) (key : String) (value : Json) : Bool := doc.get? key == some value

/-- The id of a row, the fresh one if it has none, and the row with it. -/
def identified (fresh : String) (doc : Document) : String × Document :=
  match id? doc with
  | some id => (id, doc)
  | none => (fresh, withId doc fresh)

theorem id?_withId (doc : Document) (id : String) : id? (withId doc id) = some id := by
  simp [id?, text?, withId, Json.Members.get?_insert_self, Json.asString?]

theorem id?_identified (fresh : String) (doc : Document) :
    id? (identified fresh doc).2 = some (identified fresh doc).1 := by
  unfold identified
  split
  · assumption
  · exact id?_withId doc fresh

/-- Puts a row in the place of the first one with its id, or at the end. -/
def replaceOrAppend (row : Document) (id : String) : List Document → List Document
  | [] => [row]
  | r :: rows => if hasId id r then row :: rows else r :: replaceOrAppend row id rows

end Document

end TrialBoard
