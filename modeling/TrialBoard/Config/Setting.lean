import TrialBoard.Json.Basic

/-!
# Layered settings

A source of settings gives a tree: tables of named settings, and plain values at the leaves. Sources
are laid over one another. Where both have a table the tables are united, name by name; everywhere
else the upper source wins.
-/

namespace TrialBoard

/-- A tree of settings. -/
inductive Setting where
  | flag (value : Bool)
  | integer (value : Int)
  /-- A number that is not an integer; no setting takes one, so its value is not kept. -/
  | real
  | text (value : String)
  | list (items : List Setting)
  | table (entries : List (String × Setting))

namespace Setting

instance : Inhabited Setting := ⟨.table []⟩

/-- Nothing set. -/
def nothing : Setting := .table []

/-- The entries with a name set to a setting, at the name's place or else at the end. -/
def insert (name : String) (value : Setting) : List (String × Setting) → List (String × Setting)
  | [] => [(name, value)]
  | (n, v) :: rest => if n = name then (name, value) :: rest else (n, v) :: insert name value rest

theorem lookup_insert_self (name : String) (value : Setting) (entries : List (String × Setting)) :
    (insert name value entries).lookup name = some value := by
  induction entries with
  | nil => simp [insert]
  | cons e rest ih =>
    obtain ⟨n, v⟩ := e
    by_cases h : n = name
    · simp [insert, h]
    · have h' : (name == n) = false := by simpa using Ne.symm h
      simpa [insert, h, List.lookup_cons, h'] using ih

theorem lookup_insert_of_ne {name other : String} (h : other ≠ name) (value : Setting)
    (entries : List (String × Setting)) :
    (insert name value entries).lookup other = entries.lookup other := by
  have hne : (other == name) = false := by simpa using h
  induction entries with
  | nil => simp [insert, List.lookup_cons, hne]
  | cons e rest ih =>
    obtain ⟨n, v⟩ := e
    by_cases hn : n = name
    · subst hn
      simp [insert, List.lookup_cons, hne]
    · by_cases ho : other = n
      · simp [insert, hn, ho]
      · have ho' : (other == n) = false := by simpa using ho
        simpa [insert, hn, List.lookup_cons, ho'] using ih

mutual

/-- The upper tree laid over the lower one. -/
def layOver : Setting → Setting → Setting
  | table upper, lower =>
    match lower with
    | table entries => .table (layEntries upper entries)
    | _ => .table upper
  | flag b, _ => .flag b
  | integer i, _ => .integer i
  | real, _ => .real
  | text s, _ => .text s
  | list items, _ => .list items

/-- The entries of a table laid over those of another. -/
def layEntries : List (String × Setting) → List (String × Setting) → List (String × Setting)
  | [], lower => lower
  | (name, value) :: upper, lower =>
    let united := match lower.lookup name with
      | some below => layOver value below
      | none => value
    layEntries upper (insert name united lower)

end

/-- Layers united, the first one lowest. -/
def overlay (layers : List Setting) : Setting :=
  layers.foldl (fun lower upper => layOver upper lower) nothing

/-- The setting at a path. -/
def at? : List String → Setting → Option Setting
  | [], setting => some setting
  | name :: path, table entries => (entries.lookup name).bind (at? path)
  | _ :: _, _ => none

/-- A setting under a path of names. -/
def under : List String → Setting → Setting
  | [], setting => setting
  | name :: path, setting => .table [(name, under path setting)]

mutual

/-- The tree as JSON. -/
def toJson : Setting → Json
  | flag b => .bool b
  | integer i =>
    .number (if h : FitsWord i then .integer i h else .real .zero)
  | real => .number (.real .zero)
  | text s => .string s
  | list items => .array (itemsToJson items)
  | table entries => .object (entriesToJson entries)

/-- The items of a list as JSON. -/
def itemsToJson : List Setting → List Json
  | [] => []
  | item :: items => item.toJson :: itemsToJson items

/-- The entries of a table as JSON. -/
def entriesToJson : List (String × Setting) → List (String × Json)
  | [] => []
  | (name, value) :: entries => (name, value.toJson) :: entriesToJson entries

end

end Setting

end TrialBoard
