import TrialBoard.Binary64

/-!
# JSON values

A number is an integer of 64 bits, signed or unsigned, or a binary64 number; `1` and `1.0` are
different values. An object is a list of members. The objects that documents are made of are
*canonical*: their keys are in byte order and each occurs once. `Json.canonical` brings any value
there, the last of several members with one key winning.
-/

namespace TrialBoard

/-- Whether an integer fits 64 bits, with or without a sign. -/
abbrev FitsWord (value : Int) : Prop :=
  -0x8000000000000000 ≤ value ∧ value < 0x10000000000000000

/-- A JSON number. -/
inductive JsonNumber where
  /-- An integer of 64 bits. -/
  | integer (value : Int) (inRange : FitsWord value)
  | real (value : Binary64)
deriving DecidableEq

namespace JsonNumber

/-- The integer `n`; zero where it does not fit. -/
def ofNat (n : Nat) : JsonNumber :=
  if h : FitsWord n then .integer n h else .integer 0 (by decide)

/-- The number as a binary64 number, rounded where an integer needs more than 53 bits. -/
def toBinary64 : JsonNumber → Binary64
  | integer value _ => .ofInt value
  | real value => value

/-- Equality of numbers: of one kind, and equal in value. -/
def same : JsonNumber → JsonNumber → Bool
  | integer a _, integer b _ => a == b
  | real a, real b => a.same b
  | _, _ => false

end JsonNumber

/-- A JSON value. -/
inductive Json where
  | null
  | bool (value : Bool)
  | number (value : JsonNumber)
  | string (value : String)
  | array (items : List Json)
  | object (members : List (String × Json))

namespace Json

instance : Inhabited Json := ⟨null⟩

/-- The members of an object, by key. -/
abbrev Members := List (String × Json)

/-- An integer value. -/
def ofNat (n : Nat) : Json := .number (.ofNat n)

mutual

/-- Equality of values: numbers as `JsonNumber.same`, arrays and objects member by member. -/
def same : Json → Json → Bool
  | null, null => true
  | bool a, bool b => a == b
  | number a, number b => a.same b
  | string a, string b => a == b
  | array as, array bs => sameItems as bs
  | object as, object bs => sameMembers as bs
  | _, _ => false

/-- Equality of lists of values. -/
def sameItems : List Json → List Json → Bool
  | [], [] => true
  | a :: as, b :: bs => same a b && sameItems as bs
  | _, _ => false

/-- Equality of lists of members. -/
def sameMembers : List (String × Json) → List (String × Json) → Bool
  | [], [] => true
  | (k, a) :: as, (l, b) :: bs => k == l && same a b && sameMembers as bs
  | _, _ => false

end

instance : BEq Json := ⟨same⟩

/-- The text of a string value. -/
def asString? : Json → Option String
  | string s => some s
  | _ => none

/-- The members of an object value. -/
def asObject? : Json → Option Members
  | object members => some members
  | _ => none

/-- The members of an object value; none of any other. -/
def membersOf : Json → Members
  | object members => members
  | _ => []

namespace Members

/-- The value at a key: that of the first member with it. -/
def get? (members : Members) (key : String) : Option Json := List.lookup key members

/-- Sets the value at a key, at the key's place in the order. -/
def insert (key : String) (value : Json) : Members → Members
  | [] => [(key, value)]
  | (k, v) :: rest =>
    if key = k then (key, value) :: rest
    else if key < k then (key, value) :: (k, v) :: rest
    else (k, v) :: insert key value rest

/-- The members in key order, the last of several with one key winning. -/
def ofList (members : List (String × Json)) : Members :=
  members.foldl (fun sorted (key, value) => insert key value sorted) []

theorem get?_insert_self (key : String) (value : Json) (members : Members) :
    (members.insert key value).get? key = some value := by
  induction members with
  | nil => simp [insert, get?]
  | cons m rest ih =>
    obtain ⟨k, v⟩ := m
    unfold insert
    split
    · simp [get?]
    · split
      · simp [get?]
      · have hk : (key == k) = false := by simpa
        simpa [get?, List.lookup_cons, hk] using ih

theorem get?_insert_of_ne {key other : String} (h : other ≠ key) (value : Json)
    (members : Members) : (members.insert key value).get? other = members.get? other := by
  have hne : (other == key) = false := by simpa
  induction members with
  | nil => simp [insert, get?, List.lookup_cons, hne]
  | cons m rest ih =>
    obtain ⟨k, v⟩ := m
    unfold insert
    split
    · rename_i hk
      subst hk
      simp [get?, List.lookup_cons, hne]
    · split
      · simp [get?, List.lookup_cons, hne]
      · simp only [get?, List.lookup_cons] at ih ⊢
        split <;> simp_all

end Members

/-- The member of an object at a key. -/
def member? (value : Json) (key : String) : Option Json := value.membersOf.get? key

mutual

/-- The value with every object's keys in order and each once, the last of several winning. -/
def canonical : Json → Json
  | array items => array (canonicalItems items)
  | object members => object (Members.ofList (canonicalMembers members))
  | null => null
  | bool b => bool b
  | number n => number n
  | string s => string s

/-- The items of an array, each made canonical. -/
def canonicalItems : List Json → List Json
  | [] => []
  | item :: items => canonical item :: canonicalItems items

/-- The members of an object, each value made canonical. -/
def canonicalMembers : List (String × Json) → List (String × Json)
  | [] => []
  | (key, value) :: members => (key, canonical value) :: canonicalMembers members

end

end Json

end TrialBoard
