import TrialBoard.Json.Reader

/-!
# Decoding typed values

A `Decoder` reads a value of some type straight from text, and also from a value that was read
before its type was known. The text form knows places, so its faults carry them; the other form
gives only causes.

The rules are the same for every type. A record is an object whose unknown members are passed over,
or an array of its fields in order. An enumeration is a string, or an object with that string as its
one key and null under it. A tagged message is an object of a tag and a content in any order; a
content that comes first is kept as it is written until the tag is known.
-/

namespace TrialBoard.Json

/-- A way to read values of one type. -/
structure Decoder (α : Type) where
  /-- From a text, with room for so many nested containers. -/
  read : Nat → List Char → Reading α
  /-- From a value as it was written. -/
  view : Json → Except Cause α

namespace Decoder

variable {α β σ : Type}

/-- Refuses the value a text starts with: a scalar is read first, a container is not. -/
def refuse (expected : String) (cs : List Char) : Reading α :=
  match cs with
  | '[' :: _ => faultAt (.invalidType .sequence expected) cs
  | '\x7b' :: _ => faultAt (.invalidType .map expected) cs
  | _ => (scalar cs).andThen fun value rest => faultAt (.invalidType (found value) expected) rest

/-- The value of a check made after a scalar. -/
def checked (result : Except Cause α) (rest : List Char) : Reading α :=
  match result with
  | .ok value => .ok value rest
  | .error cause => faultAt cause rest

/-- Changes the decoded value. -/
def map (f : α → β) (d : Decoder α) : Decoder β where
  read room cs := (d.read room cs).map f
  view value := (d.view value).map f

/-- A string that passes a check. -/
def checkedText (expected : String) (check : String → Except Cause α) : Decoder α where
  read _ cs :=
    match skipBlank cs with
    | '"' :: rest => (stringBody [] rest).andThen fun s rest => checked (check s) rest
    | cs' => refuse expected cs'
  view
    | .string s => check s
    | value => .error (.invalidType (found value) expected)

/-- A string. -/
def text (expected : String) : Decoder String := checkedText expected .ok

/-- A number as a natural number up to `max`. -/
def natural? (expected : String) (max : Nat) : JsonNumber → Except Cause Nat
  | .integer value _ =>
    if 0 ≤ value ∧ value.toNat ≤ max then .ok value.toNat
    else .error (.invalidValue (.integer value) expected)
  | .real value => .error (.invalidType (.real value) expected)

/-- A natural number up to `max`. -/
def natural (expected : String) (max : Nat) : Decoder Nat where
  read _ cs :=
    match skipBlank cs with
    | [] => faultAt .endInValue []
    | c :: rest =>
      if c = '-' then
        (unsignedNumber true rest).andThen fun n rest => checked (natural? expected max n) rest
      else if c.isDigit then
        (unsignedNumber false (c :: rest)).andThen fun n rest =>
          checked (natural? expected max n) rest
      else refuse expected (c :: rest)
  view
    | .number n => natural? expected max n
    | value => .error (.invalidType (found value) expected)

/-- A value, or null for none. -/
def optional (d : Decoder α) : Decoder (Option α) where
  read room cs :=
    match skipBlank cs with
    | 'n' :: rest => (word ['u', 'l', 'l'] rest).map fun _ => none
    | cs' => (d.read room cs').map some
  view
    | .null => .ok none
    | value => (d.view value).map some

/-- Any value, made canonical. -/
def json : Decoder Json where
  read room cs := (raw room cs).map canonical
  view value := .ok value.canonical

/-- The members of an object, made canonical. -/
def object : Decoder Members where
  read room cs :=
    match skipBlank cs with
    | '\x7b' :: rest =>
      (inObject room ('\x7b' :: rest) fun room rest =>
        members (raw room) (rest.length + 1) true rest).map
          fun ms => Members.ofList (canonicalMembers ms)
    | cs' => refuse "a map" cs'
  view
    | .object ms => .ok (Members.ofList (canonicalMembers ms))
    | value => .error (.invalidType (found value) "a map")

/-- A list of values. -/
def list (d : Decoder α) : Decoder (List α) where
  read room cs :=
    match skipBlank cs with
    | '[' :: rest =>
      inList room ('[' :: rest) fun room rest => items (d.read room) (rest.length + 1) true rest
    | cs' => refuse "a sequence" cs'
  view
    | .array values => values.mapM d.view
    | value => .error (.invalidType (found value) "a sequence")

/-! ## Enumerations -/

/-- The value a name stands for. -/
def named (variants : List (String × α)) (name : String) : Except Cause α :=
  match variants.lookup name with
  | some value => .ok value
  | none => .error (.unknownVariant name (variants.map Prod.fst))

/-- A name, standing alone. -/
def name (variants : List (String × α)) : Decoder α :=
  checkedText "variant identifier" (named variants)

/-- Null, standing for nothing. -/
def nothing : Decoder Unit where
  read _ cs :=
    match skipBlank cs with
    | 'n' :: rest => word ['u', 'l', 'l'] rest
    | cs' => refuse "unit" cs'
  view
    | .null => .ok ()
    | .object [] => .ok ()
    | value => .error (.invalidType (found value) "unit")

/-- An enumeration without payloads. -/
def enumeration (variants : List (String × α)) : Decoder α where
  read room cs :=
    match skipBlank cs with
    | [] => faultAt .endInValue []
    | '"' :: rest => (name variants).read room ('"' :: rest)
    | '\x7b' :: rest =>
      match room with
      | 0 => faultIn .recursionLimit ('\x7b' :: rest)
      | room + 1 =>
        ((name variants).read room rest).andThen fun value rest =>
          (colon rest).andThen fun _ rest =>
            (nothing.read room rest).andThen fun _ rest =>
              match skipBlank rest with
              | [] => faultAt .endInObject []
              | c :: rest' =>
                if c = '\x7d' then .ok value rest' else faultAt .expectedValue (c :: rest')
    | cs' => faultIn .expectedValue cs'
  view
    | .string s => named variants s
    | .object [(key, payload)] => do
      let value ← named variants key
      nothing.view payload
      return value
    | .object _ => .error (.invalidValue .map "map with a single key")
    | value => .error (.invalidType (found value) "string or map")

end Decoder

/-! ## Records -/

/-- One field of a record that is collected in a `σ`. -/
structure Field (σ : Type) where
  name : String
  /-- Whether the field was read already. -/
  isSet : σ → Bool
  decoder : Decoder (σ → σ)
  /-- Whether an array has to reach as far as this field. -/
  requiredInArray : Bool := true

/-- What becomes of an array where a record is expected. -/
inductive ArrayRule where
  /-- It holds the fields in their order. -/
  | fields
  /-- It is refused before it is read. -/
  | refused
  /-- It is refused as it is opened. -/
  | refusedInside

/-- A record type. -/
structure Shape (σ α : Type) where
  /-- The words for the type. -/
  expected : String
  fields : List (Field σ)
  /-- Nothing read yet. -/
  start : σ
  finish : σ → Except Cause α
  /-- Where a member goes that is no field; none if it is passed over. -/
  keep? : Option (String → Json → σ → σ) := none
  arrays : ArrayRule := .fields
  /-- Whether an array that was read before its type was known may hold more than the fields. -/
  moreItems : Bool := false

namespace Shape

variable {σ α : Type}

/-- The words for a number of elements. -/
def elements (n : Nat) : String := if n = 1 then "1 element" else toString n ++ " elements"

/-- The words for an array of the fields. -/
def expectedArray (shape : Shape σ α) : String :=
  shape.expected ++ " with " ++ elements shape.fields.length

/-- The value of what was collected, or an unplaced fault. -/
def finished (shape : Shape σ α) (collected : σ) (rest : List Char) : Reading α :=
  match shape.finish collected with
  | .ok value => .ok value rest
  | .error cause => faultBefore cause rest

/-- Reads the members of an object into what was collected. -/
def readMembers (shape : Shape σ α) (room : Nat) :
    Nat → Bool → σ → List Char → Reading σ
  | 0, _, _, cs => faultAt .endInObject cs
  | fuel + 1, first, collected, cs =>
    (nextKey first cs).andThen fun key rest =>
      match key with
      | none => .ok collected rest
      | some key =>
        match shape.fields.find? (·.name == key) with
        | some field =>
          if field.isSet collected then faultBefore (.duplicateField key) rest
          else
            (colon rest).andThen fun _ rest =>
              (field.decoder.read room rest).andThen fun set rest =>
                readMembers shape room fuel false (set collected) rest
        | none =>
          (colon rest).andThen fun _ rest =>
            match shape.keep? with
            | some keep =>
              (raw room rest).andThen fun value rest =>
                readMembers shape room fuel false (keep key value collected) rest
            | none =>
              (ignored rest).andThen fun _ rest =>
                readMembers shape room fuel false collected rest

/-- Reads the items of an array into the fields left, of which the first has the given place. -/
def readItems (shape : Shape σ α) (room : Nat) :
    List (Field σ) → Nat → σ → List Char → Reading σ
  | [], _, collected, cs => .ok collected cs
  | field :: fields, place, collected, cs =>
    (nextItem (place == 0) cs).andThen fun more rest =>
      if more then
        (field.decoder.read room rest).andThen fun set rest =>
          readItems shape room fields (place + 1) (set collected) rest
      else if field.requiredInArray then
        faultBefore (.invalidLength place shape.expectedArray) rest
      else readItems shape room fields (place + 1) collected rest

/-- Views the members of an object. -/
def viewMembers (shape : Shape σ α) : List (String × Json) → σ → Except Cause σ
  | [], collected => .ok collected
  | (key, value) :: rest, collected =>
    match shape.fields.find? (·.name == key) with
    | some field =>
      if field.isSet collected then .error (.duplicateField key)
      else
        match field.decoder.view value with
        | .ok set => viewMembers shape rest (set collected)
        | .error cause => .error cause
    | none =>
      match shape.keep? with
      | some keep => viewMembers shape rest (keep key value collected)
      | none => viewMembers shape rest collected

/-- Views the items of an array that has `length` of them. -/
def viewItems (shape : Shape σ α) (length : Nat) :
    List (Field σ) → Nat → List Json → σ → Except Cause σ
  | [], place, values, collected =>
    if values.isEmpty || shape.moreItems then .ok collected
    else .error (.invalidLength length (elements place ++ " in sequence"))
  | field :: fields, place, [], collected =>
    if field.requiredInArray then .error (.invalidLength place shape.expectedArray)
    else viewItems shape length fields (place + 1) [] collected
  | field :: fields, place, value :: values, collected =>
    match field.decoder.view value with
    | .ok set => viewItems shape length fields (place + 1) values (set collected)
    | .error cause => .error cause

/-- The decoder of a record type. -/
def decoder (shape : Shape σ α) : Decoder α where
  read room cs :=
    match skipBlank cs with
    | '\x7b' :: rest =>
      inObject room ('\x7b' :: rest) fun room rest =>
        (readMembers shape room (rest.length + 1) true shape.start rest).andThen shape.finished
    | '[' :: rest =>
      match shape.arrays with
      | .fields =>
        inList room ('[' :: rest) fun room rest =>
          (readItems shape room shape.fields 0 shape.start rest).andThen shape.finished
      | .refused => Decoder.refuse shape.expected ('[' :: rest)
      | .refusedInside =>
        inList room ('[' :: rest) fun _ rest =>
          faultBefore (.invalidType .sequence shape.expected) rest
    | cs' => Decoder.refuse shape.expected cs'
  view
    | .object ms => do shape.finish (← viewMembers shape ms shape.start)
    | .array values =>
      match shape.arrays with
      | .fields => do
        shape.finish (← viewItems shape values.length shape.fields 0 values shape.start)
      | _ => .error (.invalidType .sequence shape.expected)
    | value => .error (.invalidType (found value) shape.expected)

end Shape

/-! ## Tagged messages -/

/-- A message type: an object with a name under one key and that name's content under another. -/
structure Tagged (α : Type) where
  /-- The words for the type. -/
  expected : String
  tag : String
  content : String
  variants : List (String × Decoder α)

namespace Tagged

variable {α : Type}

/-- The members of a message that matter. -/
inductive Key where
  | tag
  | content

/-- The next member that matters, if there is one; others are passed over. -/
def nextRelevant (t : Tagged α) : Nat → Bool → List Char → Reading (Option Key)
  | 0, _, cs => faultAt .endInObject cs
  | fuel + 1, first, cs =>
    (nextKey first cs).andThen fun key rest =>
      match key with
      | none => .ok none rest
      | some key =>
        if key = t.tag then .ok (some .tag) rest
        else if key = t.content then .ok (some .content) rest
        else
          (colon rest).andThen fun _ rest =>
            (ignored rest).andThen fun _ rest => nextRelevant t fuel false rest

/-- Ends a message, which may not repeat its tag or content. -/
def ended (t : Tagged α) (value : α) (cs : List Char) : Reading α :=
  (t.nextRelevant (cs.length + 1) false cs).andThen fun key rest =>
    match key with
    | none => .ok value rest
    | some .tag => faultBefore (.duplicateField t.tag) rest
    | some .content => faultBefore (.duplicateField t.content) rest

/-- Reads the tag after its key. -/
def readTag (t : Tagged α) (room : Nat) (cs : List Char) : Reading (Decoder α) :=
  (colon cs).andThen fun _ rest => (Decoder.enumeration t.variants).read room rest

/-- Reads a message whose tag comes first, after the tag's key. -/
def tagFirst (t : Tagged α) (room : Nat) (cs : List Char) : Reading α :=
  (t.readTag room cs).andThen fun decoder rest =>
    (t.nextRelevant (rest.length + 1) false rest).andThen fun key rest =>
      match key with
      | none => faultBefore (.missingField t.content) rest
      | some .tag => faultBefore (.duplicateField t.tag) rest
      | some .content =>
        (colon rest).andThen fun _ rest =>
          (decoder.read room rest).andThen fun value rest => t.ended value rest

/-- Reads a message whose content comes first, after the content's key. -/
def contentFirst (t : Tagged α) (room : Nat) (cs : List Char) : Reading α :=
  (colon cs).andThen fun _ rest =>
    (raw room rest).andThen fun content rest =>
      (t.nextRelevant (rest.length + 1) false rest).andThen fun key rest =>
        match key with
        | none => faultBefore (.missingField t.tag) rest
        | some .content => faultBefore (.duplicateField t.content) rest
        | some .tag =>
          (t.readTag room rest).andThen fun decoder rest =>
            match decoder.view content with
            | .error cause => faultBefore cause rest
            | .ok value => t.ended value rest

/-- Reads a message. -/
def read (t : Tagged α) (room : Nat) (cs : List Char) : Reading α :=
  match skipBlank cs with
  | '\x7b' :: rest =>
    inObject room ('\x7b' :: rest) fun room rest =>
      (t.nextRelevant (rest.length + 1) true rest).andThen fun key rest =>
        match key with
        | none => faultBefore (.missingField t.tag) rest
        | some .tag => t.tagFirst room rest
        | some .content => t.contentFirst room rest
  | '[' :: rest =>
    inList room ('[' :: rest) fun room rest =>
      (nextItem true rest).andThen fun more rest =>
        if more then
          ((Decoder.name t.variants).read room rest).andThen fun decoder rest =>
            (nextItem false rest).andThen fun more rest =>
              if more then decoder.read room rest
              else faultBefore (.invalidLength 1 t.expected) rest
        else faultBefore (.invalidLength 0 t.expected) rest
  | cs' => Decoder.refuse t.expected cs'

end Tagged

/-- Reads a whole text as a value of a type. -/
def Decoder.parse {α : Type} (d : Decoder α) (text : String) : Except Error α :=
  readAll d.read maxDepth text

end TrialBoard.Json
