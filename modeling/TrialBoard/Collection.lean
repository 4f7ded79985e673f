/-!
# The four collections

Rows live in four collections: experiments, and the transformations, tests and analytics that
belong to an experiment. `ByCollection` holds one value for each of them.
-/

namespace TrialBoard

/-- One of the four collections. -/
inductive Collection where
  | experiments
  | transformations
  | tests
  | analytics
deriving DecidableEq, Inhabited

namespace Collection

/-- Every collection, in the order in which they are subscribed to. -/
def all : List Collection := [experiments, transformations, tests, analytics]

/-- The name of a collection, as it is written in messages. -/
def name : Collection → String
  | experiments => "experiments"
  | transformations => "transformations"
  | tests => "tests"
  | analytics => "analytics"

/-- The collections by name. -/
def variants : List (String × Collection) := all.map fun c => (c.name, c)

/-- The collection of a name. -/
def ofName? (name : String) : Option Collection := variants.lookup name

theorem mem_all (c : Collection) : c ∈ all := by cases c <;> decide

end Collection

/-- One value for each collection. -/
@[ext] structure ByCollection (α : Type) where
  experiments : α
  transformations : α
  tests : α
  analytics : α
deriving DecidableEq

namespace ByCollection

variable {α β : Type}

/-- The value of a collection. -/
def get (values : ByCollection α) : Collection → α
  | .experiments => values.experiments
  | .transformations => values.transformations
  | .tests => values.tests
  | .analytics => values.analytics

/-- Replaces the value of a collection. -/
def set (values : ByCollection α) (c : Collection) (value : α) : ByCollection α :=
  match c with
  | .experiments => { values with experiments := value }
  | .transformations => { values with transformations := value }
  | .tests => { values with tests := value }
  | .analytics => { values with analytics := value }

/-- The values that a function gives. -/
def ofFn (f : Collection → α) : ByCollection α :=
  ⟨f .experiments, f .transformations, f .tests, f .analytics⟩

/-- The values, in the order of `Collection.all`. -/
def toList (values : ByCollection α) : List α :=
  [values.experiments, values.transformations, values.tests, values.analytics]

@[simp] theorem get_set_self (values : ByCollection α) (c : Collection) (value : α) :
    (values.set c value).get c = value := by cases c <;> rfl

theorem get_set_of_ne (values : ByCollection α) {c d : Collection} (h : d ≠ c) (value : α) :
    (values.set c value).get d = values.get d := by
  cases c <;> cases d <;> first | rfl | exact absurd rfl h

@[simp] theorem get_ofFn (f : Collection → α) (c : Collection) : (ofFn f).get c = f c := by
  cases c <;> rfl

theorem ext_get {values values' : ByCollection α} (h : ∀ c, values.get c = values'.get c) :
    values = values' :=
  ByCollection.ext (h .experiments) (h .transformations) (h .tests) (h .analytics)

theorem toList_eq_map_get (values : ByCollection α) :
    values.toList = Collection.all.map values.get := rfl

end ByCollection

end TrialBoard
