import ChartCompiler.Decimal.Layout

/-!
# JSON values

Numbers keep the distinction between integers of 64 bits and doubles. Objects are lists of members;
the reader keeps their names sorted and distinct (`Members.insert`), a writer lists them in the
order in which they shall appear.
-/

namespace ChartCompiler

/-- An integer between `-2 ^ 63` and `2 ^ 64 - 1`, or a double. -/
inductive Json.Number where
  | integer (value : Int)
  | real (value : Float)

inductive Json where
  | null
  | bool (value : Bool)
  | number (value : Json.Number)
  | string (value : String)
  | array (items : List Json)
  | object (members : List (String × Json))

namespace Json

instance : Inhabited Json := ⟨.null⟩

/-- Numbers are written without an exponent while the leading digit stands for a power of ten from
`-5` to `15`. Whole doubles keep a `.0`, the last digit is even where two would do, and what is not
a finite number is `null`. -/
def numberLayout : Decimal.Layout where
  tie := .toEven
  plain := some (-5, 15)
  pointZero := true
  nan := "null"
  infinite := "null"
  negativeInfinite := "null"

def Number.text : Number → String
  | .integer n => toString n
  | .real x => numberLayout.write x

def Number.toFloat : Number → Float
  | .integer n => Float.ofInt n
  | .real x => x

/-- Name and value pairs, sorted by name. -/
abbrev Members := List (String × Json)

namespace Members

/-- The members with `name` set to `value`, in its place by name. -/
def insert (name : String) (value : Json) : Members → Members
  | [] => [(name, value)]
  | (other, old) :: rest =>
      if name < other then (name, value) :: (other, old) :: rest
      else if name = other then (name, value) :: rest
      else (other, old) :: insert name value rest

def get? (name : String) : Members → Option Json
  | [] => none
  | (other, value) :: rest => if other = name then some value else get? name rest

@[simp]
theorem get?_insert_self (name : String) (value : Json) (members : Members) :
    (members.insert name value).get? name = some value := by
  induction members with
  | nil => simp [insert, get?]
  | cons head rest ih => grind [insert, get?]

@[simp]
theorem get?_insert_of_ne {name other : String} (distinct : other ≠ name) (value : Json)
    (members : Members) : (members.insert name value).get? other = members.get? other := by
  induction members with
  | nil => simp [insert, get?, distinct.symm]
  | cons head rest ih => grind [insert, get?]

end Members

def items? : Json → Option (List Json)
  | .array items => some items
  | _ => none

def members? : Json → Option Members
  | .object members => some members
  | _ => none

def get? (name : String) (value : Json) : Option Json :=
  value.members?.bind (Members.get? name)

end Json

end ChartCompiler
