import ChartCompiler.Json.Basic
import ChartCompiler.Text.Quoted

/-!
# What can be wrong with a text

Reading stops at the first fault in text order: the text ends too early, it is not JSON, or a value
does not fit what is wanted in its place. `Mismatch.message` words the last kind.
-/

namespace ChartCompiler.Json

/-- A value that was found in the place of another kind of value. -/
inductive Found where
  | null
  | bool (value : Bool)
  | number (value : Number)
  | string (value : String)
  | array
  | object

inductive Mismatch where
  /-- An object ends without a member that has no default. -/
  | missingField (name : String)
  /-- An object gives a known member twice. -/
  | duplicateField (name : String)
  /-- A name that is none of the choices. -/
  | unknownVariant (name : String) (choices : List String)
  /-- A value of another kind. -/
  | wrongType (found : Found) (wanted : String)
  /-- A number outside its range. -/
  | wrongValue (found : Found) (wanted : String)
  /-- A record written as a list that ends after `length` items. -/
  | wrongLength (length : Nat) (record : String) (size : Nat)
  /-- A value that fits no form of a type with several. -/
  | noForm (type : String)

inductive Fault where
  /-- The text ends inside a value. -/
  | cutShort
  /-- The text is not JSON, or goes beyond the limits on depth and size. -/
  | malformed
  | mismatch (cause : Mismatch)

def Found.text : Found → String
  | .null => "null"
  | .bool b => "boolean `" ++ toString b ++ "`"
  | .number (.integer n) => "integer `" ++ toString n ++ "`"
  | .number (.real x) => "floating point `" ++ numberLayout.write x ++ "`"
  | .string s => "string " ++ quoted s
  | .array => "sequence"
  | .object => "map"

/-- Names in backticks, as alternatives. -/
def choicesText : List String → String
  | [] => "there are no variants"
  | [only] => "expected `" ++ only ++ "`"
  | [one, other] => "expected `" ++ one ++ "` or `" ++ other ++ "`"
  | names => "expected one of " ++ ", ".intercalate (names.map fun name => "`" ++ name ++ "`")

def Mismatch.message : Mismatch → String
  | .missingField name => "missing field `" ++ name ++ "`"
  | .duplicateField name => "duplicate field `" ++ name ++ "`"
  | .unknownVariant name choices => "unknown variant `" ++ name ++ "`, " ++ choicesText choices
  | .wrongType found wanted => "invalid type: " ++ found.text ++ ", expected " ++ wanted
  | .wrongValue found wanted => "invalid value: " ++ found.text ++ ", expected " ++ wanted
  | .wrongLength length record size =>
      "invalid length " ++ toString length ++ ", expected struct " ++ record ++ " with " ++
        toString size ++ (if size = 1 then " element" else " elements")
  | .noForm type => "data did not match any variant of untagged enum " ++ type

end ChartCompiler.Json
