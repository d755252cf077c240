import Noddde.Data.Json
/-!
# Reading JSON values

What JavaScript reads of a value that `JSON.parse` returned: a property of it,
and its text as `String(value)` and a template literal render it.
-/

namespace Json

variable {N : Type}

/-- The property `key` of a value other than `null`, where no prototype has it;
`none` is `undefined`. -/
def property (key : String) : Json N → Option (Json N)
  | object fields => InsertionMap.getEntry (ascii key) fields
  | _ => none

/-- `value?.key` -/
def optionalProperty (key : String) (value : Option (Json N)) : Option (Json N) :=
  value.bind (property key)

section Text

variable [Number N]

mutual

/-- `String(value)`; `none` where it throws.  An own `toString` is not callable, and
an object then has no primitive value. -/
def toText : Json N → Option JsString
  | null => some (ascii "null")
  | bool true => some (ascii "true")
  | bool false => some (ascii "false")
  | number value => some (Number.render value)
  | string value => some value
  | array values => (elementTexts values).map (List.intercalate [comma])
  | object fields =>
      if (InsertionMap.getEntry (ascii "toString") fields).isSome then none
      else some (ascii "[object Object]")

/-- The texts that `values.join(",")` joins. -/
def elementTexts : List (Json N) → Option (List JsString)
  | [] => some []
  | null :: rest => (elementTexts rest).map fun texts => [] :: texts
  | value :: rest => do
      let text ← toText value
      let texts ← elementTexts rest
      some (text :: texts)

end

end Text

end Json
