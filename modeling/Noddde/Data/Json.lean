import Noddde.Data.InsertionMap
/-!
# JSON values and their text

`JSON.stringify` and `JSON.parse` on strings of UTF-16 code units.  How a finite
number is rendered and read is left to a class: all that is used of it is that
reading undoes rendering.
-/

/-- A string is the list of its code units. -/
abbrev JsString := List UInt16

inductive Json (N : Type) where
  | null
  | bool (value : Bool)
  | number (value : N)
  | string (value : JsString)
  | array (values : List (Json N))
  | object (fields : List (JsString × Json N))

namespace Json

variable {N : Type}

/-- No object has a key twice. -/
inductive Proper : Json N → Prop where
  | null : Proper null
  | bool (value : Bool) : Proper (bool value)
  | number (value : N) : Proper (number value)
  | string (value : JsString) : Proper (string value)
  | array {values : List (Json N)} : (∀ value ∈ values, Proper value) → Proper (array values)
  | object {fields : List (JsString × Json N)} : (fields.map Prod.fst).Nodup →
      (∀ field ∈ fields, Proper field.2) → Proper (object fields)

/-- The JSON values that JavaScript can build. -/
abbrev Value (N : Type) := { value : Json N // Proper value }

def isString : Json N → Bool
  | string _ => true
  | _ => false

/-! ## Code units -/

def quotationMark : UInt16 := 0x22
def reverseSolidus : UInt16 := 0x5C
def solidus : UInt16 := 0x2F
def comma : UInt16 := 0x2C
def colon : UInt16 := 0x3A
def leftBracket : UInt16 := 0x5B
def rightBracket : UInt16 := 0x5D
def leftBrace : UInt16 := 0x7B
def rightBrace : UInt16 := 0x7D

/-- The letter after which four hexadecimal digits follow. -/
def letterU : UInt16 := 0x75

def ascii (text : String) : JsString := text.toList.map fun c => c.toNat.toUInt16

def isSpace (c : UInt16) : Bool := c == 0x20 || c == 0x09 || c == 0x0A || c == 0x0D

def isHighSurrogate (c : UInt16) : Bool := 0xD800 ≤ c && c < 0xDC00

def isLowSurrogate (c : UInt16) : Bool := 0xDC00 ≤ c && c < 0xE000

/-- A digit, a sign, a point or the letter of an exponent. -/
def isNumberUnit (c : UInt16) : Bool :=
  0x30 ≤ c && c ≤ 0x39 || c == 0x2D || c == 0x2B || c == 0x2E || c == 0x65 || c == 0x45

/-- Numbers as `Number::toString` renders and the number grammar of JSON reads them. -/
class Number (N : Type) where
  render : N → JsString
  /-- `none` of what is no number of the grammar. -/
  read : JsString → Option N
  read_render : ∀ n, read (render n) = some n
  render_units : ∀ n, ∀ c ∈ render n, isNumberUnit c = true
  render_ne_nil : ∀ n, render n ≠ []

/-! ## JSON.stringify -/

/-- A code unit and the letter that stands for it after a reverse solidus. -/
def shortEscapes : List (UInt16 × UInt16) :=
  [(quotationMark, quotationMark), (reverseSolidus, reverseSolidus), (0x08, 0x62),
    (0x0C, 0x66), (0x0A, 0x6E), (0x0D, 0x72), (0x09, 0x74)]

def hexDigit (n : Nat) : UInt16 := (if n < 10 then 0x30 + n else 0x57 + n).toUInt16

def unicodeEscape (c : UInt16) : JsString :=
  [reverseSolidus, letterU, hexDigit (c.toNat / 4096), hexDigit (c.toNat / 256 % 16),
    hexDigit (c.toNat / 16 % 16), hexDigit (c.toNat % 16)]

/-- A code unit that is no half of a surrogate pair. -/
def escape (c : UInt16) : JsString :=
  match shortEscapes.lookup c with
  | some letter => [reverseSolidus, letter]
  | none =>
      if c < 0x20 || isHighSurrogate c || isLowSurrogate c then unicodeEscape c else [c]

def escapeAll : JsString → JsString
  | [] => []
  | [c] => escape c
  | c :: d :: rest =>
      if isHighSurrogate c && isLowSurrogate d then c :: d :: escapeAll rest
      else escape c ++ escapeAll (d :: rest)

def quote (text : JsString) : JsString :=
  quotationMark :: (escapeAll text ++ [quotationMark])

section Stringify

variable [Number N]

mutual

def stringify : Json N → JsString
  | null => ascii "null"
  | bool true => ascii "true"
  | bool false => ascii "false"
  | number value => Number.render value
  | string value => quote value
  | array [] => [leftBracket, rightBracket]
  | array (value :: values) =>
      leftBracket :: (stringify value ++ (moreElements values ++ [rightBracket]))
  | object [] => [leftBrace, rightBrace]
  | object (field :: fields) =>
      leftBrace :: (stringifyMember field ++ (moreMembers fields ++ [rightBrace]))

def moreElements : List (Json N) → JsString
  | [] => []
  | value :: values => comma :: (stringify value ++ moreElements values)

def stringifyMember : JsString × Json N → JsString
  | (key, value) => quote key ++ colon :: stringify value

def moreMembers : List (JsString × Json N) → JsString
  | [] => []
  | field :: fields => comma :: (stringifyMember field ++ moreMembers fields)

end

end Stringify

/-! ## JSON.parse -/

def skip : JsString → JsString
  | [] => []
  | c :: rest => if isSpace c then skip rest else c :: rest

def unescape (letter : UInt16) : Option UInt16 :=
  ((solidus, solidus) :: shortEscapes.map Prod.swap).lookup letter

def hexValue (c : UInt16) : Option Nat :=
  if 0x30 ≤ c ∧ c ≤ 0x39 then some (c.toNat - 0x30)
  else if 0x61 ≤ c ∧ c ≤ 0x66 then some (c.toNat - 0x57)
  else if 0x41 ≤ c ∧ c ≤ 0x46 then some (c.toNat - 0x37)
  else none

def hexUnit (a b c d : UInt16) : Option UInt16 := do
  let a ← hexValue a
  let b ← hexValue b
  let c ← hexValue c
  let d ← hexValue d
  some (4096 * a + 256 * b + 16 * c + d).toUInt16

/-- What comes after an opening quotation mark: the string, and what follows it. -/
def readString : JsString → Option (JsString × JsString)
  | [] => none
  | c :: rest =>
      if c = quotationMark then some ([], rest)
      else if c = reverseSolidus then
        match rest with
        | [] => none
        | letter :: rest =>
            if letter = letterU then
              match rest with
              | h₁ :: h₂ :: h₃ :: h₄ :: rest =>
                  match hexUnit h₁ h₂ h₃ h₄, readString rest with
                  | some unit, some (text, rest) => some (unit :: text, rest)
                  | _, _ => none
              | _ => none
            else
              match unescape letter, readString rest with
              | some unit, some (text, rest) => some (unit :: text, rest)
              | _, _ => none
      else if c < 0x20 then none
      else
        match readString rest with
        | some (text, rest) => some (c :: text, rest)
        | none => none

/-- The fields of an object literal: of equal keys the last one counts. -/
def ofMembers (members : List (JsString × Json N)) : List (JsString × Json N) :=
  members.foldl (fun fields member => InsertionMap.setEntry member.1 member.2 fields) []

section Parse

variable [Number N]

def readWord (text : JsString) : Option (Json N × JsString) :=
  if (ascii "null").isPrefixOf text then some (null, text.drop 4)
  else if (ascii "true").isPrefixOf text then some (bool true, text.drop 4)
  else if (ascii "false").isPrefixOf text then some (bool false, text.drop 5)
  else (Number.read (text.takeWhile isNumberUnit)).map fun value =>
    (number value, text.dropWhile isNumberUnit)

mutual

/-- The value with which a text begins, and what follows it. -/
def readValue : (fuel : Nat) → JsString → Option (Json N × JsString)
  | 0, _ => none
  | fuel + 1, text =>
      match skip text with
      | [] => none
      | c :: rest =>
          if c = quotationMark then (readString rest).map fun read => (string read.1, read.2)
          else if c = leftBracket then
            match skip rest with
            | [] => none
            | d :: rest =>
                if d = rightBracket then some (array [], rest)
                else do
                  let (value, rest) ← readValue fuel (d :: rest)
                  let (values, rest) ← readElements fuel rest
                  some (array (value :: values), rest)
          else if c = leftBrace then
            match skip rest with
            | [] => none
            | d :: rest =>
                if d = rightBrace then some (object [], rest)
                else do
                  let (member, rest) ← readMember fuel (d :: rest)
                  let (members, rest) ← readMembers fuel rest
                  some (object (ofMembers (member :: members)), rest)
          else readWord (c :: rest)

/-- The elements after one of an array, up to the closing bracket. -/
def readElements : (fuel : Nat) → JsString → Option (List (Json N) × JsString)
  | 0, _ => none
  | fuel + 1, text =>
      match skip text with
      | [] => none
      | c :: rest =>
          if c = rightBracket then some ([], rest)
          else if c = comma then do
            let (value, rest) ← readValue fuel rest
            let (values, rest) ← readElements fuel rest
            some (value :: values, rest)
          else none

def readMember : (fuel : Nat) → JsString → Option ((JsString × Json N) × JsString)
  | 0, _ => none
  | fuel + 1, text =>
      match skip text with
      | [] => none
      | c :: rest =>
          if c = quotationMark then do
            let (key, rest) ← readString rest
            match skip rest with
            | [] => none
            | d :: rest =>
                if d = colon then do
                  let (value, rest) ← readValue fuel rest
                  some ((key, value), rest)
                else none
          else none

/-- The members after one of an object, up to the closing brace. -/
def readMembers : (fuel : Nat) → JsString → Option (List (JsString × Json N) × JsString)
  | 0, _ => none
  | fuel + 1, text =>
      match skip text with
      | [] => none
      | c :: rest =>
          if c = rightBrace then some ([], rest)
          else if c = comma then do
            let (member, rest) ← readMember fuel rest
            let (members, rest) ← readMembers fuel rest
            some (member :: members, rest)
          else none

end

/-- `none` of what is no JSON text. -/
def parse (text : JsString) : Option (Json N) :=
  match readValue (text.length + 1) text with
  | some (value, rest) => if skip rest = [] then some value else none
  | none => none

end Parse

end Json
