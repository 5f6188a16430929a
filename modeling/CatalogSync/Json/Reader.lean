import CatalogSync.Json.Basic

/-!
# Reading JSON text

A recursive-descent reader over a list of characters. Every value takes at least one character, so
the length of the text bounds the depth of the recursion; `Json.parse?` supplies that bound.

An integer that fits neither 64 bits with sign nor 64 bits without is read as a double, as are a
negative zero and every number with a fraction or an exponent. A number beyond the doubles is
refused.
-/

namespace CatalogSync.Json.Reader

/-- The rest of a text after its leading blanks. -/
def skipBlanks (text : List Char) : List Char :=
  text.dropWhile fun c => c = ' ' || c = '\n' || c = '\r' || c = '\t'

/-- The value of a hexadecimal digit. -/
def hexDigit? (c : Char) : Option Nat :=
  if c.isDigit then some (c.toNat - 48)
  else if 'a' ≤ c ∧ c ≤ 'f' then some (c.toNat - 87)
  else if 'A' ≤ c ∧ c ≤ 'F' then some (c.toNat - 55)
  else none

/-- The number written by four hexadecimal digits. -/
def hexUnit? (a b c d : Char) : Option Nat := do
  return ((← hexDigit? a) * 16 + (← hexDigit? b)) * 256
    + ((← hexDigit? c) * 16 + (← hexDigit? d))

/-- The character of a one-letter escape. -/
def escaped? : Char → Option Char
  | '"' => some '"'
  | '\\' => some '\\'
  | '/' => some '/'
  | 'b' => some '\x08'
  | 'f' => some '\x0c'
  | 'n' => some '\n'
  | 'r' => some '\r'
  | 't' => some '\t'
  | _ => none

/--
The characters of a string up to its closing quote, and the rest of the text. Two escaped
surrogates in a row stand for one character; a surrogate on its own is refused.
-/
def quoted? : List Char → Option (List Char × List Char)
  | '"' :: rest => some ([], rest)
  | '\\' :: 'u' :: a :: b :: c :: d :: rest => do
      let unit ← hexUnit? a b c d
      if unit < 0xD800 ∨ 0xE000 ≤ unit then
        let (chars, rest) ← quoted? rest
        return (Char.ofNat unit :: chars, rest)
      else if 0xDC00 ≤ unit then none
      else
        match rest with
        | '\\' :: 'u' :: a :: b :: c :: d :: rest =>
            let low ← hexUnit? a b c d
            if low < 0xDC00 ∨ 0xE000 ≤ low then none
            else
              let (chars, rest) ← quoted? rest
              let code := 0x10000 + (unit - 0xD800) * 0x400 + (low - 0xDC00)
              return (Char.ofNat code :: chars, rest)
        | _ => none
  | '\\' :: c :: rest => do
      let character ← escaped? c
      let (chars, rest) ← quoted? rest
      return (character :: chars, rest)
  | c :: rest => do
      if c.toNat < 0x20 then none
      else
        let (chars, rest) ← quoted? rest
        return (c :: chars, rest)
  | [] => none

/-- The number written by a list of decimal digits. -/
def decimal (digits : List Char) : Nat :=
  digits.foldl (fun value c => 10 * value + (c.toNat - 48)) 0

/-- The digits at the start of a text, at least one, and the rest. -/
def digits? (text : List Char) : Option (List Char × List Char) :=
  match text.takeWhile Char.isDigit with
  | [] => none
  | digits => some (digits, text.dropWhile Char.isDigit)

/-- The digits after a decimal point, if there is one. -/
def fraction? : List Char → Option (List Char × List Char)
  | '.' :: rest => digits? rest
  | text => some ([], text)

/-- The exponent after its mark; nothing is read without a mark. -/
def exponent? : List Char → Option (Option Int × List Char)
  | mark :: rest =>
      if mark = 'e' ∨ mark = 'E' then
        match rest with
        | '-' :: rest =>
            (digits? rest).map fun (digits, rest) => (some (-decimal digits : Int), rest)
        | '+' :: rest =>
            (digits? rest).map fun (digits, rest) => (some (decimal digits : Int), rest)
        | rest => (digits? rest).map fun (digits, rest) => (some (decimal digits : Int), rest)
      else some (none, mark :: rest)
  | [] => some (none, [])

/-- Whether an integer fits 64 bits, with or without a sign, and is no negative zero. -/
def fits (negative : Bool) : Int → Bool
  | .ofNat value => decide (value < UInt64.size) && !(negative && value == 0)
  | .negSucc value => decide (2 * value < UInt64.size)

/-- A number whose sign has been read, and the rest of the text. -/
def unsigned? (negative : Bool) (text : List Char) : Option (Json × List Char) := do
  let (whole, rest) ← digits? text
  if whole.length > 1 ∧ whole.head? = some '0' then none
  else
    let (places, rest) ← fraction? rest
    let (power, rest) ← exponent? rest
    let value : Int := if negative then -decimal whole else decimal whole
    if places.isEmpty && power.isNone && fits negative value then
      return (.int value, rest)
    else
      let double ← Binary64.ofDecimal? negative (decimal (whole ++ places))
        (power.getD 0 - places.length)
      return (.double double, rest)

/-- A number and the rest of the text. -/
def number? : List Char → Option (Json × List Char)
  | '-' :: rest => unsigned? true rest
  | text => unsigned? false text

/-- Takes a word from the start of a text. -/
def word? (word : String) (value : Json) (text : List Char) : Option (Json × List Char) :=
  if word.toList.isPrefixOf text then some (value, text.drop word.length) else none

mutual

/-- A value at the start of a text, and the rest. -/
def value? : Nat → List Char → Option (Json × List Char)
  | 0, _ => none
  | depth + 1, text =>
      match skipBlanks text with
      | '"' :: rest => (quoted? rest).map fun (chars, rest) => (.string (String.ofList chars), rest)
      | '[' :: rest =>
          match skipBlanks rest with
          | ']' :: rest => some (.array [], rest)
          | rest => (items? depth rest).map fun (items, rest) => (.array items, rest)
      | '\x7b' :: rest =>
          match skipBlanks rest with
          | '\x7d' :: rest => some (.object [], rest)
          | rest => (entries? depth rest).map fun (entries, rest) => (.object entries, rest)
      | 't' :: rest => word? "true" (.bool true) ('t' :: rest)
      | 'f' :: rest => word? "false" (.bool false) ('f' :: rest)
      | 'n' :: rest => word? "null" .null ('n' :: rest)
      | text => number? text

/-- The items of an array up to its closing bracket, and the rest. -/
def items? : Nat → List Char → Option (List Json × List Char)
  | 0, _ => none
  | depth + 1, text => do
      let (item, rest) ← value? depth text
      match skipBlanks rest with
      | ',' :: rest =>
          let (items, rest) ← items? depth rest
          return (item :: items, rest)
      | ']' :: rest => return ([item], rest)
      | _ => none

/-- The members of an object up to its closing brace, and the rest. -/
def entries? : Nat → List Char → Option (List (String × Json) × List Char)
  | 0, _ => none
  | depth + 1, text =>
      match skipBlanks text with
      | '"' :: rest => do
          let (name, rest) ← quoted? rest
          match skipBlanks rest with
          | ':' :: rest =>
              let (value, rest) ← value? depth rest
              match skipBlanks rest with
              | ',' :: rest =>
                  let (entries, rest) ← entries? depth rest
                  return ((String.ofList name, value) :: entries, rest)
              | '\x7d' :: rest => return ([(String.ofList name, value)], rest)
              | _ => none
          | _ => none
      | _ => none

end

end CatalogSync.Json.Reader

namespace CatalogSync.Json

/-- The value that a text writes, if it writes one and nothing else. -/
def parse? (text : String) : Option Json := do
  let chars := text.toList
  let (value, rest) ← Reader.value? (chars.length + 1) chars
  if (Reader.skipBlanks rest).isEmpty then some value else none

end CatalogSync.Json
