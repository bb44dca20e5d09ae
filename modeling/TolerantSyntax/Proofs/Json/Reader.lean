/-!
# Reading JSON

A reader for the whole of JSON as RFC 8259 has it: blanks around every sign, strings with all
escapes and with surrogate pairs, numbers with fractions and exponents.  It knows nothing of
the texts that a report is made of.
-/

namespace TolerantSyntax

inductive Json where
  | null
  | bool (value : Bool)
  | number (mantissa exponent : Int)
  | string (text : String)
  | array (items : List Json)
  | object (members : List (String × Json))
deriving Repr, Inhabited

namespace Json

/-- A reader takes what it reads from the front of a text, or gives up. -/
abbrev Reader := StateT (List Char) Option

def ofNat (n : Nat) : Json := .number n 0

namespace Reader

def isBlank (c : Char) : Bool := c = ' ' || c = '\n' || c = '\r' || c = '\t'

def next : Reader Char
  | [] => none
  | c :: rest => some (c, rest)

def require (holds : Bool) : Reader Unit := if holds then pure () else failure

def skipBlanks : Reader Unit := modify (List.dropWhile isBlank)

def exactly (c : Char) : Reader Unit := do require ((← next) = c)

def symbol (c : Char) : Reader Unit := do
  skipBlanks
  exactly c

/-- Whether a sign comes next.  It is taken if it does, and nothing is taken otherwise. -/
def symbolIf (c : Char) : Reader Bool := fun text =>
  match text.dropWhile isBlank with
  | d :: rest => if d = c then some (true, rest) else some (false, text)
  | [] => some (false, text)

def takeIf (wanted : Char → Bool) : Reader Bool
  | c :: rest => if wanted c then some (true, rest) else some (false, c :: rest)
  | [] => some (false, [])

def hexDigit? (c : Char) : Option Nat :=
  if '0' ≤ c ∧ c ≤ '9' then some (c.toNat - '0'.toNat)
  else if 'a' ≤ c ∧ c ≤ 'f' then some (c.toNat - 'a'.toNat + 10)
  else if 'A' ≤ c ∧ c ≤ 'F' then some (c.toNat - 'A'.toNat + 10)
  else none

def hexDigit : Reader Nat := do
  match hexDigit? (← next) with
  | some digit => return digit
  | none => failure

def hexUnit : Reader Nat := do
  let a ← hexDigit
  let b ← hexDigit
  let c ← hexDigit
  let d ← hexDigit
  return ((a * 16 + b) * 16 + c) * 16 + d

def ofCode (code : Nat) : Reader Char :=
  if code.isValidChar then pure (.ofNat code) else failure

/-- The character of a `\u` escape.  One beyond the first plane is written as two. -/
def unicode : Reader Char := do
  let high ← hexUnit
  if 0xD800 ≤ high ∧ high < 0xDC00 then
    exactly '\\'
    exactly 'u'
    let low ← hexUnit
    require (0xDC00 ≤ low ∧ low < 0xE000)
    ofCode (0x10000 + (high - 0xD800) * 0x400 + (low - 0xDC00))
  else ofCode high

def escaped : Reader Char := do
  match ← next with
  | '"' => return '"'
  | '\\' => return '\\'
  | '/' => return '/'
  | 'b' => return '\x08'
  | 'f' => return '\x0c'
  | 'n' => return '\n'
  | 'r' => return '\r'
  | 't' => return '\t'
  | 'u' => unicode
  | _ => failure

def character : Reader (Option Char) := do
  match ← next with
  | '"' => return none
  | '\\' => return some (← escaped)
  | c => if c.toNat < 0x20 then failure else return some c

def charactersWithin : Nat → Reader (List Char)
  | 0 => failure
  | n + 1 => do
      match ← character with
      | none => return []
      | some c => return c :: (← charactersWithin n)

def string : Reader String := do
  exactly '"'
  let chars ← charactersWithin (← get).length
  return .ofList chars

def digits : Reader (List Char) := do
  let taken := (← get).takeWhile Char.isDigit
  modify (List.dropWhile Char.isDigit)
  require !taken.isEmpty
  return taken

def whole : Reader (List Char) := do
  let taken ← digits
  require (taken.length = 1 || taken.head? ≠ some '0')
  return taken

def exponent : Reader Int := do
  let negative ← takeIf (· = '-')
  unless negative do discard (takeIf (· = '+'))
  let size : Int := Nat.ofDigitChars 10 (← digits) 0
  return if negative then -size else size

def number : Reader Json := do
  let negative ← takeIf (· = '-')
  let front ← whole
  let fraction ← if ← takeIf (· = '.') then digits else pure []
  let shift ← if ← takeIf fun c => c = 'e' || c = 'E' then exponent else pure 0
  let size : Int := Nat.ofDigitChars 10 (front ++ fraction) 0
  return .number (if negative then -size else size) (shift - fraction.length)

def word (text : String) : Reader Unit := text.toList.forM exactly

def itemsWithin {α : Type} (item : Reader α) (closing : Char) : Nat → Reader (List α)
  | 0 => failure
  | n + 1 => do
      let first ← item
      if ← symbolIf ',' then return first :: (← itemsWithin item closing n)
      else
        symbol closing
        return [first]

def list {α : Type} (item : Reader α) (opening closing : Char) : Reader (List α) := do
  symbol opening
  if ← symbolIf closing then return []
  else itemsWithin item closing (← get).length

def member (nested : Reader Json) : Reader (String × Json) := do
  skipBlanks
  let key ← string
  symbol ':'
  return (key, ← nested)

/-- A value with a given first character, which says what it is.  Those inside it are left to
another reader. -/
def valueAt (nested : Reader Json) : Option Char → Reader Json
  | some '"' => do return .string (← string)
  | some '[' => do return .array (← list nested '[' ']')
  | some '\x7b' => do return .object (← list (member nested) '\x7b' '\x7d')
  | some 't' => do word "true"; return .bool true
  | some 'f' => do word "false"; return .bool false
  | some 'n' => do word "null"; return .null
  | _ => number

def valueStep (nested : Reader Json) : Reader Json := do
  skipBlanks
  valueAt nested (← get).head?

def valueWithin : Nat → Reader Json
  | 0 => failure
  | n + 1 => valueStep (valueWithin n)

end Reader

/-- The value that a text is, with nothing but blanks around it.  A value is nested less deeply
than its text is long. -/
def read? (text : String) : Option Json :=
  match Reader.valueWithin text.length text.toList with
  | some (value, rest) => if rest.all Reader.isBlank then some value else none
  | none => none

example : read? " [ -12.50e1, \"\\u00e9\\ud83d\\ude00\\/\", \x7b\"a\": [null, true]\x7d ]\n" =
    some (.array [.number (-1250) (-1), .string "é😀/",
      .object [("a", .array [.null, .bool true])]]) := by
  cbv

example : read? "[1,]" = none ∧ read? "[01]" = none ∧ read? "\"\t\"" = none := by
  refine ⟨?_, ?_, ?_⟩ <;> cbv

end Json
end TolerantSyntax
