import Zicato.DictWrites
import Zicato.PyInt
import Zicato.PyValue

/-! # JSON texts

`json.dumps` and `json.loads`.  The writer escapes what JSON requires, and with
`ensure_ascii` everything outside ASCII too; the reader takes one value and refuses
what follows it.  How deep values may nest is not bounded here, and a lone surrogate,
which no `Char` is, is read as the replacement character. -/
namespace Zicato.Json

/-! ## Writing -/

/-- How a text is laid out: `ensure_ascii` and `separators`. -/
structure Layout where
  ascii : Bool
  item : Text
  key : Text

/-- `ensure_ascii=False`. -/
def Layout.unicode : Layout := ⟨false, [',', ' '], [':', ' ']⟩

/-- The defaults of `json.dumps`. -/
def Layout.default : Layout := ⟨true, [',', ' '], [':', ' ']⟩

/-- `separators=(",", ":")`. -/
def Layout.compact : Layout := ⟨true, [','], [':']⟩

/-- The separators are those of JSON, with blanks. -/
structure Layout.Plain (lay : Layout) : Prop where
  item : lay.item = [','] ∨ lay.item = [',', ' ']
  key : lay.key = [':'] ∨ lay.key = [':', ' ']

/-- `f"\\u{n:04x}"`. -/
def hex4 (n : Nat) : Text :=
  ['\\', 'u', Nat.digitChar (n / 4096 % 16), Nat.digitChar (n / 256 % 16),
    Nat.digitChar (n / 16 % 16), Nat.digitChar (n % 16)]

/-- One character of a string. -/
def escape (ascii : Bool) (c : Char) : Text :=
  if c = '"' then ['\\', '"']
  else if c = '\\' then ['\\', '\\']
  else if c = '\n' then ['\\', 'n']
  else if c = '\r' then ['\\', 'r']
  else if c = '\t' then ['\\', 't']
  else if c.toNat = 8 then ['\\', 'b']
  else if c.toNat = 12 then ['\\', 'f']
  else if c.toNat < 0x20 then hex4 c.toNat
  else if ascii = true ∧ 0x7e < c.toNat then
    if c.toNat < 0x10000 then hex4 c.toNat
    else
      -- A surrogate pair.
      hex4 (0xd800 + (c.toNat - 0x10000) / 0x400) ++ hex4 (0xdc00 + (c.toNat - 0x10000) % 0x400)
  else [c]

/-- A string in quotes. -/
def quote (ascii : Bool) (s : String) : Text := '"' :: (s.toList.flatMap (escape ascii) ++ ['"'])

section Dumps

variable {F : Type} (repr : F → Text) (lay : Layout)

mutual
/-- `json.dumps(value)`; `repr` writes a float, `NaN` and `Infinity` as such. -/
def dumpsWith : PyValue F → Text
  | .none => ['n', 'u', 'l', 'l']
  | .bool true => ['t', 'r', 'u', 'e']
  | .bool false => ['f', 'a', 'l', 's', 'e']
  | .int n => PyInt.str n
  | .float x => repr x
  | .str s => quote lay.ascii s
  | .list items => '[' :: dumpsItems items
  | .dict fields => '{' :: dumpsFields fields

/-- The items of a list, and its end. -/
def dumpsItems : List (PyValue F) → Text
  | [] => [']']
  | [v] => dumpsWith v ++ [']']
  | v :: w :: rest => dumpsWith v ++ (lay.item ++ dumpsItems (w :: rest))

/-- The items of a dictionary, and its end. -/
def dumpsFields : List (String × PyValue F) → Text
  | [] => ['}']
  | [(k, v)] => quote lay.ascii k ++ (lay.key ++ (dumpsWith v ++ ['}']))
  | (k, v) :: w :: rest =>
      quote lay.ascii k ++ (lay.key ++ (dumpsWith v ++ (lay.item ++ dumpsFields (w :: rest))))
end

end Dumps

/-! ## Reading -/

/-- JSON's own white space. -/
def isWs (c : Char) : Bool := c == ' ' || c == '\t' || c == '\n' || c == '\r'

/-- The text behind blanks. -/
def skip (text : Text) : Text := text.dropWhile isWs

/-- The value of a hexadecimal digit. -/
def hexVal (c : Char) : Option Nat :=
  if '0' ≤ c ∧ c ≤ '9' then some (c.toNat - 48)
  else if 'a' ≤ c ∧ c ≤ 'f' then some (c.toNat - 87)
  else if 'A' ≤ c ∧ c ≤ 'F' then some (c.toNat - 55)
  else none

/-- Four hexadecimal digits. -/
def hexVal4 (a b c d : Char) : Option Nat := do
  let a ← hexVal a
  let b ← hexVal b
  let c ← hexVal c
  let d ← hexVal d
  some (((a * 16 + b) * 16 + c) * 16 + d)

/-- The character of a short escape. -/
def shortEscape (c : Char) : Option Char :=
  if c = '"' ∨ c = '\\' ∨ c = '/' then some c
  else if c = 'b' then some (Char.ofNat 8)
  else if c = 'f' then some (Char.ofNat 12)
  else if c = 'n' then some '\n'
  else if c = 'r' then some '\r'
  else if c = 't' then some '\t'
  else none

/-- The string so far with one more character. -/
def consChar (c : Char) : Except String (Text × Text) → Except String (Text × Text)
  | .ok (s, rest) => .ok (c :: s, rest)
  | .error e => .error e

/-- The low surrogate that follows a high one. -/
def isLow (n : Nat) : Bool := 0xdc00 ≤ n && n ≤ 0xdfff

/-- What stands for a surrogate that has no other half. -/
def replacement : Char := Char.ofNat 0xfffd

/-- The string so far, after a high surrogate that nothing completes. -/
def lone : Option Nat → Except String (Text × Text) → Except String (Text × Text)
  | none, x => x
  | some _, x => consChar replacement x

/-- What a `\u` escape gives: a high surrogate, which waits for the other half, the
character that it completes, or one on its own. -/
inductive HexEscape
  | wait (high : Nat)
  | pair (c : Char)
  | char (c : Char)

/-- The escape of the code `n` after the high surrogate `high`, if one waits. -/
def hexEscape : Option Nat → Option Nat → Except String HexEscape
  | _, none => .error "Invalid \\uXXXX escape"
  | high, some n =>
      if 0xd800 ≤ n ∧ n ≤ 0xdbff then .ok (.wait n)
      else if isLow n then
        match high with
        | some high =>
            .ok (.pair (Char.ofNat (0x10000 + (high - 0xd800) * 0x400 + (n - 0xdc00))))
        | none => .ok (.char replacement)
      else .ok (.char (Char.ofNat n))

/-- `scanstring`, after the opening quote: the string and what follows it.  A high
surrogate waits in the first argument. -/
def scanString : Option Nat → Text → Except String (Text × Text)
  | high, '"' :: rest => lone high (.ok ([], rest))
  | high, '\\' :: 'u' :: a :: b :: c :: d :: rest =>
      match hexEscape high (hexVal4 a b c d) with
      | .error e => .error e
      | .ok (.wait n) => lone high (scanString (some n) rest)
      | .ok (.pair c) => consChar c (scanString none rest)
      | .ok (.char c) => lone high (consChar c (scanString none rest))
  | high, '\\' :: e :: rest =>
      match shortEscape e with
      | none => .error "Invalid \\escape"
      | some c => lone high (consChar c (scanString none rest))
  | high, c :: rest =>
      if c.toNat < 0x20 then .error "Invalid control character at"
      else if c = '\\' then .error "Unterminated string starting at"
      else lone high (consChar c (scanString none rest))
  | _, [] => .error "Unterminated string starting at"

section Scalars

/-- The text of a NaN. -/
def nan : Text := ['N', 'a', 'N']

/-- The text of an infinity. -/
def infinity : Text := ['I', 'n', 'f', 'i', 'n', 'i', 't', 'y']

variable {F : Type} (read : Text → F)

/-- The digits a text starts with, and the rest. -/
def spanDigits (text : Text) : Text × Text := text.span Char.isDigit

/-- `\d+`. -/
def digits? : Text → Option (Text × Text)
  | [] => none
  | c :: rest =>
      if c.isDigit then some (c :: (spanDigits rest).1, (spanDigits rest).2) else none

/-- `[-+]?\d+`. -/
def signedDigits? : Text → Option (Text × Text)
  | [] => none
  | c :: rest =>
      if c = '-' ∨ c = '+' then (digits? rest).map fun r => (c :: r.1, r.2)
      else digits? (c :: rest)

/-- `(\.\d+)?`. -/
def fraction : Text → Text × Text
  | [] => ([], [])
  | c :: rest =>
      if c = '.' then
        match digits? rest with
        | some (digits, rest) => (c :: digits, rest)
        | none => ([], c :: rest)
      else ([], c :: rest)

/-- `([eE][-+]?\d+)?`. -/
def exponent : Text → Text × Text
  | [] => ([], [])
  | c :: rest =>
      if c = 'e' ∨ c = 'E' then
        match signedDigits? rest with
        | some (digits, rest) => (c :: digits, rest)
        | none => ([], c :: rest)
      else ([], c :: rest)

/-- `(?:0|[1-9]\d*)`. -/
def integer : Text → Option (Text × Text)
  | [] => none
  | c :: rest => if c = '0' then some (['0'], rest) else digits? (c :: rest)

/-- `int(text)` of the digits the pattern has matched. -/
def intOf : Text → Int
  | '-' :: digits => -(Nat.ofDigitChars 10 digits 0 : Int)
  | digits => Nat.ofDigitChars 10 digits 0

/-- A number after its sign. -/
def unsigned (sign : Text) (text : Text) : Option (PyValue F × Text) :=
  (integer text).map fun (digits, rest) =>
    let (frac, rest) := fraction rest
    let (exp, rest) := exponent rest
    if frac = [] ∧ exp = [] then (.int (intOf (sign ++ digits)), rest)
    else (.float (read (sign ++ digits ++ frac ++ exp)), rest)

/-- `NUMBER_RE`: an integer, or a float with a fraction or an exponent. -/
def number : Text → Option (PyValue F × Text)
  | '-' :: rest => unsigned read ['-'] rest
  | text => unsigned read [] text

/-- A word the text starts with stands for a value. -/
def word? (token : Text) (v : PyValue F) (text : Text) : Option (PyValue F × Text) :=
  (text.dropPrefix? token).map fun rest => (v, rest)

/-- A value that is neither a string nor a list nor an object. -/
def scalar (text : Text) : Option (PyValue F × Text) :=
  word? ['n', 'u', 'l', 'l'] .none text
    <|> word? ['t', 'r', 'u', 'e'] (.bool true) text
    <|> word? ['f', 'a', 'l', 's', 'e'] (.bool false) text
    <|> word? nan (.float (read nan)) text
    <|> word? infinity (.float (read infinity)) text
    <|> word? ('-' :: infinity) (.float (read ('-' :: infinity))) text
    <|> number read text

end Scalars

/-- No character that goes on with a number comes first. -/
def Closed (rest : Text) : Prop := ∀ c ∈ rest.head?, c.isDigit = false ∧ c ∉ ['.', 'e', 'E']

/-- The text of a float, and what `float` reads in it. -/
structure Floats (F : Type) where
  repr : F → Text
  read : Text → F
  /-- The reader takes the text of a float for that float, whatever follows. -/
  scalar_repr : ∀ x rest, Closed rest → scalar read (repr x ++ rest) = some (.float x, rest)
  repr_chars : ∀ x, ∀ c ∈ repr x, c.isAlphanum = true ∨ c ∈ ['-', '+', '.']

variable {F : Type}

/-- `json.dumps`. -/
def dumps (fl : Floats F) (lay : Layout) (v : PyValue F) : Text := dumpsWith fl.repr lay v

section Reader

variable (fl : Floats F)

mutual
/-- `scan_once`: the value a text starts with, and what follows it. -/
def scanOnce : Nat → Text → Except String (PyValue F × Text)
  | 0, _ => .error "maximum recursion depth exceeded"
  | n + 1, text =>
      match text with
      | '"' :: rest => do
          let (s, rest) ← scanString none rest
          .ok (.str (String.ofList s), rest)
      | '[' :: rest =>
          match skip rest with
          | ']' :: rest => .ok (.list [], rest)
          | rest => do
              let (items, rest) ← scanItems n rest
              .ok (.list items, rest)
      | '{' :: rest =>
          match skip rest with
          | '}' :: rest => .ok (.dict [], rest)
          | rest => do
              let (fields, rest) ← scanFields n rest
              .ok (.dict (Dict.writes Prod.fst Prod.snd fields []), rest)
      | text =>
          match scalar fl.read text with
          | some result => .ok result
          | none => .error "Expecting value"

/-- The items of a list, at an item. -/
def scanItems : Nat → Text → Except String (List (PyValue F) × Text)
  | 0, _ => .error "maximum recursion depth exceeded"
  | n + 1, text => do
      let (v, rest) ← scanOnce n text
      match skip rest with
      | ']' :: rest => .ok ([v], rest)
      | ',' :: rest =>
          let (items, rest) ← scanItems n (skip rest)
          .ok (v :: items, rest)
      | _ => .error "Expecting ',' delimiter"

/-- The items of an object, at a key. -/
def scanFields : Nat → Text → Except String (List (String × PyValue F) × Text)
  | 0, _ => .error "maximum recursion depth exceeded"
  | n + 1, text =>
      match text with
      | '"' :: rest => do
          let (key, rest) ← scanString none rest
          match skip rest with
          | ':' :: rest =>
              let (v, rest) ← scanOnce n (skip rest)
              match skip rest with
              | '}' :: rest => .ok ([(String.ofList key, v)], rest)
              | ',' :: rest =>
                  let (fields, rest) ← scanFields n (skip rest)
                  .ok ((String.ofList key, v) :: fields, rest)
              | _ => .error "Expecting ',' delimiter"
          | _ => .error "Expecting ':' delimiter"
      | _ => .error "Expecting property name enclosed in double quotes"
end

/-- `json.loads(text)`; an error is the message of the `JSONDecodeError`. -/
def loads (text : Text) : Except String (PyValue F) :=
  if text.head? = some (Char.ofNat 0xfeff) then
    .error "Unexpected UTF-8 BOM (decode using utf-8-sig)"
  else do
    let (v, rest) ← scanOnce fl (2 * text.length + 2) (skip text)
    match skip rest with
    | [] => .ok v
    | _ => .error "Extra data"

end Reader

end Zicato.Json
