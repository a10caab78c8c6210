import Zicato.Ledger

/-! # What the mutation layer uses of Python's `str`

A text is the list of its characters.  Files hold bytes; a text is their UTF-8
decoding, with or without the newline translation of text mode. -/
namespace Zicato

/-- A `str`, as its characters. -/
abbrev Text := List Char

namespace Text

/-- `bytes.decode("utf-8")`, which may raise. -/
def decode (bytes : Bytes) : Option Text :=
  (ByteArray.utf8Decode? ⟨bytes.toArray⟩).map (·.toList)

/-- `str.encode("utf-8")`. -/
def encode (text : Text) : Bytes := text.flatMap String.utf8EncodeChar

/-- The newline translation of `read_text`. -/
def universalNewlines : Text → Text
  | '\r' :: '\n' :: rest => '\n' :: universalNewlines rest
  | '\r' :: rest => '\n' :: universalNewlines rest
  | c :: rest => c :: universalNewlines rest
  | [] => []

/-- `str.isspace` of one character, and `\s` of a pattern. -/
def isSpace (c : Char) : Bool :=
  (9 ≤ c.toNat && c.toNat ≤ 13) || (28 ≤ c.toNat && c.toNat ≤ 32) || c.toNat == 0x85 ||
    c.toNat == 0xa0 || c.toNat == 0x1680 || (0x2000 ≤ c.toNat && c.toNat ≤ 0x200a) ||
    c.toNat == 0x2028 || c.toNat == 0x2029 || c.toNat == 0x202f || c.toNat == 0x205f ||
    c.toNat == 0x3000

/-- A character that ends a line for `str.splitlines`. -/
def isLineBreak (c : Char) : Bool :=
  (10 ≤ c.toNat && c.toNat ≤ 13) || (28 ≤ c.toNat && c.toNat ≤ 30) || c.toNat == 0x85 ||
    c.toNat == 0x2028 || c.toNat == 0x2029

/-- `str.splitlines(keepends=True)`. -/
def splitLinesKeep (text : Text) : List Text := Lines.splitEnds '\r' '\n' isLineBreak text

/-- `str.splitlines()`. -/
def splitLines (text : Text) : List Text :=
  (splitLinesKeep text).map (·.rdropWhile isLineBreak)

/-- `str.lstrip()`. -/
def skipSpace (text : Text) : Text := text.dropWhile isSpace

/-- `str.strip()`. -/
def strip (text : Text) : Text := (skipSpace text).rdropWhile isSpace

/-- A blank or a tab. -/
def isBlank (c : Char) : Bool := c == ' ' || c == '\t'

/-- `line.rstrip("\n").rstrip("\r")`. -/
def chomp (line : Text) : Text := (line.rdropWhile (· == '\n')).rdropWhile (· == '\r')

/-- `str.removeprefix`, if the text starts so. -/
def after? (token : String) (text : Text) : Option Text := text.dropPrefix? token.toList

/-- `startswith`. -/
def startsWith (text : Text) (token : String) : Bool := token.toList.isPrefixOf text

/-- `endswith`. -/
def endsWith (text : Text) (token : String) : Bool := token.toList.isSuffixOf text

/-- `"\n".join`. -/
def joinLines (lines : List Text) : Text := ['\n'].intercalate lines

/-! ## `textwrap.dedent` -/

/-- The longest blank prefix that two indents share. -/
def commonIndent : Text → Text → Text
  | a :: as, b :: bs => if a = b then a :: commonIndent as bs else []
  | _, _ => []

/-- The margin of the lines that are not blank. -/
def margin (lines : List Text) : Text :=
  match (lines.filter fun line => !line.all isBlank).map (·.takeWhile isBlank) with
  | [] => []
  | indent :: indents => indents.foldl commonIndent indent

/-- `textwrap.dedent`: blank lines become empty and the common margin goes. -/
def dedent (text : Text) : Text :=
  let lines := (Lines.split '\n' text).map fun line => if line.all isBlank then [] else line
  joinLines (lines.map fun line => (line.dropPrefix? (margin lines)).getD line)

end Text
end Zicato
