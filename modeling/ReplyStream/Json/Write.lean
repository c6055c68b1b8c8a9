/-
Writing JSON, compactly. The fields of an object stand in key order; a
string escapes the quote, the backslash and the control characters and
writes everything else as it is.

A double is written with its shortest digits: positionally, with a digit
behind the point, when the exponent of the leading digit is between -5 and
15, else with a signed exponent and no zero behind the point.
-/
import ReplyStream.Json.Basic

namespace ReplyStream.Json

namespace Writer

/-! ## Strings -/

/-- A lower-case hexadecimal digit. -/
def hexDigit (n : Nat) : Char := if n < 10 then Char.ofNat (48 + n) else Char.ofNat (87 + n)

/-- A character as it stands between quotes. -/
def escape (c : Char) : List Char :=
  if c = '"' then ['\\', '"']
  else if c = '\\' then ['\\', '\\']
  else if c = '\x08' then ['\\', 'b']
  else if c = '\x0c' then ['\\', 'f']
  else if c = '\n' then ['\\', 'n']
  else if c = '\r' then ['\\', 'r']
  else if c = '\t' then ['\\', 't']
  else if c.toNat < 0x20 then
    ['\\', 'u', '0', '0', hexDigit (c.toNat / 16), hexDigit (c.toNat % 16)]
  else [c]

def string (s : String) : List Char := '"' :: s.toList.flatMap escape ++ ['"']

/-! ## Numbers -/

/-- The digits of a natural. -/
def natural (n : Nat) : List Char := Nat.toDigits 10 n

def integer (n : Int) : List Char := if n < 0 then '-' :: natural n.natAbs else natural n.natAbs

/-- The exponents of the leading digit that are written positionally. -/
def isPositional (e : Int) : Bool := -5 ≤ e && e < 16

/-- Digits with the point behind the digit of exponent zero, where `e` is the
exponent of the leading one. -/
def positional (digits : List Char) (e : Int) : List Char :=
  if e < 0 then '0' :: '.' :: (List.replicate (e.natAbs - 1) '0' ++ digits)
  else
    let whole := e.toNat + 1
    if digits.length ≤ whole then digits ++ List.replicate (whole - digits.length) '0' ++ ['.', '0']
    else digits.take whole ++ '.' :: digits.drop whole

/-- Digits with the point behind the leading one, and the exponent with its sign. -/
def scientific (digits : List Char) (e : Int) : List Char :=
  let mark := if e < 0 then ['e', '-'] else ['e', '+']
  digits.take 1 ++ (if digits.length ≤ 1 then [] else '.' :: digits.drop 1) ++ mark ++ natural e.natAbs

def double (d : Double) : List Char :=
  let (n, k) := d.shortest
  let digits := natural n
  let e : Int := k + digits.length - 1
  (if d.negative then ['-'] else []) ++
    if isPositional e then positional digits e else scientific digits e

/-! ## Values -/

mutual

def value : Json → List Char
  | .null => ['n', 'u', 'l', 'l']
  | .bool true => ['t', 'r', 'u', 'e']
  | .bool false => ['f', 'a', 'l', 's', 'e']
  | .int n => integer n
  | .double d => double d
  | .str s => string s
  | .arr [] => ['[', ']']
  | .arr (v :: rest) => '[' :: value v ++ items rest ++ [']']
  | .obj [] => ['{', '}']
  | .obj ((key, v) :: rest) => '{' :: string key ++ ':' :: value v ++ members rest ++ ['}']

def items : List Json → List Char
  | [] => []
  | v :: rest => ',' :: value v ++ items rest

def members : List (String × Json) → List Char
  | [] => []
  | (key, v) :: rest => ',' :: string key ++ ':' :: value v ++ members rest

end

end Writer

/-- The compact text of a value. -/
def compact (v : Json) : String := String.ofList (Writer.value v)

end ReplyStream.Json
