import Statics.Config

/-!
# Reading a configuration

A configuration is a TOML text of lines `key = value` with comments. Values are booleans, integers and one-line strings;
no setting takes any other value, so tables, arrays, floats and dates are refused, and so are dotted keys. A key that is
unknown or comes twice is refused as well.
-/

namespace Statics.Config

/-- A value of a setting. -/
inductive Setting where
  | flag (value : Bool)
  | number (value : Int)
  | str (value : String)
deriving DecidableEq, Repr

/-! ## Characters -/

/-- Blanks within a line. -/
def isBlank (c : Char) : Bool := c == ' ' || c == '\t'

/-- Characters that may not stand in strings and comments. -/
def isForbidden (c : Char) : Bool := (c.toNat < 0x20 && c != '\t') || c.toNat == 0x7f

/-- Characters of keys without quotes. -/
def isKeyChar (c : Char) : Bool := c.isAlphanum || c == '_' || c == '-'

/-- Value of a hexadecimal digit. -/
def hexDigit? (c : Char) : Option Nat :=
  if '0' ≤ c ∧ c ≤ '9' then some (c.toNat - 48)
  else if 'a' ≤ c ∧ c ≤ 'f' then some (c.toNat - 87)
  else if 'A' ≤ c ∧ c ≤ 'F' then some (c.toNat - 55)
  else none

/-- The number that digits of a base stand for. -/
def digits? (base : Nat) (cs : List Char) : Option Nat :=
  cs.foldl (fun n c => do
    let n ← n
    let d ← hexDigit? c
    if d < base then some (n * base + d) else none) (some 0)

/-- The character with a hexadecimal code, which must be one. -/
def charOfHex? (cs : List Char) : Option Char := do
  let n ← digits? 16 cs
  if h : n.isValidChar then some (Char.ofNatAux n h) else none

/-! ## Strings and keys -/

/-- What a letter stands for behind a backslash. -/
def escape? (c : Char) : Option Char :=
  if c == 'b' then some '\x08'
  else if c == 't' then some '\t'
  else if c == 'n' then some '\n'
  else if c == 'f' then some '\x0c'
  else if c == 'r' then some '\r'
  else if c == '\x22' then some '\x22'
  else if c == '\\' then some '\\'
  else none

/-- Puts a character in front of a string that was read. -/
def prepend (c : Option Char) (read : Option (List Char × List Char)) : Option (List Char × List Char) := do
  let c ← c
  let (s, rest) ← read
  some (c :: s, rest)

/-- Reads a string with escapes up to its closing quote. -/
def basicString : List Char → Option (List Char × List Char)
  | [] => none
  | '\x22' :: rest => some ([], rest)
  | '\\' :: 'u' :: a :: b :: c :: d :: rest => prepend (charOfHex? [a, b, c, d]) (basicString rest)
  | '\\' :: 'U' :: a :: b :: c :: d :: e :: f :: g :: h :: rest =>
    prepend (charOfHex? [a, b, c, d, e, f, g, h]) (basicString rest)
  | '\\' :: c :: rest => prepend (escape? c) (basicString rest)
  | c :: rest => if isForbidden c || c == '\\' then none else prepend (some c) (basicString rest)

/-- Reads a string without escapes up to its closing quote. -/
def literalString : List Char → Option (List Char × List Char)
  | [] => none
  | '\x27' :: rest => some ([], rest)
  | c :: rest => if isForbidden c then none else prepend (some c) (literalString rest)

/-- Reads a key. -/
def key : List Char → Option (String × List Char)
  | '\x22' :: rest => (basicString rest).map fun p => (String.ofList p.1, p.2)
  | '\x27' :: rest => (literalString rest).map fun p => (String.ofList p.1, p.2)
  | cs =>
    let name := cs.takeWhile isKeyChar
    if name.isEmpty then none else some (String.ofList name, cs.dropWhile isKeyChar)

/-! ## Numbers -/

/-- Removes underscores, each of which must stand between two digits. -/
def withoutUnderscores : List Char → Option (List Char)
  | [] => some []
  | ['_'] => none
  | '_' :: _ => none
  | [c] => some [c]
  | c :: '_' :: d :: rest => if d == '_' then none else (withoutUnderscores (d :: rest)).map (c :: ·)
  | c :: rest => (withoutUnderscores rest).map (c :: ·)

/-- The number that digits of a base stand for, with underscores between them. -/
def spaced? (base : Nat) (cs : List Char) : Option Nat := do
  let cs ← withoutUnderscores cs
  if cs.isEmpty then none else digits? base cs

/-- A decimal number, without zeros in front. -/
def decimal? (cs : List Char) : Option Nat :=
  match cs with
  | '0' :: _ :: _ => none
  | _ => spaced? 10 cs

/-- An integer, which fits in 64 bits. -/
def integer? (cs : List Char) : Option Int := do
  let v ← match cs with
    | '0' :: 'x' :: rest => (spaced? 16 rest).map Int.ofNat
    | '0' :: 'o' :: rest => (spaced? 8 rest).map Int.ofNat
    | '0' :: 'b' :: rest => (spaced? 2 rest).map Int.ofNat
    | '+' :: rest => (decimal? rest).map Int.ofNat
    | '-' :: rest => (decimal? rest).map fun n => -Int.ofNat n
    | _ => (decimal? cs).map Int.ofNat
  if -9223372036854775808 ≤ v ∧ v ≤ 9223372036854775807 then some v else none

/-! ## Lines -/

/-- Characters of words: booleans and integers. -/
def isWordChar (c : Char) : Bool := isKeyChar c || c == '+'

/-- Reads a value. -/
def value : List Char → Option (Setting × List Char)
  | '\x22' :: rest => (basicString rest).map fun p => (.str (String.ofList p.1), p.2)
  | '\x27' :: rest => (literalString rest).map fun p => (.str (String.ofList p.1), p.2)
  | cs =>
    let word := cs.takeWhile isWordChar
    let rest := cs.dropWhile isWordChar
    if String.ofList word == "true" then some (.flag true, rest)
    else if String.ofList word == "false" then some (.flag false, rest)
    else (integer? word).map fun v => (.number v, rest)

/-- Whether nothing but blanks and a comment is left of a line. -/
def isDone (cs : List Char) : Bool :=
  match cs.dropWhile isBlank with
  | [] => true
  | '#' :: rest => rest.all fun c => !isForbidden c
  | _ => false

/-- Reads `key = value`. -/
def assignment (cs : List Char) : Option (String × Setting) := do
  let (name, rest) ← key cs
  match rest.dropWhile isBlank with
  | '=' :: rest =>
    let (v, rest) ← value (rest.dropWhile isBlank)
    if isDone rest then some (name, v) else none
  | _ => none

/-- Reads a line: an assignment or nothing. -/
def line (cs : List Char) : Option (Option (String × Setting)) :=
  if isDone cs then some none else (assignment (cs.dropWhile isBlank)).map some

/-- Cuts a text into lines. A line may end in a carriage return before its line feed. -/
def lines (text : String) : List (List Char) :=
  match (text.splitOn "\n").reverse with
  | [] => []
  | last :: before =>
    let trimmed := before.map fun l =>
      match l.toList.reverse with
      | '\r' :: rest => rest.reverse
      | _ => l.toList
    (last.toList :: trimmed).reverse

/-- Applies a setting, which must be known and take the value. -/
def set? (c : Config) : String × Setting → Option Config
  | ("error_cap", .number v) => if 0 ≤ v then some { c with errorCap := v.toNat } else none
  | ("parallel", .flag v) => some { c with parallel := v }
  | ("warn_unused_imports", .flag v) => some { c with warnUnusedImports := v }
  | ("entry_point", .str v) => some { c with entryPoint := v }
  | ("require_entry_point", .flag v) => some { c with requireEntryPoint := v }
  | _ => none

/-- Applies settings in order; none may come twice. -/
def setAll? (c : Config) (settings : List (String × Setting)) : Option Config :=
  if (settings.map Prod.fst).Nodup then settings.foldlM set? c else none

/-- Reads a configuration. Settings that are not given have their standard values. -/
def read? (text : String) : Option Config := do
  let read ← (lines text).mapM line
  setAll? .standard (read.filterMap id)

end Statics.Config
