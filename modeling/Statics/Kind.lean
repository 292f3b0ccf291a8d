/-!
# Basic kinds

The kinds of basic type, in their fixed order. Untyped kinds belong to constants that have not settled on a type yet.
-/

namespace Statics

/-- A kind of basic type. `invalid` stands for a type that was already reported as wrong. -/
inductive Kind where
  | invalid
  | bool
  | i8
  | i16
  | i32
  | i64
  | int
  | u8
  | u16
  | u32
  | u64
  | uint
  | f32
  | f64
  | string
  | rawptr
  | untypedBool
  | untypedInt
  | untypedFloat
  | untypedString
  | untypedNil
deriving DecidableEq, Repr, Inhabited

namespace Kind

/-- All kinds; the place of a kind is the index of its type. -/
def all : List Kind :=
  [invalid, bool, i8, i16, i32, i64, int, u8, u16, u32, u64, uint, f32, f64, string, rawptr,
    untypedBool, untypedInt, untypedFloat, untypedString, untypedNil]

/-- Place of a kind among all of them. -/
def index : Kind → Nat
  | invalid => 0
  | bool => 1
  | i8 => 2
  | i16 => 3
  | i32 => 4
  | i64 => 5
  | int => 6
  | u8 => 7
  | u16 => 8
  | u32 => 9
  | u64 => 10
  | uint => 11
  | f32 => 12
  | f64 => 13
  | string => 14
  | rawptr => 15
  | untypedBool => 16
  | untypedInt => 17
  | untypedFloat => 18
  | untypedString => 19
  | untypedNil => 20

/-- Name of a kind. -/
def name : Kind → String
  | invalid => "invalid type"
  | bool => "bool"
  | i8 => "i8"
  | i16 => "i16"
  | i32 => "i32"
  | i64 => "i64"
  | int => "int"
  | u8 => "u8"
  | u16 => "u16"
  | u32 => "u32"
  | u64 => "u64"
  | uint => "uint"
  | f32 => "f32"
  | f64 => "f64"
  | string => "string"
  | rawptr => "rawptr"
  | untypedBool => "untyped bool"
  | untypedInt => "untyped int"
  | untypedFloat => "untyped float"
  | untypedString => "untyped string"
  | untypedNil => "untyped nil"

/-- The kind with a given name. -/
def ofName? (s : String) : Option Kind :=
  all.find? fun k => k.name == s

/-- Kinds of integers. -/
def isInteger : Kind → Bool
  | i8 | i16 | i32 | i64 | int | u8 | u16 | u32 | u64 | uint | untypedInt => true
  | _ => false

/-- Kinds of floating-point numbers. -/
def isFloat : Kind → Bool
  | f32 | f64 | untypedFloat => true
  | _ => false

/-- Kinds of numbers. -/
def isNumeric (k : Kind) : Bool := k.isInteger || k.isFloat

/-- Kinds of truth values. -/
def isBoolean : Kind → Bool
  | bool | untypedBool => true
  | _ => false

/-- Kinds of strings. -/
def isString : Kind → Bool
  | string | untypedString => true
  | _ => false

/-- Kinds of constants without a settled type. -/
def isUntyped : Kind → Bool
  | untypedBool | untypedInt | untypedFloat | untypedString | untypedNil => true
  | _ => false

/-- The kind that a constant settles on when nothing asks for another. -/
def settled : Kind → Kind
  | untypedBool => bool
  | untypedInt => int
  | untypedFloat => f64
  | untypedString => string
  | k => k

/-- Least and greatest value of a sized integer kind. -/
def range? : Kind → Option (Int × Int)
  | i8 => some (-128, 127)
  | i16 => some (-32768, 32767)
  | i32 => some (-2147483648, 2147483647)
  | i64 | int => some (-9223372036854775808, 9223372036854775807)
  | u8 => some (0, 255)
  | u16 => some (0, 65535)
  | u32 => some (0, 4294967295)
  | u64 | uint => some (0, 18446744073709551615)
  | _ => none

/-- Whether a value lies in the range of a kind; a kind without a range takes every value. -/
def holds (k : Kind) (v : Int) : Bool :=
  match k.range? with
  | some (least, greatest) => least ≤ v && v ≤ greatest
  | none => true

/-- Whether a constant of an untyped kind may become one of another kind. -/
def accepts (target : Kind) : Kind → Bool
  | untypedBool => target.isBoolean
  | untypedInt | untypedFloat => target.isNumeric
  | untypedString => target.isString
  | _ => false

end Kind

end Statics
