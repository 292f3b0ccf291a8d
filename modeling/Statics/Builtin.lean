/-!
# Built-in procedures
-/

namespace Statics

/-- A built-in procedure. -/
inductive Builtin where
  | len
  | sizeOf
  | alignOf
  | new
  | assert
  | panic
  | print
deriving DecidableEq, Repr

namespace Builtin

/-- All built-in procedures, in the order of their declaration. -/
def all : List Builtin := [len, sizeOf, alignOf, new, assert, panic, print]

/-- Name of a built-in procedure. -/
def name : Builtin → String
  | len => "len"
  | sizeOf => "size_of"
  | alignOf => "align_of"
  | new => "new"
  | assert => "assert"
  | panic => "panic"
  | print => "print"

/-- Least number of arguments. -/
def arity : Builtin → Nat
  | print => 0
  | _ => 1

/-- Whether a call yields a value; the others stand as statements. -/
def yieldsValue : Builtin → Bool
  | len | sizeOf | alignOf | new => true
  | assert | panic | print => false

end Builtin

end Statics
