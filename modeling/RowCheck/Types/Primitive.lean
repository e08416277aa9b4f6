/-!
Primitive types, and how a value is held: owned, or behind a shared or a unique reference.
-/
namespace RowCheck

inductive Primitive where
  | bool
  | s8 | u8 | s16 | u16 | s32 | u32 | s64 | u64
  | ssize | usize
  | f32 | f64
  deriving DecidableEq, Repr, Inhabited

namespace Primitive

def all : List Primitive :=
  [.bool, .s8, .u8, .s16, .u16, .s32, .u32, .s64, .u64, .ssize, .usize, .f32, .f64]

def name : Primitive → String
  | bool => "bool"
  | s8 => "s8"
  | u8 => "u8"
  | s16 => "s16"
  | u16 => "u16"
  | s32 => "s32"
  | u32 => "u32"
  | s64 => "s64"
  | u64 => "u64"
  | ssize => "ssize"
  | usize => "usize"
  | f32 => "f32"
  | f64 => "f64"

def ofName? (text : String) : Option Primitive :=
  all.find? (fun p => p.name = text)

theorem ofName?_name (p : Primitive) : ofName? p.name = some p := by
  cases p <;> decide +kernel

/-- Everything except `bool` has arithmetic and an order. -/
def isNumeric (p : Primitive) : Bool :=
  p != bool

def isInteger : Primitive → Bool
  | bool | f32 | f64 => false
  | _ => true

/-- The least and the greatest value an integer literal of this type may have. Literals are signed
64-bit numbers, so wider ranges stop there. -/
def range? : Primitive → Option (Int × Int)
  | s8 => some (-128, 127)
  | u8 => some (0, 255)
  | s16 => some (-32768, 32767)
  | u16 => some (0, 65535)
  | s32 => some (-2147483648, 2147483647)
  | u32 => some (0, 4294967295)
  | s64 | ssize => some (-9223372036854775808, 9223372036854775807)
  | u64 | usize => some (0, 9223372036854775807)
  | bool | f32 | f64 => none

theorem isInteger_eq_isSome_range? (p : Primitive) : p.isInteger = p.range?.isSome := by
  cases p <;> rfl

end Primitive

/-- The two kinds of reference. -/
inductive BorrowKind where
  | shared
  | unique
  deriving DecidableEq, Repr, Inhabited

def BorrowKind.ofUnique (unique : Bool) : BorrowKind :=
  if unique then .unique else .shared

def BorrowKind.sigil : BorrowKind → String
  | .shared => "&"
  | .unique => "&mut "

/-- How a binding or a result relates to its storage. -/
inductive Mode where
  | owned
  | shared
  | unique
  deriving DecidableEq, Repr, Inhabited

def Mode.name : Mode → String
  | .owned => "owned"
  | .shared => "shared"
  | .unique => "unique"

/-- How a value is handed over. -/
inductive Pass where
  | copy
  | move
  | reference
  deriving DecidableEq, Repr, Inhabited

def Pass.name : Pass → String
  | .copy => "copy"
  | .move => "move"
  | .reference => "reference"

end RowCheck
