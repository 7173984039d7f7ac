import Kiln.Typing.Ty
import Kiln.Text.Quoted
/-!
# Faults

What can go wrong while a program runs, and be reported to whoever called it. A
program that has run into a fault leaves the heap and the globals as they were then.
-/

namespace Kiln

/-- What a value was taken for. -/
inductive Expectation where
  | integer
  | bool
  | pointer
  | text
  | sequence
  deriving DecidableEq, Repr

/-- The expectation in words. -/
def Expectation.describe : Expectation → String
  | integer => "an integer"
  | bool => "a bool"
  | pointer => "a pointer"
  | text => "a str"
  | sequence => "a sequence"

/-- How a value and what is asked of it disagree. Values appear by the name of their
type. -/
inductive Mismatch where
  /-- A value of another kind was expected. -/
  | expected (what : Expectation) (found : String)
  /-- A value cannot be stored as this type. -/
  | notStorable (found type : String)
  /-- A struct was declared and never laid out. -/
  | noLayout (struct : String)
  /-- Nothing of this type is ever in memory. -/
  | notLoadable (type : String)
  /-- A field is asked of a value that has none. -/
  | fieldOf (found : String)
  /-- Two values cannot be compared. -/
  | incomparable (left right : String)
  /-- A value cannot be taken for one of this type. -/
  | notCastable (found type : String)
  deriving DecidableEq, Repr

/-- The wording of each disagreement. -/
def Mismatch.message : Mismatch → String
  | expected what found => "expected " ++ what.describe ++ ", found " ++ found
  | notStorable found type => "cannot store " ++ found ++ " as " ++ type
  | noLayout struct => "`" ++ struct ++ "` has no layout"
  | notLoadable type => type ++ " cannot be loaded from memory"
  | fieldOf found => "field access on " ++ found
  | incomparable left right => "cannot compare " ++ left ++ " with " ++ right
  | notCastable found type => "cannot cast " ++ found ++ " to " ++ type

/-- Why a run was cut short. -/
inductive Fault where
  /-- A value does not fit what is asked of it. -/
  | mismatch (cause : Mismatch)
  /-- A struct value lacks the field at this index. -/
  | unknownField (index : Nat) (type : String)
  /-- The bytes are not all inside the heap. -/
  | badAddress (addr len : UInt64)
  /-- No live block starts here. -/
  | invalidFree (addr : UInt64)
  /-- A function was given too many or too few arguments. -/
  | arity (name : String) (expected received : Nat)
  /-- Evaluation went deeper than it may. -/
  | tooDeep (limit : Nat)
  /-- The program itself gave up. -/
  | panic (message : String)
  /-- Bytes are asked of a buffer that does not have them. This is the host's own fault, and
  nobody is told. -/
  | overrun
  /-- A buffer is asked for that would be larger than any can be. So is this. -/
  | oversized
  deriving DecidableEq, Repr

/-- An address in base sixteen. -/
def hexAddress (addr : UInt64) : String := "0x" ++ String.ofList (Quoted.hexDigits addr.toNat)

/-- The wording of each fault. -/
def Fault.message : Fault → String
  | mismatch cause => "Type mismatch: " ++ cause.message
  | unknownField index type => "Unknown field `" ++ toString index ++ "` on `" ++ type ++ "`"
  | badAddress addr len =>
    "Address " ++ hexAddress addr ++ " (+" ++ toString len.toNat ++ " bytes) is outside the heap"
  | invalidFree addr =>
    "Attempted to free " ++ hexAddress addr ++ ", which is not a live allocation"
  | arity name expected received =>
    "Function `" ++ name ++ "` expected " ++ toString expected ++ " arguments but received "
      ++ toString received
  | tooDeep limit => "Evaluation nested deeper than " ++ toString limit ++ " levels"
  | panic message => "Runtime panic: " ++ message
  | overrun => "Bytes outside of a buffer"
  | oversized => "A buffer of too many bytes"

end Kiln
