import FtIrc.Mode

/-!
# The command line (`srcs/main.cpp`)

The port is read with `operator>>`, as the argument of `+l` is, but no test of the first
character comes before.
-/

namespace FtIrc

open Server (isSpace isDigit digitsValue)

/-- Whether there is a minus sign, and what follows the sign. -/
def extractSign : Text → Bool × Text
  | '-' :: text => (true, text)
  | '+' :: text => (false, text)
  | text => (false, text)

/-- `stream >> value` for an `unsigned long`: the value and what is left of the stream.  As in
`strtoull`, a minus sign negates what has been read modulo 2^64. -/
def extractUnsigned (stream : Text) : Option (UInt64 × Text) :=
  let (negative, stream) := extractSign (stream.dropWhile isSpace)
  let digits := stream.takeWhile isDigit
  if digits.isEmpty then none
  else if digitsValue digits ≥ UInt64.size then none
  else
    let value := UInt64.ofNat (digitsValue digits)
    some (if negative then -value else value, stream.dropWhile isDigit)

/-- `stream >> extraChar`. -/
def extractChar (stream : Text) : Option (Char × Text) :=
  match stream.dropWhile isSpace with
  | [] => none
  | c :: stream => some (c, stream)

def checkPort (text : Text) : Option UInt16 :=
  match extractUnsigned text with
  | none => none
  | some (value, stream) =>
    if (extractChar stream).isSome then none
    else if value = 0 ∨ value > 65535 then none
    else some value.toUInt16

example : checkPort " +06667\t".toList = some 6667 ∧ checkPort "6667 x".toList = none := by decide

/-- The port and the password the server is started with; with `none` the usage is printed. -/
def main (argv : List Text) : Option (UInt16 × Text) :=
  match argv with
  | [_, text, password] =>
    match checkPort text with
    | none => none
    | some port => if password.isEmpty then none else some (port, password)
  | _ => none

end FtIrc
