import FtIrc.Text

/-!
# Command lines (`srcs/Command/Command.cpp`)

`Command.parse` splits a line into a name and at most fifteen parameters.  Only the last
parameter may hold spaces or be empty, and then it stands after a `:`.
-/

namespace FtIrc

def maxCommandParameters : Nat := 15

def uppercaseAscii (character : Char) : Char :=
  if 'a' ≤ character ∧ character ≤ 'z' then
    Char.ofNat (character.toNat - 'a'.toNat + 'A'.toNat)
  else character

structure Command where
  valid : Bool
  name : Text
  parameters : List Text
deriving DecidableEq, Repr

namespace Command

/-- The parameter loop of `parse`, with room for `room` more parameters: whether it
ends in a valid command, and the parameters it adds. -/
def parseParameters : Nat → Text → Bool × List Text
  | room, rest =>
    match rest.dropWhile (· == ' '), room with
    | [], _ => (true, [])
    | _ :: _, 0 => (false, [])
    | c :: cs, room + 1 =>
      if c = ':' then (true, [cs])
      else
        let next := parseParameters room ((c :: cs).dropWhile (· != ' '))
        (next.1, (c :: cs).takeWhile (· != ' ') :: next.2)

def normalizeName (name : Text) : Text := name.map uppercaseAscii

def parse (line : Text) : Command :=
  match line.dropWhile (· == ' ') with
  | [] => ⟨false, [], []⟩
  | c :: cs =>
    if c = ':' then ⟨false, [], []⟩
    else
      let name := (c :: cs).takeWhile (· != ' ')
      if name.isEmpty then ⟨false, [], []⟩
      else
        let parsed := parseParameters maxCommandParameters ((c :: cs).dropWhile (· != ' '))
        ⟨parsed.1, normalizeName name, parsed.2⟩

example : parse "  privmsg name :coucou  toi".toList =
    ⟨true, "PRIVMSG".toList, ["name".toList, "coucou  toi".toList]⟩ := by decide

end Command

end FtIrc
