import ODataGraph.Text.HiddenTable
import ODataGraph.Text.LowerCase

/-!
A text between double quotes on one line: quotes, backslashes, tabs and line ends are escaped with
a backslash, and other characters that do not show by themselves are written by their number.
-/

namespace ODataGraph.Text.Quoted

def isHidden (c : Char) : Bool := inRanges hiddenRanges c

def hexDigits (n : Nat) : List Char := Nat.toDigits 16 n

def escape (c : Char) : List Char :=
  if c = '\x00' then ['\\', '0']
  else if c = '\t' then ['\\', 't']
  else if c = '\n' then ['\\', 'n']
  else if c = '\r' then ['\\', 'r']
  else if c = '"' ∨ c = '\\' then ['\\', c]
  else if isHidden c then ['\\', 'u', '\x7b'] ++ hexDigits c.toNat ++ ['\x7d']
  else [c]

def encode (s : String) : String :=
  String.ofList ('"' :: s.toList.flatMap escape ++ ['"'])

end ODataGraph.Text.Quoted
