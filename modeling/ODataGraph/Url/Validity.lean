import ODataGraph.Text.Cut
import ODataGraph.Text.Blank

/-! Which texts are absolute URLs, as web clients read them. -/

namespace ODataGraph.Url

/-- A text without controls and spaces at its ends, and without tabs and line ends anywhere. -/
def cleaned (s : String) : List Char :=
  let isEdge (c : Char) : Bool := c.toNat ≤ 0x20
  (Text.dropEndWhile isEdge (s.toList.dropWhile isEdge)).filter fun c =>
    c != '\t' && c != '\n' && c != '\r'

def isSchemeChar (c : Char) : Bool := c.isAlphanum || c == '+' || c == '-' || c == '.'

def cutScheme? (cs : List Char) : Option (String × List Char) :=
  let scheme := cs.takeWhile isSchemeChar
  match scheme, cs.dropWhile isSchemeChar with
  | c :: _, ':' :: rest =>
    if c.isAlpha then some (String.ofList (scheme.map Char.toLower), rest) else none
  | _, _ => none

/-- The schemes whose URLs have a host after any number of slashes. -/
def isSpecial (scheme : String) : Bool := ["http", "https", "ws", "wss", "ftp"].contains scheme

def isForbidden (c : Char) : Bool :=
  c.toNat ≤ 0x20 || c.toNat == 0x7F || " #/:<>?@[\\]^|%".toList.contains c

def hexDigitValue? (c : Char) : Option Nat :=
  if c.isDigit then some (c.toNat - 48)
  else if 'a' ≤ c.toLower ∧ c.toLower ≤ 'f' then some (c.toLower.toNat - 87)
  else none

def decodeHost : List Char → List Char
  | '%' :: a :: b :: cs =>
    match hexDigitValue? a, hexDigitValue? b with
    | some x, some y => Char.ofNat (x * 16 + y) :: decodeHost cs
    | _, _ => '%' :: decodeHost (a :: b :: cs)
  | c :: cs => c :: decodeHost cs
  | [] => []

/-- A part of an address of version 4: decimal, octal or hexadecimal. -/
def ipv4Part? (part : List Char) : Option Nat :=
  let number (base : Nat) (digits : List Char) : Option Nat :=
    digits.foldlM (fun n c => ((hexDigitValue? c).filter (· < base)).map (n * base + ·)) 0
  match part with
  | [] => none
  | '0' :: x :: digits =>
    if x = 'x' ∨ x = 'X' then number 16 digits else number 8 (x :: digits)
  | digits => number 10 digits

/-- Whether the last part of a host makes it an address, and not a name. -/
def endsInNumber (parts : List (List Char)) : Bool :=
  match parts.getLast? with
  | some last => !last.isEmpty && (last.all Char.isDigit ||
      (['0', 'x'].isPrefixOf (last.map Char.toLower) && (ipv4Part? last).isSome))
  | none => false

def isIpv4 (parts : List (List Char)) : Bool :=
  match parts.mapM ipv4Part? with
  | some numbers =>
    numbers.length ≤ 4 && numbers.dropLast.all (· ≤ 255) &&
      (numbers.getLastD 0) < Nat.pow 256 (5 - numbers.length)
  | none => false

/-- An address of version 6 in brackets: eight groups, or fewer with one double colon. -/
def isIpv6 (cs : List Char) : Bool :=
  let groups := Text.cut ':' cs
  let isGroup (g : List Char) : Bool :=
    !g.isEmpty && g.length ≤ 4 && g.all fun c => (hexDigitValue? c).isSome
  let isDotted (g : List Char) : Bool :=
    let parts := Text.cut '.' g
    parts.length == 4 && parts.all fun p =>
      !p.isEmpty && p.length ≤ 3 && p.all Char.isDigit && (ipv4Part? p).any (· ≤ 255) &&
        (p.length == 1 || p.head? != some '0')
  let width (gs : List (List Char)) : Option Nat :=
    if gs.dropLast.all isGroup then
      match gs.getLast? with
      | none => some 0
      | some g => if isGroup g then some gs.length
        else if isDotted g then some (gs.length + 1) else none
    else none
  let inner := groups.drop 1 |>.dropLast
  match inner.findIdx? List.isEmpty with
  | none => width groups == some 8 && !groups.any List.isEmpty
  | some i =>
    let before := groups.take (i + 1)
    let after := groups.drop (i + 2)
    let before := if before = [[]] then [] else before
    let after := if after = [[]] then [] else after
    match before.all isGroup, width after with
    | true, some n => before.length + n ≤ 7
    | _, _ => false

def isHost (cs : List Char) : Bool :=
  match cs with
  | '[' :: rest => rest.getLast? = some ']' && isIpv6 rest.dropLast
  | _ =>
    let host := decodeHost cs
    !host.isEmpty && !host.any isForbidden &&
      let parts := Text.cut '.' host
      let parts := if parts.length > 1 ∧ parts.getLast? = some [] then parts.dropLast else parts
      !endsInNumber parts || isIpv4 parts

def isPort (cs : List Char) : Bool :=
  cs.all Char.isDigit && (cs.foldl (fun n c => min (n * 10 + (c.toNat - 48)) 70000) 0) ≤ 65535

/-- A host, and a port if there is a colon after it that is not between brackets. -/
def isHostAndPort (cs : List Char) : Bool :=
  match cs with
  | '[' :: _ =>
    let host := cs.takeWhile (· != ']')
    match cs.dropWhile (· != ']') with
    | ']' :: ':' :: port => isHost (host ++ [']']) && isPort port
    | [']'] => isHost (host ++ [']'])
    | _ => false
  | _ =>
    match cs.dropWhile (· != ':') with
    | _ :: port => isHost (cs.takeWhile (· != ':')) && isPort port
    | [] => isHost cs

/-- The authority of a URL: credentials up to the last `@`, then host and port. -/
def isAuthority (cs : List Char) : Bool :=
  isHostAndPort ((Text.cut '@' cs).getLastD [])

/-- Whether a client can make a request to a URL, or at least try. -/
def isValid (url : String) : Bool :=
  match cutScheme? (cleaned url) with
  | none => false
  | some (scheme, rest) =>
    if isSpecial scheme then
      let rest := rest.dropWhile fun c => c == '/' || c == '\\'
      isAuthority (rest.takeWhile fun c => c != '/' && c != '\\' && c != '?' && c != '#')
    else if scheme = "file" then true
    else
      match rest with
      | '/' :: '/' :: rest =>
        let authority := rest.takeWhile fun c => c != '/' && c != '?' && c != '#'
        authority.isEmpty || isAuthority authority
      | _ => true

end ODataGraph.Url
