import Gazette.Json.Reader

/-!
# Network addresses

Addresses of the versions 4 and 6 of the internet protocol: reading them (`IpAddress.ofText?`), and
their canonical text (`IpAddress.text`), in which the longest run of two or more zero groups is left
out.
-/

namespace Gazette

/-- An address: four numbers below 256, or eight groups of 16 bits. -/
inductive IpAddress where
  | v4 (octets : List Nat)
  | v6 (groups : List Nat)
  deriving DecidableEq, Repr

namespace IpAddress

/-! ## Reading -/

/-- The decimal digits of an octet at the start of a text, and the text after them: at most three,
without zeros in front. -/
def takeOctet (cs : List Char) : Option (Nat × List Char) :=
  match Number.takeDigits cs with
  | ([], _) => none
  | (ds, rest) =>
    if 3 < ds.length ∨ (ds.head? = some 0 ∧ 1 < ds.length) ∨ 255 < Number.Lexeme.natOf ds then none
    else some (Number.Lexeme.natOf ds, rest)

/-- Four octets with points between them, and the text after them. -/
def takeV4 (cs : List Char) : Option (List Nat × List Char) := do
  let (a, cs) ← takeOctet cs
  let (b, cs) ← takeOctet (← Text.skipMark? '.' cs)
  let (c, cs) ← takeOctet (← Text.skipMark? '.' cs)
  let (d, cs) ← takeOctet (← Text.skipMark? '.' cs)
  return ([a, b, c, d], cs)

/-- The hexadecimal digits at the start of a text, and the text after them. -/
def takeHex : List Char → List Nat × List Char
  | [] => ([], [])
  | c :: rest =>
    match Json.hexValue? c with
    | some d =>
      let (ds, after) := takeHex rest
      (d :: ds, after)
    | none => ([], c :: rest)

/-- A group of one to four hexadecimal digits, and the text after it. -/
def takeGroup (cs : List Char) : Option (Nat × List Char) :=
  match takeHex cs with
  | ([], _) => none
  | (ds, rest) => if 4 < ds.length then none else some (ds.foldl (fun n d => 16 * n + d) 0, rest)

/-- The two groups that four octets make. -/
def groupsOf : List Nat → List Nat
  | [a, b, c, d] => [256 * a + b, 256 * c + d]
  | _ => []

/-- Groups with colons between them, at most `room`; four octets can stand for the last two.  Gives
the groups, whether octets ended them, and the text after them. -/
def takeGroups (isFirst : Bool) : (room : Nat) → List Char → List Nat × Bool × List Char
  | 0, cs => ([], false, cs)
  | room + 1, cs =>
    match if isFirst then some cs else Text.skipMark? ':' cs with
    | none => ([], false, cs)
    | some inner =>
      match if 0 < room then takeV4 inner else none with
      | some (octets, rest) => (groupsOf octets, true, rest)
      | none =>
        match takeGroup inner with
        | none => ([], false, cs)
        | some (g, rest) =>
          let (gs, octets, after) := takeGroups false room rest
          (g :: gs, octets, after)

/-- Eight groups, where two colons can stand for one or more groups of zero. -/
def takeV6 (cs : List Char) : Option (List Nat × List Char) :=
  let (front, octets, rest) := takeGroups true 8 cs
  if front.length = 8 then some (front, rest)
  else if octets then none
  else do
    let rest ← Text.skipMark? ':' (← Text.skipMark? ':' rest)
    let (back, _, rest) := takeGroups true (7 - front.length) rest
    return (front ++ List.replicate (8 - front.length - back.length) 0 ++ back, rest)

/-- The address that characters spell out to their end. -/
def ofChars? (cs : List Char) : Option IpAddress :=
  match takeV4 cs with
  | some (octets, rest) => if rest.isEmpty then some (v4 octets) else none
  | none =>
    match takeV6 cs with
    | some (groups, rest) => if rest.isEmpty then some (v6 groups) else none
    | none => none

/-- The address that a text spells out. -/
def ofText? (source : String) : Option IpAddress := ofChars? source.toList

/-! ## Writing -/

/-- Four octets with dots between them. -/
def v4Text (octets : List Nat) : String :=
  String.intercalate "." (octets.map fun n => String.ofList (Number.digits n))

/-- A group in hexadecimal digits. -/
def groupText (g : Nat) : String := String.ofList (Nat.toDigits 16 g)

/-- Groups with colons between them. -/
def groupsText (groups : List Nat) : String := String.intercalate ":" (groups.map groupText)

/-- The number of zero groups at the start. -/
def zerosAt (groups : List Nat) : Nat := (groups.takeWhile fun g => g = 0).length

/-- The length of the longest run of zero groups. -/
def longestZeros : List Nat → Nat
  | [] => 0
  | g :: rest => max (zerosAt (g :: rest)) (longestZeros rest)

/-- The groups before the first run of `run` zero groups, and those after it. -/
def splitZeros (run : Nat) : List Nat → List Nat × List Nat
  | [] => ([], [])
  | g :: rest =>
    if zerosAt (g :: rest) = run then ([], (g :: rest).drop run)
    else
      let (front, back) := splitZeros run rest
      (g :: front, back)

/-- Eight groups as text: two colons stand for the longest run of zeros, and an address of version 4
within keeps its dots. -/
def v6Text (groups : List Nat) : String :=
  match groups with
  | [0, 0, 0, 0, 0, 0xFFFF, a, b] =>
    "::ffff:" ++ v4Text [a / 256, a % 256, b / 256, b % 256]
  | _ =>
    let run := longestZeros groups
    if run < 2 then groupsText groups
    else
      let (front, back) := splitZeros run groups
      groupsText front ++ "::" ++ groupsText back

/-- An address as text. -/
def text : IpAddress → String
  | v4 octets => v4Text octets
  | v6 groups => v6Text groups

/-- The text of an address with a port; groups stand between brackets then. -/
def textWithPort (address : IpAddress) (port : Nat) : String :=
  let host := match address with
    | v4 octets => v4Text octets
    | v6 groups => "[" ++ v6Text groups ++ "]"
  host ++ ":" ++ String.ofList (Number.digits port)

end IpAddress

end Gazette
