import Mathlib.Data.BitVec

/-!
Addresses as the standard library reads them, and the subnets they share. A
reader takes what it recognises off the front of the text and hands back the
rest; an address is what uses up the whole of it.
-/
namespace Metralectl
namespace Net

inductive IpAddr where
  | v4 (bits : BitVec 32)
  | v6 (bits : BitVec 128)
deriving DecidableEq

def digitOf (radix : Nat) (c : Char) : Option Nat :=
  let n :=
    if c.isDigit then some (c.toNat - '0'.toNat)
    else if 'a' ≤ c ∧ c ≤ 'f' then some (c.toNat - 'a'.toNat + 10)
    else if 'A' ≤ c ∧ c ≤ 'F' then some (c.toNat - 'A'.toNat + 10)
    else none
  n.filter (· < radix)

/-- A number below `bound`, of as many digits as there are. -/
def readNumber (radix : Nat) (maxDigits : Option Nat) (zeroPrefix : Bool) (bound : Nat)
    (cs : List Char) : Option (Nat × List Char) :=
  let digits := cs.takeWhile (fun c => (digitOf radix c).isSome)
  let value := (digits.filterMap (digitOf radix)).foldl (fun n d => n * radix + d) 0
  if digits.isEmpty || maxDigits.any (· < digits.length) then none
  else if !zeroPrefix && digits.head? = some '0' && 1 < digits.length then none
  else if value < bound then some (value, cs.drop digits.length)
  else none

def readGiven (expected : Char) : List Char → Option (List Char)
  | c :: cs => if c = expected then some cs else none
  | [] => none

/-- Every part but the first stands behind a separator. -/
def readSeparator {T : Type} (sep : Char) (index : Nat)
    (read : List Char → Option (T × List Char)) (cs : List Char) : Option (T × List Char) :=
  if index = 0 then read cs else (readGiven sep cs).bind read

/-- Octal is disallowed in a dotted address. -/
def readOctets : Nat → List Char → Option (List Nat × List Char)
  | 0, cs => some ([], cs)
  | n + 1, cs => do
      let (octet, cs) ← readSeparator '.' (3 - n) (readNumber 10 (some 3) false 256) cs
      let (octets, cs) ← readOctets n cs
      some (octet :: octets, cs)

def ofParts (width : Nat) (parts : List Nat) : Nat := parts.foldl (fun n p => n * 2 ^ width + p) 0

def readIpv4 (cs : List Char) : Option (BitVec 32 × List Char) :=
  (readOctets 4 cs).map fun (octets, cs) => (BitVec.ofNat 32 (ofParts 8 octets), cs)

/-- Up to `left` more groups of an address of which `index` are read, and whether
they end in an embedded dotted address, which takes the room of two. -/
def readGroups : Nat → Nat → List Char → List Nat × Bool × List Char
  | 0, _, cs => ([], false, cs)
  | left + 1, index, cs =>
      match if 0 < left then readSeparator ':' index readIpv4 cs else none with
      | some (dotted, cs) => ([dotted.toNat / 2 ^ 16, dotted.toNat % 2 ^ 16], true, cs)
      | none =>
          match readSeparator ':' index (readNumber 16 (some 4) true (2 ^ 16)) cs with
          | some (group, cs) =>
              let (groups, embedded, cs) := readGroups left (index + 1) cs
              (group :: groups, embedded, cs)
          | none => ([], false, cs)

/-- Eight groups, or fewer around one `::`, which stands for at least one. -/
def readIpv6 (cs : List Char) : Option (BitVec 128 × List Char) :=
  let (front, embedded, cs) := readGroups 8 0 cs
  if front.length = 8 then some (BitVec.ofNat 128 (ofParts 16 front), cs)
  else if embedded then none
  else do
    let cs ← readGiven ':' cs
    let cs ← readGiven ':' cs
    let (back, _, cs) := readGroups (8 - (front.length + 1)) 0 cs
    let zeros := List.replicate (8 - front.length - back.length) 0
    some (BitVec.ofNat 128 (ofParts 16 (front ++ zeros ++ back)), cs)

def readIp (cs : List Char) : Option (IpAddr × List Char) :=
  match readIpv4 cs with
  | some (bits, cs) => some (.v4 bits, cs)
  | none => (readIpv6 cs).map fun (bits, cs) => (.v6 bits, cs)

def readPort (cs : List Char) : Option (Nat × List Char) :=
  (readGiven ':' cs).bind (readNumber 10 none true (2 ^ 16))

/-- An address and a port; a colon-separated address stands in brackets, with its
scope. -/
def readSocket (cs : List Char) : Option ((IpAddr × Nat) × List Char) :=
  let dotted := do
    let (bits, cs) ← readIpv4 cs
    let (port, cs) ← readPort cs
    some ((IpAddr.v4 bits, port), cs)
  let bracketed := do
    let cs ← readGiven '[' cs
    let (bits, cs) ← readIpv6 cs
    let scope := (readGiven '%' cs).bind (readNumber 10 none true (2 ^ 32))
    let cs ← readGiven ']' ((scope.map (·.2)).getD cs)
    let (port, cs) ← readPort cs
    some ((IpAddr.v6 bits, port), cs)
  dotted <|> bracketed

/-- What a reader makes of a whole text. -/
def parseWith {T : Type} (read : List Char → Option (T × List Char)) (s : String) : Option T :=
  match read s.toList with
  | some (v, []) => some v
  | _ => none

def parseIpv4 (s : String) : Option (BitVec 32) := parseWith readIpv4 s

def parseIp (s : String) : Option IpAddr := parseWith readIp s

def parseSocket (s : String) : Option (IpAddr × Nat) := parseWith readSocket s

/-- Whether two addresses share a network of the given prefix length. Nothing is
local under a prefix of zero. -/
def sameNetwork (a b : BitVec 32) (prefixLen : Nat) : Bool :=
  if prefixLen = 0 ∨ 32 < prefixLen then false
  else
    let mask := BitVec.allOnes 32 <<< (32 - prefixLen)
    a &&& mask == b &&& mask

def sharesNetwork (host : String) (prefixLen : Nat) (other : String) : Bool :=
  match parseIpv4 host, parseIpv4 other with
  | some h, some o => sameNetwork h o prefixLen
  | _, _ => false

example : parseIp "10.010.10.9" = none := by decide
example : parseIp "::ffff:10.0.0.1" = some (.v6 0xFFFF0A000001) := by decide
example : parseSocket "[::1]:7443" = some (.v6 1, 7443) := by decide
example : sharesNetwork "10.10.10.13" 30 "10.10.10.10" = false := by decide

end Net
end Metralectl
