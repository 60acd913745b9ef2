import Mathlib.Data.List.Infix
import Mathlib.Data.UInt

/-!
# Socket addresses and their text form

The parser is the standard library's: an IPv4 address with its port, or an IPv6
address in brackets, with an optional scope, and its port. Nothing may be left over.
-/

namespace EveNet

inductive SocketAddr where
  | v4 (a b c d : UInt8) (port : UInt16)
  | v6 (segments : List UInt16) (scope : UInt32) (port : UInt16)
  deriving DecidableEq

/-- The dotted form of an IPv4 address. -/
def dottedQuad (a b c d : UInt8) : String :=
  toString a ++ "." ++ toString b ++ "." ++ toString c ++ "." ++ toString d

namespace SocketAddr

section Parsing

def digitValue (radix : ℕ) (c : Char) : Option ℕ :=
  let n := c.toNat
  let v := if c.isDigit then n - 48 else if c.isLower then n - 87 else if c.isUpper then n - 55
    else radix
  if v < radix then some v else none

/-- A number no greater than `bound`, written with all the digits that follow. -/
def readNumber (radix : ℕ) (maxDigits : Option ℕ) (allowZeroPrefix : Bool) (bound : ℕ)
    (cs : List Char) : Option (ℕ × List Char) :=
  let digits := cs.takeWhile (fun c => (digitValue radix c).isSome)
  let value := digits.foldl (fun n c => radix * n + (digitValue radix c).getD 0) 0
  if digits = [] ∨ maxDigits.any (fun m => m < digits.length) ∨
      (allowZeroPrefix = false ∧ digits.head? = some '0' ∧ 1 < digits.length) ∨ bound < value
  then none
  else some (value, cs.drop digits.length)

def readGivenChar (c : Char) : List Char → Option (List Char)
  | [] => none
  | d :: cs => if d = c then some cs else none

def readIpv4 (cs : List Char) : Option ((ℕ × ℕ × ℕ × ℕ) × List Char) := do
  let (a, cs) ← readNumber 10 (some 3) false 255 cs
  let (b, cs) ← readNumber 10 (some 3) false 255 (← readGivenChar '.' cs)
  let (c, cs) ← readNumber 10 (some 3) false 255 (← readGivenChar '.' cs)
  let (d, cs) ← readNumber 10 (some 3) false 255 (← readGivenChar '.' cs)
  some ((a, b, c, d), cs)

/-- Up to `slots` groups of an IPv6 address, the last two possibly as an IPv4 address,
which the flag reports. Every group but the first follows a colon. -/
def readGroups : (slots : ℕ) → (first : Bool) → List Char → List ℕ × Bool × List Char
  | 0, _, cs => ([], false, cs)
  | slots + 1, first, cs =>
    let sep := if first then some cs else readGivenChar ':' cs
    match if 0 < slots then sep.bind readIpv4 else none with
    | some ((a, b, c, d), rest) => ([256 * a + b, 256 * c + d], true, rest)
    | none =>
      match sep.bind (readNumber 16 (some 4) true 65535) with
      | some (g, rest) =>
        let (gs, embedded, rest) := readGroups slots false rest
        (g :: gs, embedded, rest)
      | none => ([], false, cs)

def readIpv6 (cs : List Char) : Option (List ℕ × List Char) :=
  let (head, headV4, rest) := readGroups 8 true cs
  if head.length = 8 then some (head, rest)
  else if headV4 then none
  else do
    let rest ← readGivenChar ':' (← readGivenChar ':' rest)
    let (tail, _, rest) := readGroups (8 - (head.length + 1)) true rest
    some (head ++ List.replicate (8 - head.length - tail.length) 0 ++ tail, rest)

def readPort (cs : List Char) : Option (UInt16 × List Char) := do
  let (port, cs) ← readNumber 10 none true 65535 (← readGivenChar ':' cs)
  some (UInt16.ofNat port, cs)

def readV4 (cs : List Char) : Option (SocketAddr × List Char) := do
  let ((a, b, c, d), cs) ← readIpv4 cs
  let (port, cs) ← readPort cs
  some (.v4 (UInt8.ofNat a) (UInt8.ofNat b) (UInt8.ofNat c) (UInt8.ofNat d) port, cs)

def readScopeId (cs : List Char) : Option (ℕ × List Char) := do
  readNumber 10 none true (2 ^ 32 - 1) (← readGivenChar '%' cs)

def readV6 (cs : List Char) : Option (SocketAddr × List Char) := do
  let (segments, cs) ← readIpv6 (← readGivenChar '[' cs)
  let (scope, cs) := (readScopeId cs).getD (0, cs)
  let (port, cs) ← readPort (← readGivenChar ']' cs)
  some (.v6 (segments.map UInt16.ofNat) (UInt32.ofNat scope) port, cs)

end Parsing

def parse (text : String) : Option SocketAddr :=
  match (readV4 text.toList).or (readV6 text.toList) with
  | some (addr, []) => some addr
  | _ => none

example : parse "127.0.0.1:5533" = some (.v4 127 0 0 1 5533) := by decide

section Display

def hexText (n : ℕ) : String := String.ofList (Nat.toDigits 16 n)

/-- Start and length of the first of the longest runs of zero segments. -/
def longestZeros : List UInt16 → (index : ℕ) → (run best : ℕ × ℕ) → ℕ × ℕ
  | [], _, _, best => best
  | seg :: segs, index, run, best =>
    if seg = 0 then
      let run := if run.2 = 0 then (index, 1) else (run.1, run.2 + 1)
      longestZeros segs (index + 1) run (if best.2 < run.2 then run else best)
    else longestZeros segs (index + 1) (0, 0) best

def joinSegments (segs : List UInt16) : String :=
  ":".intercalate (segs.map (fun seg => hexText seg.toNat))

def ipv6Text (segs : List UInt16) : String :=
  if segs.take 6 = [0, 0, 0, 0, 0, 0xffff] then
    match segs.drop 6 with
    | [hi, lo] => "::ffff:" ++ dottedQuad (hi >>> 8).toUInt8 hi.toUInt8 (lo >>> 8).toUInt8 lo.toUInt8
    | _ => joinSegments segs
  else
    let zeros := longestZeros segs 0 (0, 0) (0, 0)
    if 1 < zeros.2 then
      joinSegments (segs.take zeros.1) ++ "::" ++ joinSegments (segs.drop (zeros.1 + zeros.2))
    else joinSegments segs

def display : SocketAddr → String
  | .v4 a b c d port => dottedQuad a b c d ++ ":" ++ toString port
  | .v6 segs scope port =>
    let zone := if scope = 0 then "" else "%" ++ toString scope
    "[" ++ ipv6Text segs ++ zone ++ "]:" ++ toString port

end Display

end SocketAddr

end EveNet
