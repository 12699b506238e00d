import AmiNetXDuo.Basic
import AmiNetXDuo.Lib.DigitLoop
import Mathlib.Data.Nat.Bitwise

/-!
# Addresses as text

The configuration reads dotted quads, the short dotted forms of a network number, and IPv6 addresses
with their prefix lengths and zones. The parsers run one loop over digits and differ in what a digit
is, in the test made before a digit is taken, and in how it is taken. The arithmetic of `ULONG` and
`UWORD` is a parameter of every parser.

A string is the list of its bytes; it ends with the list or at a zero byte.

## Main definitions

* `Width` : the arithmetic of the C types.
* `amiConfigParseIp`, `amiCfgParseNetNumber` : the dotted quads of the configuration.
* `groupLoop`, `amiCfgParseIp6Inner`, `amiConfigParseIp6Zone` : the IPv6 addresses.
-/

namespace AmiNetXDuo.Config

/-! ### Numbers and strings -/

/-- What storing a number in a `ULONG` or a `UWORD` makes of it. -/
structure Width where
  ulong : ℕ → ℕ
  uword : ℕ → ℕ

/-- The C types. -/
def Width.machine : Width := ⟨(· % 2 ^ 32), (· % 2 ^ 16)⟩

def dot : UInt8 := '.'.toUInt8

def isBlank (c : UInt8) : Bool := c == ' '.toUInt8 || c == '\t'.toUInt8

/-- `while (*s == ' ' || *s == '\t') s++`. -/
def skipBlanks (s : List UInt8) : List UInt8 := s.dropWhile isBlank

/-- `*s == '\0'`. -/
def atEnd : List UInt8 → Bool
  | [] => true
  | c :: _ => c == 0

/-! ### The dotted quads of the configuration -/

/-- `*s >= '0' && *s <= '9'`, with the digit. -/
def decimalDigit (c : UInt8) : Option ℕ :=
  if '0'.toUInt8 ≤ c ∧ c ≤ '9'.toUInt8 then some (c - '0'.toUInt8).toNat else none

/-- A decimal loop that looks at the value before it takes a digit. -/
def decimalBelow (w : Width) (limit : ℕ) : DigitLoop where
  digit := decimalDigit
  admits value _ d := decide (value ≤ (limit - d) / 10)
  next value d := w.ulong (value * 10 + d)

/-- Up to `room` numbers, each followed by a dot and another one or by something else. -/
def dottedParts (part : List UInt8 → Option (ℕ × List UInt8)) :
    ℕ → List UInt8 → Option (List ℕ × List UInt8)
  -- A part with no room left is refused, whatever it is.
  | 0, _ => none
  | room + 1, s =>
    match part s with
    | none => none
    | some (value, []) => some ([value], [])
    | some (value, c :: rest) =>
      if c = dot then (dottedParts part room rest).map fun r ↦ (value :: r.1, r.2)
      else some ([value], c :: rest)

/-- One part of `split_dotted`. -/
def splitPart (w : Width) (s : List UInt8) : Option (ℕ × List UInt8) :=
  match (decimalBelow w 255).run 0 0 s with
  | none => none
  | some (value, digits, rest) => if digits = 0 then none else some (value, rest)

/-- `split_dotted`. -/
def splitDotted (w : Width) (s : List UInt8) : Option (List ℕ) :=
  let s := skipBlanks s
  if atEnd s then none
  else match dottedParts (splitPart w) 4 s with
    | none => none
    | some (parts, rest) => if atEnd (skipBlanks rest) then some parts else none

/-- `ami_config_parse_ip`. -/
def amiConfigParseIp (w : Width) (text : List UInt8) : Option ℕ :=
  match splitDotted w text with
  | some [a, b, c, d] =>
    some (w.ulong (a <<< 24) ||| w.ulong (b <<< 16) ||| w.ulong (c <<< 8) ||| d)
  | _ => none

/-- `ami_cfg_parse_net_number`. -/
def amiCfgParseNetNumber (w : Width) (s : List UInt8) : Option ℕ :=
  (splitDotted w s).map fun parts ↦ parts.foldl (fun value p ↦ w.ulong (value <<< 8) ||| p) 0

/-! ### IPv6 addresses -/

def colon : UInt8 := ':'.toUInt8

/-- The bytes that end an address: `'\0'`, `'/'`, `'%'`, a blank. -/
def isStop (c : UInt8) : Bool := c == 0 || c == '/'.toUInt8 || c == '%'.toUInt8 || isBlank c

/-- The string is at a byte that ends an address. -/
def stops : List UInt8 → Bool
  | [] => true
  | c :: _ => isStop c

/-- `ip6_hex_digit`. -/
def ip6HexDigit (c : UInt8) : Option ℕ :=
  if '0'.toUInt8 ≤ c ∧ c ≤ '9'.toUInt8 then some (c - '0'.toUInt8).toNat
  else if 'a'.toUInt8 ≤ c ∧ c ≤ 'f'.toUInt8 then some ((c - 'a'.toUInt8).toNat + 10)
  else if 'A'.toUInt8 ≤ c ∧ c ≤ 'F'.toUInt8 then some ((c - 'A'.toUInt8).toNat + 10)
  else none

/-- The digit loop of a group. -/
def ip6Group (w : Width) : DigitLoop where
  digit := ip6HexDigit
  admits _ digits _ := decide (digits < 4)
  next value d := w.ulong (value <<< 4) ||| d

/-- The look ahead for a dot before the next colon. -/
def dotAhead : List UInt8 → Bool
  | [] => false
  | c :: s => if c = dot then true else if c = colon ∨ isStop c then false else dotAhead s

/-- The text copied to `quad[16]`. -/
def quadText (s : List UInt8) : Option (List UInt8) :=
  let quad := s.takeWhile fun c ↦ !isStop c
  if quad.length ≤ 15 then some quad else none

/-- What the loop over the groups leaves: the groups in the order read, how many stood before the
`::`, and the rest of the string. -/
structure Groups where
  groups : List ℕ
  gap : Option ℕ
  rest : List UInt8
deriving DecidableEq

/-- The loop over the groups; `room` is what is left of the eight. -/
def groupLoop (w : Width) : ℕ → List ℕ → Option ℕ → List UInt8 → Option Groups
  -- Every way through the body of the loop refuses when there is no room.
  | 0, groups, gap, s => if stops s then some ⟨groups, gap, s⟩ else none
  | room + 1, groups, gap, s =>
    if stops s then some ⟨groups, gap, s⟩
    else if dotAhead s then
      match quadText s with
      | none => none
      | some quad =>
        match amiConfigParseIp w quad with
        | none => none
        | some v4 =>
          if room = 0 then none
          else some ⟨groups ++ [w.uword (v4 >>> 16), v4 &&& 0xFFFF], gap, s.drop quad.length⟩
    else
      match (ip6Group w).run 0 0 s with
      | none => none
      | some (value, digits, rest) =>
        if digits = 0 then none
        else match rest with
          | [] => some ⟨groups ++ [w.uword value], gap, []⟩
          | c :: rest =>
            if c ≠ colon then some ⟨groups ++ [w.uword value], gap, c :: rest⟩
            else if rest.head? = some colon then
              if gap.isSome then none
              else if stops rest.tail then
                some ⟨groups ++ [w.uword value], some (groups.length + 1), rest.tail⟩
              else groupLoop w room (groups ++ [w.uword value]) (some (groups.length + 1)) rest.tail
            else if stops rest then none
            else groupLoop w room (groups ++ [w.uword value]) gap rest

/-- The loop behind a leading `::`, which is the only leading colon allowed. -/
def readGroups (w : Width) (s : List UInt8) : Option Groups :=
  if s.head? = some colon then
    if s.tail.head? = some colon then groupLoop w 8 [] (some 0) s.tail.tail else none
  else groupLoop w 8 [] none s

/-- The zone behind a `%`; `zoneLen` is the size of the caller's buffer, if there is one. -/
def readZone (zoneLen : Option ℕ) (s : List UInt8) : Option (Option (List UInt8) × List UInt8) :=
  if s.head? = some '%'.toUInt8 then
    let zone := s.tail.takeWhile fun c ↦ !(c == 0 || c == '/'.toUInt8 || isBlank c)
    if zone.length = 0 ∨ zoneLen.getD 0 ≤ zone.length then none
    else some (some zone, s.tail.drop zone.length)
  else some (none, s)

/-- The prefix length behind a `/`, for a caller that takes one. -/
def readPrefixLength (w : Width) (wanted : Bool) (s : List UInt8) :
    Option (Option ℕ × List UInt8) :=
  if s.head? = some '/'.toUInt8 then
    if wanted = false then none
    else match (decimalBelow w 128).run 0 0 s.tail with
      | none => none
      | some (value, digits, rest) => if digits = 0 then none else some (some value, rest)
  else some (none, s)

/-- The groups with the zeros the `::` stands for. -/
def expandGap (groups : List ℕ) : Option ℕ → Option (List ℕ)
  | none => if groups.length = 8 then some groups else none
  | some gap =>
    if 8 ≤ groups.length then none
    else some (groups.take gap ++ List.replicate (8 - groups.length) 0 ++ groups.drop gap)

/-- `out[]` from the eight groups. -/
def groupWords (w : Width) (group : List ℕ) : List ℕ :=
  (List.range 4).map fun i ↦ w.ulong (group.getD (i * 2) 0 <<< 16) ||| group.getD (i * 2 + 1) 0

/-- What the parser hands back. -/
structure Ip6Text where
  words : List ℕ
  prefixLength : Option ℕ
  zone : Option (List UInt8)
deriving DecidableEq

/-- `ami_cfg_parse_ip6_inner`. -/
def amiCfgParseIp6Inner (w : Width) (prefixWanted : Bool) (zoneLen : Option ℕ)
    (text : List UInt8) : Option Ip6Text := do
  let read ← readGroups w (skipBlanks text)
  let (zone, s) ← readZone zoneLen read.rest
  let (prefixLength, s) ← readPrefixLength w prefixWanted s
  if atEnd (skipBlanks s) then
    let group ← expandGap read.groups read.gap
    return ⟨groupWords w group, prefixLength, zone⟩
  else none

/-- `ami_config_parse_ip6_zone`. -/
def amiConfigParseIp6Zone (w : Width) (prefixWanted : Bool) (zoneLen : ℕ) (text : List UInt8) :
    Option Ip6Text :=
  amiCfgParseIp6Inner w prefixWanted (some zoneLen) text

end AmiNetXDuo.Config
