import CosaiMcp.Py.Json
import Mathlib.Tactic.Common

/-!
# IP addresses and networks

Addresses of both versions with their texts (`ipAddress`), and networks, whose addresses have no
host bits. An address is in a network of its own version only: it is so exactly if it lies in a
range of numbers (`Network.contains_iff`).
-/

namespace Py

inductive IpAddress where
  | v4 (ip : BitVec 32)
  | v6 (ip : BitVec 128) (scopeId : Option Str)
deriving DecidableEq

/-! ## Networks -/

/-- The first `n` of `w` bits. -/
def netmask (w n : Nat) : BitVec w := BitVec.allOnes w <<< (w - n)

structure Network (w : Nat) where
  address : BitVec w
  prefixLen : Nat
  no_host_bits : address &&& netmask w prefixLen = address

namespace Network

variable {w : Nat}

def contains (n : Network w) (ip : BitVec w) : Bool := ip &&& netmask w n.prefixLen = n.address

/-- How many addresses the network has. -/
def size (n : Network w) : Nat := 2 ^ (w - n.prefixLen)

theorem and_netmask (ip : BitVec w) (n : Nat) :
    ip &&& netmask w n = (ip >>> (w - n)) <<< (w - n) := by
  ext i hi
  simp only [netmask, BitVec.getElem_and, BitVec.getElem_shiftLeft, BitVec.getElem_allOnes]
  by_cases hlow : i < w - n
  · simp [hlow]
  · have hback : w - n + (i - (w - n)) = i := by omega
    simp [hlow, hback, BitVec.getLsbD_eq_getElem hi]

theorem toNat_and_netmask (ip : BitVec w) (n : Nat) :
    (ip &&& netmask w n).toNat = ip.toNat / 2 ^ (w - n) * 2 ^ (w - n) := by
  have hlt : ip.toNat / 2 ^ (w - n) * 2 ^ (w - n) < 2 ^ w :=
    Nat.lt_of_le_of_lt (Nat.div_mul_le_self _ _) ip.isLt
  rw [and_netmask, BitVec.toNat_shiftLeft, BitVec.toNat_ushiftRight, Nat.shiftRight_eq_div_pow,
    Nat.shiftLeft_eq, Nat.mod_eq_of_lt hlt]

/-- An address is in a network exactly if it is one of the `size` addresses from its first on. -/
theorem contains_iff (n : Network w) (ip : BitVec w) :
    n.contains ip = true ↔
      n.address.toNat ≤ ip.toNat ∧ ip.toNat < n.address.toNat + n.size := by
  have hfirst : n.address.toNat / n.size * n.size = n.address.toNat := by
    rw [size, ← toNat_and_netmask, n.no_host_bits]
  have hcontains : n.contains ip = true ↔ ip.toNat / n.size * n.size = n.address.toNat := by
    rw [contains, decide_eq_true_eq, ← BitVec.toNat_inj, toNat_and_netmask, size]
  have hpos : 0 < n.size := Nat.two_pow_pos _
  rw [hcontains]
  constructor
  · intro h
    rw [← h]
    exact ⟨Nat.div_mul_le_self _ _, Nat.lt_div_mul_add hpos⟩
  · rintro ⟨hle, hlt⟩
    have hdiv : ip.toNat / n.size = n.address.toNat / n.size := by
      refine Nat.div_eq_of_lt_le ?_ ?_
      · rw [hfirst]
        exact hle
      · rw [Nat.succ_mul, hfirst]
        exact hlt
    rw [hdiv, hfirst]

end Network

/-! ## Texts of addresses -/

/-- A part of an IPv4 address: at most three digits, no leading zero, at most 255. -/
def parseOctet (s : Str) : Option Nat :=
  if s = [] ∨ !s.all isDigit ∨ s.length > 3 ∨ (s.length > 1 ∧ s.head? = some 48) ∨ natOf s > 255
  then none
  else some (natOf s)

def parseIPv4 (s : Str) : Option (BitVec 32) :=
  match s.splitOn 46 with
  | [a, b, c, d] => do
    let a ← parseOctet a
    let b ← parseOctet b
    let c ← parseOctet c
    let d ← parseOctet d
    return BitVec.ofNat 32 (((a * 256 + b) * 256 + c) * 256 + d)
  | _ => none

/-- A group of an IPv6 address: at most four hexadecimal digits. -/
def parseHextet (s : Str) : Option Nat :=
  if s = [] ∨ s.length > 4 then none
  else s.foldlM (fun n c => (hexValue? c).map (16 * n + ·)) 0

/-- The groups as numbers, with those of an IPv4 address at the end. -/
def hextetsOf (parts : List Str) : Option (List Nat) := parts.mapM parseHextet

/-- The text of `n` in base 16. -/
def hexText (n : Nat) : Str := (Nat.toDigits 16 n).map CodePoint.ofChar

/-- The parts between colons, an IPv4 address at the end replaced by two groups. -/
def ipv6Parts (s : Str) : Option (List Str) :=
  let parts := s.splitOn 58
  match parts.getLast? with
  | none => none
  | some last =>
    if parts.length < 3 then none
    else if 46 ∈ last then
      (parseIPv4 last).map fun ip =>
        parts.dropLast ++ [hexText (ip.toNat / 0x10000), hexText (ip.toNat % 0x10000)]
    else some parts

/-- The places, apart from the first and the last, of the parts that are empty. -/
def innerEmpty (parts : List Str) : List Nat :=
  (List.range parts.length).filter fun i =>
    decide (0 < i ∧ i + 1 < parts.length) && (parts.getD i []).isEmpty

/-- The groups before and after `::`, and how many it stands for. -/
def ipv6Split (parts : List Str) : Option (List Str × Nat × List Str) :=
  match innerEmpty parts with
  | [] =>
    if parts.length = 8 ∧ parts.head? ≠ some [] ∧ parts.getLast? ≠ some [] then some (parts, 0, [])
    else none
  | [skip] =>
    let hi := parts.take skip
    let lo := parts.drop (skip + 1)
    -- an empty part at either end is allowed next to `::` only
    let hi := if hi = [[]] then [] else hi
    let lo := if lo = [[]] then [] else lo
    if hi.head? = some [] ∨ lo.getLast? = some [] ∨ hi.length + lo.length ≥ 8 then none
    else some (hi, 8 - (hi.length + lo.length), lo)
  | _ => none

def parseIPv6Number (s : Str) : Option (BitVec 128) := do
  let parts ← ipv6Parts s
  if parts.length > 9 then none
  else
    let (hi, skipped, lo) ← ipv6Split parts
    let hi ← hextetsOf hi
    let lo ← hextetsOf lo
    return BitVec.ofNat 128
      ((hi ++ List.replicate skipped 0 ++ lo).foldl (fun n h => n * 0x10000 + h) 0)

/-- An IPv6 address, with what follows a percent sign as its scope. -/
def parseIPv6 (s : Str) : Option IpAddress :=
  match s.splitOn 37 with
  | [number] => (parseIPv6Number number).map (.v6 · none)
  | [number, scopeId] =>
    if scopeId = [] then none else (parseIPv6Number number).map (.v6 · (some scopeId))
  | _ => none

/-- `ipaddress.ip_address(s)`, `none` where it raises a `ValueError`. -/
def ipAddress (s : Str) : Option IpAddress :=
  if 47 ∈ s then none
  else match parseIPv4 s with
    | some ip => some (.v4 ip)
    | none => parseIPv6 s

example : ipAddress (lit "::ffff:10.0.0.1") = some (.v6 0xffff0a000001 none) := by decide

example : ipAddress (lit "fe80::1%eth0") =
    some (.v6 0xfe800000000000000000000000000001 (some (lit "eth0"))) := by
  decide

end Py
