import Mathlib

/-!
# Characters and C strings (`utils.c`, `header.c`)

A `char` is a byte. A C string whose array is only ever read up to its terminator is the list of the
bytes before the terminator; where the bytes left over behind a terminator can be read (the array
`uri`), the model keeps the whole array, and `cstr` is the string at its start. Of the comparison
functions of the C library only the test for equality is used, so the model has just that.
-/

namespace Liso

/-- A `char`. -/
abbrev Byte := UInt8

/-- The bytes of a string literal. -/
def str (s : String) : List Byte := s.toList.map fun c => c.toNat.toUInt8

/-- `'\n'`. -/
def LF : Byte := 10

/-- `'\r'`. -/
def CR : Byte := 13

/-- `':'`. -/
def COLON : Byte := 58

/-- `issp`: a space other than `'\n'`. -/
def issp (c : Byte) : Bool := c == 32 || c == 9 || c == 13 || c == 11 || c == 12

/-- `isspace` in the C locale. -/
def isspace (c : Byte) : Bool := issp c || c == LF

/-- `isdigit`. -/
def isdigit (c : Byte) : Bool := 48 ≤ c && c ≤ 57

/-- `tolower` in the C locale. -/
def tolower (c : Byte) : Byte := if 65 ≤ c && c ≤ 90 then c + 32 else c

/-- The C string at the start of an array. -/
def cstr (mem : List Byte) : List Byte := mem.takeWhile (· != 0)

/-- `!strcasecmp(a, b)`. -/
def strcaseeq (a b : List Byte) : Bool := a.map tolower == b.map tolower

/-- `!strncasecmp(a, b, n)`. -/
def strncaseeq (a b : List Byte) (n : ℕ) : Bool := strcaseeq (a.take n) (b.take n)

/-- `strncpy0(d, s, n)`: the string that `d` holds afterwards. -/
def strncpy0 (s : List Byte) (n : ℕ) : List Byte := cstr (s.take n)

/-- An array after the string `s` and its terminator are stored at `pos`. -/
def storeStr (mem : List Byte) (pos : ℕ) (s : List Byte) : List Byte :=
  mem.take pos ++ s ++ 0 :: mem.drop (pos + s.length + 1)

/-- The lowest `n` bytes of a number in two's complement, the lowest one first. -/
def toBytes : ℕ → ℤ → List Byte
  | 0, _ => []
  | n + 1, z => (z % 256).toNat.toUInt8 :: toBytes n (z / 256)

/-- The number whose bytes these are. -/
def ofBytes (bytes : List Byte) : ℤ :=
  let n : ℕ := bytes.foldr (fun b n => b.toNat + 256 * n) 0
  if 2 * n < 256 ^ bytes.length then n else (n : ℤ) - 256 ^ bytes.length

/-- `strstrip`: the string without the spaces at its two ends. -/
def strstrip (s : List Byte) : List Byte :=
  ((s.dropWhile isspace).reverse.dropWhile isspace).reverse

/-- `isnum`: digits only. The empty string passes. -/
def isnum (s : List Byte) : Bool := s.all isdigit

/-- The number that a string of decimal digits denotes. -/
def decimal (s : List Byte) : ℕ := s.foldl (fun n c => 10 * n + (c.toNat - 48)) 0

/-- `atoi` on a string of digits: `strtol` stops at `LONG_MAX`, and the conversion to `int` keeps
the low 32 bits. -/
def atoi (s : List Byte) : ℤ := ((min (decimal s) (2 ^ 63 - 1) : ℕ) : ℤ).bmod (2 ^ 32)

/-- `caseendswith(str, suffix)`. -/
def caseendswith (s suffix : List Byte) : Bool :=
  suffix.length ≤ s.length && strcaseeq (s.drop (s.length - suffix.length)) suffix

/-- `strstartswith(str, prefix)`. -/
def strstartswith (s start : List Byte) : Bool := s.take start.length == start

/-- The characters that `%zd` prints. -/
def dec (n : ℤ) : List Byte :=
  (if n < 0 then str "-" else []) ++ (Nat.toDigits 10 n.natAbs).map fun c => c.toNat.toUInt8

/-- `HDR_KEYSZ`. -/
def HDR_KEYSZ : ℕ := 512

/-- `HDR_VALSZ`. -/
def HDR_VALSZ : ℕ := 4096

/-- `hdr_t` without its link: a header's key and value. A chain of headers is a list of them,
without the empty guard. -/
structure Hdr where
  /-- `key`. -/
  key : List Byte
  /-- `val`. -/
  val : List Byte
  deriving DecidableEq

/-- `hdr_new` on two strings. -/
def hdrNew (key val : List Byte) : Hdr := ⟨strncpy0 key HDR_KEYSZ, strncpy0 val HDR_VALSZ⟩

/-- `hdr_insert`: right behind the guard. -/
def hdrInsert (hdrs : List Hdr) (hdr : Hdr) : List Hdr := hdr :: hdrs

example : strstrip (str "\t\rabc\n") = str "abc" := by decide +kernel

example : isnum [] = true ∧ isnum (str "92x") = false := by decide +kernel

end Liso
