import ChainSocket.Lib.CString
import Mathlib.Data.UInt

/-!
# The digest of websocket.h

`sha1mix`, `sha1` and `base64`. `unsigned` is 32 bits wide, `size_t` 64.
-/

namespace ChainSocket

open CString

/-- `r[0]` to `r[4]`, and the working variables of `sha1mix`. -/
structure Sha1State where
  a : UInt32
  b : UInt32
  c : UInt32
  d : UInt32
  e : UInt32
  deriving DecidableEq, Repr

abbrev Sha1Words := Vector UInt32 16

/-- `i & 0xf`. -/
def lowNibble (i : Nat) : Fin 16 := ⟨i % 16, Nat.mod_lt _ (by decide)⟩

def rol (x s : UInt32) : UInt32 := x <<< s ||| x >>> (32 - s)

/-- The macro `mix(f, v)` at index `i`, its `f` a function of `b`, `c` and `d`. -/
def mix (f : UInt32 → UInt32 → UInt32 → UInt32) (v : UInt32) (w : Sha1Words) (r : Sha1State)
    (i : Nat) : Sha1State :=
  ⟨f r.b r.c r.d + v + rol r.a 5 + r.e + w[lowNibble i], r.a, rol r.b 30, r.c, r.d⟩

/-- The line in front of `mix` in the loops from index 16 on. -/
def schedule (w : Sha1Words) (i : Nat) : Sha1Words :=
  w.set (lowNibble i) (rol (w[lowNibble (i + 13)] ^^^ w[lowNibble (i + 8)] ^^^
    w[lowNibble (i + 2)] ^^^ w[lowNibble i]) 1)

/-- One loop of `sha1mix` from index 16 on: `count` rounds, the first at index `start`. -/
def mixLoop (f : UInt32 → UInt32 → UInt32 → UInt32) (v : UInt32) (start count : Nat)
    (s : Sha1Words × Sha1State) : Sha1Words × Sha1State :=
  (List.range' start count).foldl (fun (w, r) i => (schedule w i, mix f v (schedule w i) r i)) s

def sha1mix (r : Sha1State) (w : Sha1Words) : Sha1State :=
  let choose := fun b c d : UInt32 => d ^^^ (b &&& (c ^^^ d))
  let parity := fun b c d : UInt32 => b ^^^ c ^^^ d
  let majority := fun b c d : UInt32 => (b &&& c) ||| (d &&& (b ||| c))
  let s := (w, (List.range 16).foldl (mix choose 0x5a827999 w) r)
  let s := mixLoop choose 0x5a827999 16 4 s
  let s := mixLoop parity 0x6ed9eba1 20 20 s
  let s := mixLoop majority 0x8f1bbcdc 40 20 s
  let s := mixLoop parity 0xca62c1d6 60 20 s
  ⟨r.a + s.2.a, r.b + s.2.b, r.c + s.2.c, r.d + s.2.d, r.e + s.2.e⟩

def sha1Init : Sha1State := ⟨0x67452301, 0xefcdab89, 0x98badcfe, 0x10325476, 0xc3d2e1f0⟩

/-- The words of the 64 bytes of `p` from `i` on. -/
def blockWords (p : List UInt8) (i : Nat) : Sha1Words :=
  let byte := fun j : Nat => (p.getD j 0).toUInt32
  Vector.ofFn fun k : Fin 16 =>
    byte (i + 4 * k + 3) ||| byte (i + 4 * k + 2) <<< 8 ||| byte (i + 4 * k + 1) <<< 16 |||
      byte (i + 4 * k) <<< 24

/-- `w[i >> 2 & 0xf] |= x << ((3 ^ (i & 3)) << 3)`. -/
def orByte (w : Sha1Words) (i : Nat) (x : UInt32) : Sha1Words :=
  w.set (lowNibble (i / 4)) (w[lowNibble (i / 4)] ||| x <<< (8 * (3 - i % 4)).toUInt32)

def sha1 (p : List UInt8) : List UInt8 :=
  let n := p.length
  let whole := n / 64
  let zero : Sha1Words := Vector.replicate 16 0
  let r := (List.range whole).foldl (fun r k => sha1mix r (blockWords p (64 * k))) sha1Init
  let w := (List.range' (64 * whole) (n % 64)).foldl
    (fun w i => orByte w i (p.getD i 0).toUInt32) zero
  let w := orByte w n 0x80
  let (r, w) := if 56 < n % 64 then (sha1mix r w, zero) else (r, w)
  let r := sha1mix r (w.set 15 (n * 8).toUInt32)
  [r.a, r.b, r.c, r.d, r.e].flatMap fun x : UInt32 =>
    [(x >>> 0x18).toUInt8, (x >>> 0x10).toUInt8, (x >>> 0x08).toUInt8, x.toUInt8]

def base64Table : List UInt8 :=
  ascii "ABCDEFGHIJKLMNOPQRSTUVWXYZabcdefghijklmnopqrstuvwxyz0123456789+/"

def base64len (n : Nat) : Nat := (n + 2) / 3 * 4

/-- The third and the fourth character of a group: `=` when `left`, a `size_t`, has wrapped. -/
def base64Char (left : UInt64) (x : UInt32) : UInt8 :=
  ((left >>> 31 &&& (61 : UInt64)) ||| (~~~(left >>> 31) &&&
    (base64Table.getD (x &&& 0x3f).toNat 0).toUInt64)).toUInt8

/-- The group of `base64` that starts at `i`. -/
def base64Group (p : List UInt8) (i : Nat) : List UInt8 :=
  let n := p.length
  let byte := fun j : Nat => if j < n then (p.getD j 0).toUInt32 else 0
  let x := byte i <<< 0x10 ||| byte (i + 1) <<< 0x08 ||| byte (i + 2)
  let left := n.toUInt64 - (i + 2).toUInt64
  [base64Table.getD (x >>> 18 &&& 0x3f).toNat 0, base64Table.getD (x >>> 12 &&& 0x3f).toNat 0,
    base64Char left (x >>> 6), base64Char (left - 1) x]

/-- What `base64` writes to its buffer of `nbuf` bytes; the length it returns is `base64len`. -/
def base64 (nbuf : Nat) (p : List UInt8) : List UInt8 :=
  if base64len p.length ≤ nbuf then
    (List.range ((p.length + 2) / 3)).flatMap fun k => base64Group p (3 * k)
  else []

-- A client key with the secret behind it, and the answer it gets.
example : base64 60 (sha1 (ascii "dGhlIHNhbXBsZSBub25jZQ==258EAFA5-E914-47DA-95CA-C5AB0DC85B11")) =
    ascii "s3pPLMBiTxaQ9kYGzzhZRbK+xOo=" := by decide +kernel

end ChainSocket
