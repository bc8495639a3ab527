namespace Lox.Utf8

inductive Fault where
  /-- The bytes end within the sequence that starts at `index`. -/
  | incomplete (index : Nat)
  /-- So many bytes from `index` on belong to no character. -/
  | invalid (index length : Nat)
deriving DecidableEq

def Fault.message : Fault → String
  | .incomplete index => "incomplete utf-8 byte sequence from index " ++ toString index
  | .invalid index length =>
    "invalid utf-8 sequence of " ++ toString length ++ " bytes from index " ++ toString index

/-- A sequence that has begun: where, how many bytes it has and lacks, between which bounds the next
one has to be, and the bits so far. -/
structure Pending where
  index : Nat
  length : Nat
  missing : Nat
  low : Nat
  high : Nat
  bits : Nat

/-- What a first byte of several promises: how many more, the bounds of the second, and its bits.
The bounds exclude overlong forms, surrogates, and what lies beyond the last code point. -/
def lead? (b : Nat) : Option (Nat × Nat × Nat × Nat) :=
  if 0xC2 ≤ b ∧ b ≤ 0xDF then some (1, 0x80, 0xBF, b - 0xC0)
  else if b = 0xE0 then some (2, 0xA0, 0xBF, 0)
  else if b = 0xED then some (2, 0x80, 0x9F, 0xD)
  else if 0xE1 ≤ b ∧ b ≤ 0xEF then some (2, 0x80, 0xBF, b - 0xE0)
  else if b = 0xF0 then some (3, 0x90, 0xBF, 0)
  else if b = 0xF4 then some (3, 0x80, 0x8F, 4)
  else if 0xF1 ≤ b ∧ b ≤ 0xF3 then some (3, 0x80, 0xBF, b - 0xF0)
  else none

/-- Decodes from byte `i` on, behind the characters of `done`, of which the last comes first. -/
def decodeFrom (i : Nat) (done : List Char) : Option Pending → List UInt8 → Except Fault (List Char)
  | none, [] => .ok done.reverse
  | some p, [] => .error (.incomplete p.index)
  | none, b :: bs =>
    if b.toNat < 0x80 then
      decodeFrom (i + 1) (Char.ofNat b.toNat :: done) none bs
    else
      match lead? b.toNat with
      | some (missing, low, high, bits) =>
        decodeFrom (i + 1) done (some ⟨i, 1, missing, low, high, bits⟩) bs
      | none => .error (.invalid i 1)
  | some p, b :: bs =>
    if p.low ≤ b.toNat ∧ b.toNat ≤ p.high then
      let bits := 64 * p.bits + (b.toNat - 0x80)
      if p.missing = 1 then
        decodeFrom (i + 1) (Char.ofNat bits :: done) none bs
      else
        decodeFrom (i + 1) done (some ⟨p.index, p.length + 1, p.missing - 1, 0x80, 0xBF, bits⟩) bs
    else
      .error (.invalid p.index p.length)

def decode (bytes : List UInt8) : Except Fault String :=
  (decodeFrom 0 [] none bytes).map String.ofList

end Lox.Utf8
