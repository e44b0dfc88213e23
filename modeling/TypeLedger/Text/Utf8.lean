import TypeLedger.Text.Basic

/-! Strict UTF-8. A lead byte fixes how many continuation bytes follow it and which range the first
of them lies in, so that each scalar value has one encoding and no surrogate half has any. -/
namespace TypeLedger.Utf8

inductive Reason
  | invalidStart
  | invalidContinuation
  | unexpectedEnd
  deriving DecidableEq, Repr

def Reason.message : Reason → Text
  | invalidStart => "invalid start byte"
  | invalidContinuation => "invalid continuation byte"
  | unexpectedEnd => "unexpected end of data"

/-- Why bytes are not UTF-8, and the offset of the sequence at fault. -/
structure Fault where
  reason : Reason
  offset : Nat
  deriving DecidableEq, Repr

/-- What has to follow inside a sequence: `missing + 1` continuation bytes, the next of them between
`lower` and `upper`, after bytes that make up `bits`. -/
structure Pending where
  start : Nat
  missing : Nat
  lower : Nat
  upper : Nat
  bits : Nat
  deriving Repr

/-- What a lead byte at `start` asks for. -/
def Pending.ofLead? (start lead : Nat) : Option Pending :=
  if 0xC2 ≤ lead ∧ lead < 0xE0 then some ⟨start, 0, 0x80, 0xBF, lead - 0xC0⟩
  else if lead = 0xE0 then some ⟨start, 1, 0xA0, 0xBF, 0⟩
  else if lead = 0xED then some ⟨start, 1, 0x80, 0x9F, 0xD⟩
  else if 0xE0 < lead ∧ lead < 0xF0 then some ⟨start, 1, 0x80, 0xBF, lead - 0xE0⟩
  else if lead = 0xF0 then some ⟨start, 2, 0x90, 0xBF, 0⟩
  else if lead = 0xF4 then some ⟨start, 2, 0x80, 0x8F, 4⟩
  else if 0xF0 < lead ∧ lead < 0xF4 then some ⟨start, 2, 0x80, 0xBF, lead - 0xF0⟩
  else none

/-- Decodes the bytes from `offset` on, inside a sequence if one is pending. -/
def decodeFrom (offset : Nat) : Option Pending → List UInt8 → Except Fault Text
  | none, [] => .ok []
  | some p, [] => .error ⟨.unexpectedEnd, p.start⟩
  | none, byte :: rest =>
    if byte.toNat < 0x80 then
      (.scalar (Char.ofNat byte.toNat) :: ·) <$> decodeFrom (offset + 1) none rest
    else match Pending.ofLead? offset byte.toNat with
      | none => .error ⟨.invalidStart, offset⟩
      | some p => decodeFrom (offset + 1) (some p) rest
  | some p, byte :: rest =>
    if p.lower ≤ byte.toNat ∧ byte.toNat ≤ p.upper then
      let bits := 64 * p.bits + (byte.toNat - 0x80)
      match p.missing with
      | 0 => (.scalar (Char.ofNat bits) :: ·) <$> decodeFrom (offset + 1) none rest
      | missing + 1 => decodeFrom (offset + 1) (some ⟨p.start, missing, 0x80, 0xBF, bits⟩) rest
    else .error ⟨.invalidContinuation, p.start⟩

def decode (bytes : List UInt8) : Except Fault Text := decodeFrom 0 none bytes

/-- The bytes of a code point. A surrogate half gets the three bytes of its number, which `decode`
refuses. -/
def encodeOne (c : CodePoint) : List UInt8 :=
  let n := c.toNat
  if n < 0x80 then [UInt8.ofNat n]
  else if n < 0x800 then [UInt8.ofNat (0xC0 + n / 64), UInt8.ofNat (0x80 + n % 64)]
  else if n < 0x10000 then
    [UInt8.ofNat (0xE0 + n / 4096), UInt8.ofNat (0x80 + n / 64 % 64), UInt8.ofNat (0x80 + n % 64)]
  else
    [UInt8.ofNat (0xF0 + n / 262144), UInt8.ofNat (0x80 + n / 4096 % 64),
      UInt8.ofNat (0x80 + n / 64 % 64), UInt8.ofNat (0x80 + n % 64)]

def encode (t : Text) : List UInt8 := t.flatMap encodeOne

end TypeLedger.Utf8
