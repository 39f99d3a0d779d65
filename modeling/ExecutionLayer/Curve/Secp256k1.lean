import ExecutionLayer.Curve.Jacobian
import ExecutionLayer.Curve.Point
import ExecutionLayer.Digest.Keccak
import ExecutionLayer.Power

/-!
# Signatures on secp256k1

The curve `y² = x³ + 7` over a prime field, and the recovery of a signer's
address from a signature.
-/

set_option autoImplicit false

namespace ExecutionLayer.Secp256k1

/-- The field prime. -/
def modulus : Nat := 0xfffffffffffffffffffffffffffffffffffffffffffffffffffffffefffffc2f

/-- The number of points of the curve, a prime. -/
def order : Nat := 0xfffffffffffffffffffffffffffffffebaaedce6af48a03bbfd25e8cd0364141

instance : @NeZero Nat Zero.ofOfNat0 modulus := ⟨by decide⟩

abbrev Coordinate := Fin modulus

instance : Zero Coordinate := ⟨0⟩
instance : One Coordinate := ⟨1⟩

/-- Inverses are powers, by Fermat's little theorem; zero goes to zero. -/
instance : Inv Coordinate :=
  ⟨fun a => Fin.ofNat modulus (powerMod a.val (modulus - 2) modulus)⟩

def generator : Curve.Point Coordinate :=
  .affine
    (Fin.ofNat modulus 0x79be667ef9dcbbac55a06295ce870b07029bfcdb2dce28d959f2815b16f81798)
    (Fin.ofNat modulus 0x483ada7726a3c4655da4fbfc0e1108a8fd17b448a68554199c47d08ffb10d4b8)

/-- The greatest `s` of a signature in canonical form: half the order, rounded down. -/
def halfOrder : Nat := order / 2

/-- The point with an x coordinate and a parity of y, if the curve has one. The field
prime is 3 modulo 4, so a power gives the square root where there is one. -/
def liftX? (x : Nat) (isOdd : Bool) : Option (Curve.Point Coordinate) :=
  if x < modulus then
    let square := (x * x * x + 7) % modulus
    let root := powerMod square ((modulus + 1) / 4) modulus
    if root * root % modulus = square then
      let y := if (root % 2 = 1) = isOdd then root else (modulus - root) % modulus
      some (.affine (Fin.ofNat modulus x) (Fin.ofNat modulus y))
    else none
  else none

def addressOfKey (x y : Coordinate) : Address :=
  Hash.toAddress (keccak256 (Bytes.ofNatWidth 32 x.val ++ Bytes.ofNatWidth 32 y.val))

/-- The address whose key made the signature `(r, s)` over a digest. Bit 0 of the
recovery identifier is the parity of the nonce point's y coordinate, bit 1 tells that
its x coordinate is `r` plus the order. A high `s` counts as its negative with the
parity turned around. -/
def recoverSigner? (digest : Hash) (r s : Word) (recoveryId : Nat) : Option Address :=
  if r.toNat = 0 ∨ order ≤ r.toNat ∨ s.toNat = 0 ∨ order ≤ s.toNat ∨ 3 < recoveryId then none
  else
    let isHigh := halfOrder < s.toNat
    let s := if isHigh then order - s.toNat else s.toNat
    let isOdd := (recoveryId % 2 == 1) != isHigh
    let x := if recoveryId / 2 = 1 then r.toNat + order else r.toNat
    match liftX? x isOdd with
    | none => none
    | some noncePoint =>
        let inverse := powerMod r.toNat (order - 2) order
        let u₁ := (order - digest.toNat % order) * inverse % order
        let u₂ := s * inverse % order
        let fromDigest := (Curve.Jacobian.ofPoint generator).multiply u₁
        let fromNonce := (Curve.Jacobian.ofPoint noncePoint).multiply u₂
        match (fromDigest.add fromNonce).toPoint with
        | .infinity => none
        | .affine x y => some (addressOfKey x y)

end ExecutionLayer.Secp256k1
