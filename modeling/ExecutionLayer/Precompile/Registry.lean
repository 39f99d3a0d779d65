import ExecutionLayer.Precompile.Bn254
import ExecutionLayer.Precompile.Digests
import ExecutionLayer.Precompile.ModExp

/-!
# The addresses of native contracts

Nine contracts at the addresses one to nine, the same under every milestone.
-/

set_option autoImplicit false

namespace ExecutionLayer.Precompile

def at? (address : Address) : Option Precompile :=
  match address.toNat with
  | 1 => some ecrecover
  | 2 => some sha256
  | 3 => some ripemd160
  | 4 => some identity
  | 5 => some ModExp.run
  | 6 => some Bn254.add
  | 7 => some Bn254.multiply
  | 8 => some Bn254.pairing
  | 9 => some blake2f
  | _ => none

def addresses : List Address := [1, 2, 3, 4, 5, 6, 7, 8, 9]

end ExecutionLayer.Precompile
